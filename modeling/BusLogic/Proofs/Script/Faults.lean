import BusLogic.Proofs.Expression.Stacks
import BusLogic.Proofs.Netlist.Refusals
import BusLogic.Proofs.Script.Combinational
import BusLogic.Proofs.Script.Soundness
import BusLogic.Proofs.Script.Steps

/-! What a script can be refused for.

Carried out in a sound session, a line fails for something that it says: it names what
is not there, asks for more than there is room, joins what does not fit. The checks that
guard the inside of the circuit pass (`Arises`): pins are gates that are there, operators
find their operands, a selection is left with one branch. The only opcode that can be
wrong is `NOT` before a list, and the only expressions without a meaning are empty ones
and values without bits. Every failure is placed on the line that explains it
(`Accounted`). -/
namespace BusLogic.Script
open Attempt Run

/-! ### Errors and what explains them -/

/-- The bus that is assigned to. -/
def Statement.target? : Statement → Option String
  | .assign target _ => some target.name
  | _ => none

/-- The errors that may come of these terms, and of giving their value to `target?`. -/
def Arises (terms : List Term) (target? : Option String) : Error → Prop
  | .invalidPin _ _ => False
  | .invalidArity op expected got =>
    op = .not ∧ expected = 1 ∧ got = 2 ∧ ∃ l, .operand (.reduction .not l) ∈ terms
  | .malformed reason => reason = .empty ∨ ∃ name ∈ target?, reason = .zeroWidth name
  | _ => True

/-- The error may come of what the line says. -/
def Line.Explains (line : Line) (e : Error) : Prop := Arises line.terms (statement line.text).target? e

/-- A failure on a line that explains it, or not on a line yet, and then `E` holds of the
error. -/
def Accounted (lines : Array Line) (E : Error → Prop) (f : Failure) : Prop :=
  match f.line with
  | some n => ∃ line ∈ lines, line.number = n ∧ line.Explains f.cause
  | none => E f.cause

theorem Arises.of_ordinary {terms : List Term} {target? : Option String} {e : Error} (h : e.Ordinary) :
    Arises terms target? e := by
  cases e <;> trivial

theorem Arises.mono {terms terms' : List Term} {target? target?' : Option String} {e : Error}
    (ht : ∀ t ∈ terms, t ∈ terms') (htarget : ∀ name ∈ target?, name ∈ target?')
    (h : Arises terms target? e) : Arises terms' target?' e := by
  cases e with
  | invalidPin pin next => exact h
  | invalidArity op expected got =>
    obtain ⟨hop, he, hg, l, hl⟩ := h
    exact ⟨hop, he, hg, l, ht _ hl⟩
  | malformed reason => exact h.imp_right fun ⟨name, hname, hr⟩ => ⟨name, htarget name hname, hr⟩
  | _ => trivial

section Accounted
variable {lines : Array Line} {E E' : Error → Prop}

theorem Accounted.mono {f : Failure} (h : Accounted lines E f) (hE : ∀ e, E e → E' e) : Accounted lines E' f := by
  unfold Accounted at h ⊢
  split at h
  · exact h
  · exact hE _ h

/-- On its line, a failure that the line explains is accounted for. -/
theorem Accounted.atLine {f : Failure} {line : Line} (hl : line ∈ lines)
    (h : Accounted lines line.Explains f) : Accounted lines E (f.atLine line.number) := by
  obtain ⟨cause, number⟩ := f
  cases number with
  | some n => exact h
  | none => exact ⟨line, hl, rfl, h⟩

end Accounted

/-! ### Steps -/

section Steps
variable {lines : Array Line} {E : Error → Prop} {α β : Type} {s : Session}

theorem fails_raise {e : Error} (h : E e) : (raise e : Run α).FailsOnly (Accounted lines E) s := .throw h

theorem fails_ask {f : Session → Except Error α} (h : ∀ e, f s = .error e → E e) :
    (ask f).FailsOnly (Accounted lines E) s := by
  intro _ _ ho
  obtain ⟨e, he, rfl⟩ := except_mapError_error (congrArg Prod.fst ho)
  exact h e he

theorem fails_wire {x : Attempt Error Netlist α} (h : x.FailsOnly E s.netlist) :
    (wire x).FailsOnly (Accounted lines E) s := by
  intro _ _ ho
  obtain ⟨e, he, rfl⟩ := except_mapError_error (congrArg Prod.fst ho)
  exact h e _ (outcome_of_result he)

theorem fails_compile {x : Expression.Step Signal Netlist α} {e : Expression Signal}
    (h : x.FailsOnly E (e, s.netlist)) : (compile e x).FailsOnly (Accounted lines E) s := by
  intro _ _ ho
  obtain ⟨err, herr, rfl⟩ := except_mapError_error (congrArg Prod.fst ho)
  have hx := h.map (·, (outcome x (e, s.netlist)).2.1)
  exact hx err _ (by rw [outcome_map]; exact Prod.ext herr rfl)

/-- Whatever fails on a line is placed there. -/
theorem fails_on {line : Line} {x : Run α} (hl : line ∈ lines)
    (h : x.FailsOnly (Accounted lines line.Explains) s) : (on line x).FailsOnly (Accounted lines E) s := by
  intro _ _ ho
  obtain ⟨f, hf, rfl⟩ := except_mapError_error (congrArg Prod.fst ho)
  exact (h f _ (outcome_of_result hf)).atLine hl

theorem fails_nextLine (h : s.lines.size ≤ s.cursor → E .unexpectedEnd) :
    nextLine.FailsOnly (Accounted lines E) s := by
  refine .bind .get fun s₁ _ hget => ?_
  obtain ⟨rfl, rfl⟩ := outcome_get_ok hget
  split
  · rename_i hnone
    exact fails_raise (h (Array.getElem?_eq_none_iff.mp hnone))
  · exact .bind (.modify _) fun _ _ _ => .pure _

/-- What comes next starts from a sound session with the same lines. -/
theorem Safe.fails {x : Run α} {f : α → Run β} {Q : α → Session → Prop} {E : Failure → Prop} (hsafe : Safe x s Q)
    (hx : x.FailsOnly E s) (hf : ∀ a s', s'.Sound → s'.lines = s.lines → Q a s' → (f a).FailsOnly E s') :
    (x >>= f).FailsOnly E s := by
  refine .bind hx fun a s' ho => ?_
  have hsound := hsafe.sound
  have hadv := hsafe.advances
  rw [ho] at hsound hadv
  exact hf a s' hsound hadv.lines (hsafe.ok a s' ho)

end Steps

/-! ### What a session is asked -/

section Answers
variable {s : Session} {e : Error}

theorem ordinary_lookup {name : String} (h : s.lookup name = .error e) : e.Ordinary := by
  rw [Session.lookup] at h
  split at h
  · cases h
  · cases h
    trivial

theorem ordinary_index {i : Index} (h : s.index i = .error e) : e.Ordinary := by
  rw [Session.index.eq_def] at h
  split at h
  · cases h
  · split at h
    · cases h
    · cases h
      trivial
  · cases h
    trivial

theorem ordinary_checkText {fault : Option Mismatch} (h : Session.checkText fault = .error e) : e.Ordinary := by
  cases fault with
  | none => cases h
  | some m =>
    cases h
    trivial

theorem ordinary_checkWidth {width : Nat} (h : s.checkWidth width = .error e) : e.Ordinary := by
  rw [Session.checkWidth] at h
  split at h
  · cases h
    trivial
  · cases h

theorem ordinary_mismatch {α : Type} {r : Except Mismatch α} (h : r.mapError .mismatch = .error e) : e.Ordinary := by
  cases r with
  | ok a => cases h
  | error m =>
    cases h
    trivial

theorem ordinary_ref {r : Ref} (h : s.ref r = .error e) : e.Ordinary := by
  rcases except_bind_error h with hlookup | ⟨b, _, h₁⟩
  · exact ordinary_lookup hlookup
  · split at h₁
    · cases h₁
    · rcases except_bind_error h₁ with hfirst | ⟨first, _, h₂⟩
      · exact ordinary_index hfirst
      · dsimp only at h₂
        split at h₂
        · exact Bus.ordinary_slice h₂
        · rcases except_bind_error h₂ with hlast | ⟨last, _, h₃⟩
          · exact ordinary_index hlast
          · exact Bus.ordinary_slice h₃

theorem ordinary_parts {b : Bus} {refs : List Ref} (h : s.parts b refs = .error e) : e.Ordinary := by
  induction refs generalizing b with
  | nil => cases h
  | cons r rest ih =>
    rcases except_bind_error h with href | ⟨part, _, h₁⟩
    · exact ordinary_ref href
    · rcases except_bind_error h₁ with hwidth | ⟨_, _, h₂⟩
      · exact ordinary_checkWidth hwidth
      · exact ih h₂

theorem ordinary_listing {l : Listing} (h : s.listing l = .error e) : e.Ordinary := by
  rcases except_bind_error h with hparts | ⟨b, _, h₁⟩
  · exact ordinary_parts hparts
  · rcases except_bind_error h₁ with htext | ⟨_, _, h₂⟩
    · exact ordinary_checkText htext
    · cases h₂

theorem ordinary_extent {extent : Option Extent} (h : s.extent extent = .error e) : e.Ordinary := by
  cases extent with
  | none => cases h
  | some extent =>
    rcases except_bind_error h with hindex | ⟨width, _, h₁⟩
    · exact ordinary_index hindex
    · rcases except_bind_error h₁ with htext | ⟨_, _, h₂⟩
      · exact ordinary_checkText htext
      · rcases except_bind_error h₂ with hwidth | ⟨_, _, h₃⟩
        · exact ordinary_checkWidth hwidth
        · cases h₃

theorem ordinary_check {target : Target} (h : target.check s = .error e) : e.Ordinary := by
  cases target with
  | bus name => cases h
  | port name => cases h
  | slot name i =>
    rcases except_bind_error h with hlookup | ⟨b, _, h₁⟩
    · exact ordinary_lookup hlookup
    · rcases except_bind_error h₁ with hindex | ⟨k, _, h₂⟩
      · exact ordinary_index hindex
      · split at h₂
        · cases h₂
        · cases h₂
          trivial

end Answers

/-! ### Terms that are read -/

/-- What a term must be to have a meaning at all: operators take one operand or two,
constant signals none, and a list is reduced with two or with `NOT`. -/
def Term.Proper : Term → Prop
  | .operator op => op.arity = 1 ∨ op.arity = 2
  | .operand (.source op _) => op.arity = 0
  | .operand (.reduction op _) => op.arity = 2 ∨ op = .not
  | .operand (.ref _) | .operand (.list _) => True

theorem arity_ofKeyword? {word : String} {op : Opcode} (h : Opcode.ofKeyword? word = some op) :
    op.arity = 2 ∨ op = .not := by
  unfold Opcode.ofKeyword? at h
  repeat' split at h
  all_goals cases h
  all_goals first | exact .inl rfl | exact .inr rfl

theorem arity_ofSourceWord? {word : String} {op : Opcode} (h : Opcode.ofSourceWord? word = some op) :
    op.arity = 0 := by
  unfold Opcode.ofSourceWord? at h
  repeat' split at h
  all_goals cases h
  all_goals rfl

theorem proper_named (name : String) (s : List Char) : (named name s).1.Proper := by
  unfold named
  split
  · rename_i op hop
    exact arity_ofSourceWord? hop
  · split
    · rename_i op hop
      split
      · exact arity_ofKeyword? hop
      · rcases arity_ofKeyword? hop with h | rfl
        · exact .inr h
        · exact .inl rfl
    · trivial

theorem proper_terms {s : List Char} {t : Term} (h : t ∈ (terms s).1) : t.Proper := by
  fun_induction terms s with
  | case1 => cases h
  | case2 s t' r hterm ts rest hts ih =>
    rcases List.mem_cons.mp h with rfl | hmem
    · unfold term? at hterm
      split at hterm
      · cases hterm
        trivial
      · split at hterm
        · cases hterm
        · rename_i name r' _
          have hnamed := proper_named name r'
          rwa [Option.some.inj hterm] at hnamed
    · rw [hts] at ih
      exact ih hmem

theorem proper_line {line : Line} {t : Term} (h : t ∈ line.terms) : t.Proper := by
  rcases List.mem_append.mp h with hst | hval
  · obtain ⟨r, hr⟩ := statement_terms hst
    exact proper_terms hr
  · exact proper_terms (value_terms hval)

/-! ### Formulas -/

end BusLogic.Script

namespace BusLogic.Signal
open Attempt

/-- The node is a bus within the netlist. -/
def IsWired (net : Netlist) : Signal → Prop
  | .operator _ => False
  | .bus b => b.Within net

theorem resolve_isWired (node : Signal) (children : List Signal) (net : Netlist) (r : Signal) (net' : Netlist)
    (hi : net.Intact) (h : outcome (Node.resolve node children) net = (.ok r, net')) :
    net'.Intact ∧ r.IsWired net' ∧ ∀ other : Signal, other.IsWired net → other.IsWired net' := by
  obtain ⟨hi', hr, hmono⟩ := resolve_within node children net r net' hi h
  obtain ⟨_, c, _, rfl, _⟩ := resolve_ok h
  refine ⟨hi', hr, fun other ho => ?_⟩
  cases other with
  | operator op => exact ho
  | bus b => exact hmono (.bus b) ho

theorem eq_bus_of_isWired {net : Netlist} {node : Signal} (h : node.IsWired net) :
    ∃ b, node = .bus b ∧ b.Within net := by
  cases node with
  | operator op => exact h.elim
  | bus b => exact ⟨b, rfl, h⟩

/-- An operator over as many buses as it takes is wired, or refused for what the buses
and the room do not allow. -/
theorem ordinary_resolveFails {err : Error}
    (h : Expression.ResolveFails Netlist.Intact (fun node net => IsWired net node) err) : err.Ordinary := by
  obtain ⟨node, children, net, net', hi, hwired, harity, hlen, ho⟩ := h
  cases node with
  | bus b => rcases harity with h | h <;> cases h
  | operator op =>
    match children, hlen with
    | [], hlen => rcases harity with h | h <;> rw [h] at hlen <;> cases hlen
    | [child], hop =>
      obtain ⟨a, rfl, ha⟩ := eq_bus_of_isWired (hwired child List.mem_cons_self)
      exact (Netlist.fails_applyUnary hop.symm ha).map Signal.bus err net' ho
    | [left, right], hop =>
      obtain ⟨a, rfl, ha⟩ := eq_bus_of_isWired (hwired left List.mem_cons_self)
      obtain ⟨b, rfl, hb⟩ := eq_bus_of_isWired (hwired right (List.mem_cons_of_mem _ List.mem_cons_self))
      exact (Netlist.fails_applyBinary hop.symm ha hb).map Signal.bus err net' ho
    | _ :: _ :: _ :: _, hlen => rcases harity with h | h <;> rw [h] at hlen <;> cases hlen

end BusLogic.Signal

namespace BusLogic.Script
open Attempt Run

/-- An expression part way through: its operands are buses, and its stacks do not run
out. -/
structure Ready (e : Expression Signal) (s : Session) : Prop where
  operands : e.Operands Netlist.Intact (fun node net => Signal.IsWired net node) s.netlist
  balanced : e.Balanced

section Formulas
variable {lines : Array Line} {terms : List Term} {target? : Option String} {s s' : Session}

theorem ready_feed {e e' : Expression Signal} {t : Term} (hs : s.Sound) (he : Ready e s)
    (h : outcome (t.feed e) s = (.ok e', s')) : Ready e' s' := by
  cases t with
  | operand o =>
    obtain ⟨b, hb, ha, rfl⟩ := feed_operand_ok h
    have hsafe := safe_evaluate hs o
    have hadv := hsafe.advances
    have hsound := hsafe.sound
    rw [hb] at hadv hsound
    refine ⟨⟨hsound.intact, List.forall_mem_cons.mpr ⟨hsafe.ok b s' hb, fun node hn => ?_⟩⟩,
      he.balanced.push ha _⟩
    obtain ⟨c, rfl, hc⟩ := Signal.eq_bus_of_isWired (he.operands.2 node hn)
    exact hc.retains hadv.grows.retains
  | operator op =>
    obtain ⟨net, hadd, rfl⟩ := feed_operator_ok h
    exact ⟨Expression.operands_addOperator Signal.resolve_isWired he.operands hadd,
      Expression.balanced_addOperator he.balanced hadd⟩

theorem safe_ready {e : Expression Signal} (hs : s.Sound) (he : Ready e s) (t : Term) :
    Safe (t.feed e) s Ready := by
  have hyields : yieldsExpression e s := by
    refine ⟨hs.intact, fun node hn => ?_⟩
    obtain ⟨b, rfl, hb⟩ := Signal.eq_bus_of_isWired (he.operands.2 node hn)
    exact hb
  have hsafe := safe_feed hs hyields t
  exact ⟨hsafe.advances, hsafe.sound, fun _ _ h => ready_feed hs he h⟩

theorem fails_evaluate (hs : s.Sound) {o : Operand} (hmem : .operand o ∈ terms)
    (hproper : (Term.operand o).Proper) : o.evaluate.FailsOnly (Accounted lines (Arises terms target?)) s := by
  cases o with
  | ref r => exact fails_ask fun _ h => .of_ordinary (ordinary_ref h)
  | list l => exact fails_ask fun _ h => .of_ordinary (ordinary_listing h)
  | source op extent =>
    refine .bind (fails_ask fun _ h => .of_ordinary (ordinary_extent h)) fun _ s₁ _ => ?_
    refine .bind (fails_wire ?_) fun _ _ _ => .pure _
    exact (Netlist.fails_allocate (.none hproper)).mono fun _ => .of_ordinary
  | reduction op l =>
    have hlist : Safe (ask (·.listing l)) s yieldsBus := .ask hs fun _ => hs.listing
    refine hlist.fails (fails_ask fun _ h => .of_ordinary (ordinary_listing h)) fun b s₁ _ _ hb => ?_
    refine .bind (fails_wire ((Netlist.fails_reduce hb).mono fun e he => ?_)) fun _ _ _ => .pure _
    rcases he with hord | ⟨hop, rfl⟩
    · exact .of_ordinary hord
    · rcases hproper with htwo | rfl
      · exact absurd htwo hop
      · exact ⟨rfl, rfl, rfl, l, hmem⟩

theorem fails_feed (hs : s.Sound) {e : Expression Signal} (he : Ready e s) {t : Term} (hmem : t ∈ terms)
    (hproper : t.Proper) : (t.feed e).FailsOnly (Accounted lines (Arises terms target?)) s := by
  cases t with
  | operand o =>
    refine .bind (fails_evaluate hs hmem hproper) fun b s₁ _ => .bind (fails_compile ?_) fun _ _ _ => .pure _
    intro err t' h
    rw [Expression.addOperand_fails h]
    trivial
  | operator op =>
    refine .bind (fails_compile ?_) fun _ _ _ => .pure _
    intro err t' h
    have harity : Node.arity (Signal.operator op) = 1 ∨ Node.arity (Signal.operator op) = 2 := hproper
    rcases Expression.addOperator_fails Signal.resolve_isWired harity he.operands he.balanced h with
      ⟨next, rfl⟩ | hres
    · trivial
    · exact .of_ordinary (Signal.ordinary_resolveFails hres)

theorem fails_terms {rest : List Term} (hs : s.Sound) {e : Expression Signal} (he : Ready e s)
    (hmem : ∀ t ∈ rest, t ∈ terms) (hproper : ∀ t ∈ terms, t.Proper) :
    (rest.foldlM Term.feed e).FailsOnly (Accounted lines (Arises terms target?)) s := by
  induction rest generalizing s e with
  | nil => exact .pure e
  | cons t rest ih =>
    rw [List.foldlM_cons]
    have ht := hmem t List.mem_cons_self
    refine (safe_ready hs he t).fails (fails_feed hs he ht (hproper t ht)) fun e' s' hs' _ he' => ?_
    exact ih hs' he' fun u hu => hmem u (List.mem_cons_of_mem t hu)

theorem ready_terms {rest : List Term} (hs : s.Sound) {e e' : Expression Signal} (he : Ready e s)
    (h : outcome (rest.foldlM Term.feed e) s = (.ok e', s')) : Ready e' s' := by
  induction rest generalizing s e with
  | nil =>
    cases h
    exact he
  | cons t rest ih =>
    rw [List.foldlM_cons] at h
    obtain ⟨e₁, s₁, ht, h₁⟩ := outcome_bind_ok h
    have hsound := (safe_ready hs he t).sound
    rw [ht] at hsound
    exact ih hsound (ready_feed hs he ht) h₁

theorem ready_empty (hs : s.Sound) : Ready .empty s := ⟨⟨hs.intact, nofun⟩, Expression.balanced_empty⟩

theorem fails_formula (hs : s.Sound) (hproper : ∀ t ∈ terms, t.Proper) (fault : Option Mismatch) :
    (formula terms fault).FailsOnly (Accounted lines (Arises terms target?)) s := by
  refine .bind (fails_terms hs (ready_empty hs) (fun _ ht => ht) hproper) fun e s₁ hterms => ?_
  have he := ready_terms hs (ready_empty hs) hterms
  refine .bind (fails_compile fun err t h => ?_) fun p s₂ hp => ?_
  · rcases Expression.compile_fails Signal.resolve_isWired he.operands he.balanced h with
      rfl | ⟨next, rfl⟩ | hres
    · exact .inl rfl
    · trivial
    · exact .of_ordinary (Signal.ordinary_resolveFails hres)
  · obtain ⟨net, hcompile, rfl⟩ := compile_ok hp
    have hwired := Expression.operands_compile Signal.resolve_isWired he.operands hcompile
    obtain ⟨b, hb, _⟩ := Signal.eq_bus_of_isWired hwired
    refine .bind (fails_ask fun e h => ?_) fun _ _ _ => ?_
    · rw [hb] at h
      cases h
    · exact .bind (fails_ask fun _ h => .of_ordinary (ordinary_checkText h)) fun _ _ _ => .pure _

end Formulas

/-! ### Statements -/

section Lines
variable {lines : Array Line} {s : Session}

/-- However a line fails, it is accounted for. -/
def Accounts {α : Type} (lines : Array Line) (E : Error → Prop) (each : Line → Run α) : Prop :=
  ∀ line ∈ lines, ∀ s : Session, s.Sound → s.lines = lines → (each line).FailsOnly (Accounted lines E) s

theorem safe_nextLine (hs : s.Sound) : Safe nextLine s fun line s' => line ∈ s'.lines := by
  have hsafe := Safe.nextLine hs
  refine ⟨hsafe.advances, hsafe.sound, fun line s' h => ?_⟩
  obtain ⟨hline, rfl⟩ := nextLine_eq_ok.mp h
  exact Array.mem_of_getElem? hline

theorem fails_body {α : Type} {each : Line → Run α}
    (hsafe : ∀ line (s : Session), s.Sound → Safe (each line) s anything) (he : Accounts lines Error.Ordinary each)
    (hs : s.Sound) (hl : s.lines = lines) (budget : Nat) :
    (body each budget).FailsOnly (Accounted lines Error.Ordinary) s := by
  induction budget generalizing s with
  | zero => exact fails_raise trivial
  | succ budget ih =>
    refine (safe_nextLine hs).fails (fails_nextLine fun _ => trivial) fun line s₁ hs₁ hl₁ hline => ?_
    have hl₁ := hl₁.trans hl
    split
    · exact .pure []
    · refine (hsafe line s₁ hs₁).fails (he line (hl₁ ▸ hline) s₁ hs₁ hl₁) fun first s₂ hs₂ hl₂ _ => ?_
      exact .bind (ih hs₂ (hl₂.trans hl₁)) fun _ _ _ => .pure _

/-- The lines run out only where more of them are asked for than there are. -/
theorem fails_upTo {E : Error → Prop} {each : Line → Run Unit} {stop : Nat}
    (hsafe : ∀ line (s : Session), s.Sound → Safe (each line) s anything) (he : Accounts lines E each)
    (hstop : lines.size < stop → E .unexpectedEnd) (hs : s.Sound) (hl : s.lines = lines) (budget : Nat) :
    (upTo each stop budget).FailsOnly (Accounted lines E) s := by
  induction budget generalizing s with
  | zero => exact .pure ()
  | succ budget ih =>
    refine .bind .get fun _ s₁ hget => ?_
    obtain ⟨rfl, rfl⟩ := outcome_get_ok hget
    split
    · rename_i hlt
      have hend : s.lines.size ≤ s.cursor → E .unexpectedEnd := fun hle => hstop (by rw [← hl]; omega)
      refine (safe_nextLine hs).fails (fails_nextLine hend) fun line s₁ hs₁ hl₁ hline => ?_
      have hl₁ := hl₁.trans hl
      refine (hsafe line s₁ hs₁).fails (he line (hl₁ ▸ hline) s₁ hs₁ hl₁) fun _ s₂ hs₂ hl₂ _ => ?_
      exact ih hs₂ (hl₂.trans hl₁)
    · exact .pure ()

end Lines

theorem fails_bindSlot {lines : Array Line} {s : Session} (name : String) (i : Nat) (value : Bus) :
    (bindSlot name i value).FailsOnly (Accounted lines Error.Ordinary) s := by
  unfold bindSlot
  refine .check (fun _ => trivial) fun _ => .bind (fails_ask fun e h => ?_) fun _ _ _ => .modify _
  rcases except_bind_error h with hgate | ⟨gate, _, h₁⟩
  · exact Bus.ordinary_gate hgate
  · rcases except_bind_error h₁ with hlookup | ⟨b, _, h₂⟩
    · exact ordinary_lookup hlookup
    · exact Bus.ordinary_bind h₂

theorem fails_receive {lines : Array Line} {s : Session} {terms : List Term} (target : Target)
    (slot : Option Nat) (bus : Bus) :
    (target.receive slot bus).FailsOnly (Accounted lines (Arises terms (some target.name))) s := by
  unfold Target.receive
  refine .check (fun _ => .inr ⟨target.name, rfl, rfl⟩) fun _ => ?_
  cases slot with
  | some i => exact (fails_bindSlot target.name i bus).mono fun _ hf => hf.mono fun _ => .of_ordinary
  | none =>
    dsimp only
    split
    · exact .bind (.modify _) fun _ _ _ => .modify _
    · exact .modify _

/-- The lines inside a construct are accounted for. -/
structure Nested.Accounts (lines : Array Line) (n : Nested) : Prop where
  safe : n.Safe
  statement : Script.Accounts lines Error.Ordinary n.statement
  branch : Script.Accounts lines Error.Ordinary n.branch

namespace Nested.Accounts

variable {lines : Array Line} {n : Nested} (h : n.Accounts lines) {s : Session} (hs : s.Sound) (hl : s.lines = lines)
include h hs hl

theorem pass (target source : String) {width : Nat} (hw : width ≤ s.netlist.capacity) (start stop k : Nat) :
    (n.pass target source width start stop k).FailsOnly (Accounted lines Error.Ordinary) s := by
  refine (Script.Safe.setBus hs target (.unbound hw)).fails (.modify _) fun _ s₁ hs₁ hl₁ _ => ?_
  refine (Script.Safe.setCounter hs₁ _).fails (.modify _) fun _ s₂ hs₂ hl₂ _ => ?_
  refine .bind (.bind .get fun _ _ hget => ?_) fun _ _ _ =>
    .bind (fails_ask fun _ => ordinary_lookup) fun _ _ _ => .modify _
  obtain ⟨rfl, rfl⟩ := outcome_get_ok hget
  refine (Script.Safe.setCursor hs₂ start).fails (.modify _) fun _ s₃ hs₃ hl₃ _ => ?_
  have hl₃ := hl₃.trans (hl₂.trans (hl₁.trans hl))
  exact .bind (fails_upTo h.safe.statement h.statement (fun _ => trivial) hs₃ hl₃ _) fun _ _ _ => .modify _

theorem passes {initial : Bus} (hi : initial.Within s.netlist) (target source : String) (start stop m k : Nat) :
    (Run.passes (n.pass target source initial.width start stop) m k).FailsOnly
      (Accounted lines Error.Ordinary) s := by
  induction m generalizing s k with
  | zero => exact .pure ()
  | succ m ih =>
    have hsafe := (h.safe.pass hs target source hi.narrow start stop k).advancing
      fun _ s' hadv _ => hi.retains hadv.grows.retains
    refine hsafe.fails (h.pass hs hl target source hi.narrow start stop k) fun _ s₁ hs₁ hl₁ hi₁ => ?_
    exact ih hs₁ (hl₁.trans hl) hi₁ (k + 1)

theorem loop (target : String) (count : Index) (source : Except Mismatch String) :
    (n.loop target count source).FailsOnly (Accounted lines Error.Ordinary) s := by
  refine (Script.Safe.ask (Q := anything) hs fun _ _ => trivial).fails (fails_ask fun _ => ordinary_index)
    fun count s₁ hs₁ hl₁ _ => ?_
  refine (Script.Safe.ask (Q := anything) hs₁ fun _ _ => trivial).fails (fails_ask fun _ => ordinary_mismatch)
    fun source s₂ hs₂ hl₂ _ => .check (fun _ => trivial) fun _ => ?_
  refine (Script.Safe.get hs₂).fails .get fun _ s₃ hs₃ hl₃ _ => ?_
  refine (Script.Safe.ask (Q := anything) hs₃ fun _ _ => trivial).fails (fails_ask fun e he => ?_)
    fun length s₄ hs₄ hl₄ _ => ?_
  · split at he
    · cases he
    · cases he
      trivial
  · refine (Script.Safe.setCursor hs₄ _).fails (.modify _) fun _ s₅ hs₅ hl₅ _ => ?_
    refine (safe_lookup hs₅ source).fails (fails_ask fun _ => ordinary_lookup) fun initial s₆ hs₆ hl₆ hinitial => ?_
    refine .bind .get fun outer s₇ hget => ?_
    obtain ⟨rfl, rfl⟩ := outcome_get_ok hget
    have hl₆ := hl₆.trans (hl₅.trans (hl₄.trans (hl₃.trans (hl₂.trans (hl₁.trans hl)))))
    refine .bind (h.passes hs₆ hl₆ hinitial _ _ _ _ _ _) fun _ _ _ => ?_
    exact .bind (fails_ask fun _ => ordinary_lookup) fun _ _ _ => .bind (.modify _) fun _ _ _ =>
      .bind (.modify _) fun _ _ _ => .pure _

theorem select (selector : Ref) (fault : Option Mismatch) :
    (n.select selector fault).FailsOnly (Accounted lines Error.Ordinary) s := by
  have href : Script.Safe (ask (·.ref selector)) s yieldsBus := .ask hs fun _ => hs.ref
  refine href.fails (fails_ask fun _ => ordinary_ref) fun sel s₁ hs₁ hl₁ hsel => ?_
  refine .bind (fails_ask fun _ => ordinary_checkText) fun _ s₂ htext => ?_
  obtain ⟨_, rfl⟩ := ask_ok htext
  refine .bind .get fun _ s₂ hget => ?_
  obtain ⟨rfl, rfl⟩ := outcome_get_ok hget
  have hany : ∀ line (s : Session), s.Sound → Script.Safe (n.branch line) s anything :=
    fun line s hs => (h.safe.branch line s hs).advancing fun _ _ _ _ => trivial
  have hbody := Script.Safe.body (P := fun (b : Bus) net => b.Within net) (fun _ _ _ hb hr => hb.retains hr)
    h.safe.branch hs₁ (s₁.lines.size - s₁.cursor)
  have hboth : Script.Safe (body n.branch (s₁.lines.size - s₁.cursor)) s₁
      fun row s' => sel.Within s'.netlist ∧ ∀ b ∈ row, b.Within s'.netlist :=
    hbody.advancing fun row s' hadv hrow => ⟨hsel.retains hadv.grows.retains, hrow⟩
  refine hboth.fails (fails_body hany h.branch hs₁ (hl₁.trans hl) _) fun row s₂ hs₂ _ hrow => ?_
  exact fails_wire (Netlist.fails_multiplex hs₂.intact hrow.1 hrow.2)

theorem evaluate (target : String) {v : Value} (hproper : ∀ t ∈ v.terms, t.Proper) (target? : Option String) :
    (n.evaluate target v).FailsOnly (Accounted lines (Arises v.terms target?)) s := by
  have hord {x : Run Bus} (hx : x.FailsOnly (Accounted lines Error.Ordinary) s) :
      x.FailsOnly (Accounted lines (Arises v.terms target?)) s :=
    hx.mono fun _ hf => hf.mono fun _ => .of_ordinary
  cases v with
  | fault m => exact fails_raise trivial
  | loop count source => exact hord (h.loop hs hl target count source)
  | select selector fault => exact hord (h.select hs hl selector fault)
  | formula terms fault => exact fails_formula hs hproper fault

theorem assign (target : Target) {value : Except Mismatch Value}
    (hproper : ∀ t ∈ (Statement.assign target value).terms, t.Proper) :
    (n.assign target value).FailsOnly
      (Accounted lines (Arises (Statement.assign target value).terms (some target.name))) s := by
  refine .bind (fails_ask fun _ he => .of_ordinary (ordinary_check he)) fun slot s₁ hslot => ?_
  obtain ⟨_, rfl⟩ := ask_ok hslot
  refine .bind (fails_ask fun _ he => .of_ordinary (ordinary_mismatch he)) fun v s₁ hv => ?_
  obtain ⟨hv, rfl⟩ := ask_ok hv
  cases value with
  | error m => cases hv
  | ok v' =>
    cases hv
    exact .bind (h.evaluate hs hl target.name hproper _) fun b s₁ _ => fails_receive target slot b

theorem execute {st : Statement} (hproper : ∀ t ∈ st.terms, t.Proper) :
    (n.execute st).FailsOnly (Accounted lines (Arises st.terms st.target?)) s := by
  cases st with
  | fault m => exact fails_raise trivial
  | block =>
    refine .bind .get fun _ s₁ hget => ?_
    obtain ⟨rfl, rfl⟩ := outcome_get_ok hget
    refine .bind ((fails_body h.safe.statement h.statement hs hl _).mono fun _ hf => hf.mono fun _ => .of_ordinary)
      fun _ _ _ => .pure _
  | declare name width =>
    exact .bind (fails_ask fun _ he => .of_ordinary (ordinary_checkWidth he)) fun _ _ _ => .modify _
  | input name width =>
    refine .bind (fails_wire ?_) fun _ _ _ => .modify _
    exact (Netlist.fails_addInput name width).mono fun _ => .of_ordinary
  | assign target value => exact h.assign hs hl target hproper

end Nested.Accounts

section Nested
variable {lines : Array Line} {n : Nested} {line : Line} {s : Session} {E : Error → Prop}

/-- A line whose inner lines are accounted for is so itself. -/
theorem fails_statement (h : n.Accounts lines) (hline : line ∈ lines) (hs : s.Sound) (hl : s.lines = lines) :
    (on line (n.execute (statement line.text))).FailsOnly (Accounted lines E) s := by
  have hproper : ∀ t ∈ (statement line.text).terms, t.Proper := fun t ht => proper_line (List.mem_append_left _ ht)
  refine fails_on hline ((h.execute hs hl hproper).mono fun f hf => hf.mono fun e he => ?_)
  exact he.mono (fun t ht => List.mem_append_left _ ht) fun _ hname => hname

theorem fails_branch (h : n.Accounts lines) (hline : line ∈ lines) (hs : s.Sound) (hl : s.lines = lines) :
    (on line (n.evaluate "" (value line.text))).FailsOnly (Accounted lines E) s := by
  have hproper : ∀ t ∈ (value line.text).terms, t.Proper := fun t ht => proper_line (List.mem_append_right _ ht)
  refine fails_on hline ((h.evaluate hs hl "" hproper none).mono fun f hf => hf.mono fun e he => ?_)
  exact he.mono (fun t ht => List.mem_append_right _ ht) fun _ hname => by cases hname

end Nested

theorem accounts_nested (lines : Array Line) (depth : Nat) : (nested depth).Accounts lines := by
  induction depth with
  | zero => exact ⟨safe_nested 0, fun _ _ _ _ _ => fails_raise trivial, fun _ _ _ _ _ => fails_raise trivial⟩
  | succ depth ih =>
    exact ⟨safe_nested (depth + 1), fun _ hline _ hs hl => fails_statement ih hline hs hl,
      fun _ hline _ hs hl => fails_branch ih hline hs hl⟩

/-- A build fails on a line of the script, for something that the line says. -/
theorem build_fails {s s' : Session} {f : Failure} (hs : s.Sound)
    (h : outcome Session.build s = (.error f, s')) :
    ∃ line ∈ s.lines, f.line = some line.number ∧ line.Explains f.cause := by
  have hlines : Accounts s.lines (fun _ => False) (nested s.lines.size).statement := by
    intro line hline t ht hl
    obtain ⟨depth, hdepth⟩ := Nat.exists_eq_add_one.mpr (Array.size_pos_of_mem hline)
    rw [hdepth]
    exact fails_statement (accounts_nested s.lines depth) hline ht hl
  have hbuild : Session.build.FailsOnly (Accounted s.lines fun _ => False) s := by
    refine .bind .get fun _ _ hget => ?_
    obtain ⟨rfl, rfl⟩ := outcome_get_ok hget
    exact fails_upTo (safe_nested _).statement hlines (fun hlt => absurd hlt (Nat.lt_irrefl _)) hs rfl _
  have hf := hbuild f s' h
  unfold Accounted at hf
  split at hf
  · rename_i n hn
    obtain ⟨line, hline, rfl, hexplains⟩ := hf
    exact ⟨line, hline, hn, hexplains⟩
  · exact hf.elim

end BusLogic.Script
