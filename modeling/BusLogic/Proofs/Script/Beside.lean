import BusLogic.Proofs.Script.Ample
import BusLogic.Proofs.Script.Steps

/-! Two sessions side by side.

What a line does to the circuit depends on the netlist, on the buses it names and on
the numbers it gives. Two sessions whose netlists are the same and whose buses differ
at most under one name that the line does not mention stand `Beside` each other; two
readings whose numbers come to the same in their sessions and that break off at the same
places have the same `resolve`. Then what succeeds in one session succeeds in the other,
with the same result. -/
namespace BusLogic.Script
open Attempt Run

/-! ### Readings with their numbers worked out -/

/-- Stands for every mismatch. -/
def unsaid : Mismatch := ⟨"", ""⟩

/-- The number itself, where the session's counter gives it one. -/
def Index.resolve (counter : Option Nat) : Index → Index
  | .literal n => .literal n
  | .constant name =>
    if name = "i" then
      match counter with
      | some n => .literal n
      | none => .missing unsaid
    else .missing unsaid
  | .missing _ => .missing unsaid

section Resolve
variable (counter : Option Nat)

def Span.resolve (span : Span) : Span :=
  ⟨span.first.resolve counter, span.last.map (·.resolve counter)⟩

def Ref.resolve (r : Ref) : Ref := ⟨r.name, r.span.map (·.resolve counter)⟩

def Listing.resolve (l : Listing) : Listing :=
  ⟨l.parts.map (·.resolve counter), l.fault.map fun _ => unsaid⟩

def Extent.resolve (e : Extent) : Extent := ⟨e.width.resolve counter, e.fault.map fun _ => unsaid⟩

def Operand.resolve : Operand → Operand
  | .ref r => .ref (r.resolve counter)
  | .list l => .list (l.resolve counter)
  | .source op extent => .source op (extent.map (·.resolve counter))
  | .reduction op l => .reduction op (l.resolve counter)

def Term.resolve : Term → Term
  | .operand o => .operand (o.resolve counter)
  | .operator op => .operator op

def Value.resolve : Value → Value
  | .fault _ => .fault unsaid
  | .loop count source => .loop (count.resolve counter) (source.mapError fun _ => unsaid)
  | .select selector text => .select (selector.resolve counter) (text.map fun _ => unsaid)
  | .formula terms text => .formula (terms.map (·.resolve counter)) (text.map fun _ => unsaid)

def Target.resolve : Target → Target
  | .bus name => .bus name
  | .port name => .port name
  | .slot name i => .slot name (i.resolve counter)

def Statement.resolve : Statement → Statement
  | .fault _ => .fault unsaid
  | .block => .block
  | .declare name width => .declare name width
  | .input name width => .input name width
  | .assign target value =>
    .assign (target.resolve counter) ((value.mapError fun _ => unsaid).map (·.resolve counter))

end Resolve

/-! ### The names a line mentions -/

def Listing.names (l : Listing) : List String := l.parts.map Ref.name

def Operand.names : Operand → List String
  | .ref r => [r.name]
  | .list l | .reduction _ l => l.names
  | .source _ _ => []

def Term.names : Term → List String
  | .operand o => o.names
  | .operator _ => []

def Value.names : Value → List String
  | .fault _ => []
  | .loop _ source => source.toOption.toList
  | .select selector _ => [selector.name]
  | .formula terms _ => terms.flatMap Term.names

def Statement.names : Statement → List String
  | .fault _ | .block => []
  | .declare name _ | .input name _ => [name]
  | .assign target value => target.name :: value.toOption.toList.flatMap Value.names

/-- The names a line mentions, as a statement or as a branch. -/
def Line.names (line : Line) : List String := (statement line.text).names ++ (value line.text).names

/-! ### Answers of sessions side by side -/

/-- The same netlist, and the same buses except for the name `keep`, which stands for
`held` in one session and for `held'` in the other. -/
structure Session.Beside (keep : String) (held held' : Option Bus) (s s' : Session) : Prop where
  netlist : s'.netlist = s.netlist
  buses : ∀ name, name ≠ keep → s'.bus? name = s.bus? name
  spare : s.bus? keep = held
  spare' : s'.bus? keep = held'

theorem Session.index_eq_ok {s : Session} {i : Index} {n : Nat} :
    s.index i = .ok n ↔ i.resolve s.counter = .literal n := by
  cases i with
  | literal m => simp [index, Index.resolve]
  | missing m => simp [index, Index.resolve]
  | constant name =>
    by_cases hi : name = "i"
    · cases hc : s.counter <;> simp [index, constant?, Index.resolve, hi, hc]
    · simp [index, constant?, Index.resolve, hi]

theorem Session.index_of_resolve {s s' : Session} {i i' : Index} {n : Nat}
    (hi : i'.resolve s'.counter = i.resolve s.counter) (ho : s.index i = .ok n) : s'.index i' = .ok n := by
  rw [index_eq_ok] at ho ⊢
  rw [hi, ho]

theorem Session.checkText_of_resolve {fault fault' : Option Mismatch}
    (hf : (fault'.map fun _ => unsaid) = fault.map fun _ => unsaid)
    (ho : Session.checkText fault = .ok ()) : Session.checkText fault' = .ok () := by
  cases fault with
  | some m => cases ho
  | none =>
    rw [Option.map_eq_none_iff.mp (hf.trans (Option.map_none _))]
    rfl

/-- When a reference stands for a bus. -/
theorem Session.ref_eq_ok {s : Session} {r : Ref} {b : Bus} : s.ref r = .ok b ↔
    ∃ whole, s.lookup r.name = .ok whole ∧
      ((r.span = none ∧ whole = b) ∨ ∃ span first last, r.span = some span ∧
        s.index span.first = .ok first ∧ s.index (span.last.getD span.first) = .ok last ∧
        whole.slice first last = .ok b) := by
  constructor
  · exact ref_ok
  · rintro ⟨whole, hw, h⟩
    unfold ref
    rw [hw]
    rcases h with ⟨hspan, rfl⟩ | ⟨span, first, last, hspan, hfirst, hlast, hslice⟩
    · rw [hspan]
      rfl
    · rw [hspan]
      show (s.index span.first >>= _) = _
      rw [hfirst]
      cases hl : span.last with
      | none =>
        rw [hl, Option.getD_none, hfirst] at hlast
        cases hlast
        exact hslice
      | some l =>
        rw [hl, Option.getD_some] at hlast
        show (s.index l >>= fun last => whole.slice first last) = _
        rw [hlast]
        exact hslice

namespace Session.Beside

variable {keep : String} {held held' : Option Bus} {s s' : Session} (h : s.Beside keep held held' s')
include h

theorem symm : s'.Beside keep held' held s :=
  ⟨h.netlist.symm, fun name hn => (h.buses name hn).symm, h.spare', h.spare⟩

theorem lookup {name : String} (hn : name ≠ keep) : s'.lookup name = s.lookup name := by
  rw [Session.lookup, Session.lookup, h.buses name hn]

theorem checkWidth (width : Nat) : s'.checkWidth width = s.checkWidth width := by
  rw [Session.checkWidth, Session.checkWidth, h.netlist]

theorem ref {r r' : Ref} {b : Bus} (hr : r'.resolve s'.counter = r.resolve s.counter) (hn : r.name ≠ keep)
    (ho : s.ref r = .ok b) : s'.ref r' = .ok b := by
  obtain ⟨hname, hspan⟩ := Ref.mk.inj hr
  rw [ref_eq_ok] at ho ⊢
  obtain ⟨whole, hwhole, ho⟩ := ho
  refine ⟨whole, by rw [hname, h.lookup hn]; exact hwhole, ?_⟩
  rcases ho with ⟨hnone, rfl⟩ | ⟨span, first, last, hsome, hfirst, hlast, hslice⟩
  · rw [hnone, Option.map_none] at hspan
    exact .inl ⟨Option.map_eq_none_iff.mp hspan, rfl⟩
  · rw [hsome, Option.map_some] at hspan
    obtain ⟨span', hsome', hspans⟩ := Option.map_eq_some_iff.mp hspan
    obtain ⟨hf, hl⟩ := Span.mk.inj hspans
    refine .inr ⟨span', first, last, hsome', index_of_resolve hf hfirst, ?_, hslice⟩
    cases hl₁ : span.last with
    | none =>
      rw [hl₁, Option.map_none] at hl
      rw [Option.map_eq_none_iff.mp hl]
      rw [hl₁] at hlast
      exact index_of_resolve hf hlast
    | some l =>
      rw [hl₁, Option.map_some] at hl
      obtain ⟨l', hl', hll⟩ := Option.map_eq_some_iff.mp hl
      rw [hl']
      rw [hl₁] at hlast
      exact index_of_resolve hll hlast

theorem parts {refs refs' : List Ref} {b r : Bus}
    (hr : refs'.map (·.resolve s'.counter) = refs.map (·.resolve s.counter))
    (hn : keep ∉ refs.map Ref.name) (ho : s.parts b refs = .ok r) : s'.parts b refs' = .ok r := by
  induction refs generalizing refs' b with
  | nil =>
    rw [List.map_nil] at hr
    rw [List.map_eq_nil_iff.mp hr]
    exact ho
  | cons first rest ih =>
    rw [List.map_cons] at hr
    obtain ⟨first', rest', rfl, hfirst, hrest⟩ := List.map_eq_cons_iff.mp hr
    rw [List.map_cons, List.mem_cons, not_or] at hn
    obtain ⟨part, hpart, ho⟩ := except_bind_ok ho
    obtain ⟨_, hwidth, ho⟩ := except_bind_ok ho
    unfold Session.parts
    rw [h.ref hfirst (Ne.symm hn.1) hpart]
    show (s'.checkWidth (b.width + part.width) >>= fun _ => s'.parts (b ++ part) rest') = _
    rw [h.checkWidth, hwidth]
    exact ih hrest hn.2 ho

theorem listing {l l' : Listing} {b : Bus} (hl : l'.resolve s'.counter = l.resolve s.counter)
    (hn : keep ∉ l.names) (ho : s.listing l = .ok b) : s'.listing l' = .ok b := by
  obtain ⟨hparts, hfault⟩ := Listing.mk.inj hl
  obtain ⟨bus, hbus, ho⟩ := except_bind_ok ho
  obtain ⟨_, htext, ho⟩ := except_bind_ok ho
  unfold Session.listing
  rw [h.parts hparts hn hbus]
  show (Session.checkText l'.fault >>= fun _ => pure bus) = _
  rw [checkText_of_resolve hfault htext]
  exact ho

theorem extent {e e' : Option Extent} {width : Option Nat}
    (he : (e'.map (·.resolve s'.counter)) = e.map (·.resolve s.counter)) (ho : s.extent e = .ok width) :
    s'.extent e' = .ok width := by
  cases e with
  | none =>
    rw [Option.map_eq_none_iff.mp (he.trans (Option.map_none _))]
    exact ho
  | some e =>
    rw [Option.map_some] at he
    obtain ⟨e', rfl, hee⟩ := Option.map_eq_some_iff.mp he
    obtain ⟨hwidth, hfault⟩ := Extent.mk.inj hee
    obtain ⟨w, hw, ho⟩ := except_bind_ok ho
    obtain ⟨_, htext, ho⟩ := except_bind_ok ho
    obtain ⟨_, hcheck, ho⟩ := except_bind_ok ho
    unfold Session.extent
    show (s'.index e'.width >>= _) = _
    rw [index_of_resolve hwidth hw]
    show (Session.checkText e'.fault >>= fun _ => (s'.checkWidth w >>= fun _ => pure (some w))) = _
    rw [checkText_of_resolve hfault htext]
    show (s'.checkWidth w >>= fun _ => pure (some w)) = _
    rw [h.checkWidth, hcheck]
    exact ho

theorem check {target target' : Target} {slot : Option Nat}
    (ht : target'.resolve s'.counter = target.resolve s.counter) (hn : target.name ≠ keep)
    (ho : target.check s = .ok slot) : target'.check s' = .ok slot := by
  cases target with
  | bus name =>
    cases target' <;> cases ht
    exact ho
  | port name =>
    cases target' <;> cases ht
    exact ho
  | slot name i =>
    cases target' with
    | bus _ => cases ht
    | port _ => cases ht
    | slot name' i' =>
      obtain ⟨rfl, hi⟩ := Target.slot.inj ht
      obtain ⟨bus, hbus, ho⟩ := except_bind_ok ho
      obtain ⟨n, hindex, ho⟩ := except_bind_ok ho
      have hlookup : s'.lookup name' = s.lookup name' := h.lookup hn
      unfold Target.check
      show (s'.lookup name' >>= _) = _
      rw [hlookup, hbus]
      show (s'.index i' >>= fun i => if i < bus.width then pure (some i) else throw _) = _
      rw [index_of_resolve hi hindex]
      exact ho

end Session.Beside

/-! ### Formulas side by side -/

section Formulas
variable {keep : String} {held held' : Option Bus} {s s' t : Session} (h : s.Beside keep held held' s')
include h

/-- What is wired in one session is wired in the other. -/
theorem wire_beside {α : Type} {x : Attempt Error Netlist α} {a : α} (ho : outcome (wire x) s = (.ok a, t)) :
    outcome (wire x) s' = (.ok a, { s' with netlist := t.netlist }) := by
  obtain ⟨net, hx, rfl⟩ := wire_eq_ok.mp ho
  exact wire_eq_ok.mpr ⟨net, by rw [h.netlist, hx], rfl⟩

theorem compile_beside {α : Type} {e : Expression Signal} {x : Expression.Step Signal Netlist α}
    {p : α × Expression Signal} (ho : outcome (compile e x) s = (.ok p, t)) :
    outcome (compile e x) s' = (.ok p, { s' with netlist := t.netlist }) := by
  obtain ⟨net, hx, rfl⟩ := compile_ok ho
  show (((outcome x (e, s'.netlist)).1.map (·, (outcome x (e, s'.netlist)).2.1)).mapError _,
    ({ s' with netlist := (outcome x (e, s'.netlist)).2.2 } : Session)) = _
  rw [h.netlist, hx]
  rfl

theorem evaluate_beside {o o' : Operand} {b : Bus} (hr : o'.resolve s'.counter = o.resolve s.counter)
    (hn : keep ∉ o.names) (ho : outcome o.evaluate s = (.ok b, t)) :
    outcome o'.evaluate s' = (.ok b, { s' with netlist := t.netlist }) := by
  have hself : ({ s' with netlist := s.netlist } : Session) = s' := by rw [← h.netlist]
  cases o with
  | ref r =>
    cases o' <;> try cases hr
    rename_i r'
    obtain ⟨href, rfl⟩ := ask_eq_ok.mp ho
    rw [hself]
    refine ask_eq_ok.mpr ⟨h.ref (Operand.ref.inj hr) ?_ href, rfl⟩
    simpa [Operand.names, eq_comm] using hn
  | list l =>
    cases o' <;> try cases hr
    rename_i l'
    obtain ⟨hlist, rfl⟩ := ask_eq_ok.mp ho
    rw [hself]
    exact ask_eq_ok.mpr ⟨h.listing (Operand.list.inj hr) hn hlist, rfl⟩
  | source op extent =>
    cases o' <;> try cases hr
    rename_i op' extent'
    obtain ⟨rfl, he⟩ := Operand.source.inj hr
    obtain ⟨width, _, hwidth, ho⟩ := bind_eq_ok.mp ho
    obtain ⟨hextent, rfl⟩ := ask_eq_ok.mp hwidth
    obtain ⟨gate, u, hgate, ho⟩ := bind_eq_ok.mp ho
    obtain ⟨rfl, rfl⟩ := pure_eq_ok.mp ho
    exact bind_eq_ok.mpr ⟨width, s', ask_eq_ok.mpr ⟨h.extent he hextent, rfl⟩,
      bind_eq_ok.mpr ⟨gate, _, wire_beside h hgate, pure_eq_ok.mpr ⟨rfl, rfl⟩⟩⟩
  | reduction op l =>
    cases o' <;> try cases hr
    rename_i op' l'
    obtain ⟨rfl, hl⟩ := Operand.reduction.inj hr
    obtain ⟨bus, _, hbus, ho⟩ := bind_eq_ok.mp ho
    obtain ⟨hlist, rfl⟩ := ask_eq_ok.mp hbus
    obtain ⟨gate, u, hgate, ho⟩ := bind_eq_ok.mp ho
    obtain ⟨rfl, rfl⟩ := pure_eq_ok.mp ho
    exact bind_eq_ok.mpr ⟨bus, s', ask_eq_ok.mpr ⟨h.listing hl hn hlist, rfl⟩,
      bind_eq_ok.mpr ⟨gate, _, wire_beside h hgate, pure_eq_ok.mpr ⟨rfl, rfl⟩⟩⟩

/-- Formulas add gates and change nothing else, on both sides alike. -/
theorem Session.Beside.extend (ht : s.Extends t) :
    t.Beside keep held held' { s' with netlist := t.netlist } := by
  rw [ht.rest]
  exact ⟨rfl, h.buses, h.spare, h.spare'⟩

theorem feed_beside {e e' : Expression Signal} {term term' : Term}
    (hr : term'.resolve s'.counter = term.resolve s.counter) (hn : keep ∉ term.names)
    (ho : outcome (term.feed e) s = (.ok e', t)) :
    outcome (term'.feed e) s' = (.ok e', { s' with netlist := t.netlist }) := by
  cases term with
  | operand o =>
    cases term' <;> try cases hr
    rename_i o'
    obtain ⟨bus, u, hbus, ho⟩ := bind_eq_ok.mp ho
    obtain ⟨p, v, hp, ho⟩ := bind_eq_ok.mp ho
    obtain ⟨rfl, rfl⟩ := pure_eq_ok.mp ho
    have hu : s.Extends u := (extends_evaluate o).reached hbus
    exact bind_eq_ok.mpr ⟨bus, _, evaluate_beside h (Term.operand.inj hr) hn hbus,
      bind_eq_ok.mpr ⟨p, _, compile_beside (h.extend hu) hp, pure_eq_ok.mpr ⟨rfl, rfl⟩⟩⟩
  | operator op =>
    cases term' <;> try cases hr
    obtain ⟨p, v, hp, ho⟩ := bind_eq_ok.mp ho
    obtain ⟨rfl, rfl⟩ := pure_eq_ok.mp ho
    exact bind_eq_ok.mpr ⟨p, _, compile_beside h hp, pure_eq_ok.mpr ⟨rfl, rfl⟩⟩

end Formulas

section Formulas
variable {keep : String} {held held' : Option Bus} {s s' t : Session}

theorem terms_beside {terms terms' : List Term} {e e' : Expression Signal} (h : s.Beside keep held held' s')
    (hr : terms'.map (·.resolve s'.counter) = terms.map (·.resolve s.counter))
    (hn : keep ∉ terms.flatMap Term.names) (ho : outcome (terms.foldlM Term.feed e) s = (.ok e', t)) :
    outcome (terms'.foldlM Term.feed e) s' = (.ok e', { s' with netlist := t.netlist }) := by
  induction terms generalizing terms' e s s' with
  | nil =>
    rw [List.map_nil] at hr
    obtain ⟨rfl, rfl⟩ := pure_eq_ok.mp ho
    rw [List.map_eq_nil_iff.mp hr, ← h.netlist]
    rfl
  | cons term rest ih =>
    rw [List.map_cons] at hr
    obtain ⟨term', rest', rfl, hterm, hrest⟩ := List.map_eq_cons_iff.mp hr
    rw [List.flatMap_cons, List.mem_append, not_or] at hn
    rw [List.foldlM_cons] at ho ⊢
    obtain ⟨e₁, u, hu, ho⟩ := bind_eq_ok.mp ho
    have hext : s.Extends u := (extends_feed e term).reached hu
    have hcounter : u.counter = s.counter := by rw [hext.rest]
    refine bind_eq_ok.mpr ⟨e₁, _, feed_beside h hterm hn.1 hu, ?_⟩
    exact ih (h.extend hext) (by rw [hcounter]; exact hrest) hn.2 ho

/-- A formula that stands for a bus in one session stands for it in the other. -/
theorem formula_beside {terms terms' : List Term} {fault fault' : Option Mismatch} {b : Bus}
    (h : s.Beside keep held held' s') (hr : terms'.map (·.resolve s'.counter) = terms.map (·.resolve s.counter))
    (hf : (fault'.map fun _ => unsaid) = fault.map fun _ => unsaid) (hn : keep ∉ terms.flatMap Term.names)
    (ho : outcome (formula terms fault) s = (.ok b, t)) :
    outcome (formula terms' fault') s' = (.ok b, { s' with netlist := t.netlist }) := by
  obtain ⟨e, u, hu, ho⟩ := bind_eq_ok.mp ho
  obtain ⟨p, v, hv, ho⟩ := bind_eq_ok.mp ho
  obtain ⟨bus, _, hbus, ho⟩ := bind_eq_ok.mp ho
  obtain ⟨hresult, rfl⟩ := ask_eq_ok.mp hbus
  obtain ⟨_, _, hcheck, ho⟩ := bind_eq_ok.mp ho
  obtain ⟨htext, rfl⟩ := ask_eq_ok.mp hcheck
  obtain ⟨rfl, rfl⟩ := pure_eq_ok.mp ho
  have hext : s.Extends u := Keeps.reached (.foldlM extends_feed _ _) hu
  exact bind_eq_ok.mpr ⟨e, _, terms_beside h hr hn hu,
    bind_eq_ok.mpr ⟨p, _, compile_beside (h.extend hext) hv,
      bind_eq_ok.mpr ⟨bus, _, ask_eq_ok.mpr ⟨hresult, rfl⟩,
        bind_eq_ok.mpr ⟨(), _, ask_eq_ok.mpr ⟨Session.checkText_of_resolve hf htext, rfl⟩,
          pure_eq_ok.mpr ⟨rfl, rfl⟩⟩⟩⟩⟩

end Formulas

end BusLogic.Script
