import BusLogic.Proofs.Abreast
import BusLogic.Proofs.Script.Constructs
import BusLogic.Proofs.Script.Wording

/-! Sessions over lines that say the same.

The lines of two scripts may correspond one by one: each is of the same tokens as the
other, under a number of its own (`Line.Restated`). What is read from the two is then the
same up to the text that a mismatch quotes. Sessions over such lines stay abreast, step by
step (`Session.Restates`), so that a build of the one ends as a build of the other does
(`abreast_build`): with the same netlist and the same buses, and if it fails, with the same
kind of error on the line that corresponds. -/
namespace BusLogic.Script
open Attempt Run Text

/-! ### Lines and failures that correspond -/

/-- The same error, up to the text it quotes. -/
def SameCause (e e' : Error) : Prop := e.blur = e'.blur

theorem SameCause.refl (e : Error) : SameCause e e := rfl

/-- The line says the same, under the number that its own corresponds to. -/
structure Line.Restated (image : Nat → Nat) (l l' : Line) : Prop where
  number : l'.number = image l.number
  text : SameTokens l.text l'.text

/-- The same failure, on the line that its own corresponds to. -/
structure Failure.Restated (image : Nat → Nat) (f f' : Failure) : Prop where
  cause : SameCause f.cause f'.cause
  line : f'.line = f.line.map image

/-- The sessions are the same but for their lines, which correspond one by one. -/
structure Session.Restates (image : Nat → Nat) (s s' : Session) : Prop where
  lines : List.Forall₂ (Line.Restated image) s.lines.toList s'.lines.toList
  rest : s' = { s with lines := s'.lines }

theorem Failure.restated_of (image : Nat → Nat) {e e' : Error} (h : SameCause e e') :
    Failure.Restated image (.of e) (.of e') := ⟨h, rfl⟩

theorem Failure.Restated.atLine {image : Nat → Nat} {f f' : Failure} (h : Failure.Restated image f f') (n : Nat) :
    Failure.Restated image (f.atLine n) (f'.atLine (image n)) := by
  obtain ⟨cause, line⟩ := f
  obtain ⟨cause', line'⟩ := f'
  obtain ⟨hcause, hline⟩ := h
  cases line with
  | none =>
    cases hline
    exact ⟨hcause, rfl⟩
  | some m =>
    cases hline
    exact ⟨hcause, rfl⟩

namespace Session.Restates

variable {image : Nat → Nat} {s s' : Session} (h : s.Restates image s')
include h

theorem size : s'.lines.size = s.lines.size := by
  rw [← Array.length_toList, ← Array.length_toList, h.lines.length_eq]

theorem cursor : s'.cursor = s.cursor := by rw [h.rest]

theorem counter : s'.counter = s.counter := by rw [h.rest]

/-- A line of one session is a line of the other. -/
theorem line (i : Nat) : (s.lines[i]? = none ∧ s'.lines[i]? = none) ∨
    ∃ l l', s.lines[i]? = some l ∧ s'.lines[i]? = some l' ∧ l.Restated image l' := by
  by_cases hi : i < s.lines.size
  · have hi' : i < s'.lines.size := by rw [h.size]; exact hi
    exact .inr ⟨_, _, Array.getElem?_eq_getElem hi, Array.getElem?_eq_getElem hi',
      h.lines.get (by rwa [Array.length_toList]) (by rwa [Array.length_toList])⟩
  · exact .inl ⟨Array.getElem?_eq_none (Nat.not_lt.mp hi), Array.getElem?_eq_none (by rw [h.size]; omega)⟩

/-- Bodies are found to end at the same lines. -/
theorem bodyLength? (depth start : Nat) :
    bodyLength? depth (s'.lines.toList.drop start) = bodyLength? depth (s.lines.toList.drop start) := by
  have hlines := List.forall₂_drop start h.lines
  generalize s.lines.toList.drop start = rows at hlines ⊢
  generalize s'.lines.toList.drop start = rows' at hlines ⊢
  induction hlines generalizing depth with
  | nil => rfl
  | @cons l l' rows rows' hl _ ih =>
    have hend : l'.isEnd = l.isEnd := hl.text.isEnd l.number l'.number ▸ rfl
    have hopens : l'.opens = l.opens := hl.text.opens l.number l'.number ▸ rfl
    simp only [Script.bodyLength?, hend, hopens, ih]

theorem modify {f : Session → Session} (hf : ∀ s lines, f { s with lines } = { f s with lines })
    (hlines : ∀ s, (f s).lines = s.lines) : (f s).Restates image (f s') := by
  refine ⟨?_, ?_⟩
  · rw [hlines, hlines]
    exact h.lines
  · rw [hlines]
    conv_lhs => rw [h.rest, hf]

end Session.Restates

/-! ### Answers to readings that correspond -/

section Answers
variable (s : Session)

theorem alike_index {i i' : Index} (h : i.blur = i'.blur) : EndsAlike SameCause Eq (s.index i) (s.index i') := by
  cases i with
  | literal n =>
    cases i' with
    | literal n' =>
      cases h
      exact .ok rfl
    | constant name | missing m => cases h
  | constant name =>
    cases i' with
    | constant name' =>
      cases h
      exact .same SameCause.refl _
    | literal n | missing m => cases h
  | missing m =>
    cases i' with
    | missing m' => exact .error (congrArg Error.mismatch (Index.missing.inj h))
    | literal n | constant name => cases h

theorem alike_checkText {text text' : Option Mismatch} (h : text.map Mismatch.blur = text'.map Mismatch.blur) :
    EndsAlike SameCause Eq (Session.checkText text) (Session.checkText text') := by
  cases text with
  | none =>
    cases text' with
    | none => exact .ok rfl
    | some m' => cases h
  | some m =>
    cases text' with
    | none => cases h
    | some m' => exact .error (congrArg Error.mismatch (Option.some.inj h))

theorem alike_ref {r r' : Ref} (h : r.blur = r'.blur) : EndsAlike SameCause Eq (s.ref r) (s.ref r') := by
  obtain ⟨name, span⟩ := r
  obtain ⟨name', span'⟩ := r'
  obtain ⟨hname : name = name', hspan⟩ := Ref.mk.inj h
  subst hname
  refine .bind (.same SameCause.refl (s.lookup name)) ?_
  rintro bus _ rfl
  cases span with
  | none =>
    cases span' with
    | none => exact .ok rfl
    | some span' => cases hspan
  | some span =>
    cases span' with
    | none => cases hspan
    | some span' =>
      obtain ⟨hfirst, hlast⟩ := Span.mk.inj (Option.some.inj hspan)
      refine .bind (alike_index s hfirst) ?_
      rintro first _ rfl
      obtain ⟨_, last⟩ := span
      obtain ⟨_, last'⟩ := span'
      cases last with
      | none =>
        cases last' with
        | none => exact .same SameCause.refl _
        | some last' => cases hlast
      | some last =>
        cases last' with
        | none => cases hlast
        | some last' =>
          refine .bind (alike_index s (Option.some.inj hlast)) ?_
          rintro n _ rfl
          exact .same SameCause.refl _

theorem alike_parts (bus : Bus) {refs refs' : List Ref} (h : refs.map Ref.blur = refs'.map Ref.blur) :
    EndsAlike SameCause Eq (s.parts bus refs) (s.parts bus refs') := by
  induction refs generalizing bus refs' with
  | nil =>
    cases refs' with
    | nil => exact .ok rfl
    | cons r' rest' => cases h
  | cons r rest ih =>
    cases refs' with
    | nil => cases h
    | cons r' rest' =>
      obtain ⟨hr, hrest⟩ := List.cons.inj h
      refine .bind (alike_ref s hr) ?_
      rintro part _ rfl
      exact .bind (.same SameCause.refl (s.checkWidth _)) fun _ _ _ => ih _ hrest

theorem alike_listing {l l' : Listing} (h : l.blur = l'.blur) :
    EndsAlike SameCause Eq (s.listing l) (s.listing l') := by
  obtain ⟨hparts, htext⟩ := Listing.mk.inj h
  refine .bind (alike_parts s _ hparts) ?_
  rintro bus _ rfl
  exact .bind (alike_checkText htext) fun _ _ _ => .ok rfl

/-- What a list stands for has nothing to do with the lines. -/
theorem listing_lines (lines : Array Line) (l : Listing) : ({ s with lines } : Session).listing l = s.listing l := by
  have hparts (bus : Bus) (refs : List Ref) : ({ s with lines } : Session).parts bus refs = s.parts bus refs := by
    induction refs generalizing bus with
    | nil => rfl
    | cons r rest ih =>
      simp only [Session.parts, ih]
      rfl
  rw [Session.listing, hparts]
  rfl

theorem alike_extent {e e' : Option Extent} (h : e.map Extent.blur = e'.map Extent.blur) :
    EndsAlike SameCause Eq (s.extent e) (s.extent e') := by
  cases e with
  | none =>
    cases e' with
    | none => exact .ok rfl
    | some e' => cases h
  | some e =>
    cases e' with
    | none => cases h
    | some e' =>
      obtain ⟨hwidth, htext⟩ := Extent.mk.inj (Option.some.inj h)
      refine .bind (alike_index s hwidth) ?_
      rintro width _ rfl
      exact .bind (alike_checkText htext) fun _ _ _ =>
        .bind (.same SameCause.refl (s.checkWidth width)) fun _ _ _ => .ok rfl

theorem alike_source {source source' : Except Mismatch String}
    (h : source.mapError Mismatch.blur = source'.mapError Mismatch.blur) :
    EndsAlike SameCause Eq (source.mapError Error.mismatch) (source'.mapError .mismatch) := by
  cases source with
  | ok name =>
    cases source' with
    | ok name' =>
      cases h
      exact .ok rfl
    | error m' => cases h
  | error m =>
    cases source' with
    | ok name' => cases h
    | error m' => exact .error (congrArg Error.mismatch (Except.error.inj h))

theorem alike_value {v v' : Except Mismatch Value}
    (h : (v.mapError Mismatch.blur).map Value.blur = (v'.mapError Mismatch.blur).map Value.blur) :
    EndsAlike SameCause (fun v v' => v.blur = v'.blur) (v.mapError Error.mismatch) (v'.mapError .mismatch) := by
  cases v with
  | ok v =>
    cases v' with
    | ok v' => exact .ok (Except.ok.inj h)
    | error m' => cases h
  | error m =>
    cases v' with
    | ok v' => cases h
    | error m' => exact .error (congrArg Error.mismatch (Except.error.inj h))

theorem Target.name_of_blur {target target' : Target} (h : target.blur = target'.blur) :
    target.name = target'.name := by
  have hname (target : Target) : target.blur.name = target.name := by
    cases target <;> rfl
  rw [← hname target, h, hname]

theorem alike_check {target target' : Target} (h : target.blur = target'.blur) :
    EndsAlike SameCause Eq (target.check s) (target'.check s) := by
  cases target with
  | slot name i =>
    cases target' with
    | slot name' i' =>
      obtain ⟨rfl, hi⟩ := Target.slot.inj h
      refine .bind (.same SameCause.refl (s.lookup name)) ?_
      rintro bus _ rfl
      refine .bind (alike_index s hi) ?_
      rintro n _ rfl
      exact .same SameCause.refl _
    | bus name' | port name' => cases h
  | bus name | port name =>
    cases target' with
    | bus name' | port name' => exact .ok rfl
    | slot name' i' => cases h

end Answers

/-! ### Steps -/

section Steps
variable {image : Nat → Nat} {α : Type}

open Session (Restates)

/-- Steps that keep abreast on sessions whose lines correspond, with the same answers. -/
abbrev Alongside (image : Nat → Nat) (x y : Run α) : Prop :=
  Abreast (Restates image) (Failure.Restated image) Eq x y

theorem abreast_ask {β : Type} {Q : α → β → Prop} {f : Session → Except Error α}
    {f' : Session → Except Error β} (h : ∀ s s', s.Restates image s' → EndsAlike SameCause Q (f s) (f' s')) :
    Abreast (Restates image) (Failure.Restated image) Q (ask f) (ask f') :=
  fun s s' hs => ⟨hs, (h s s' hs).mapError fun _ _ => Failure.restated_of image⟩

/-- What is asked has nothing to do with the lines. -/
theorem abreast_ask_same {β : Type} {Q : α → β → Prop} {f : Session → Except Error α}
    {f' : Session → Except Error β} (hlines : ∀ s lines, f' { s with lines } = f' s)
    (h : ∀ s, EndsAlike SameCause Q (f s) (f' s)) :
    Abreast (Restates image) (Failure.Restated image) Q (ask f) (ask f') := by
  refine abreast_ask fun s s' hs => ?_
  rw [hs.rest, hlines]
  exact h s

theorem abreast_raise {β : Type} {Q : α → β → Prop} {e e' : Error} (h : SameCause e e') :
    Abreast (Restates image) (Failure.Restated image) Q (raise e) (raise e') := .throw (Failure.restated_of image h)

theorem abreast_lookup (name : String) :
    Alongside image (ask (·.lookup name)) (ask (·.lookup name)) :=
  abreast_ask_same (fun _ _ => rfl) fun _ => .same SameCause.refl _

theorem abreast_modify {f : Session → Session} (hf : ∀ s lines, f { s with lines } = { f s with lines })
    (hlines : ∀ s, (f s).lines = s.lines) :
    Alongside image (modify f) (modify f) :=
  .modify fun _ _ hs => hs.modify hf hlines

theorem abreast_setBus (name : String) (bus : Bus) :
    Alongside image (setBus name bus) (setBus name bus) :=
  abreast_modify (fun _ _ => rfl) fun _ => rfl

theorem abreast_setCounter (counter : Option Nat) :
    Alongside image (setCounter counter) (setCounter counter) :=
  abreast_modify (fun _ _ => rfl) fun _ => rfl

theorem abreast_setCursor (cursor : Nat) :
    Alongside image (setCursor cursor) (setCursor cursor) :=
  abreast_modify (fun _ _ => rfl) fun _ => rfl

/-- What is done to the netlist is the same for both. -/
theorem abreast_netlist {x : Run α} (r : Netlist → Except Error α) (next : Netlist → Netlist)
    (hx : ∀ s, outcome x s = ((r s.netlist).mapError .of, { s with netlist := next s.netlist })) :
    Alongside image x x := by
  intro s s' hs
  have hnetlist : s'.netlist = s.netlist := by rw [hs.rest]
  rw [hx, hx, hnetlist]
  refine ⟨⟨hs.lines, ?_⟩, .mapError (.same SameCause.refl _) fun _ _ => Failure.restated_of image⟩
  conv_lhs => rw [hs.rest]

theorem abreast_wire (x : Attempt Error Netlist α) :
    Alongside image (wire x) (wire x) :=
  abreast_netlist (fun net => (outcome x net).1) (fun net => (outcome x net).2) fun _ => rfl

theorem abreast_compile (e : Expression Signal) (x : Expression.Step Signal Netlist α) :
    Alongside image (Run.compile e x) (Run.compile e x) :=
  abreast_netlist (fun net => (outcome x (e, net)).1.map (·, (outcome x (e, net)).2.1))
    (fun net => (outcome x (e, net)).2.2) fun _ => rfl

theorem abreast_on {l l' : Line} (hl : l.Restated image l') {x y : Run α}
    (h : Alongside image x y) :
    Alongside image (on l x) (on l' y) := by
  intro s s' hs
  obtain ⟨hstate, hends⟩ := h s s' hs
  refine ⟨hstate, hends.mapError fun f f' hf => ?_⟩
  rw [hl.number]
  exact hf.atLine l.number

theorem abreast_nextLine :
    Abreast (Restates image) (Failure.Restated image) (Line.Restated image) nextLine nextLine := by
  refine .get fun s s' hs => ?_
  rw [hs.cursor]
  rcases hs.line s.cursor with ⟨hnone, hnone'⟩ | ⟨l, l', hsome, hsome', hl⟩
  · rw [hnone, hnone']
    exact abreast_raise rfl
  · rw [hsome, hsome']
    exact .bind (abreast_setCursor _) fun _ _ _ => .pure hl

theorem abreast_body {each : Line → Run α} (he : ∀ l l', l.Restated image l' →
      Alongside image (each l) (each l')) (budget : Nat) :
    Alongside image (body each budget) (body each budget) := by
  induction budget with
  | zero => exact abreast_raise rfl
  | succ budget ih =>
    refine .bind abreast_nextLine fun l l' hl => ?_
    have hend : l.isEnd = l'.isEnd := hl.text.isEnd l.number l'.number
    rw [hend]
    split
    · exact .pure rfl
    · refine .bind (he l l' hl) ?_
      rintro a _ rfl
      refine .bind ih ?_
      rintro as _ rfl
      exact .pure rfl

theorem abreast_upTo {each : Line → Run Unit} (he : ∀ l l', l.Restated image l' →
      Alongside image (each l) (each l')) (stop budget : Nat) :
    Alongside image (upTo each stop budget) (upTo each stop budget) := by
  induction budget with
  | zero => exact .pure rfl
  | succ budget ih =>
    refine .get fun s s' hs => ?_
    rw [hs.cursor]
    split
    · exact .bind abreast_nextLine fun l l' hl => .bind (he l l' hl) fun _ _ _ => ih
    · exact .pure rfl

theorem abreast_between {each : Line → Run Unit} (he : ∀ l l', l.Restated image l' →
      Alongside image (each l) (each l')) (start stop : Nat) :
    Alongside image (between each start stop) (between each start stop) := by
  refine .get fun s s' hs => ?_
  rw [hs.cursor]
  exact .bind (abreast_setCursor _) fun _ _ _ => .bind (abreast_upTo he stop _) fun _ _ _ => abreast_setCursor _

theorem abreast_passes {pass : Nat → Run Unit}
    (hp : ∀ k, Alongside image (pass k) (pass k)) (n k : Nat) :
    Alongside image (passes pass n k) (passes pass n k) := by
  induction n generalizing k with
  | zero => exact .pure rfl
  | succ n ih => exact .bind (hp k) fun _ _ _ => ih (k + 1)

/-! ### Formulas -/

theorem abreast_operand {o o' : Operand} (h : o.blur = o'.blur) :
    Alongside image o.evaluate o'.evaluate := by
  cases o with
  | ref r =>
    cases o' with
    | ref r' => exact abreast_ask_same (fun _ _ => rfl) fun s => alike_ref s (Operand.ref.inj h)
    | list l' | source op' extent' | reduction op' l' => cases h
  | list l =>
    cases o' with
    | list l' =>
      exact abreast_ask_same (fun s lines => listing_lines s lines _) fun s => alike_listing s (Operand.list.inj h)
    | ref r' | source op' extent' | reduction op' l' => cases h
  | source op extent =>
    cases o' with
    | source op' extent' =>
      obtain ⟨rfl, hextent⟩ := Operand.source.inj h
      refine .bind (abreast_ask_same (fun _ _ => rfl) fun s => alike_extent s hextent) ?_
      rintro width _ rfl
      refine .bind (abreast_wire _) ?_
      rintro gate _ rfl
      exact .pure rfl
    | ref r' | list l' | reduction op' l' => cases h
  | reduction op l =>
    cases o' with
    | reduction op' l' =>
      obtain ⟨rfl, hlist⟩ := Operand.reduction.inj h
      refine .bind (abreast_ask_same (fun s lines => listing_lines s lines _) fun s => alike_listing s hlist) ?_
      rintro bus _ rfl
      refine .bind (abreast_wire _) ?_
      rintro gate _ rfl
      exact .pure rfl
    | ref r' | list l' | source op' extent' => cases h

theorem abreast_feed (e : Expression Signal) {t t' : Term} (h : t.blur = t'.blur) :
    Alongside image (t.feed e) (t'.feed e) := by
  cases t with
  | operand o =>
    cases t' with
    | operand o' =>
      refine .bind (abreast_operand (Term.operand.inj h)) ?_
      rintro bus _ rfl
      refine .bind (abreast_compile e _) ?_
      rintro p _ rfl
      exact .pure rfl
    | operator op' => cases h
  | operator op =>
    cases t' with
    | operand o' => cases h
    | operator op' =>
      cases h
      refine .bind (abreast_compile e _) ?_
      rintro p _ rfl
      exact .pure rfl

theorem abreast_formula {terms terms' : List Term} {text text' : Option Mismatch}
    (hterms : terms.map Term.blur = terms'.map Term.blur) (htext : text.map Mismatch.blur = text'.map Mismatch.blur) :
    Alongside image (formula terms text) (formula terms' text') := by
  have hrows : List.Forall₂ (fun t t' : Term => t.blur = t'.blur) terms terms' := by
    rw [← List.forall₂_map_right_iff (R := fun t u => Term.blur t = u), ← List.forall₂_map_left_iff (R := Eq),
      List.forall₂_eq_eq_eq]
    exact hterms
  refine .bind (.foldlM hrows (fun e _ _ => abreast_feed e) _) ?_
  rintro e _ rfl
  refine .bind (abreast_compile e _) ?_
  rintro ⟨result, rest⟩ _ rfl
  refine .bind (abreast_ask_same (fun _ _ => rfl) fun _ => .same SameCause.refl _) ?_
  rintro bus _ rfl
  exact .bind (abreast_ask_same (fun _ _ => rfl) fun _ => alike_checkText htext) fun _ _ _ => .pure rfl

theorem abreast_bindSlot (name : String) (i : Nat) (value : Bus) :
    Alongside image (bindSlot name i value) (bindSlot name i value) := by
  refine .check ⟨rfl, rfl⟩ (.bind (abreast_ask_same (fun _ _ => rfl) fun _ => .same SameCause.refl _) ?_)
  rintro bus _ rfl
  exact abreast_setBus name bus

theorem abreast_receive {target target' : Target} (h : target.blur = target'.blur) (slot : Option Nat) (bus : Bus) :
    Alongside image (target.receive slot bus) (target'.receive slot bus) := by
  have hname : target.name = target'.name := Target.name_of_blur h
  unfold Target.receive
  rw [← hname]
  refine .check ⟨rfl, rfl⟩ ?_
  cases slot with
  | some i => exact abreast_bindSlot _ i bus
  | none =>
    cases target with
    | port name =>
      cases target' with
      | port name' =>
        cases h
        exact .bind (abreast_modify (fun _ _ => rfl) fun _ => rfl) fun _ _ _ => abreast_setBus _ bus
      | bus name' | slot name' i' => cases h
    | bus name | slot name i =>
      cases target' with
      | port name' => cases h
      | bus name' | slot name' i' => exact abreast_setBus _ bus

/-! ### Statements -/

/-- Lines that correspond are carried out alongside each other. -/
structure Nested.Alongside (image : Nat → Nat) (n : Nested) : Prop where
  statement : ∀ l l', l.Restated image l' → Script.Alongside image (n.statement l) (n.statement l')
  branch : ∀ l l', l.Restated image l' → Script.Alongside image (n.branch l) (n.branch l')

section Nested
variable {n : Nested} (h : n.Alongside image)
include h

theorem abreast_pass (target source : String) (width start stop k : Nat) :
    Alongside image (n.pass target source width start stop k) (n.pass target source width start stop k) := by
  refine .bind (abreast_setBus _ _) fun _ _ _ => .bind (abreast_setCounter _) fun _ _ _ =>
    .bind (abreast_between h.statement _ _) fun _ _ _ => .bind (abreast_lookup target) ?_
  rintro next _ rfl
  exact abreast_setBus source next

theorem abreast_loop (target : String) {count count' : Index} {source source' : Except Mismatch String}
    (hcount : count.blur = count'.blur) (hsource : source.mapError Mismatch.blur = source'.mapError Mismatch.blur) :
    Alongside image (n.loop target count source) (n.loop target count' source') := by
  refine .bind (abreast_ask_same (fun _ _ => rfl) fun s => alike_index s hcount) ?_
  rintro times _ rfl
  refine .bind (abreast_ask_same (fun _ _ => rfl) fun _ => alike_source hsource) ?_
  rintro source _ rfl
  refine .check ⟨rfl, rfl⟩ (.get fun s s' hs => ?_)
  rw [hs.cursor]
  refine .bind (Q := Eq) (abreast_ask fun t t' ht => ?_) ?_
  · rw [ht.bodyLength?]
    exact .same SameCause.refl _
  rintro length _ rfl
  refine .bind (abreast_setCursor _) fun _ _ _ => .bind (abreast_lookup source) ?_
  rintro initial _ rfl
  refine .get fun t t' ht => ?_
  rw [ht.counter]
  refine .bind (abreast_passes (abreast_pass h _ _ _ _ _) times 0) fun _ _ _ => .bind (abreast_lookup target) ?_
  rintro bus _ rfl
  exact .bind (abreast_setBus _ _) fun _ _ _ => .bind (abreast_setCounter _) fun _ _ _ => .pure rfl

theorem abreast_select {selector selector' : Ref} {text text' : Option Mismatch}
    (hselector : selector.blur = selector'.blur) (htext : text.map Mismatch.blur = text'.map Mismatch.blur) :
    Alongside image (n.select selector text) (n.select selector' text') := by
  refine .bind (abreast_ask_same (fun _ _ => rfl) fun s => alike_ref s hselector) ?_
  rintro bus _ rfl
  refine .bind (abreast_ask_same (fun _ _ => rfl) fun _ => alike_checkText htext) fun _ _ _ => .get fun s s' hs => ?_
  rw [hs.size, hs.cursor]
  refine .bind (abreast_body h.branch _) ?_
  rintro branches _ rfl
  exact abreast_wire _

theorem abreast_value (target : String) {v v' : Value} (hv : v.blur = v'.blur) :
    Alongside image (n.evaluate target v) (n.evaluate target v') := by
  cases v with
  | fault m =>
    cases v' with
    | fault m' => exact abreast_raise (congrArg Error.mismatch (Value.fault.inj hv))
    | loop count' source' | select selector' text' | formula terms' text' => cases hv
  | loop count source =>
    cases v' with
    | loop count' source' =>
      obtain ⟨hcount, hsource⟩ := Value.loop.inj hv
      exact abreast_loop h target hcount hsource
    | fault m' | select selector' text' | formula terms' text' => cases hv
  | select selector text =>
    cases v' with
    | select selector' text' =>
      obtain ⟨hselector, htext⟩ := Value.select.inj hv
      exact abreast_select h hselector htext
    | fault m' | loop count' source' | formula terms' text' => cases hv
  | formula terms text =>
    cases v' with
    | formula terms' text' =>
      obtain ⟨hterms, htext⟩ := Value.formula.inj hv
      exact abreast_formula hterms htext
    | fault m' | loop count' source' | select selector' text' => cases hv

theorem abreast_execute {st st' : Statement} (hst : st.blur = st'.blur) :
    Alongside image (n.execute st) (n.execute st') := by
  cases st with
  | fault m =>
    cases st' with
    | fault m' => exact abreast_raise (congrArg Error.mismatch (Statement.fault.inj hst))
    | block | declare name' width' | input name' width' | assign target' value' => cases hst
  | block =>
    cases st' with
    | block =>
      refine .get fun s s' hs => ?_
      rw [hs.size, hs.cursor]
      exact .bind (abreast_body h.statement _) fun _ _ _ => .pure rfl
    | fault m' | declare name' width' | input name' width' | assign target' value' => cases hst
  | declare name width =>
    cases st' with
    | declare name' width' =>
      cases hst
      exact .bind (abreast_ask_same (fun _ _ => rfl) fun _ => .same SameCause.refl _) fun _ _ _ => abreast_setBus _ _
    | fault m' | block | input name' width' | assign target' value' => cases hst
  | input name width =>
    cases st' with
    | input name' width' =>
      cases hst
      refine .bind (abreast_wire _) ?_
      rintro bus _ rfl
      exact abreast_setBus _ bus
    | fault m' | block | declare name' width' | assign target' value' => cases hst
  | assign target value =>
    cases st' with
    | assign target' value' =>
      obtain ⟨htarget, hvalue⟩ := Statement.assign.inj hst
      have hname : target.name = target'.name := Target.name_of_blur htarget
      refine .bind (abreast_ask_same (fun s lines => ?_) fun s => alike_check s htarget) ?_
      · cases target' <;> rfl
      rintro slot _ rfl
      refine .bind (abreast_ask_same (fun _ _ => rfl) fun _ => alike_value hvalue) fun v v' hv => ?_
      refine .bind (Q := Eq) (by
        rw [← hname]
        exact abreast_value h target.name hv) ?_
      rintro bus _ rfl
      exact abreast_receive htarget slot bus
    | fault m' | block | declare name' width' | input name' width' => cases hst

end Nested

theorem abreast_nested (image : Nat → Nat) (depth : Nat) : (nested depth).Alongside image := by
  induction depth with
  | zero => exact ⟨fun _ _ _ => abreast_raise rfl, fun _ _ _ => abreast_raise rfl⟩
  | succ depth ih =>
    exact ⟨fun l l' hl => abreast_on hl (abreast_execute ih hl.text.statement),
      fun l l' hl => abreast_on hl (abreast_value ih "" hl.text.value)⟩

/-- Sessions whose lines say the same are built alike. -/
theorem abreast_build : Alongside image Session.build Session.build := by
  refine .get fun s s' hs => ?_
  rw [hs.size, hs.cursor]
  exact abreast_upTo (abreast_nested image _).statement _ _

end Steps

end BusLogic.Script
