import BusLogic.Proofs.Expression.Steps
import BusLogic.Proofs.Netlist.Room
import BusLogic.Proofs.Script.Run

/-! The room of the netlist decides whether a script can be built, not what is built.

A script asks for the capacity where a gate is allocated, where a bus is declared, where a
constant is fanned out and where a list grows. Each time it fails or goes on, and what
goes on does not see the capacity again. So no step of a session notices that there is
more room, unless it fails for want of it, and the same holds of a whole build. -/
namespace BusLogic

theorem Signal.unnoticed_resolve {room : Nat} (node : Signal) (children : List Signal) :
    (Netlist.moreRoom room).Unnoticed (resolve node children) := by
  cases node with
  | bus b => exact .throw _
  | operator op =>
    refine .bind (.ofExcept _) fun buses => ?_
    split
    · exact .map _ (Netlist.unnoticed_applyUnary _ _)
    · exact .map _ (Netlist.unnoticed_applyBinary _ _ _)
    · exact .throw _

namespace Script
open Attempt Run

/-- Room for `room` gates in the netlist of a session. -/
def Session.moreRoom (room : Nat) : Change Failure Session where
  fits s := s.netlist.capacity ≤ room
  make s := { s with netlist := { s.netlist with capacity := room } }
  lifts f := f.cause.IsFull

/-- The netlist, as a part of a session. -/
def Session.netlistPart (room : Nat) : (moreRoom room).Part (Netlist.moreRoom room) where
  part := netlist
  put s netlist := { s with netlist }
  fits_part _ hs := hs
  fits_put _ _ hs := hs
  part_make _ := rfl
  put_make _ _ := rfl

/-- The netlist beside an expression that is compiled into it. -/
def Session.compilerPart (room : Nat) (e : Expression Signal) :
    (moreRoom room).Part (Expression.beside (ν := Signal) (Netlist.moreRoom room)) where
  part s := (e, s.netlist)
  put s t := { s with netlist := t.2 }
  fits_part _ hs := hs
  fits_put _ _ hs := hs
  part_make _ := rfl
  put_make _ _ := rfl

open Session (moreRoom)

/-! ### Answers of a session -/

/-- The first answer is that there is no room, or the second is the same. -/
def SameAnswer {α : Type} (x y : Except Error α) : Prop := (∃ e, x = .error e ∧ e.IsFull) ∨ y = x

theorem SameAnswer.bind {α β : Type} {x y : Except Error α} {f g : α → Except Error β} (hx : SameAnswer x y)
    (hf : ∀ a, SameAnswer (f a) (g a)) : SameAnswer (x >>= f) (y >>= g) := by
  rcases hx with ⟨e, rfl, hfull⟩ | rfl
  · exact .inl ⟨e, rfl, hfull⟩
  · cases y with
    | error e => exact .inr rfl
    | ok a => exact hf a

section Answers
variable {room : Nat} {s : Session} (hroom : s.netlist.capacity ≤ room)
include hroom

theorem sameAnswer_checkWidth (width : Nat) :
    SameAnswer (s.checkWidth width) (((moreRoom room).make s).checkWidth width) := by
  by_cases hwide : s.netlist.capacity < width
  · rw [Session.checkWidth, if_pos hwide]
    exact .inl ⟨_, rfl, _, rfl⟩
  · have hfits : ¬ room < width := by omega
    rw [Session.checkWidth, if_neg hwide]
    exact .inr (if_neg hfits)

theorem sameAnswer_parts (bus : Bus) (refs : List Ref) :
    SameAnswer (s.parts bus refs) (((moreRoom room).make s).parts bus refs) := by
  induction refs generalizing bus with
  | nil => exact .inr rfl
  | cons r rest ih =>
    exact .bind (.inr rfl) fun part => .bind (sameAnswer_checkWidth hroom _) fun _ => ih (bus ++ part)

theorem sameAnswer_listing (l : Listing) : SameAnswer (s.listing l) (((moreRoom room).make s).listing l) :=
  .bind (sameAnswer_parts hroom _ _) fun _ => .inr rfl

theorem sameAnswer_extent (e : Option Extent) : SameAnswer (s.extent e) (((moreRoom room).make s).extent e) := by
  cases e with
  | none => exact .inr rfl
  | some e =>
    exact .bind (.inr rfl) fun width => .bind (.inr rfl) fun _ =>
      .bind (sameAnswer_checkWidth hroom width) fun _ => .inr rfl

end Answers

/-! ### Steps -/

section Steps
variable {room : Nat} {α : Type}

theorem unnoticed_ask {f : Session → Except Error α}
    (h : ∀ s, s.netlist.capacity ≤ room → SameAnswer (f s) (f ((moreRoom room).make s))) :
    (moreRoom room).Unnoticed (ask f) := by
  intro s hs
  rcases h s hs with ⟨e, he, hfull⟩ | hsame
  · refine .inl ⟨.of e, ?_, hfull⟩
    show (f s).mapError Failure.of = _
    rw [he]
    rfl
  · refine .inr ⟨hs, Prod.ext ?_ rfl⟩
    show (f ((moreRoom room).make s)).mapError Failure.of = (f s).mapError Failure.of
    rw [hsame]

/-- What is asked has nothing to do with the room. -/
theorem unnoticed_ask_same {f : Session → Except Error α} (h : ∀ s, f ((moreRoom room).make s) = f s) :
    (moreRoom room).Unnoticed (ask f) :=
  unnoticed_ask fun s _ => .inr (h s)

theorem unnoticed_raise (e : Error) : (moreRoom room).Unnoticed (raise e : Run α) := .throw _

theorem unnoticed_setBus (name : String) (bus : Bus) : (moreRoom room).Unnoticed (setBus name bus) :=
  .modify (fun _ hs => hs) fun _ => rfl

theorem unnoticed_setCounter (counter : Option Nat) : (moreRoom room).Unnoticed (setCounter counter) :=
  .modify (fun _ hs => hs) fun _ => rfl

theorem unnoticed_setCursor (cursor : Nat) : (moreRoom room).Unnoticed (setCursor cursor) :=
  .modify (fun _ hs => hs) fun _ => rfl

theorem unnoticed_wire {x : Attempt Error Netlist α} (hx : (Netlist.moreRoom room).Unnoticed x) :
    (moreRoom room).Unnoticed (wire x) :=
  hx.within (Session.netlistPart room) (fun r _ => r.mapError .of) (fun _ => rfl) (fun _ _ => rfl)
    fun e _ he => ⟨.of e, rfl, he⟩

theorem unnoticed_step {e : Expression Signal} {x : Expression.Step Signal Netlist α}
    (hx : (Expression.beside (Netlist.moreRoom room)).Unnoticed x) : (moreRoom room).Unnoticed (Run.compile e x) :=
  hx.within (Session.compilerPart room e) (fun r t => (r.map (·, t.1)).mapError .of) (fun _ => rfl) (fun _ _ => rfl)
    fun err _ he => ⟨.of err, rfl, he⟩

theorem unnoticed_on (line : Line) {x : Run α} (hx : (moreRoom room).Unnoticed x) :
    (moreRoom room).Unnoticed (on line x) := by
  refine hx.within (moreRoom room).whole (fun r _ => r.mapError (·.atLine line.number)) (fun _ => rfl)
    (fun _ _ => rfl) fun f _ hfull => ⟨f.atLine line.number, rfl, ?_⟩
  show (f.atLine line.number).cause.IsFull
  rw [Failure.atLine_cause]
  exact hfull

theorem unnoticed_nextLine : (moreRoom room).Unnoticed nextLine := by
  refine .get (fun s => ?_) fun _ => rfl
  split
  · exact unnoticed_raise _
  · exact .bind (unnoticed_setCursor _) fun _ => .pure _

theorem unnoticed_body {each : Line → Run α} (he : ∀ line, (moreRoom room).Unnoticed (each line)) (budget : Nat) :
    (moreRoom room).Unnoticed (body each budget) := by
  induction budget with
  | zero => exact unnoticed_raise _
  | succ budget ih =>
    exact .bind unnoticed_nextLine fun line => .ite (.pure _) (.bind (he line) fun _ => .bind ih fun _ => .pure _)

theorem unnoticed_upTo {each : Line → Run Unit} (he : ∀ line, (moreRoom room).Unnoticed (each line))
    (stop budget : Nat) : (moreRoom room).Unnoticed (upTo each stop budget) := by
  induction budget with
  | zero => exact .pure ()
  | succ budget ih =>
    exact .get (fun _ => .ite (.bind unnoticed_nextLine fun line => .bind (he line) fun _ => ih) (.pure ())) fun _ => rfl

theorem unnoticed_between {each : Line → Run Unit} (he : ∀ line, (moreRoom room).Unnoticed (each line))
    (start stop : Nat) : (moreRoom room).Unnoticed (between each start stop) :=
  .get (fun _ => .bind (unnoticed_setCursor _) fun _ => .bind (unnoticed_upTo he stop _) fun _ =>
    unnoticed_setCursor _) fun _ => rfl

theorem unnoticed_passes {pass : Nat → Run Unit} (hp : ∀ k, (moreRoom room).Unnoticed (pass k)) (n k : Nat) :
    (moreRoom room).Unnoticed (passes pass n k) := by
  induction n generalizing k with
  | zero => exact .pure ()
  | succ n ih => exact .bind (hp k) fun _ => ih (k + 1)

/-! ### Formulas -/

theorem unnoticed_evaluate (o : Operand) : (moreRoom room).Unnoticed o.evaluate := by
  cases o with
  | ref r => exact unnoticed_ask_same fun _ => rfl
  | list l => exact unnoticed_ask fun _ hs => sameAnswer_listing hs l
  | source op extent =>
    exact .bind (unnoticed_ask fun _ hs => sameAnswer_extent hs extent) fun width =>
      .bind (unnoticed_wire (Netlist.unnoticed_allocate _ _ _)) fun _ => .pure _
  | reduction op l =>
    exact .bind (unnoticed_ask fun _ hs => sameAnswer_listing hs l) fun bus =>
      .bind (unnoticed_wire (Netlist.unnoticed_reduce _ _)) fun _ => .pure _

theorem unnoticed_feed (e : Expression Signal) (t : Term) : (moreRoom room).Unnoticed (t.feed e) := by
  cases t with
  | operand o =>
    exact .bind (unnoticed_evaluate o) fun _ =>
      .bind (unnoticed_step (Expression.unnoticed_addOperand _)) fun _ => .pure _
  | operator op =>
    exact .bind (unnoticed_step (Expression.unnoticed_addOperator Signal.unnoticed_resolve _)) fun _ => .pure _

theorem unnoticed_formula (terms : List Term) (fault : Option Mismatch) :
    (moreRoom room).Unnoticed (formula terms fault) :=
  .bind (.foldlM unnoticed_feed _ _) fun _ =>
    .bind (unnoticed_step (Expression.unnoticed_compile Signal.unnoticed_resolve)) fun _ =>
      .bind (unnoticed_ask_same fun _ => rfl) fun _ => .bind (unnoticed_ask_same fun _ => rfl) fun _ => .pure _

theorem unnoticed_bindSlot (name : String) (i : Nat) (value : Bus) :
    (moreRoom room).Unnoticed (bindSlot name i value) :=
  .check (.bind (unnoticed_ask_same fun _ => rfl) fun _ => unnoticed_setBus _ _)

theorem unnoticed_receive (target : Target) (slot : Option Nat) (bus : Bus) :
    (moreRoom room).Unnoticed (target.receive slot bus) := by
  unfold Target.receive
  refine .check ?_
  cases slot with
  | some i => exact unnoticed_bindSlot _ i bus
  | none =>
    dsimp only
    split
    · exact .bind (.modify (fun _ hs => hs) fun _ => rfl) fun _ => unnoticed_setBus _ _
    · exact unnoticed_setBus _ _

end Steps

/-! ### Statements -/

/-- The lines of a construct do not notice more room. -/
structure Nested.Unnoticed (room : Nat) (n : Nested) : Prop where
  statement : ∀ line, (moreRoom room).Unnoticed (n.statement line)
  branch : ∀ line, (moreRoom room).Unnoticed (n.branch line)

namespace Nested.Unnoticed

variable {room : Nat} {n : Nested} (h : n.Unnoticed room)
include h

theorem pass (target source : String) (width start stop k : Nat) :
    (moreRoom room).Unnoticed (n.pass target source width start stop k) :=
  .bind (unnoticed_setBus _ _) fun _ => .bind (unnoticed_setCounter _) fun _ =>
    .bind (unnoticed_between h.statement _ _) fun _ => .bind (unnoticed_ask_same fun _ => rfl) fun _ =>
      unnoticed_setBus _ _

theorem loop (target : String) (count : Index) (source : Except Mismatch String) :
    (moreRoom room).Unnoticed (n.loop target count source) := by
  refine .bind (unnoticed_ask_same fun _ => rfl) fun count => .bind (unnoticed_ask_same fun _ => rfl) fun source => ?_
  refine .check (.get (fun s => ?_) fun _ => rfl)
  refine .bind (unnoticed_ask_same fun _ => rfl) fun length => .bind (unnoticed_setCursor _) fun _ => ?_
  refine .bind (unnoticed_ask_same fun _ => rfl) fun initial => .get (fun _ => ?_) fun _ => rfl
  refine .bind (unnoticed_passes (h.pass target source _ _ _) _ _) fun _ => ?_
  exact .bind (unnoticed_ask_same fun _ => rfl) fun _ => .bind (unnoticed_setBus _ _) fun _ =>
    .bind (unnoticed_setCounter _) fun _ => .pure _

theorem select (selector : Ref) (fault : Option Mismatch) : (moreRoom room).Unnoticed (n.select selector fault) :=
  .bind (unnoticed_ask_same fun _ => rfl) fun _ => .bind (unnoticed_ask_same fun _ => rfl) fun _ =>
    .get (fun _ => .bind (unnoticed_body h.branch _) fun _ => unnoticed_wire (Netlist.unnoticed_multiplex _ _))
      fun _ => rfl

theorem evaluate (target : String) (v : Value) : (moreRoom room).Unnoticed (n.evaluate target v) := by
  cases v with
  | fault m => exact unnoticed_raise _
  | loop count source => exact h.loop target count source
  | select selector fault => exact h.select selector fault
  | formula terms fault => exact unnoticed_formula terms fault

theorem assign (target : Target) (value : Except Mismatch Value) :
    (moreRoom room).Unnoticed (n.assign target value) := by
  refine .bind (unnoticed_ask_same fun s => ?_) fun slot => ?_
  · cases target <;> rfl
  exact .bind (unnoticed_ask_same fun _ => rfl) fun v => .bind (h.evaluate _ v) fun bus =>
    unnoticed_receive target slot bus

theorem execute (st : Statement) : (moreRoom room).Unnoticed (n.execute st) := by
  cases st with
  | fault m => exact unnoticed_raise _
  | block => exact .get (fun _ => .bind (unnoticed_body h.statement _) fun _ => .pure _) fun _ => rfl
  | declare name width =>
    exact .bind (unnoticed_ask fun _ hs => sameAnswer_checkWidth hs width) fun _ => unnoticed_setBus _ _
  | input name width =>
    exact .bind (unnoticed_wire (Netlist.unnoticed_addInput _ _)) fun _ => unnoticed_setBus _ _
  | assign target value => exact h.assign target value

end Nested.Unnoticed

theorem unnoticed_nested (room depth : Nat) : (nested depth).Unnoticed room := by
  induction depth with
  | zero => exact ⟨fun _ => unnoticed_raise _, fun _ => unnoticed_raise _⟩
  | succ depth ih =>
    exact ⟨fun line => unnoticed_on line (ih.execute _), fun line => unnoticed_on line (ih.evaluate _ _)⟩

theorem unnoticed_build (room : Nat) : (moreRoom room).Unnoticed Session.build :=
  .get (fun s => unnoticed_upTo (unnoticed_nested room s.lines.size).statement _ _) fun _ => rfl

/-- **Room decides whether a script can be built, never what is built.** If a build does not
fail for want of room, then a build with more room ends the same way, with success or with
the same failure on the same line, and leaves the same session: the same gates, ports,
buses and counters, and only the capacity is another. -/
theorem build_moreRoom (source : String) (seed : UInt64) (small large : Nat) (hroom : small ≤ large)
    (r : Except Failure Unit) (s : Session)
    (hbuild : outcome Session.build (.start source ⟨small, seed⟩) = (r, s))
    (hfull : ∀ f, r = .error f → ∀ capacity, f.cause ≠ .capacityExceeded capacity) :
    outcome Session.build (.start source ⟨large, seed⟩) =
      (r, { s with netlist := { s.netlist with capacity := large } }) := by
  have hbuilt := unnoticed_build large (.start source ⟨small, seed⟩) hroom
  rw [hbuild] at hbuilt
  rcases hbuilt with ⟨f, hf, capacity, hcause⟩ | ⟨_, hsame⟩
  · exact absurd hcause (hfull f hf capacity)
  · exact hsame

/-- Three gates, and then a name that stands for nothing. -/
def tightSample : String := "IN a /2\nb = a.0 AND a.1\nc = [b, d]\n"

/-- The sample to begin with, its lines at hand. -/
def tightStart (capacity : Nat) : Session := .ofLines
  [⟨1, "IN a /2".toList⟩, ⟨2, "b = a.0 AND a.1".toList⟩, ⟨3, "c = [b, d]".toList⟩] ⟨capacity, 0⟩

theorem start_tightSample (capacity : Nat) : Session.start tightSample ⟨capacity, 0⟩ = tightStart capacity :=
  Session.start_eq (by decide +kernel) _

/-- With two gates the sample runs out of room; with three it is built up to the name, and so
it is with more. -/
theorem build_moreRoom_tightSample :
    (outcome Session.build (.start tightSample ⟨2, 0⟩)).1 = .error ⟨.capacityExceeded 2, some 2⟩ ∧
      (outcome Session.build (.start tightSample ⟨3, 0⟩)).1 = .error ⟨.undefinedSymbol "d", some 3⟩ ∧
      (outcome Session.build (.start tightSample ⟨9, 0⟩)).1 = .error ⟨.undefinedSymbol "d", some 3⟩ ∧
      (outcome Session.build (.start tightSample ⟨9, 0⟩)).2.netlist.gates =
        (outcome Session.build (.start tightSample ⟨3, 0⟩)).2.netlist.gates := by
  have hfails : (outcome Session.build (.start tightSample ⟨3, 0⟩)).1 = .error ⟨.undefinedSymbol "d", some 3⟩ := by
    rw [start_tightSample]
    decide +kernel
  have hmore := build_moreRoom tightSample 0 3 9 (by decide) _ _ (outcome_of_result hfails) fun f hf capacity => by
    cases hf
    exact nofun
  rw [hmore]
  refine ⟨?_, hfails, rfl, rfl⟩
  rw [start_tightSample]
  decide +kernel

end Script

end BusLogic
