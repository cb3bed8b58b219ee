import BusLogic.Proofs.Script.Soundness

/-! Depth to spare.

`nested depth` carries out lines that open at most `depth` constructs one inside
another. A construct takes its lines from the cursor on, so on a session that stands
at line `c` of `n`, every depth above `n - c` does the same (`matches_nested`). With
the depth out of the way there is one interpreter, `ample`, that carries out the lines
inside a construct by itself (`ample_statement`, `ample_branch`), and building a script
is letting it carry out the lines that are left (`outcome_build`). -/
namespace BusLogic.Script
open Attempt Run

/-- The lines are `lines`, and the next line to take is line `c` or a later one. -/
structure Session.From (lines : Array Line) (c : Nat) (s : Session) : Prop where
  lines : s.lines = lines
  cursor : c ≤ s.cursor

open Session (From)

/-- Neither the lines nor the cursor are touched. -/
structure Session.Still (s s' : Session) : Prop where
  lines : s'.lines = s.lines
  cursor : s'.cursor = s.cursor

open Session (Still)

instance : IsPreorder Session Still where
  refl _ := ⟨rfl, rfl⟩
  trans _ _ _ hab hbc := ⟨hbc.lines.trans hab.lines, hbc.cursor.trans hab.cursor⟩

theorem Session.Extends.still {s s' : Session} (h : s.Extends s') : s.Still s' :=
  ⟨by rw [h.rest], h.cursor⟩

/-- Neither the lines, the cursor nor the counter are touched. -/
structure Session.Stays (s t : Session) : Prop extends s.Still t where
  counter : t.counter = s.counter

open Session (Stays)

instance : IsPreorder Session Stays where
  refl s := ⟨refl s, rfl⟩
  trans _ _ _ hab hbc := ⟨IsTrans.trans _ _ _ hab.toStill hbc.toStill, hbc.counter.trans hab.counter⟩

theorem stays_receive (target : Target) (slot : Option Nat) (bus : Bus) :
    (target.receive slot bus).Keeps Stays := by
  have hset (name : String) (b : Bus) : (setBus name b).Keeps Stays := fun _ => ⟨⟨rfl, rfl⟩, rfl⟩
  unfold Target.receive
  refine .check ?_
  cases slot with
  | some i => exact .check (.bind (fun s => refl s) fun _ => hset _ _)
  | none =>
    dsimp only
    split
    · exact .bind (fun _ => ⟨⟨rfl, rfl⟩, rfl⟩) fun _ => hset _ _
    · exact hset _ _

/-- From sessions with `P`, the two steps do the same, and `Q` holds of what they answer
and of the session they leave. -/
def Matches {α : Type} (P : Session → Prop) (x y : Run α) (Q : α → Session → Prop) : Prop :=
  ∀ s, P s → outcome x s = outcome y s ∧ ∀ a t, outcome x s = (.ok a, t) → Q a t

namespace Matches

variable {α β : Type} {P : Session → Prop} {Q : α → Session → Prop} {lines : Array Line} {c : Nat}

theorem mono {P' : Session → Prop} {Q' : α → Session → Prop} {x y : Run α} (h : Matches P x y Q)
    (hp : ∀ s, P' s → P s) (hq : ∀ a s, Q a s → Q' a s) : Matches P' x y Q' :=
  fun s hs => ⟨(h s (hp s hs)).1, fun a t ht => hq a t ((h s (hp s hs)).2 a t ht)⟩

theorem bind {x y : Run α} {f g : α → Run β} {Q' : β → Session → Prop} (hx : Matches P x y Q)
    (hf : ∀ a, Matches (Q a) (f a) (g a) Q') : Matches P (x >>= f) (y >>= g) Q' := by
  intro s hs
  obtain ⟨heq, hok⟩ := hx s hs
  rw [outcome_bind, outcome_bind, ← heq]
  rcases hres : outcome x s with ⟨e | a, t⟩
  · exact ⟨rfl, fun _ _ h => by cases h⟩
  · exact hf a t (hok a t hres)

protected theorem pure {a : α} (h : ∀ s, P s → Q a s) : Matches P (pure a) (pure a) Q := by
  refine fun s hs => ⟨rfl, fun a' t ht => ?_⟩
  cases ht
  exact h s hs

protected theorem throw (e : Failure) : Matches P (throw e) (throw e) Q :=
  fun _ _ => ⟨rfl, fun _ _ h => by cases h⟩

protected theorem get : Matches P get get fun a s => P a ∧ P s := by
  refine fun s hs => ⟨rfl, fun a t h => ?_⟩
  cases h
  exact ⟨hs, hs⟩

protected theorem ite {p : Prop} [Decidable p] {x x' y y' : Run α} (hx : p → Matches P x x' Q)
    (hy : ¬ p → Matches P y y' Q) : Matches P (if p then x else y) (if p then x' else y') Q := by
  split
  · rename_i h
    exact hx h
  · rename_i h
    exact hy h

theorem check {p : Prop} [Decidable p] {e : Failure} {f g : PUnit → Run α}
    (h : Matches P (f ⟨⟩) (g ⟨⟩) Q) :
    Matches P (if p then MonadExcept.throw e >>= f else f ⟨⟩)
      (if p then MonadExcept.throw e >>= g else g ⟨⟩) Q := by
  split
  · exact fun _ _ => ⟨rfl, fun _ _ h => by cases h⟩
  · exact h

/-- A step that leaves the cursor alone. -/
theorem still {x : Run α} (h : x.Keeps Still) :
    Matches (From lines c) x x fun _ => From lines c := by
  refine fun s hs => ⟨rfl, fun a t ht => ?_⟩
  have hst := h.reached ht
  exact ⟨hst.lines.trans hs.lines, hst.cursor.symm ▸ hs.cursor⟩

theorem ask (f : Session → Except Error α) : Matches (From lines c) (ask f) (ask f) fun _ => From lines c :=
  .still fun s => refl s

theorem setBus (name : String) (b : Bus) :
    Matches (From lines c) (setBus name b) (setBus name b) fun _ => From lines c :=
  .still fun _ => ⟨rfl, rfl⟩

theorem setCounter (counter : Option Nat) :
    Matches (From lines c) (setCounter counter) (setCounter counter) fun _ => From lines c :=
  .still fun _ => ⟨rfl, rfl⟩

theorem setCursor {cursor : Nat} (h : c ≤ cursor) :
    Matches (From lines c) (setCursor cursor) (setCursor cursor) fun _ => From lines c := by
  refine fun s hs => ⟨rfl, fun a t ht => ?_⟩
  cases ht
  exact ⟨hs.lines, h⟩

theorem wire (x : Attempt Error Netlist α) :
    Matches (From lines c) (wire x) (wire x) fun _ => From lines c :=
  .still fun _ => ⟨rfl, rfl⟩

theorem on {x y : Run α} (line : Line) (h : Matches P x y Q) : Matches P (on line x) (on line y) Q := by
  intro s hs
  obtain ⟨heq, hok⟩ := h s hs
  refine ⟨?_, fun a t ht => hok a t (on_ok ht)⟩
  show ((outcome x s).1.mapError _, (outcome x s).2) = ((outcome y s).1.mapError _, (outcome y s).2)
  rw [heq]

/-- A line taken from line `c` on leaves the cursor past it, and within the lines. -/
theorem nextLine : Matches (From lines c) nextLine nextLine
    fun _ s => From lines (c + 1) s ∧ s.cursor ≤ lines.size := by
  refine fun s hs => ⟨rfl, fun line t ht => ?_⟩
  obtain ⟨_, _, hget, h⟩ := outcome_bind_ok ht
  cases hget
  split at h
  · cases h
  · rename_i hline
    obtain ⟨_, _, hset, h⟩ := outcome_bind_ok h
    cases hset
    cases h
    have hlt : s.cursor < s.lines.size := (Array.getElem?_eq_some_iff.mp hline).1
    refine ⟨⟨hs.lines, Nat.succ_le_succ hs.cursor⟩, ?_⟩
    rw [← hs.lines]
    exact hlt

end Matches

/-- The two do the same with the lines of a construct, from line `c` on. -/
structure Nested.Matches (lines : Array Line) (c : Nat) (n m : Nested) : Prop where
  statement : ∀ line, Script.Matches (fun s => From lines c s ∧ s.cursor ≤ lines.size) (n.statement line)
    (m.statement line) fun _ => From lines c
  branch : ∀ line, Script.Matches (fun s => From lines c s ∧ s.cursor ≤ lines.size) (n.branch line)
    (m.branch line) fun _ => From lines c

section Lines
variable {α : Type} {lines : Array Line} {c : Nat} {each each' : Line → Run α}
  (he : ∀ line, Matches (fun s => From lines (c + 1) s ∧ s.cursor ≤ lines.size) (each line) (each' line)
    fun _ => From lines (c + 1))
include he

theorem Matches.body (budget : Nat) :
    Matches (From lines c) (body each budget) (body each' budget) fun _ => From lines c := by
  have hlater (s : Session) (hs : From lines (c + 1) s) : From lines c s :=
    ⟨hs.lines, Nat.le_of_succ_le hs.cursor⟩
  induction budget with
  | zero => exact .throw _
  | succ budget ih =>
    refine .bind .nextLine fun line => .ite (fun _ => .pure fun s hs => hlater s hs.1) fun _ => ?_
    refine .bind (he line) fun _ => ?_
    refine .bind (ih.mono hlater fun _ _ => id) fun _ => .pure fun _ => id

end Lines

section Statements
variable {lines : Array Line} {c : Nat} {each each' : Line → Run Unit}
  (he : ∀ line, Matches (fun s => From lines (c + 1) s ∧ s.cursor ≤ lines.size) (each line) (each' line)
    fun _ => From lines (c + 1))
include he

theorem Matches.upTo (stop budget : Nat) :
    Matches (From lines c) (upTo each stop budget) (upTo each' stop budget) fun _ => From lines c := by
  have hlater (s : Session) (hs : From lines (c + 1) s) : From lines c s :=
    ⟨hs.lines, Nat.le_of_succ_le hs.cursor⟩
  induction budget with
  | zero => exact .pure fun _ => id
  | succ budget ih =>
    refine .bind .get fun a => .ite (fun _ => ?_) fun _ => .pure fun _ => And.right
    refine .bind (Matches.nextLine.mono (fun _ => And.right) fun _ _ => id) fun line => ?_
    exact .bind (he line) fun _ => ih.mono hlater fun _ _ => id

theorem Matches.between {start : Nat} (hstart : c ≤ start) (stop : Nat) :
    Matches (From lines c) (between each start stop) (between each' start stop) fun _ => From lines c := by
  refine .bind .get fun a s hs => ?_
  refine Matches.bind (P := From lines c) (.setCursor hstart) (fun _ => ?_) s hs.2
  exact .bind (.upTo he stop _) fun _ => .setCursor hs.1.cursor

end Statements

theorem Matches.passes {P : Session → Prop} {pass pass' : Nat → Run Unit}
    (h : ∀ k, Matches P (pass k) (pass' k) fun _ => P) (n k : Nat) :
    Matches P (passes pass n k) (passes pass' n k) fun _ => P := by
  induction n generalizing k with
  | zero => exact .pure fun _ => id
  | succ n ih => exact .bind (h k) fun _ => ih (k + 1)

namespace Nested.Matches

variable {lines : Array Line} {c : Nat} {n m : Nested} (h : n.Matches lines (c + 1) m)
include h

theorem pass (target source : String) (width : Nat) {start : Nat} (hstart : c ≤ start) (stop k : Nat) :
    Script.Matches (From lines c) (n.pass target source width start stop k)
      (m.pass target source width start stop k) fun _ => From lines c :=
  .bind (.setBus _ _) fun _ => .bind (.setCounter _) fun _ =>
    .bind (.between h.statement hstart stop) fun _ => .bind (.ask _) fun _ => .setBus _ _

theorem loop (target : String) (count : Index) (source : Except Mismatch String) :
    Script.Matches (From lines c) (n.loop target count source) (m.loop target count source)
      fun _ => From lines c := by
  refine .bind (.ask _) fun count => .bind (.ask _) fun source => ?_
  refine .check (.bind .get fun a s hs => ?_)
  have hc : c ≤ a.cursor := hs.1.cursor
  refine Script.Matches.bind (P := From lines c) (.ask _) (fun length => ?_) s hs.2
  refine .bind (.setCursor (by omega)) fun _ => .bind (.ask _) fun initial => ?_
  refine .bind .get fun b => ?_
  refine .bind (Script.Matches.mono (.passes (fun k => h.pass target source _ hc _ k) _ 0)
    (fun _ => And.right) fun _ _ => id) fun _ => ?_
  exact .bind (.ask _) fun result => .bind (.setBus _ _) fun _ => .bind (.setCounter _) fun _ =>
    .pure fun _ => id

theorem select (selector : Ref) (fault : Option Mismatch) :
    Script.Matches (From lines c) (n.select selector fault) (m.select selector fault)
      fun _ => From lines c := by
  refine .bind (.ask _) fun selector => .bind (.ask _) fun _ => .bind .get fun a => ?_
  exact .bind ((Script.Matches.body h.branch _).mono (fun _ => And.right) fun _ _ => id) fun _ => .wire _

theorem evaluate (target : String) (v : Value) :
    Script.Matches (From lines c) (n.evaluate target v) (m.evaluate target v) fun _ => From lines c := by
  cases v with
  | fault m => exact .throw _
  | loop count source => exact h.loop target count source
  | select selector fault => exact h.select selector fault
  | formula terms fault =>
    exact .still ((extends_formula terms fault).mono fun _ _ => Session.Extends.still)

theorem assign (target : Target) (value : Except Mismatch Value) :
    Script.Matches (From lines c) (n.assign target value) (m.assign target value) fun _ => From lines c := by
  refine .bind (.ask _) fun slot => .bind (.ask _) fun v => .bind (h.evaluate _ v) fun bus => ?_
  exact .still ((stays_receive target slot bus).mono fun _ _ => Stays.toStill)

theorem execute (st : Statement) :
    Script.Matches (From lines c) (n.execute st) (m.execute st) fun _ => From lines c := by
  cases st with
  | fault m => exact .throw _
  | block =>
    refine .bind .get fun a => .bind ?_ fun _ => .pure fun _ => id
    exact (Script.Matches.body h.statement _).mono (fun _ => And.right) fun _ _ => id
  | declare name width => exact .bind (.ask _) fun _ => .setBus _ _
  | input name width => exact .bind (.wire _) fun _ => .setBus _ _
  | assign target value => exact h.assign target value

end Nested.Matches

/-- More depth than there are lines left changes nothing. -/
theorem matches_nested (lines : Array Line) {c d e : Nat} (hd : lines.size < c + d)
    (he : lines.size < c + e) : (nested d).Matches lines c (nested e) := by
  induction d generalizing c e with
  | zero => exact ⟨fun _ s hs => by have := hs.1.cursor; omega, fun _ s hs => by have := hs.1.cursor; omega⟩
  | succ d ih =>
    cases e with
    | zero => exact ⟨fun _ s hs => by have := hs.1.cursor; omega, fun _ s hs => by have := hs.1.cursor; omega⟩
    | succ e =>
      have hin : (nested d).Matches lines (c + 1) (nested e) := ih (by omega) (by omega)
      exact ⟨fun line => .mono (.on line (hin.execute _)) (fun _ => And.left) fun _ _ => id,
        fun line => .mono (.on line (hin.evaluate _ _)) (fun _ => And.left) fun _ _ => id⟩

/-- Carries out a line with depth to spare. -/
def ample : Nested where
  statement line := fun s => (nested (s.lines.size + 1)).statement line s
  branch line := fun s => (nested (s.lines.size + 1)).branch line s

theorem outcome_ample_statement (line : Line) (s : Session) :
    outcome (ample.statement line) s = outcome ((nested (s.lines.size + 1)).statement line) s := by
  show (nested (s.lines.size + 1)).statement line s = _
  rfl

theorem outcome_ample_branch (line : Line) (s : Session) :
    outcome (ample.branch line) s = outcome ((nested (s.lines.size + 1)).branch line) s := by
  show (nested (s.lines.size + 1)).branch line s = _
  rfl

theorem matches_ample (lines : Array Line) {c d : Nat} (hd : lines.size < c + d) :
    (nested d).Matches lines c ample := by
  have h : (nested d).Matches lines c (nested (lines.size + 1)) := matches_nested lines hd (by omega)
  refine ⟨fun line s hs => ?_, fun line s hs => ?_⟩
  · obtain ⟨heq, hok⟩ := h.statement line s hs
    rw [outcome_ample_statement, hs.1.lines]
    exact ⟨heq, hok⟩
  · obtain ⟨heq, hok⟩ := h.branch line s hs
    rw [outcome_ample_branch, hs.1.lines]
    exact ⟨heq, hok⟩

/-- The lines inside a construct are carried out with depth to spare, too. -/
theorem ample_statement (line : Line) (s : Session) :
    outcome (ample.statement line) s = outcome (on line (ample.execute (statement line.text))) s := by
  have h : (nested s.lines.size).Matches s.lines 1 ample := matches_ample s.lines (by omega)
  rw [outcome_ample_statement]
  exact (Matches.on line (h.execute _) s ⟨rfl, Nat.zero_le _⟩).1

theorem ample_branch (line : Line) (s : Session) :
    outcome (ample.branch line) s = outcome (on line (ample.evaluate "" (value line.text))) s := by
  have h : (nested s.lines.size).Matches s.lines 1 ample := matches_ample s.lines (by omega)
  rw [outcome_ample_branch]
  exact (Matches.on line (h.evaluate _ _) s ⟨rfl, Nat.zero_le _⟩).1

/-- Building carries out the lines that are left. -/
theorem outcome_build (s : Session) : outcome Session.build s =
    outcome (upTo ample.statement s.lines.size (s.lines.size - s.cursor)) s := by
  show outcome (get >>= _) s = _
  rw [outcome_bind, outcome_get]
  have h : (nested s.lines.size).Matches s.lines 1 ample := matches_ample s.lines (by omega)
  exact (Matches.upTo (c := 0) h.statement _ _ s ⟨rfl, Nat.zero_le _⟩).1

/-- It leaves sound sessions sound, as every depth does. -/
theorem safe_ample : ample.Safe := by
  constructor
  · intro line s hs
    obtain ⟨hadvances, hsound, hok⟩ := (safe_nested (s.lines.size + 1)).statement line s hs
    rw [← outcome_ample_statement] at hadvances hsound hok
    exact ⟨hadvances, hsound, hok⟩
  · intro line s hs
    obtain ⟨hadvances, hsound, hok⟩ := (safe_nested (s.lines.size + 1)).branch line s hs
    rw [← outcome_ample_branch] at hadvances hsound hok
    exact ⟨hadvances, hsound, hok⟩

end BusLogic.Script
