import BusLogic.Proofs.Script.Cursor
import BusLogic.Proofs.Script.Soundness
import BusLogic.Proofs.Text

/-! Where failures are placed.

A line that is carried out may hand lines on, those of its construct, and these may do so
again. `Raises` follows an error along this path, down to the line whose own part of the
work raised it. The interpreter knows of no path: it places a failure on whatever line it
leaves, unless the failure has been placed before. Since nothing else places failures
(`Unplaced`), both come to the same line (`raises_iff`): the innermost that was being carried
out. If this line opens a construct whose `END` is missing, the error is that the script
ends (`Raises.unclosed`). -/
namespace BusLogic.Script
open Attempt Run

/-! ### Failures without a line -/

/-- Whatever fails has not been placed on a line. -/
def Unplaced {α : Type} (x : Run α) : Prop := ∀ s, x.FailsOnly (fun f => f.line = none) s

namespace Unplaced
variable {α β : Type}

protected theorem pure (a : α) : Unplaced (pure a) := fun _ => .pure a

protected theorem get : Unplaced get := fun _ => .get

protected theorem modify (f : Session → Session) : Unplaced (modify f) := fun _ => .modify f

protected theorem raise (e : Error) : Unplaced (raise e : Run α) := fun _ => .throw rfl

protected theorem ask (f : Session → Except Error α) : Unplaced (ask f) := by
  intro s _ _ ho
  obtain ⟨e, _, rfl⟩ := except_mapError_error (congrArg Prod.fst ho)
  rfl

protected theorem wire (x : Attempt Error Netlist α) : Unplaced (wire x) := by
  intro s _ _ ho
  obtain ⟨e, _, rfl⟩ := except_mapError_error (congrArg Prod.fst ho)
  rfl

protected theorem compile (e : Expression Signal) (x : Expression.Step Signal Netlist α) :
    Unplaced (compile e x) := by
  intro s _ _ ho
  obtain ⟨e, _, rfl⟩ := except_mapError_error (congrArg Prod.fst ho)
  rfl

protected theorem map (f : α → β) {x : Run α} (hx : Unplaced x) : Unplaced (f <$> x) := fun s => .map f (hx s)

protected theorem bind {x : Run α} {f : α → Run β} (hx : Unplaced x) (hf : ∀ a, Unplaced (f a)) :
    Unplaced (x >>= f) := fun s => .bind (hx s) fun a t _ => hf a t

protected theorem check {c : Prop} [Decidable c] {e : Error} {f : PUnit → Run α} (hf : Unplaced (f ⟨⟩)) :
    Unplaced (if c then raise e >>= f else f ⟨⟩) := fun s => .check (fun _ => rfl) fun _ => hf s

protected theorem foldlM {f : β → α → Run β} (hf : ∀ b a, Unplaced (f b a)) (as : List α) (b : β) :
    Unplaced (as.foldlM f b) := by
  induction as generalizing b with
  | nil => exact .pure b
  | cons a rest ih => exact .bind (hf b a) ih

/-! ### Formulas -/

protected theorem operand (o : Operand) : Unplaced o.evaluate := by
  cases o with
  | ref r => exact .ask _
  | list l => exact .ask _
  | source op extent => exact .bind (.ask _) fun _ => .bind (.wire _) fun _ => .pure _
  | reduction op l => exact .bind (.ask _) fun _ => .bind (.wire _) fun _ => .pure _

protected theorem feed (e : Expression Signal) (t : Term) : Unplaced (t.feed e) := by
  cases t with
  | operand o => exact .bind (.operand o) fun _ => .bind (.compile _ _) fun _ => .pure _
  | operator op => exact .bind (.compile _ _) fun _ => .pure _

protected theorem formula (terms : List Term) (fault : Option Mismatch) : Unplaced (formula terms fault) :=
  .bind (.foldlM .feed terms _) fun _ => .bind (.compile _ _) fun _ => .bind (.ask _) fun _ =>
    .bind (.ask _) fun _ => .pure _

protected theorem bindSlot (name : String) (i : Nat) (bus : Bus) : Unplaced (bindSlot name i bus) := by
  unfold bindSlot
  exact .check (.bind (.ask _) fun _ => .modify _)

protected theorem receive (target : Target) (slot : Option Nat) (bus : Bus) :
    Unplaced (target.receive slot bus) := by
  unfold Target.receive
  refine .check ?_
  cases slot with
  | some i => exact .bindSlot target.name i bus
  | none =>
    dsimp only
    split
    · exact .bind (.modify _) fun _ => .modify _
    · exact .modify _

/-! ### Statements

Nothing is placed if the lines of constructs place nothing. -/

protected theorem nextLine : Unplaced nextLine := by
  refine .bind .get fun s => ?_
  split
  · exact .raise _
  · exact .bind (.modify _) fun _ => .pure _

protected theorem body {each : Line → Run α} (h : ∀ l, Unplaced (each l)) (budget : Nat) :
    Unplaced (body each budget) := by
  induction budget with
  | zero => exact .raise _
  | succ budget ih =>
    refine .bind .nextLine fun l => ?_
    split
    · exact .pure _
    · exact .bind (h l) fun _ => .bind ih fun _ => .pure _

protected theorem upTo {each : Line → Run Unit} (h : ∀ l, Unplaced (each l)) (stop budget : Nat) :
    Unplaced (upTo each stop budget) := by
  induction budget with
  | zero => exact .pure _
  | succ budget ih =>
    refine .bind .get fun s => ?_
    split
    · exact .bind .nextLine fun l => .bind (h l) fun _ => ih
    · exact .pure _

protected theorem passes {pass : Nat → Run Unit} (h : ∀ k, Unplaced (pass k)) (times k : Nat) :
    Unplaced (passes pass times k) := by
  induction times generalizing k with
  | zero => exact .pure _
  | succ times ih => exact .bind (h k) fun _ => ih (k + 1)

section Nested
variable {n : Nested} (hs : ∀ l, Unplaced (n.statement l)) (hb : ∀ l, Unplaced (n.branch l))

include hs in
protected theorem pass (target source : String) (width start stop k : Nat) :
    Unplaced (n.pass target source width start stop k) := by
  have hbetween : Unplaced (between n.statement start stop) :=
    .bind .get fun _ => .bind (.modify _) fun _ => .bind (.upTo hs _ _) fun _ => .modify _
  exact .bind (.modify _) fun _ => .bind (.modify _) fun _ => .bind hbetween fun _ => .bind (.ask _) fun _ => .modify _

include hs in
protected theorem loop (target : String) (count : Index) (source : Except Mismatch String) :
    Unplaced (n.loop target count source) := by
  refine .bind (.ask _) fun times => .bind (.ask _) fun source => .check ?_
  refine .bind .get fun s => .bind (.ask _) fun length => .bind (.modify _) fun _ => .bind (.ask _) fun initial => ?_
  refine .bind .get fun s => .bind (.passes (.pass hs _ _ _ _ _) _ _) fun _ => .bind (.ask _) fun _ => ?_
  exact .bind (.modify _) fun _ => .bind (.modify _) fun _ => .pure _

include hb in
protected theorem select (selector : Ref) (fault : Option Mismatch) : Unplaced (n.select selector fault) :=
  .bind (.ask _) fun _ => .bind (.ask _) fun _ => .bind .get fun _ => .bind (.body hb _) fun _ => .wire _

include hs hb

protected theorem evaluate (target : String) (v : Value) : Unplaced (n.evaluate target v) := by
  cases v with
  | fault m => exact .raise _
  | loop count source => exact .loop hs target count source
  | select selector fault => exact .select hb selector fault
  | formula terms fault => exact .formula terms fault

protected theorem execute (st : Statement) : Unplaced (n.execute st) := by
  cases st with
  | fault m => exact .raise _
  | block => exact .bind .get fun _ => .bind (.body hs _) fun _ => .pure _
  | declare name width => exact .bind (.ask _) fun _ => .modify _
  | input name width => exact .bind (.wire _) fun _ => .modify _
  | assign target value =>
    exact .bind (.ask _) fun slot => .bind (.ask _) fun v => .bind (.evaluate hs hb target.name v) fun bus =>
      .receive target slot bus

protected theorem own (branch : Bool) (l : Line) : Unplaced (n.own branch l) := by
  cases branch with
  | true => exact .map _ (.evaluate hs hb "" (value l.text))
  | false => exact .map _ (.execute hs hb (statement l.text))

end Nested

end Unplaced

/-- A line without a construct places no failure. -/
theorem Line.unplaced_of_none {branch : Bool} {l : Line} {s t : Session} {f : Failure}
    (hc : l.construct? branch s = none) {n : Nested} (h : outcome (n.own branch l) s = (.error f, t)) :
    f.line = none := by
  -- it never comes to other lines, so let these fail at once
  rw [Line.own_of_none hc n (nested 0)] at h
  exact Unplaced.own (n := nested 0) (fun _ => .raise _) (fun _ => .raise _) branch l s f t h

theorem Value.unplaced_finish {v : Value} {target : String} {finish : Bus → Run (List Bus)} {s : Session}
    {c : Construct} (hc : v.construct? target finish s = some c) (hfinish : ∀ bus, Unplaced (finish bus))
    (as : List Bus) : Unplaced (c.finish as) := by
  unfold construct? at hc
  split at hc
  · split at hc
    · cases hc
      exact .bind (.wire _) hfinish
    · cases hc
  · split at hc
    · split at hc
      · cases hc
      · cases hc
        exact .bind (.ask _) fun bus => .bind (.modify _) fun _ => .bind (.modify _) fun _ => hfinish bus
    · cases hc
  · cases hc

/-- Nor does what a line makes of the answers of its construct. -/
theorem Line.unplaced_finish {branch : Bool} {l : Line} {s : Session} {c : Construct}
    (hc : l.construct? branch s = some c) (as : List Bus) : Unplaced (c.finish as) := by
  cases branch with
  | true => exact Value.unplaced_finish hc (fun bus => .pure _) as
  | false =>
    simp only [construct?, Bool.false_eq_true, if_false] at hc
    split at hc
    · cases hc
      exact .pure _
    · split at hc
      · exact Value.unplaced_finish hc (fun bus => .map _ (.receive _ _ bus)) as
      · cases hc
    · cases hc

/-! ### The path of an error -/

/-- A line that is being carried out, as a branch of a selection or as a statement, and the
session that it was handed to. -/
structure Activation where
  branch : Bool
  line : Line
  session : Session

/-- The task, given to the session, raises the error while the lines of the path are being
carried out, the outermost first and each in the construct of the one before it. The last
of them raises the error by itself, and if there are none, the task does. -/
inductive Raises : Task → Session → List Activation → Error → Prop
  | plain {branch : Bool} {l : Line} {s : Session} {e : Error} (hc : l.construct? branch s = none)
    (h : ∀ n : Nested, (outcome (n.own branch l) s).1 = .error (.of e)) :
    Raises (.line branch l) s [⟨branch, l, s⟩] e
  | construct {branch : Bool} {l : Line} {s : Session} {c : Construct} {path : List Activation} {e : Error}
    (hc : l.construct? branch s = some c) (h : Raises c.task c.entry path e) :
    Raises (.line branch l) s (⟨branch, l, s⟩ :: path) e
  | finish {branch : Bool} {l : Line} {s t : Session} {c : Construct} {trace : List Event} {as : List Bus} {e : Error}
    (hc : l.construct? branch s = some c) (h : Completes c.task c.entry trace (.ok as, t))
    (hf : (outcome (c.finish as) t).1 = .error (.of e)) : Raises (.line branch l) s [⟨branch, l, s⟩] e
  | rowsOut {branch : Bool} {s : Session} (hl : s.lines[s.cursor]? = none) : Raises (.rows branch) s [] .unexpectedEnd
  | rowsHere {branch : Bool} {s : Session} {l : Line} {path : List Activation} {e : Error}
    (hl : s.lines[s.cursor]? = some l) (he : l.isEnd = false)
    (h : Raises (.line branch l) { s with cursor := s.cursor + 1 } path e) : Raises (.rows branch) s path e
  | rowsNext {branch : Bool} {s t : Session} {l : Line} {trace : List Event} {as : List Bus} {path : List Activation}
    {e : Error} (hl : s.lines[s.cursor]? = some l) (he : l.isEnd = false)
    (h : Completes (.line branch l) { s with cursor := s.cursor + 1 } trace (.ok as, t))
    (h' : Raises (.rows branch) t path e) : Raises (.rows branch) s path e
  | linesOut {stop : Nat} {s : Session} (hs : s.cursor < stop) (hl : s.lines[s.cursor]? = none) :
    Raises (.linesTo stop) s [] .unexpectedEnd
  | linesHere {stop : Nat} {s : Session} {l : Line} {path : List Activation} {e : Error} (hs : s.cursor < stop)
    (hl : s.lines[s.cursor]? = some l) (h : Raises (.line false l) { s with cursor := s.cursor + 1 } path e) :
    Raises (.linesTo stop) s path e
  | linesNext {stop : Nat} {s t : Session} {l : Line} {trace : List Event} {as : List Bus} {path : List Activation}
    {e : Error} (hs : s.cursor < stop) (hl : s.lines[s.cursor]? = some l)
    (h : Completes (.line false l) { s with cursor := s.cursor + 1 } trace (.ok as, t))
    (h' : Raises (.linesTo stop) t path e) : Raises (.linesTo stop) s path e
  | passesHere {round : Round} {times k : Nat} {s : Session} {path : List Activation} {e : Error}
    (h : Raises (.linesTo round.stop) (round.enter k s) path e) : Raises (.passes round (times + 1) k) s path e
  | passesUnknown {round : Round} {times k : Nat} {s u : Session} {trace : List Event} {as : List Bus} {e : Error}
    (h : Completes (.linesTo round.stop) (round.enter k s) trace (.ok as, u))
    (hn : u.lookup round.target = .error e) : Raises (.passes round (times + 1) k) s [] e
  | passesNext {round : Round} {times k : Nat} {s u : Session} {trace : List Event} {as : List Bus} {next : Bus}
    {path : List Activation} {e : Error} (h : Completes (.linesTo round.stop) (round.enter k s) trace (.ok as, u))
    (hn : u.lookup round.target = .ok next)
    (h' : Raises (.passes round times (k + 1)) (round.leave s u next) path e) :
    Raises (.passes round (times + 1) k) s path e

/-- The number of the last line of a path. -/
def innermost (path : List Activation) : Option Nat := path.getLast?.map fun act => act.line.number

theorem innermost_cons (act : Activation) (path : List Activation) :
    innermost (act :: path) = some ((innermost path).getD act.line.number) := by
  rw [innermost, innermost, List.getLast?_cons]
  cases path.getLast? <;> rfl

/-! ### The path and the line of a failure -/

section Place
variable {α : Type}

theorem atLine_line (n : Nat) (f : Failure) : (f.atLine n).line = some (f.line.getD n) := by
  obtain ⟨cause, _ | m⟩ := f <;> rfl

theorem eq_of_line {f : Failure} (h : f.line = none) : f = .of f.cause := by
  obtain ⟨cause, line⟩ := f
  cases h
  rfl

/-- What fails on a line is placed there, unless it has been placed. -/
theorem on_error {x : Run α} {l : Line} {s t : Session} {f : Failure} (h : outcome (on l x) s = (.error f, t)) :
    ∃ f₀, outcome x s = (.error f₀, t) ∧ f = f₀.atLine l.number := by
  rw [outcome_on] at h
  obtain ⟨herror, rfl⟩ := Prod.mk.inj h
  obtain ⟨f₀, hf₀, rfl⟩ := except_mapError_error herror
  exact ⟨f₀, outcome_of_result hf₀, rfl⟩

end Place

/-- A failure has come along a path, and is placed on its last line. -/
theorem Completes.raises {task : Task} {s t : Session} {trace : List Event} {f : Failure}
    (h : Completes task s trace (.error f, t)) : ∃ path, Raises task s path f.cause ∧ f.line = innermost path := by
  -- on the way back up, a line adds itself to the path, and its number only to an empty one
  generalize hr : (Except.error f, t) = r at h
  induction h generalizing f t with
  | @plain branch l s r hc h =>
    obtain ⟨f₀, hown, rfl⟩ := on_error (x := ample.own branch l) ((h ample).trans hr.symm)
    have hf₀ := eq_of_line (Line.unplaced_of_none hc hown)
    refine ⟨[⟨branch, l, s⟩], .plain hc fun n => ?_, ?_⟩
    · rw [Line.own_of_none hc n ample, hown, Failure.atLine_cause, ← hf₀]
    · rw [hf₀, Failure.atLine_of]
      rfl
  | @construct branch l s c trace r hc h ih =>
    obtain ⟨f₀, hout, rfl⟩ := on_error hr.symm
    rw [Failure.atLine_cause, atLine_line]
    rcases r with ⟨f₁ | as, u⟩
    · cases hout
      obtain ⟨path, hpath, hline⟩ := ih rfl
      exact ⟨_, .construct hc hpath, by rw [innermost_cons, hline]⟩
    · -- the lines are done, so the line itself has failed
      have hfinish : outcome (c.finish as) u = (.error f₀, t) := hout
      have hf₀ := eq_of_line (Line.unplaced_finish hc as u f₀ t hfinish)
      refine ⟨_, .finish hc h (by rw [hfinish, ← hf₀]), ?_⟩
      rw [hf₀]
      rfl
  | rowsOut hl =>
    cases hr
    exact ⟨[], .rowsOut hl, rfl⟩
  | rowsEnd hl he => cases hr
  | rowsFail hl he _ ih =>
    cases hr
    obtain ⟨path, hpath, hline⟩ := ih rfl
    exact ⟨path, .rowsHere hl he hpath, hline⟩
  | @rowsNext branch s u l trace trace' as r hl he h _ ih ih' =>
    rcases r with ⟨f' | bs, t'⟩
    · cases hr
      obtain ⟨path, hpath, hline⟩ := ih' rfl
      exact ⟨path, .rowsNext hl he h hpath, hline⟩
    · cases hr
  | linesDone hs => cases hr
  | linesOut hs hl =>
    cases hr
    exact ⟨[], .linesOut hs hl, rfl⟩
  | linesFail hs hl _ ih =>
    cases hr
    obtain ⟨path, hpath, hline⟩ := ih rfl
    exact ⟨path, .linesHere hs hl hpath, hline⟩
  | linesNext hs hl h _ ih ih' =>
    obtain ⟨path, hpath, hline⟩ := ih' hr
    exact ⟨path, .linesNext hs hl h hpath, hline⟩
  | passesDone => cases hr
  | passesFail _ ih =>
    cases hr
    obtain ⟨path, hpath, hline⟩ := ih rfl
    exact ⟨path, .passesHere hpath, hline⟩
  | passesUnknown h hn ih =>
    cases hr
    exact ⟨[], .passesUnknown h hn, rfl⟩
  | passesNext h hn _ ih ih' =>
    obtain ⟨path, hpath, hline⟩ := ih' hr
    exact ⟨path, .passesNext h hn hpath, hline⟩

/-- What is raised along a path is the failure that the task comes to. -/
theorem Raises.completes {task : Task} {s : Session} {path : List Activation} {e : Error} (h : Raises task s path e) :
    ∃ trace t, Completes task s trace (.error ⟨e, innermost path⟩, t) := by
  induction h with
  | @plain branch l s e hc h =>
    refine ⟨[], (outcome (ample.own branch l) s).2, .plain hc fun n => ?_⟩
    rw [Line.outcome_of_none hc n ample, Nested.upon, outcome_on, h ample]
    rfl
  | @construct branch l s c path e hc _ ih =>
    obtain ⟨trace, t, h⟩ := ih
    have hline := Completes.construct hc h
    have hplace : outcome (on l (ended (.error ⟨e, innermost path⟩, t) >>= c.finish)) s =
        (.error (Failure.atLine l.number ⟨e, innermost path⟩), t) := rfl
    have hatLine : Failure.atLine l.number ⟨e, innermost path⟩ = ⟨e, innermost (⟨branch, l, s⟩ :: path)⟩ := by
      rw [innermost_cons]
      cases innermost path <;> rfl
    rw [hplace, hatLine] at hline
    exact ⟨_, t, hline⟩
  | @finish branch l s t c trace as e hc h hf =>
    have hline := Completes.construct hc h
    have hplace : outcome (on l (ended (.ok as, t) >>= c.finish)) s =
        ((outcome (c.finish as) t).1.mapError (·.atLine l.number), (outcome (c.finish as) t).2) := rfl
    rw [hplace, hf] at hline
    exact ⟨_, _, hline⟩
  | rowsOut hl => exact ⟨_, _, .rowsOut hl⟩
  | rowsHere hl he _ ih =>
    obtain ⟨trace, t, h⟩ := ih
    exact ⟨_, t, .rowsFail hl he h⟩
  | rowsNext hl he h _ ih =>
    obtain ⟨trace, t, h'⟩ := ih
    exact ⟨_, t, .rowsNext hl he h h'⟩
  | linesOut hs hl => exact ⟨_, _, .linesOut hs hl⟩
  | linesHere hs hl _ ih =>
    obtain ⟨trace, t, h⟩ := ih
    exact ⟨_, t, .linesFail hs hl h⟩
  | linesNext hs hl h _ ih =>
    obtain ⟨trace, t, h'⟩ := ih
    exact ⟨_, t, .linesNext hs hl h h'⟩
  | passesHere _ ih =>
    obtain ⟨trace, t, h⟩ := ih
    exact ⟨_, t, .passesFail h⟩
  | passesUnknown h hn => exact ⟨_, _, .passesUnknown h hn⟩
  | passesNext h hn _ ih =>
    obtain ⟨trace, t, h'⟩ := ih
    exact ⟨_, t, .passesNext h hn h'⟩

/-- **A task fails exactly with what is raised along a path**, placed on the last line. -/
theorem raises_iff {task : Task} {s : Session} {f : Failure} :
    (outcome (task.run ample) s).1 = .error f ↔ ∃ path, Raises task s path f.cause ∧ f.line = innermost path := by
  constructor
  · intro hf
    obtain ⟨trace, r, h⟩ := exists_completes task s
    have hr : r = (.error f, r.2) := Prod.ext (by rw [← hf, h.outcome_eq]) rfl
    rw [hr] at h
    exact h.raises
  · rintro ⟨path, hpath, hline⟩
    obtain ⟨trace, t, h⟩ := hpath.completes
    rw [h.outcome_eq, ← hline]

/-! ### The lines of a path -/

theorem Raises.line_ne_nil {branch : Bool} {l : Line} {s : Session} {path : List Activation} {e : Error}
    (h : Raises (.line branch l) s path e) : path ≠ [] := by
  cases h <;> exact List.cons_ne_nil _ _

/-- As long as there are lines, it is one of them that fails. -/
theorem Raises.linesTo_ne_nil {stop : Nat} {s : Session} {path : List Activation} {e : Error}
    (h : Raises (.linesTo stop) s path e) (hstop : stop ≤ s.lines.size) : path ≠ [] := by
  generalize htask : Task.linesTo stop = task at h
  induction h with
  | @linesOut stop' s hs hl =>
    cases htask
    have hle := Array.getElem?_eq_none_iff.mp hl
    omega
  | linesHere hs hl h ih => exact h.line_ne_nil
  | linesNext hs hl h _ ih =>
    obtain ⟨V, htakes, _⟩ := h.done.2 h.isEnd_of_line
    exact ih (by rw [htakes.lines]; exact hstop) htask
  | _ => cases htask

/-- A body runs out of lines when the script ends, and else one of its lines fails. -/
theorem Raises.rows_nil {branch : Bool} {s : Session} {e : Error} (h : Raises (.rows branch) s [] e) :
    e = .unexpectedEnd := by
  generalize htask : Task.rows branch = task, hpath : ([] : List Activation) = path at h
  induction h with
  | rowsOut hl => rfl
  | rowsHere hl he h ih => exact absurd hpath.symm h.line_ne_nil
  | rowsNext hl he h _ ih => exact ih htask hpath
  | _ => cases htask

/-- The lines of a path are lines of the script, and each was handed on as it was taken. -/
theorem Raises.activations {task : Task} {s : Session} {path : List Activation} {e : Error} (h : Raises task s path e)
    (hp : task.Placed s) {act : Activation} (hact : act ∈ path) :
    ∃ p, act.session.cursor = p + 1 ∧ s.lines[p]? = some act.line := by
  induction h with
  | plain hc h =>
    obtain rfl := List.mem_singleton.mp hact
    exact hp
  | construct hc _ ih =>
    rcases List.mem_cons.mp hact with rfl | hact
    · exact hp
    · rw [← entry_lines hc]
      exact ih (Line.placed hc) hact
  | finish hc h hf =>
    obtain rfl := List.mem_singleton.mp hact
    exact hp
  | rowsOut hl => cases hact
  | rowsHere hl he _ ih => exact ih ⟨_, rfl, hl⟩ hact
  | rowsNext hl he h _ ih =>
    obtain ⟨V, htakes, _⟩ := h.done.2 he
    have hline := ih trivial hact
    rwa [htakes.lines] at hline
  | linesOut hs hl => cases hact
  | linesHere hs hl _ ih => exact ih ⟨_, rfl, hl⟩ hact
  | linesNext hs hl h _ ih =>
    obtain ⟨V, htakes, _⟩ := h.done.2 h.isEnd_of_line
    have hline := ih trivial hact
    rwa [htakes.lines] at hline
  | passesHere _ ih => exact ih trivial hact
  | passesUnknown h hn => cases hact
  | @passesNext round times k s u trace as next path e h hn _ ih =>
    obtain ⟨_, W, htakes⟩ := h.done
    have hlines : (round.leave s u next).lines = s.lines := htakes.lines
    rw [← hlines]
    exact ih (hp.leave htakes.lines next) hact

/-- The last line of a path raises the error by itself. -/
theorem Raises.last {task : Task} {s : Session} {outer : List Activation} {act : Activation} {e : Error}
    (h : Raises task s (outer ++ [act]) e) : Raises (.line act.branch act.line) act.session [act] e := by
  generalize hpath : outer ++ [act] = path at h
  induction h generalizing outer with
  | plain hc h =>
    obtain rfl : act = _ := by simpa using congrArg List.getLast? hpath
    exact .plain hc h
  | construct hc h ih =>
    cases outer with
    | nil =>
      obtain ⟨rfl, rfl⟩ := List.cons.inj hpath
      exact .construct hc h
    | cons _ outer => exact ih (List.cons.inj hpath).2
  | finish hc h hf =>
    obtain rfl : act = _ := by simpa using congrArg List.getLast? hpath
    exact .finish hc h hf
  | rowsOut hl => simp at hpath
  | linesOut hs hl => simp at hpath
  | passesUnknown h hn => simp at hpath
  | rowsHere _ _ _ ih => exact ih hpath
  | rowsNext _ _ _ _ ih => exact ih hpath
  | linesHere _ _ _ ih => exact ih hpath
  | linesNext _ _ _ _ ih => exact ih hpath
  | passesHere _ ih => exact ih hpath
  | passesNext _ _ _ ih => exact ih hpath

/-! ### Constructs that are not closed -/

/-- The value is a construct, and nothing keeps it from looking for its lines. -/
def Value.Awaits (target : String) (s : Session) : Value → Prop
  | .select selector none => ∃ bus, s.ref selector = .ok bus
  | .loop count (.ok _) => target ≠ "" ∧ ∃ times, s.index count = .ok times
  | _ => False

/-- The line opens a construct, and nothing keeps it from looking for its lines. -/
def Activation.Awaits (act : Activation) : Prop :=
  if act.branch then (value act.line.text).Awaits "" act.session
  else
    match statement act.line.text with
    | .block => True
    | .assign target (.ok v) => (∃ slot, target.check act.session = .ok slot) ∧ v.Awaits target.name act.session
    | _ => False

/-- The construct of the line has no `END`. -/
def Activation.Unclosed (act : Activation) : Prop := act.Awaits ∧ act.line.extent? act.session.rest = none

/-- Of constructs that are not closed, only those with a body come to their lines. -/
theorem Line.rows_of_unclosed {branch : Bool} {l : Line} {s : Session} {c : Construct}
    (hc : l.construct? branch s = some c) (hx : l.extent? s.rest = none) :
    c.task = .rows l.selects ∧ c.entry = s ∧ Opened.closing? ⟨0, [l.selects]⟩ s.rest = none := by
  have hend (hopens : l.opens = true) : l.isEnd = false := by
    by_contra hend
    rw [(Line.shape_of_end (by simpa using hend)).1] at hopens
    cases hopens
  cases Line.sets hc with
  | rows hloop hkind _ htask hentry _ =>
    have hopens : l.opens = true := by
      rw [Line.opens_eq]
      rcases hkind with ⟨hs, _⟩ | ⟨hb, _⟩ <;> simp [*]
    have hafter : Opened.after ⟨0, []⟩ l = ⟨0, [l.selects]⟩ :=
      Opened.after_group (hend hopens) hloop (hkind.imp_right fun h => ⟨h.1, rfl⟩)
    rw [Line.extent?, Opened.none, hafter, if_neg (by simp)] at hx
    exact ⟨htask, hentry, hx⟩
  | passes hloop _ _ hlength _ _ _ _ _ =>
    obtain ⟨U, e, R, hrest, _, he, hU⟩ := bodyLength?_eq_some_iff.mp hlength
    rw [hrest, extent?_loop (hend (by simp [Line.opens_eq, hloop])) hloop hU he] at hx
    cases hx

/-- Such a body is never carried out to the end. -/
theorem Completes.rows_unclosed {branch : Bool} {s t : Session} {trace : List Event} {as : List Bus}
    (hx : Opened.closing? ⟨0, [branch]⟩ s.rest = none) : ¬ Completes (.rows branch) s trace (.ok as, t) := by
  intro h
  obtain ⟨_, U, e, htakes, he, hU⟩ := h.done
  rw [htakes.rest, List.append_assoc, List.singleton_append, closing?_group hU he] at hx
  cases hx

/-- A construct that does not come to its lines is a loop. -/
theorem Value.Awaits.loop_of_none {v : Value} {target : String} {finish : Bus → Run (List Bus)} {s : Session}
    (h : v.Awaits target s) (hc : v.construct? target finish s = none) :
    ∃ count source times, v = .loop count (.ok source) ∧ target ≠ "" ∧ s.index count = .ok times := by
  unfold Awaits at h
  split at h
  · obtain ⟨bus, hbus⟩ := h
    simp [construct?, hbus] at hc
  · rename_i count source
    obtain ⟨htarget, times, htimes⟩ := h
    exact ⟨count, source, times, rfl, htarget, htimes⟩
  · exact h.elim

/-- It does not find its `END`, and says so. -/
theorem Activation.Unclosed.plain {act : Activation} (h : act.Unclosed) (hc : act.line.construct? act.branch act.session = none)
    (n : Nested) : (outcome (n.own act.branch act.line) act.session).1 = .error (.of .unexpectedEnd) := by
  obtain ⟨branch, l, s⟩ := act
  obtain ⟨hawaits, hx⟩ := h
  cases branch with
  | true =>
    obtain ⟨_, _, _, _, htarget, _⟩ := Value.Awaits.loop_of_none hawaits hc
    exact absurd rfl htarget
  | false =>
    simp only [Activation.Awaits, Bool.false_eq_true, if_false] at hawaits
    simp only [Line.construct?, Bool.false_eq_true, if_false] at hc
    split at hawaits
    · rename_i hst
      simp [hst] at hc
    · rename_i target v hst
      obtain ⟨⟨slot, hslot⟩, hv⟩ := hawaits
      simp only [hst, hslot] at hc
      obtain ⟨count, source, times, rfl, htarget, htimes⟩ := hv.loop_of_none hc
      have hlength : bodyLength? 0 s.rest = none := by
        by_contra hne
        obtain ⟨length, hlength⟩ := Option.ne_none_iff_exists'.mp hne
        obtain ⟨U, e, R, hrest, _, he, hU⟩ := bodyLength?_eq_some_iff.mp hlength
        have hend : l.isEnd = false := Line.isEnd_of_statement fun m => by simp [hst]
        rw [hrest, extent?_loop hend (Line.shape_of_loop hst).2 hU he] at hx
        cases hx
      have hloop : outcome (n.evaluate target.name (.loop count (.ok source))) s =
          (.error (.of .unexpectedEnd), s) := by
        simp only [Nested.evaluate, Nested.outcome_loop, htimes, htarget, if_false, hlength]
      have hassign : outcome (n.assign target (.ok (.loop count (.ok source)))) s =
          (.error (.of .unexpectedEnd), s) := by
        simp only [Nested.assign_ok, hslot, outcome_bind, hloop]
      simp [Nested.own, hst, Nested.execute, outcome_map, hassign, Except.map]
    · exact hawaits.elim

/-- **If the last line of a path is not closed, the error is that the script ends.** -/
theorem Raises.unclosed {task : Task} {s : Session} {outer : List Activation} {act : Activation} {e : Error}
    (h : Raises task s (outer ++ [act]) e) (hact : act.Unclosed) : e = .unexpectedEnd := by
  -- a loop has not come to its lines, a body has not come to its end
  cases h.last with
  | plain hc h =>
    have hsame := (h ample).symm.trans (hact.plain hc ample)
    cases hsame
    rfl
  | construct hc h =>
    obtain ⟨htask, hentry, _⟩ := Line.rows_of_unclosed hc hact.2
    rw [htask] at h
    exact h.rows_nil
  | finish hc h _ =>
    obtain ⟨htask, hentry, hx⟩ := Line.rows_of_unclosed hc hact.2
    rw [htask, hentry] at h
    exact absurd h (Completes.rows_unclosed hx)

/-- A line that is not closed fails. -/
theorem Activation.Unclosed.fails {act : Activation} (h : act.Unclosed) :
    ∃ path e, Raises (.line act.branch act.line) act.session path e := by
  obtain ⟨trace, ⟨f | as, t⟩, hcomp⟩ := exists_completes (.line act.branch act.line) act.session
  · obtain ⟨path, hpath, _⟩ := hcomp.raises
    exact ⟨path, _, hpath⟩
  · exfalso
    generalize hr : (Except.ok as, t) = r at hcomp
    cases hcomp with
    | plain hc hout =>
      have hown := h.plain hc ample
      have hok := (on_eq_ok (x := ample.own act.branch act.line)).mp ((hout ample).trans hr.symm)
      rw [hok] at hown
      cases hown
    | @construct _ _ _ c trace r hc hcomp =>
      obtain ⟨htask, hentry, hx⟩ := Line.rows_of_unclosed hc h.2
      rw [htask, hentry] at hcomp
      rcases r with ⟨f | bs, u⟩
      · cases hr
      · exact Completes.rows_unclosed hx hcomp

/-! ### Scripts -/

/-- Building fails like the lines up to the last one. -/
theorem build_error_iff {s : Session} {f : Failure} : (outcome Session.build s).1 = .error f ↔
    (outcome (Task.run ample (.linesTo s.lines.size)) s).1 = .error f := by
  obtain ⟨trace, ⟨r, t⟩, h⟩ := exists_completes (.linesTo s.lines.size) s
  rw [h.outcome_build, h.outcome_eq]
  cases r <;> simp [Except.map]

/-- A report fails where building does. -/
theorem report_error_iff {s : Session} {f : Failure} :
    (outcome Session.report s).1 = .error f ↔ (outcome Session.build s).1 = .error f := by
  rw [Session.report, outcome_bind]
  rcases outcome Session.build s with ⟨e | _, t⟩
  · simp only [Except.error.injEq]
  · exact ⟨nofun, nofun⟩

/-- **Every failure is placed on the innermost line that was being carried out.** Whatever
has been done with a script before, building it fails exactly with an error that a line
raises by itself, on the path of lines that led to it through blocks, branches and passes,
and the failure has the number of this line. A report fails as building does. The lines of
a path are lines of the source that say something, and bear the numbers they have there. A
line whose construct is not closed fails, and if no line inside it does, the error is that
the script ends. -/
theorem failure_innermost (source : String) (settings : Settings) (done : List Session.Action) :
    let s := done.foldl Session.perform (Session.start source settings)
    (∀ f, (outcome Session.build s).1 = .error f ↔ ∃ outer act,
      Raises (.linesTo s.lines.size) s (outer ++ [act]) f.cause ∧ f.line = some act.line.number) ∧
    (∀ f, (outcome Session.report s).1 = .error f ↔ (outcome Session.build s).1 = .error f) ∧
    (∀ path e, Raises (.linesTo s.lines.size) s path e → ∀ act ∈ path, ∃ k raw,
      (Text.lines source.toList)[k]? = some raw ∧ isCode (Text.trim raw) = true ∧
        act.line = ⟨k + 1, Text.trim raw⟩) ∧
    ∀ act : Activation, act.Unclosed → (∃ path e, Raises (.line act.branch act.line) act.session path e) ∧
      ∀ task t outer e, Raises task t (outer ++ [act]) e → e = .unexpectedEnd := by
  intro s
  have hlines : s.lines = (linesOf source.toList).toArray := ((Session.sound_start source settings).performs done).2.lines
  refine ⟨fun f => ?_, fun f => report_error_iff, fun path e h act hact => ?_, fun act hact => ?_⟩
  · rw [build_error_iff, raises_iff]
    constructor
    · rintro ⟨path, hpath, hline⟩
      obtain ⟨outer, act, rfl⟩ := List.eq_nil_or_concat' path |>.resolve_left (hpath.linesTo_ne_nil (Nat.le_refl _))
      exact ⟨outer, act, hpath, by rw [hline, innermost, List.getLast?_concat, Option.map_some]⟩
    · rintro ⟨outer, act, hpath, hline⟩
      exact ⟨outer ++ [act], hpath, by rw [hline, innermost, List.getLast?_concat, Option.map_some]⟩
  · obtain ⟨p, _, hp⟩ := h.activations trivial hact
    rw [hlines, List.getElem?_toArray] at hp
    exact mem_linesOf.mp (List.mem_of_getElem? hp)
  · exact ⟨hact.fails, fun task t outer e h => h.unclosed hact⟩

/-- The second pass reads a slot that the first has left unbound. -/
def passSample : String := "# two passes\nIN a /2\n\nx = LOOP(2) a\nBLOCK\nx.i = NOT a.i\nEND\nEND\n"

/-- A block without an `END`. -/
def openSample : String := "IN a /1\n# open\nBLOCK b\ny = a\n"

/-- The block of `openSample`, once it has been taken. -/
def openActivation : Activation :=
  ⟨false, ⟨3, "BLOCK b".toList⟩, { (outcome (upTo (nested 1).statement 1 1) (.start openSample {})).2 with cursor := 2 }⟩

/-- The slot is missed on the line that reads it, with its number in the source, and the
`END` on the line of the block. -/
theorem failure_innermost_samples :
    (∃ outer act, Raises (.linesTo 6) (.start passSample {}) (outer ++ [act]) (.unboundSlot 0) ∧
        act.line = ⟨6, "x.i = NOT a.i".toList⟩) ∧
      (∃ path e, Raises (.line false openActivation.line) openActivation.session path e) ∧
      ∃ outer act, Raises (.linesTo 3) (.start openSample {}) (outer ++ [act]) .unexpectedEnd ∧
        3 = act.line.number := by
  obtain ⟨hpass, _, hnumber, _⟩ := failure_innermost passSample {} []
  obtain ⟨hopen, _, _, hunclosed⟩ := failure_innermost openSample {} []
  have hpassSize : (Session.start passSample {}).lines.size = 6 := by decide +kernel
  have hopenSize : (Session.start openSample {}).lines.size = 3 := by decide +kernel
  rw [List.foldl_nil, hpassSize] at hpass hnumber
  rw [List.foldl_nil, hopenSize] at hopen
  have hslot : (outcome Session.build (.start passSample {})).1 = .error ⟨.unboundSlot 0, some 6⟩ := by decide +kernel
  have hend : (outcome Session.build (.start openSample {})).1 = .error ⟨.unexpectedEnd, some 3⟩ := by decide +kernel
  refine ⟨?_, ?_, ?_⟩
  · obtain ⟨outer, act, hraises, hline⟩ := (hpass _).mp hslot
    obtain ⟨k, raw, hraw, _, hact⟩ := hnumber _ _ hraises act (by simp)
    obtain rfl : k = 5 := by
      rw [hact] at hline
      simpa using hline
    have htext : (Text.lines passSample.toList)[5]? = some "x.i = NOT a.i".toList := by decide +kernel
    obtain rfl := Option.some.inj (htext.symm.trans hraw)
    exact ⟨outer, act, hraises, hact.trans (by decide +kernel)⟩
  · have hawaits : openActivation.Awaits := by
      have hst : statement openActivation.line.text = .block := by rfl
      rw [Activation.Awaits, if_neg (by decide), hst]
      trivial
    exact (hunclosed openActivation ⟨hawaits, by decide +kernel⟩).1
  · obtain ⟨outer, act, hraises, hline⟩ := (hopen _).mp hend
    exact ⟨outer, act, hraises, Option.some.inj hline⟩

end BusLogic.Script
