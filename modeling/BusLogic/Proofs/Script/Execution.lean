import BusLogic.Proofs.Script.Constructs

/-! Scripts carried out to the end.

`nested` is bounded by a depth, and a row of lines by a budget. Here the same is done
without either: a task comes to an end (`Completes`) only if all the tasks that it sets do,
each line of a row and each pass of a loop among them, and what happens on the way is put
on record (`Event`). A task that comes to an end does so with the outcome that the bounded
interpreter gives it (`Completes.outcome_eq`), and every task comes to an end
(`exists_completes`): lines inside a construct come after the line that opens it, even
though a loop goes back to its first line with every pass. -/
namespace BusLogic.Script
open Attempt Run
open Session (From)

/-! ### Tasks that come to an end -/

/-- Something that happens while a task is done. -/
inductive Event where
  /-- Line `i` is handed on, as a branch of a selection or as a statement. -/
  | takes (branch : Bool) (i : Nat)
  /-- The construct that line `i` opens is closed by line `j`. -/
  | closes (i j : Nat)
  /-- A pass through the lines up to number `stop` ends at line `cursor`. -/
  | pass (stop cursor : Nat)

/-- A construct whose lines have been carried out is closed by the last line taken. -/
def closing (s : Session) : Except Failure (List Bus) × Session → List Event
  | (.ok _, t) => [.closes (s.cursor - 1) (t.cursor - 1)]
  | (.error _, _) => []

/-- The session at the start of pass `k`. -/
def Round.enter (round : Round) (k : Nat) (s : Session) : Session :=
  { s with cursor := round.start, buses := s.buses.insert round.target (.unbound round.width), counter := some k }

/-- The session after a pass that left the target as `next`. -/
def Round.leave (round : Round) (s u : Session) (next : Bus) : Session :=
  { u with cursor := s.cursor, buses := u.buses.insert round.source next }

/-- The task, given to the session, comes to its end with this outcome, and these are the
events on the way. -/
inductive Completes : Task → Session → List Event → Except Failure (List Bus) × Session → Prop
  | plain {branch : Bool} {l : Line} {s : Session} {r : Except Failure (List Bus) × Session}
    (hc : l.construct? branch s = none) (h : ∀ n : Nested, outcome (n.upon branch l) s = r) :
    Completes (.line branch l) s [] r
  | construct {branch : Bool} {l : Line} {s : Session} {c : Construct} {trace : List Event}
    {r : Except Failure (List Bus) × Session} (hc : l.construct? branch s = some c)
    (h : Completes c.task c.entry trace r) :
    Completes (.line branch l) s (trace ++ closing s r) (outcome (on l (ended r >>= c.finish)) s)
  | rowsOut {branch : Bool} {s : Session} (hl : s.lines[s.cursor]? = none) :
    Completes (.rows branch) s [] (.error (.of .unexpectedEnd), s)
  | rowsEnd {branch : Bool} {s : Session} {l : Line} (hl : s.lines[s.cursor]? = some l) (he : l.isEnd = true) :
    Completes (.rows branch) s [] (.ok [], { s with cursor := s.cursor + 1 })
  | rowsFail {branch : Bool} {s t : Session} {l : Line} {trace : List Event} {e : Failure}
    (hl : s.lines[s.cursor]? = some l) (he : l.isEnd = false)
    (h : Completes (.line branch l) { s with cursor := s.cursor + 1 } trace (.error e, t)) :
    Completes (.rows branch) s (.takes branch s.cursor :: trace) (.error e, t)
  | rowsNext {branch : Bool} {s t : Session} {l : Line} {trace trace' : List Event} {as : List Bus}
    {r : Except Failure (List Bus) × Session} (hl : s.lines[s.cursor]? = some l) (he : l.isEnd = false)
    (h : Completes (.line branch l) { s with cursor := s.cursor + 1 } trace (.ok as, t))
    (h' : Completes (.rows branch) t trace' r) :
    Completes (.rows branch) s (.takes branch s.cursor :: (trace ++ trace')) (r.1.map (as ++ ·), r.2)
  | linesDone {stop : Nat} {s : Session} (hs : stop ≤ s.cursor) : Completes (.linesTo stop) s [] (.ok [], s)
  | linesOut {stop : Nat} {s : Session} (hs : s.cursor < stop) (hl : s.lines[s.cursor]? = none) :
    Completes (.linesTo stop) s [] (.error (.of .unexpectedEnd), s)
  | linesFail {stop : Nat} {s t : Session} {l : Line} {trace : List Event} {e : Failure} (hs : s.cursor < stop)
    (hl : s.lines[s.cursor]? = some l)
    (h : Completes (.line false l) { s with cursor := s.cursor + 1 } trace (.error e, t)) :
    Completes (.linesTo stop) s (.takes false s.cursor :: trace) (.error e, t)
  | linesNext {stop : Nat} {s t : Session} {l : Line} {trace trace' : List Event} {as : List Bus}
    {r : Except Failure (List Bus) × Session} (hs : s.cursor < stop) (hl : s.lines[s.cursor]? = some l)
    (h : Completes (.line false l) { s with cursor := s.cursor + 1 } trace (.ok as, t))
    (h' : Completes (.linesTo stop) t trace' r) :
    Completes (.linesTo stop) s (.takes false s.cursor :: (trace ++ trace')) r
  | passesDone {round : Round} {k : Nat} {s : Session} : Completes (.passes round 0 k) s [] (.ok [], s)
  | passesFail {round : Round} {times k : Nat} {s u : Session} {trace : List Event} {e : Failure}
    (h : Completes (.linesTo round.stop) (round.enter k s) trace (.error e, u)) :
    Completes (.passes round (times + 1) k) s trace (.error e, u)
  | passesUnknown {round : Round} {times k : Nat} {s u : Session} {trace : List Event} {as : List Bus} {e : Error}
    (h : Completes (.linesTo round.stop) (round.enter k s) trace (.ok as, u))
    (hn : u.lookup round.target = .error e) :
    Completes (.passes round (times + 1) k) s (trace ++ [.pass round.stop u.cursor])
      (.error (.of e), { u with cursor := s.cursor })
  | passesNext {round : Round} {times k : Nat} {s u : Session} {trace trace' : List Event} {as : List Bus}
    {next : Bus} {r : Except Failure (List Bus) × Session}
    (h : Completes (.linesTo round.stop) (round.enter k s) trace (.ok as, u))
    (hn : u.lookup round.target = .ok next)
    (h' : Completes (.passes round times (k + 1)) (round.leave s u next) trace' r) :
    Completes (.passes round (times + 1) k) s (trace ++ .pass round.stop u.cursor :: trace') r

/-- A pass, and those that follow. -/
theorem Nested.outcome_passes (n : Nested) (round : Round) (times k : Nat) (s : Session) :
    outcome (Task.run n (.passes round (times + 1) k)) s =
      match outcome (n.linesTo round.stop) (round.enter k s) with
      | (.error e, u) => (.error e, u)
      | (.ok _, u) =>
        match u.lookup round.target with
        | .error e => (.error (.of e), { u with cursor := s.cursor })
        | .ok next => outcome (Task.run n (.passes round times (k + 1))) (round.leave s u next) := by
  have hlines : outcome (n.linesTo round.stop) (round.enter k s) =
      outcome ((fun _ => []) <$> upTo n.statement round.stop (round.stop - round.start)) (round.enter k s) := rfl
  have hpass : outcome (n.pass round.target round.source round.width round.start round.stop k) s =
      outcome (do
        upTo n.statement round.stop (round.stop - round.start)
        setCursor s.cursor
        let next ← ask (·.lookup round.target)
        setBus round.source next) (round.enter k s) := by
    simp only [pass, between, bind_assoc]
    rfl
  rw [Task.run, outcome_map, passes, outcome_bind, hpass, outcome_bind, hlines, outcome_map]
  rcases outcome (upTo n.statement round.stop (round.stop - round.start)) (round.enter k s) with ⟨e | _, u⟩
  · rfl
  · have hlookup : ({ u with cursor := s.cursor } : Session).lookup round.target = u.lookup round.target := rfl
    simp only [outcome_setCursor_bind, outcome_ask_bind, hlookup, Except.map]
    cases u.lookup round.target with
    | error e => rfl
    | ok next => exact (outcome_map ..).symm

/-- **A task that comes to an end does so with the outcome of the interpreter.** -/
theorem Completes.outcome_eq {task : Task} {s : Session} {trace : List Event}
    {r : Except Failure (List Bus) × Session} (h : Completes task s trace r) :
    outcome (task.run ample) s = r := by
  induction h with
  | @plain branch l s r _ h => exact (ample_each branch l s).trans (h ample)
  | @construct branch l s c trace r hc _ ih =>
    rw [Task.run, ample_each, Line.outcome_of_some hc, outcome_on, outcome_on, outcome_bind, outcome_bind, ih]
    rfl
  | rowsOut hl => rw [Task.run, outcome_rows, hl]
  | rowsEnd hl he =>
    rw [Task.run, outcome_rows, hl]
    simp only [he, if_true]
  | rowsFail hl he _ ih =>
    simp only [Task.run] at ih ⊢
    rw [outcome_rows, hl]
    simp only [he, Bool.false_eq_true, if_false, outcome_bind, ih]
  | @rowsNext branch s t l trace trace' as r hl he _ _ ih ih' =>
    simp only [Task.run] at ih ih' ⊢
    rw [outcome_rows, hl]
    simp only [he, Bool.false_eq_true, if_false, outcome_bind, ih, ih']
    rcases r with ⟨e | bs, u⟩ <;> rfl
  | linesDone hs => rw [Task.run, outcome_linesTo, if_neg (Nat.not_lt.mpr hs)]
  | linesOut hs hl => rw [Task.run, outcome_linesTo, if_pos hs, hl]
  | linesFail hs hl _ ih =>
    simp only [Task.run] at ih ⊢
    rw [outcome_linesTo, if_pos hs, hl]
    simp only [outcome_bind, ih]
  | linesNext hs hl _ _ ih ih' =>
    simp only [Task.run] at ih ih' ⊢
    rw [outcome_linesTo, if_pos hs, hl]
    simp only [outcome_bind, ih, ih']
  | passesDone => rfl
  | passesFail _ ih =>
    simp only [Task.run] at ih
    rw [Nested.outcome_passes, ih]
  | passesUnknown _ hn ih =>
    simp only [Task.run] at ih
    simp only [Nested.outcome_passes, ih, hn]
  | passesNext _ hn _ ih ih' =>
    simp only [Task.run] at ih
    simp only [Nested.outcome_passes, ih, hn, ih']

/-! ### Every task comes to an end -/

section Totality
variable {lines : Array Line} {c : Nat}
  (hline : ∀ branch l s, From lines (c + 1) s → s.cursor ≤ lines.size →
    ∃ trace r, Completes (.line branch l) s trace r)
include hline

/-- A line that is handed on comes after line `c`, and so does whatever follows it. -/
theorem exists_line_of_from (branch : Bool) {l : Line} {s : Session} (hs : From lines c s)
    (hl : s.lines[s.cursor]? = some l) : ∃ trace r,
      Completes (.line branch l) { s with cursor := s.cursor + 1 } trace r ∧
      ∀ as t, l.isEnd = false → r = (.ok as, t) → t.lines = lines ∧ s.cursor < t.cursor := by
  have hlt : s.cursor < s.lines.size := (Array.getElem?_eq_some_iff.mp hl).1
  obtain ⟨trace, r, h⟩ := hline branch l { s with cursor := s.cursor + 1 }
    ⟨hs.lines, Nat.succ_le_succ hs.cursor⟩ (by rw [← hs.lines]; exact hlt)
  refine ⟨trace, r, h, fun as t hend hr => ?_⟩
  obtain ⟨hlines, hcursor⟩ := movesOn_each branch l _ as t hend (h.outcome_eq.trans hr)
  exact ⟨hlines.trans hs.lines, hcursor⟩

theorem exists_rows (branch : Bool) {s : Session} (hs : From lines c s) :
    ∃ trace r, Completes (.rows branch) s trace r := by
  induction hn : lines.size - s.cursor using Nat.strong_induction_on generalizing s with
  | _ n ih =>
    cases hl : s.lines[s.cursor]? with
    | none => exact ⟨_, _, .rowsOut hl⟩
    | some l =>
      cases hend : l.isEnd with
      | true => exact ⟨_, _, .rowsEnd hl hend⟩
      | false =>
        obtain ⟨trace, ⟨e | as, t⟩, h, hmoves⟩ := exists_line_of_from hline branch hs hl
        · exact ⟨_, _, .rowsFail hl hend h⟩
        · obtain ⟨hlines, hcursor⟩ := hmoves as t hend rfl
          have hlt : s.cursor < lines.size := by
            rw [← hs.lines]
            exact (Array.getElem?_eq_some_iff.mp hl).1
          obtain ⟨trace', r, h'⟩ := ih _ (by omega) (s := t) ⟨hlines, Nat.le_trans hs.cursor hcursor.le⟩ rfl
          exact ⟨_, _, .rowsNext hl hend h h'⟩

theorem exists_linesTo (stop : Nat) {s : Session} (hs : From lines c s) :
    ∃ trace r, Completes (.linesTo stop) s trace r := by
  induction hn : lines.size - s.cursor using Nat.strong_induction_on generalizing s with
  | _ n ih =>
    by_cases hstop : s.cursor < stop
    · cases hl : s.lines[s.cursor]? with
      | none => exact ⟨_, _, .linesOut hstop hl⟩
      | some l =>
        obtain ⟨trace, ⟨e | as, t⟩, h, hmoves⟩ := exists_line_of_from hline false hs hl
        · exact ⟨_, _, .linesFail hstop hl h⟩
        · obtain ⟨_, u, hu, _⟩ := outcome_bind_ok (f := fun _ => pure []) h.outcome_eq
          obtain ⟨hlines, hcursor⟩ := hmoves as t (isEnd_of_ample hu) rfl
          have hlt : s.cursor < lines.size := by
            rw [← hs.lines]
            exact (Array.getElem?_eq_some_iff.mp hl).1
          obtain ⟨trace', r, h'⟩ := ih _ (by omega) (s := t) ⟨hlines, Nat.le_trans hs.cursor hcursor.le⟩ rfl
          exact ⟨_, _, .linesNext hstop hl h h'⟩
    · exact ⟨_, _, .linesDone (Nat.le_of_not_lt hstop)⟩

/-- The passes go back to the first line of the loop, and there are as many as its count. -/
theorem exists_passes {round : Round} (hstart : c ≤ round.start) (times k : Nat) {s : Session}
    (hs : s.lines = lines) : ∃ trace r, Completes (.passes round times k) s trace r := by
  induction times generalizing s k with
  | zero => exact ⟨_, _, .passesDone⟩
  | succ times ih =>
    obtain ⟨trace, ⟨e | as, u⟩, h⟩ := exists_linesTo hline round.stop (s := round.enter k s) ⟨hs, hstart⟩
    · exact ⟨_, _, .passesFail h⟩
    · cases hn : u.lookup round.target with
      | error e => exact ⟨_, _, .passesUnknown h hn⟩
      | ok next =>
        have hlines : u.lines = (round.enter k s).lines := upTo_lines (fun l s t r hr => by
          obtain ⟨_, _, htakes, _⟩ := spans_ample.statement l s t r hr
          exact htakes.lines) (Nested.linesTo_eq_ok.mp h.outcome_eq).2
        obtain ⟨trace', r, h'⟩ := ih (k + 1) (s := round.leave s u next) (hlines.trans hs)
        exact ⟨_, _, .passesNext h hn h'⟩

end Totality

theorem exists_line (branch : Bool) (l : Line) (s : Session) :
    ∃ trace r, Completes (.line branch l) s trace r := by
  induction hn : s.lines.size - s.cursor using Nat.strong_induction_on generalizing branch l s with
  | _ n ih =>
    have hline (branch : Bool) (l : Line) (s' : Session) (hs : From s.lines (s.cursor + 1) s')
        (hle : s'.cursor ≤ s.lines.size) : ∃ trace r, Completes (.line branch l) s' trace r := by
      have hcursor := hs.cursor
      exact ih _ (by rw [hs.lines]; omega) branch l s' rfl
    cases hc : l.construct? branch s with
    | none => exact ⟨_, _, .plain hc fun n => Line.outcome_of_none hc n ample⟩
    | some c =>
      have hlines : ∃ trace r, Completes c.task c.entry trace r := by
        cases Line.sets hc with
        | rows _ _ _ htask hentry _ =>
          rw [htask, hentry]
          exact exists_rows hline _ ⟨rfl, Nat.le_refl _⟩
        | passes _ _ _ _ hstart _ htask hentry _ =>
          rw [htask, hentry]
          exact exists_passes hline hstart.ge _ _ rfl
      obtain ⟨trace, r, h⟩ := hlines
      exact ⟨_, _, .construct hc h⟩

/-- **Every task comes to an end**, whatever the session, how deep the constructs and how
often the loops. -/
theorem exists_completes (task : Task) (s : Session) : ∃ trace r, Completes task s trace r := by
  have hline (c : Nat) (branch : Bool) (l : Line) (s' : Session) (_ : From s.lines (c + 1) s')
      (_ : s'.cursor ≤ s.lines.size) : ∃ trace r, Completes (.line branch l) s' trace r := exists_line branch l s'
  cases task with
  | line branch l => exact exists_line branch l s
  | rows branch => exact exists_rows (hline s.cursor) branch ⟨rfl, Nat.le_refl _⟩
  | linesTo stop => exact exists_linesTo (hline s.cursor) stop ⟨rfl, Nat.le_refl _⟩
  | passes round times k => exact exists_passes (hline round.start) (Nat.le_refl _) times k rfl

end BusLogic.Script
