import BusLogic.Proofs.Script.Copies

/-! Lines and their constructs.

The rows of lines take a budget, so that they end by construction; the number of lines
there are is as good as any other (`body_budget`, `upTo_budget`), and without it a row is
its first line and the row that follows (`outcome_rows`, `outcome_linesTo`). A line either
has nothing to do with other lines (`Line.outcome_of_none`), or it comes to the lines of a
construct and makes something of their answers (`Line.outcome_of_some`). The constructs are
the rows of a block or a selection and the passes of a loop (`Line.sets`). -/
namespace BusLogic.Script
open Attempt Run
open Session (Takes)

/-! ### Rows of lines, whatever the budget -/

section Budget
variable {α : Type} {s : Session}

theorem outcome_nextLine_bind (f : Line → Run α) (s : Session) : outcome (nextLine >>= f) s =
    match s.lines[s.cursor]? with
    | none => (.error (.of .unexpectedEnd), s)
    | some l => outcome (f l) { s with cursor := s.cursor + 1 } := by
  rw [outcome_bind, nextLine, outcome_bind, outcome_get]
  cases h : s.lines[s.cursor]? <;> simp only [h] <;> rfl

theorem outcome_body_succ (each : Line → Run α) (n : Nat) (s : Session) : outcome (body each (n + 1)) s =
    match s.lines[s.cursor]? with
    | none => (.error (.of .unexpectedEnd), s)
    | some l =>
      if l.isEnd then (.ok [], { s with cursor := s.cursor + 1 })
      else outcome (each l >>= fun a => (a :: ·) <$> body each n) { s with cursor := s.cursor + 1 } := by
  rw [body, outcome_nextLine_bind]
  cases s.lines[s.cursor]? with
  | none => rfl
  | some l => by_cases h : l.isEnd = true <;> simp [h]

theorem outcome_upTo_succ (each : Line → Run Unit) (stop n : Nat) (s : Session) :
    outcome (upTo each stop (n + 1)) s =
      if s.cursor < stop then
        match s.lines[s.cursor]? with
        | none => (.error (.of .unexpectedEnd), s)
        | some l => outcome (each l >>= fun _ => upTo each stop n) { s with cursor := s.cursor + 1 }
      else (.ok (), s) := by
  rw [upTo, outcome_bind, outcome_get]
  by_cases h : s.cursor < stop
  · simp only [h, if_true, outcome_nextLine_bind]
  · simp only [h, if_false, outcome_pure]

/-- What is carried out on lines other than `END` leaves the lines alone and does not go
back. -/
def MovesOn (each : Line → Run α) : Prop :=
  ∀ l s a t, l.isEnd = false → outcome (each l) s = (.ok a, t) → t.lines = s.lines ∧ s.cursor ≤ t.cursor

/-- The rest of a sequence counts only where its first step leads. -/
theorem outcome_bind_congr {β : Type} {x : Run α} {f g : α → Run β}
    (h : ∀ a t, outcome x s = (.ok a, t) → outcome (f a) t = outcome (g a) t) :
    outcome (x >>= f) s = outcome (x >>= g) s := by
  rw [outcome_bind, outcome_bind]
  rcases hx : outcome x s with ⟨e | a, t⟩
  · rfl
  · exact h a t hx

/-- Behind the last line, a body ends. -/
theorem outcome_body_of_size_le (each : Line → Run α) (n : Nat) (h : s.lines.size ≤ s.cursor) :
    outcome (body each n) s = (.error (.of .unexpectedEnd), s) := by
  cases n with
  | zero => rfl
  | succ n => rw [outcome_body_succ, Array.getElem?_eq_none h]

/-- A body takes no more lines than there are. -/
theorem body_budget {each : Line → Run α} (he : MovesOn each) {n m : Nat} (hn : s.lines.size ≤ s.cursor + n)
    (hm : s.lines.size ≤ s.cursor + m) : outcome (body each n) s = outcome (body each m) s := by
  induction n generalizing m s with
  | zero => rw [outcome_body_of_size_le each 0 hn, outcome_body_of_size_le each m hn]
  | succ n ih =>
    by_cases hle : s.lines.size ≤ s.cursor
    · rw [outcome_body_of_size_le each _ hle, outcome_body_of_size_le each _ hle]
    · obtain ⟨m, rfl⟩ : ∃ k, m = k + 1 := ⟨m - 1, by omega⟩
      rw [outcome_body_succ, outcome_body_succ]
      cases s.lines[s.cursor]? with
      | none => rfl
      | some l =>
        by_cases hend : l.isEnd = true
        · simp only [hend, if_true]
        · simp only [hend]
          apply outcome_bind_congr
          intro a t ht
          obtain ⟨hlines, hcursor⟩ := he l _ a t (by simpa using hend) ht
          have hsame := ih (s := t) (m := m) (by rw [hlines]; simp only at *; omega)
            (by rw [hlines]; simp only at *; omega)
          rw [outcome_map, outcome_map, hsame]

/-- Nor do the lines up to a number. -/
theorem upTo_budget {each : Line → Run Unit}
    (he : ∀ l s t, outcome (each l) s = (.ok (), t) → s.cursor ≤ t.cursor) {stop n m : Nat}
    (hn : stop ≤ s.cursor + n) (hm : stop ≤ s.cursor + m) :
    outcome (upTo each stop n) s = outcome (upTo each stop m) s := by
  have hdone (u : Session) (k : Nat) (hle : stop ≤ u.cursor) : outcome (upTo each stop k) u = (.ok (), u) := by
    cases k with
    | zero => rfl
    | succ k => rw [outcome_upTo_succ, if_neg (Nat.not_lt.mpr hle)]
  induction n generalizing m s with
  | zero => rw [hdone s 0 hn, hdone s m hn]
  | succ n ih =>
    by_cases hle : stop ≤ s.cursor
    · rw [hdone s _ hle, hdone s _ hle]
    · obtain ⟨m, rfl⟩ : ∃ k, m = k + 1 := ⟨m - 1, by omega⟩
      rw [outcome_upTo_succ, outcome_upTo_succ]
      cases s.lines[s.cursor]? with
      | none => rfl
      | some l =>
        simp only [Nat.not_le.mp hle, if_true]
        apply outcome_bind_congr
        intro _ t ht
        have hcursor := he l _ t ht
        exact ih (by simp only at hcursor; omega) (by simp only at hcursor; omega)

end Budget

/-! ### Lines, bodies and passes with nothing in their way -/

namespace Nested

/-- Carries out a line, as a branch that stands for a bus or as a statement that stands
for none. -/
def each (n : Nested) (branch : Bool) (l : Line) : Run (List Bus) :=
  if branch then (fun b => [b]) <$> n.branch l else (fun _ => []) <$> n.statement l

/-- The same, with `n` for the lines inside its construct and failures not placed on the line
yet. -/
def own (n : Nested) (branch : Bool) (l : Line) : Run (List Bus) :=
  if branch then (fun b => [b]) <$> n.evaluate "" (value l.text)
  else (fun _ => []) <$> n.execute (Script.statement l.text)

/-- The same again, with failures placed on the line. -/
def upon (n : Nested) (branch : Bool) (l : Line) : Run (List Bus) := on l (n.own branch l)

/-- The lines up to `END`. -/
def rows (n : Nested) (branch : Bool) : Run (List Bus) := do
  let s ← get
  let parts ← body (n.each branch) (s.lines.size - s.cursor)
  return parts.flatten

/-- The lines up to number `stop`. -/
def linesTo (n : Nested) (stop : Nat) : Run (List Bus) := do
  let s ← get
  upTo n.statement stop (stop - s.cursor)
  return []

end Nested

theorem body_map {α β : Type} (f : α → β) (each : Line → Run α) (budget : Nat) :
    body (fun l => f <$> each l) budget = List.map f <$> body each budget := by
  induction budget with
  | zero => rfl
  | succ budget ih =>
    simp only [body, map_bind, ih, bind_map_left, apply_ite (List.map f <$> ·), map_pure, List.map_nil, List.map_cons]

theorem Nested.rows_branch (n : Nested) :
    n.rows true = get >>= fun s => body n.branch (s.lines.size - s.cursor) := by
  have hflat (bs : List Bus) : (bs.map fun b => [b]).flatten = bs := by simp [← List.flatMap_def]
  show (get >>= fun s : Session => body (fun l => (fun b => [b]) <$> n.branch l) (s.lines.size - s.cursor) >>= _) = _
  simp only [body_map, bind_map_left, hflat, bind_pure]

theorem Nested.rows_statement (n : Nested) :
    n.rows false = get >>= fun s => body n.statement (s.lines.size - s.cursor) >>= fun _ => pure [] := by
  have hflat (rs : List Unit) : (rs.map fun _ => ([] : List Bus)).flatten = [] := by simp
  show (get >>= fun s : Session => body (fun l => (fun _ => []) <$> n.statement l) (s.lines.size - s.cursor) >>= _) = _
  simp only [body_map, bind_map_left, hflat]

theorem Nested.linesTo_eq_ok {n : Nested} {stop : Nat} {s t : Session} {as : List Bus} :
    outcome (n.linesTo stop) s = (.ok as, t) ↔
      [] = as ∧ outcome (upTo n.statement stop (stop - s.cursor)) s = (.ok (), t) := by
  unfold linesTo
  simp only [bind_eq_ok, get_eq_ok, pure_eq_ok]
  constructor
  · rintro ⟨_, _, ⟨rfl, rfl⟩, _, u, hup, has, rfl⟩
    exact ⟨has, hup⟩
  · rintro ⟨has, hup⟩
    exact ⟨s, s, ⟨rfl, rfl⟩, (), t, hup, has, rfl⟩

theorem ample_each (branch : Bool) (l : Line) (s : Session) :
    outcome (ample.each branch l) s = outcome (ample.upon branch l) s := by
  have hcomm {α : Type} (f : α → List Bus) (r : Except Failure α) (g : Failure → Failure) :
      (r.mapError g).map f = (r.map f).mapError g := by
    cases r <;> rfl
  cases branch with
  | false =>
    simp only [Nested.each, Nested.upon, Nested.own, outcome_on, outcome_map, ample_statement, Bool.false_eq_true, if_false, hcomm]
  | true => simp only [Nested.each, Nested.upon, Nested.own, outcome_on, outcome_map, ample_branch, if_true, hcomm]

theorem each_takes {branch : Bool} {l : Line} {s t : Session} {as : List Bus} (hend : l.isEnd = false)
    (h : outcome (ample.each branch l) s = (.ok as, t)) : ∃ V Bs, Takes V s t ∧ Spans branch (l :: V) Bs := by
  cases branch with
  | false =>
    obtain ⟨_, u, hu, ht⟩ := outcome_bind_ok (f := fun _ => pure []) h
    obtain ⟨_, rfl⟩ := pure_eq_ok.mp ht
    exact spans_ample.statement l s u _ hu
  | true =>
    obtain ⟨b, u, hu, ht⟩ := outcome_bind_ok (f := fun b => pure [b]) h
    obtain ⟨_, rfl⟩ := pure_eq_ok.mp ht
    exact spans_ample.branch l s u b hend hu

theorem movesOn_each (branch : Bool) : MovesOn (ample.each branch) := by
  intro l s as t hend h
  obtain ⟨V, _, htakes, _⟩ := each_takes hend h
  exact ⟨htakes.lines, by rw [htakes.cursor]; exact Nat.le_add_right _ _⟩

/-- A body is its first line and the body that follows. -/
theorem outcome_rows (branch : Bool) (s : Session) : outcome (ample.rows branch) s =
    match s.lines[s.cursor]? with
    | none => (.error (.of .unexpectedEnd), s)
    | some l =>
      if l.isEnd then (.ok [], { s with cursor := s.cursor + 1 })
      else outcome (do
        let as ← ample.each branch l
        let bs ← ample.rows branch
        return as ++ bs) { s with cursor := s.cursor + 1 } := by
  have hrows (u : Session) (n : Nat) (hn : u.lines.size ≤ u.cursor + n) : outcome (ample.rows branch) u =
      outcome (List.flatten <$> body (ample.each branch) n) u := by
    rw [outcome_map, body_budget (movesOn_each branch) hn (m := u.lines.size - u.cursor) (by omega), ← outcome_map]
    rfl
  rw [hrows s (s.lines.size - s.cursor + 1) (by omega), outcome_map, outcome_body_succ]
  cases s.lines[s.cursor]? with
  | none => rfl
  | some l =>
    by_cases hend : l.isEnd = true
    · simp only [hend, if_true]
      rfl
    · simp only [hend, Bool.false_eq_true, if_false]
      rw [← outcome_map, map_bind]
      apply outcome_bind_congr
      intro as t ht
      obtain ⟨hlines, hcursor⟩ := movesOn_each branch l _ as t (by simpa using hend) ht
      rw [outcome_bind, hrows t (s.lines.size - s.cursor) (by rw [hlines]; simp only at *; omega)]
      simp only [outcome_map]
      rcases outcome (body (ample.each branch) (s.lines.size - s.cursor)) t with ⟨e | bs, u⟩ <;> rfl

/-- Lines up to a number are the first of them and those that follow. -/
theorem outcome_linesTo (stop : Nat) (s : Session) : outcome (ample.linesTo stop) s =
    if s.cursor < stop then
      match s.lines[s.cursor]? with
      | none => (.error (.of .unexpectedEnd), s)
      | some l => outcome (do
          let _ ← ample.each false l
          ample.linesTo stop) { s with cursor := s.cursor + 1 }
    else (.ok [], s) := by
  have hmoves (l : Line) (u t : Session) (h : outcome (ample.statement l) u = (.ok (), t)) :
      u.cursor ≤ t.cursor := by
    obtain ⟨V, _, htakes, _⟩ := spans_ample.statement l u t () h
    rw [htakes.cursor]
    exact Nat.le_add_right _ _
  have hlines (u : Session) (n : Nat) (hn : stop ≤ u.cursor + n) : outcome (ample.linesTo stop) u =
      outcome ((fun _ => []) <$> upTo ample.statement stop n) u := by
    rw [outcome_map, upTo_budget hmoves hn (m := stop - u.cursor) (by omega), ← outcome_map]
    rfl
  rw [hlines s (stop - s.cursor + 1) (by omega), outcome_map, outcome_upTo_succ]
  by_cases hlt : s.cursor < stop
  · simp only [hlt, if_true]
    cases s.lines[s.cursor]? with
    | none => rfl
    | some l =>
      simp only [Nested.each, Bool.false_eq_true, if_false, bind_map_left]
      rw [← outcome_map, map_bind]
      apply outcome_bind_congr
      intro _ t ht
      have hcursor := hmoves l _ t ht
      exact (hlines t (stop - s.cursor) (by simp only at hcursor; omega)).symm
  · simp only [hlt, if_false]
    rfl

/-! ### Constructs -/

/-- What the passes of a loop have in common. -/
structure Round where
  target : String
  source : String
  width : Nat
  start : Nat
  stop : Nat

/-- Something a session is given to do. -/
inductive Task where
  /-- A line that has been taken, a branch of a selection or a statement. -/
  | line (branch : Bool) (l : Line)
  /-- The lines up to `END`. -/
  | rows (branch : Bool)
  /-- The lines up to number `stop`. -/
  | linesTo (stop : Nat)
  /-- `times` passes of a loop, numbered from `k` on. -/
  | passes (round : Round) (times k : Nat)

def Task.run (n : Nested) : Task → Run (List Bus)
  | .line branch l => n.each branch l
  | .rows branch => n.rows branch
  | .linesTo stop => n.linesTo stop
  | .passes r times k => (fun _ => []) <$> Run.passes (n.pass r.target r.source r.width r.start r.stop) times k

/-- A line that has come to the lines of its construct: what is to be done with them, from
which session on, and what is made of the answers. -/
structure Construct where
  task : Task
  entry : Session
  finish : List Bus → Run (List Bus)

/-- The construct of a value, whose bus is for `finish`. There is none if the value has no
lines, or if something fails in front of them. -/
def Value.construct? (target : String) (finish : Bus → Run (List Bus)) (s : Session) :
    Value → Option Construct
  | .select selector none =>
    match s.ref selector with
    | .ok bus => some ⟨.rows true, s, fun branches => wire (Netlist.multiplex bus branches) >>= finish⟩
    | .error _ => none
  | .loop count (.ok source) =>
    match s.index count, bodyLength? 0 s.rest, s.lookup source with
    | .ok times, some length, .ok initial =>
      if target = "" then none
      else some
        { task := .passes ⟨target, source, initial.width, s.cursor, s.cursor + length⟩ times 0
          entry := { s with cursor := s.cursor + length + 1 }
          finish := fun _ => do
            let bus ← ask (·.lookup target)
            setBus source initial
            setCounter s.counter
            finish bus }
    | _, _, _ => none
  | _ => none

/-- The construct of a line. -/
def Line.construct? (branch : Bool) (l : Line) (s : Session) : Option Construct :=
  if branch then (value l.text).construct? "" (fun bus => pure [bus]) s
  else
    match statement l.text with
    | .block => some ⟨.rows false, s, fun _ => pure []⟩
    | .assign target (.ok v) =>
      match target.check s with
      | .ok slot => v.construct? target.name (fun bus => (fun _ => []) <$> target.receive slot bus) s
      | .error _ => none
    | _ => none

/-- A step that has come to its end. -/
def ended {α : Type} (r : Except Failure α × Session) : Run α := fun _ => r

section Constructs
variable {α : Type} {s : Session}

theorem outcome_ask_bind {β : Type} (f : Session → Except Error β) (g : β → Run α) (s : Session) :
    outcome (ask f >>= g) s =
      match f s with
      | .ok b => outcome (g b) s
      | .error e => (.error (.of e), s) := by
  rw [outcome_bind, outcome_ask]
  cases f s <;> rfl

theorem outcome_get_bind (g : Session → Run α) (s : Session) : outcome (get >>= g) s = outcome (g s) s := by
  rw [outcome_bind, outcome_get]

theorem outcome_setCursor_bind (cursor : Nat) (g : Unit → Run α) (s : Session) :
    outcome (setCursor cursor >>= g) s = outcome (g ()) { s with cursor } := by
  rw [outcome_bind]
  rfl

/-- What a loop does in front of its passes and behind them. -/
theorem Nested.outcome_loop (n : Nested) (target : String) (count : Index) (source : String) (s : Session) :
    outcome (n.loop target count (.ok source)) s =
      match s.index count with
      | .error e => (.error (.of e), s)
      | .ok times =>
        if target = "" then (.error (.of (.mismatch ⟨"assignment target", "LOOP"⟩)), s)
        else
          match bodyLength? 0 s.rest with
          | none => (.error (.of .unexpectedEnd), s)
          | some length =>
            match s.lookup source with
            | .error e => (.error (.of e), { s with cursor := s.cursor + length + 1 })
            | .ok initial => outcome (do
                let _ ← Task.run n (.passes ⟨target, source, initial.width, s.cursor, s.cursor + length⟩ times 0)
                let bus ← ask (·.lookup target)
                setBus source initial
                setCounter s.counter
                return bus) { s with cursor := s.cursor + length + 1 } := by
  have hlookup (c : Nat) : ({ s with cursor := c } : Session).lookup source = s.lookup source := rfl
  simp only [loop, outcome_ask_bind, Except.mapError]
  cases s.index count with
  | error e => dsimp only
  | ok times =>
    by_cases htarget : target = ""
    · simp only [htarget, if_true, outcome_bind, raise, outcome_throw]
    · simp only [htarget, if_false, outcome_get_bind, outcome_ask_bind, outcome_setCursor_bind, hlookup]
      rw [← Session.rest.eq_def]
      cases bodyLength? 0 s.rest with
      | none => dsimp only
      | some length =>
        cases s.lookup source with
        | error e => dsimp only
        | ok initial => simp only [Task.run, bind_map_left]

/-- A value without a construct is the same for every way of carrying lines out. -/
theorem Value.outcome_of_none {v : Value} {target : String} {finish : Bus → Run (List Bus)}
    (h : v.construct? target finish s = none) (n m : Nested) :
    outcome (n.evaluate target v) s = outcome (m.evaluate target v) s := by
  cases v with
  | fault e => rfl
  | formula terms fault => rfl
  | select selector fault =>
    simp only [Nested.evaluate, Nested.select, outcome_ask_bind]
    cases hbus : s.ref selector with
    | error e => dsimp only
    | ok bus =>
      cases fault with
      | some e => dsimp only [Session.checkText]
      | none => simp [construct?, hbus] at h
  | loop count source =>
    cases source with
    | error e =>
      simp only [Nested.evaluate, Nested.loop, outcome_ask_bind]
      cases s.index count <;> dsimp only [Except.mapError]
    | ok source =>
      simp only [Nested.evaluate, Nested.outcome_loop]
      cases hcount : s.index count with
      | error e => dsimp only
      | ok times =>
        by_cases htarget : target = ""
        · simp only [htarget, if_true]
        · cases hlength : bodyLength? 0 s.rest with
          | none => simp only [htarget, if_false]
          | some length =>
            cases hinitial : s.lookup source with
            | error e => simp only [htarget, if_false]
            | ok initial => simp [construct?, hcount, hlength, hinitial, htarget] at h

/-- A value with a construct comes to its lines, and what is left is made of their answers. -/
theorem Value.outcome_of_some {v : Value} {target : String} {finish : Bus → Run (List Bus)} {c : Construct}
    (h : v.construct? target finish s = some c) (n : Nested) : outcome (n.evaluate target v >>= finish) s =
      outcome (c.task.run n >>= c.finish) c.entry := by
  cases v with
  | fault e => cases h
  | formula terms fault => cases h
  | select selector fault =>
    cases hbus : s.ref selector with
    | error e => cases fault <;> simp [construct?, hbus] at h
    | ok bus =>
      cases fault with
      | some e => simp [construct?] at h
      | none =>
        simp only [construct?, hbus, Option.some.injEq] at h
        subst h
        simp only [Nested.evaluate, Nested.select, bind_assoc, outcome_ask_bind, hbus, Session.checkText, Task.run,
          Nested.rows_branch]
  | loop count source =>
    cases source with
    | error e => cases h
    | ok source =>
      simp only [construct?] at h
      split at h
      · rename_i times length initial hcount hlength hinitial
        by_cases htarget : target = ""
        · simp [htarget] at h
        · simp only [htarget, if_false, Option.some.injEq] at h
          subst h
          rw [outcome_bind, Nested.evaluate, Nested.outcome_loop]
          simp only [hcount, htarget, if_false, hlength, hinitial]
          rw [← outcome_bind]
          simp only [bind_assoc, pure_bind]
      · cases h

/-- Carrying out a statement that gives a target its value. -/
theorem Nested.assign_ok (n : Nested) (target : Target) (v : Value) (s : Session) :
    outcome (n.assign target (.ok v)) s =
      match target.check s with
      | .ok slot => outcome (n.evaluate target.name v >>= target.receive slot) s
      | .error e => (.error (.of e), s) := by
  show outcome (ask target.check >>= fun slot => ask (fun _ => .ok v) >>= fun v =>
    n.evaluate target.name v >>= target.receive slot) s = _
  rw [outcome_ask_bind]
  cases target.check s with
  | error e => rfl
  | ok slot => exact outcome_ask_bind ..

/-- A line without a construct is the same for every way of carrying lines out. -/
theorem Line.own_of_none {branch : Bool} {l : Line} (h : l.construct? branch s = none) (n m : Nested) :
    outcome (n.own branch l) s = outcome (m.own branch l) s := by
  cases branch with
  | true => simp only [Nested.own, if_true, outcome_map, Value.outcome_of_none h n m]
  | false =>
    have hexecute : outcome (n.execute (statement l.text)) s = outcome (m.execute (statement l.text)) s := by
      simp only [construct?, Bool.false_eq_true, if_false] at h
      cases hst : statement l.text with
      | fault e => simp only [Nested.execute]
      | block => simp [hst] at h
      | declare name width => simp only [Nested.execute]
      | input name width => simp only [Nested.execute]
      | assign target value =>
        simp only [Nested.execute]
        cases value with
        | error e =>
          simp only [Nested.assign, outcome_ask_bind]
          cases target.check s <;> dsimp only [Except.mapError]
        | ok v =>
          simp only [Nested.assign_ok]
          cases hslot : target.check s with
          | error e => dsimp only
          | ok slot =>
            simp only [hst, hslot] at h
            simp only [outcome_bind, Value.outcome_of_none h n m]
    simp only [Nested.own, Bool.false_eq_true, if_false, outcome_map, hexecute]

theorem Line.outcome_of_none {branch : Bool} {l : Line} (h : l.construct? branch s = none) (n m : Nested) :
    outcome (n.upon branch l) s = outcome (m.upon branch l) s := by
  rw [Nested.upon, Nested.upon, outcome_on, outcome_on, Line.own_of_none h n m]

/-- A line with a construct comes to its lines. -/
theorem Line.own_of_some {branch : Bool} {l : Line} {c : Construct} (h : l.construct? branch s = some c)
    (n : Nested) : outcome (n.own branch l) s = outcome (c.task.run n >>= c.finish) c.entry := by
  cases branch with
  | true =>
    rw [← Value.outcome_of_some h n]
    simp only [Nested.own, if_true, map_eq_pure_bind]
  | false =>
    simp only [Nested.own, Bool.false_eq_true, if_false]
    simp only [construct?, Bool.false_eq_true, if_false] at h
    cases hst : statement l.text with
    | block =>
      simp only [hst, Option.some.injEq] at h
      subst h
      simp only [Nested.execute, Task.run, Nested.rows_statement, bind_assoc, map_bind, map_pure, pure_bind]
    | assign target value =>
      cases value with
      | error e => simp [hst] at h
      | ok v =>
        cases hslot : target.check s with
        | error e => simp [hst, hslot] at h
        | ok slot =>
          simp only [hst, hslot] at h
          rw [← Value.outcome_of_some h n, Nested.execute, outcome_map, Nested.assign_ok, hslot]
          simp only [← outcome_map, map_bind]
    | _ => simp [hst] at h

theorem Line.outcome_of_some {branch : Bool} {l : Line} {c : Construct} (h : l.construct? branch s = some c)
    (n : Nested) :
    outcome (n.upon branch l) s = outcome (on l (c.task.run n >>= c.finish)) c.entry := by
  rw [Nested.upon, outcome_on, outcome_on, Line.own_of_some h n]

end Constructs

/-! ### What constructs there are -/

open Session (Stays Still)

/-- The construct of a line is made of the rows up to `END`, or of the passes of a loop,
whose last line the scan finds. -/
inductive Line.Sets (branch : Bool) (l : Line) (s : Session) (c : Construct) : Prop
  | rows (hloop : l.loops = false)
    (hkind : l.selects = true ∧ l.startsBlock = false ∨ l.startsBlock = true ∧ branch = false)
    (hread : l.selects = false → statement l.text = .block)
    (htask : c.task = .rows l.selects) (hentry : c.entry = s)
    (hfinish : ∀ as, (c.finish as).Keeps Stays) : Line.Sets branch l s c
  | passes {round : Round} {times length : Nat} (hloop : l.loops = true) (hbranch : branch = false)
    (hread : ∃ target count source, statement l.text = .assign target (.ok (.loop count source)))
    (hlength : bodyLength? 0 s.rest = some length) (hstart : round.start = s.cursor)
    (hstop : round.stop = s.cursor + length) (htask : c.task = .passes round times 0)
    (hentry : c.entry = { s with cursor := s.cursor + length + 1 })
    (hfinish : ∀ as u bs t, outcome (c.finish as) u = (.ok bs, t) → u.Still t ∧ t.counter = s.counter) :
    Line.Sets branch l s c

/-- The constructs of values, for lines of which the reading says which construct they open. -/
theorem Value.sets {branch : Bool} {l : Line} {s : Session} {v : Value} {target : String}
    {finish : Bus → Run (List Bus)} {c : Construct} (h : v.construct? target finish s = some c)
    (hfinish : ∀ bus, (finish bus).Keeps Stays)
    (hselect : ∀ selector, v = .select selector none →
      l.loops = false ∧ l.selects = true ∧ l.startsBlock = false)
    (hloop : ∀ count source, v = .loop count source → target ≠ "" → l.loops = true ∧ branch = false ∧
      ∃ target count source, statement l.text = .assign target (.ok (.loop count source))) :
    l.Sets branch s c := by
  unfold construct? at h
  split at h
  · rename_i selector
    obtain ⟨hl, hs, hb⟩ := hselect selector rfl
    split at h
    · cases h
      exact .rows hl (.inl ⟨hs, hb⟩) (by simp [hs]) (by rw [hs]) rfl
        fun as => .bind (fun _ => ⟨⟨rfl, rfl⟩, rfl⟩) hfinish
    · cases h
  · rename_i count source
    split at h
    · rename_i times length initial _ hlength _
      by_cases htarget : target = ""
      · simp [htarget] at h
      · simp only [htarget, if_false, Option.some.injEq] at h
        subst h
        obtain ⟨hl, hbranch, hread⟩ := hloop count _ rfl htarget
        refine .passes hl hbranch hread hlength rfl rfl rfl rfl fun as u bs t ho => ?_
        simp only [bind_eq_ok, ask_eq_ok, setBus_eq_ok, setCounter_eq_ok] at ho
        obtain ⟨bus, _, ⟨_, rfl⟩, _, _, rfl, _, _, rfl, ho⟩ := ho
        have hstays := (hfinish bus).reached ho
        exact ⟨⟨hstays.lines, hstays.cursor⟩, hstays.counter⟩
    · cases h
  · cases h

theorem Line.sets {branch : Bool} {l : Line} {s : Session} {c : Construct}
    (h : l.construct? branch s = some c) : l.Sets branch s c := by
  cases branch with
  | true =>
    refine Value.sets h (fun bus => .pure _) (fun selector hv => ?_) fun _ _ _ htarget => absurd rfl htarget
    obtain ⟨hb, hl, hs⟩ := shape_of_selectBranch hv
    exact ⟨hl, hs, hb⟩
  | false =>
    simp only [construct?, Bool.false_eq_true, if_false] at h
    split at h
    · rename_i hst
      cases h
      obtain ⟨hb, hl, hs⟩ := shape_of_block hst
      exact .rows hl (.inr ⟨hb, rfl⟩) (fun _ => hst) (by rw [hs]) rfl fun _ => .pure _
    · rename_i target v hst
      split at h
      · refine Value.sets h (fun bus => .map _ (stays_receive _ _ bus)) (fun selector hv => ?_) fun count source hv _ => ?_
        · rw [hv] at hst
          obtain ⟨hb, hl, hs⟩ := shape_of_select hst
          exact ⟨hl, hs, hb⟩
        · rw [hv] at hst
          exact ⟨(shape_of_loop hst).2, rfl, target, count, source, hst⟩
      · cases h
    · cases h

theorem entry_lines {branch : Bool} {l : Line} {s : Session} {c : Construct}
    (hc : l.construct? branch s = some c) : c.entry.lines = s.lines := by
  cases Line.sets hc with
  | rows _ _ _ _ hentry _ => rw [hentry]
  | passes _ _ _ _ _ _ _ hentry _ => rw [hentry]

end BusLogic.Script
