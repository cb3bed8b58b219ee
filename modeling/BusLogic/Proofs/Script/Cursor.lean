import BusLogic.Proofs.Script.Carried
import BusLogic.Proofs.Script.Execution

/-! Where the cursor goes.

The text alone says how many lines belong to the construct that a line opens
(`Line.extent?`): outside loops, a line closes the innermost block or selection, and from a
loop on the scan counts. A line that is carried out leaves the cursor behind these lines
and the counter as it was (`Completes.done`); on the way only later lines are handed on
(`Completes.takes_later`), and each pass of a loop ends with the last line of its body
(`Completes.pass_exact`). -/
namespace BusLogic.Script
open Attempt Run
open Session (Takes Still Stays)

/-! ### The extent of a construct -/

/-- The constructs that are open: selections (`true`) and blocks, the innermost first, and
inside them, from a loop on, a number of constructs of any kind. -/
structure Opened where
  inLoop : Nat
  stack : List Bool
  deriving DecidableEq

namespace Opened

/-- No construct is open. -/
def none : Opened := ⟨0, []⟩

/-- What is open behind a line. A line of a selection is a branch, and opens no block. -/
def after (o : Opened) (l : Line) : Opened :=
  match o.inLoop with
  | depth + 1 => { o with inLoop := (l.nest (depth + 1)).getD 0 }
  | 0 =>
    if l.isEnd then { o with stack := o.stack.tail }
    else if l.loops then { o with inLoop := 1 }
    else if l.selects || (l.startsBlock && !o.stack.headD false) then { o with stack := l.selects :: o.stack }
    else o

/-- The number of lines until nothing is open. -/
def closing? (o : Opened) : List Line → Option Nat
  | [] => .none
  | l :: rest => if o.after l = .none then some 1 else ((o.after l).closing? rest).map (· + 1)

end Opened

/-- The number of lines behind a statement's first that belong to it. -/
def Line.extent? (l : Line) (rest : List Line) : Option Nat :=
  if Opened.none.after l = .none then some 0 else (Opened.none.after l).closing? rest

namespace Opened

theorem after_end {e : Line} (he : e.isEnd = true) (stack : List Bool) :
    after ⟨0, stack⟩ e = ⟨0, stack.tail⟩ := by simp [after, he]

theorem after_loop {l : Line} (hend : l.isEnd = false) (hloop : l.loops = true) (stack : List Bool) :
    after ⟨0, stack⟩ l = ⟨1, stack⟩ := by simp [after, hend, hloop]

theorem after_group {l : Line} {stack : List Bool} (hend : l.isEnd = false) (hloop : l.loops = false)
    (hkind : l.selects = true ∧ l.startsBlock = false ∨ l.startsBlock = true ∧ stack.headD false = false) :
    after ⟨0, stack⟩ l = ⟨0, l.selects :: stack⟩ := by
  rcases hkind with ⟨hs, _⟩ | ⟨hb, hstack⟩
  · simp [after, hend, hloop, hs]
  · simp only [after, hend, hloop, hb, hstack]
    simp

theorem after_plain {l : Line} {stack : List Bool} (hend : l.isEnd = false) (hloop : l.loops = false)
    (hselect : l.selects = false) (hblock : stack.headD false = false → l.startsBlock = false) :
    after ⟨0, stack⟩ l = ⟨0, stack⟩ := by
  simp only [after, hend, hloop, hselect]
  cases hstack : stack.headD false with
  | true => simp
  | false => simp [hblock hstack]

/-- Lines of a loop that close only what they open. -/
theorem closing?_inLoop {depth d : Nat} {U : List Line} (hU : depthAfter depth U = some d) (stack : List Bool)
    (T : List Line) :
    closing? ⟨depth + 1, stack⟩ (U ++ T) = (closing? ⟨d + 1, stack⟩ T).map (· + U.length) := by
  induction U generalizing depth with
  | nil =>
    cases hU
    simp
  | cons l U ih =>
    rw [depthAfter_cons] at hU
    obtain ⟨d', hd, hU⟩ := Option.bind_eq_some_iff.mp hU
    have hafter : after ⟨depth + 1, stack⟩ l = ⟨d' + 1, stack⟩ := by simp [after, Line.nest_add hd 1]
    rw [List.cons_append, closing?, hafter, if_neg (by simp [none]), ih hU, Option.map_map]
    congr 1

end Opened

open Opened (closing?)

/-! ### What the extent says -/

/-- Only an `END` closes the last construct that is open. -/
theorem Opened.isEnd_of_after {o : Opened} {l : Line} (ho : o ≠ .none) (h : o.after l = .none) : l.isEnd = true := by
  by_contra hend
  obtain ⟨inLoop, stack⟩ := o
  cases inLoop with
  | zero =>
    simp only [after, none, hend, if_false] at h ho
    split at h
    · simp at h
    · split at h
      · simp at h
      · exact ho h
  | succ depth =>
    simp only [after, none, Line.nest, hend, if_false] at h
    split at h <;> simp at h

theorem Opened.closing?_isEnd {o : Opened} {lines : List Line} {n : Nat} (ho : o ≠ .none)
    (h : o.closing? lines = some n) : ∃ k e, n = k + 1 ∧ lines[k]? = some e ∧ e.isEnd = true := by
  induction lines generalizing o n with
  | nil => cases h
  | cons l rest ih =>
    rw [closing?] at h
    split at h
    · rename_i hafter
      cases h
      exact ⟨0, l, rfl, rfl, isEnd_of_after ho hafter⟩
    · rename_i hafter
      obtain ⟨m, hm, rfl⟩ := Option.map_eq_some_iff.mp h
      obtain ⟨k, e, rfl, he, hend⟩ := ih hafter hm
      exact ⟨k + 1, e, rfl, he, hend⟩

/-- A statement is a line for itself exactly if it opens nothing, and else ends with an `END`. -/
theorem Line.extent?_cases {l : Line} {rest : List Line} {n : Nat} (hend : l.isEnd = false)
    (h : l.extent? rest = some n) :
    (l.opens = false ∧ n = 0) ∨ (l.opens = true ∧ ∃ k e, n = k + 1 ∧ rest[k]? = some e ∧ e.isEnd = true) := by
  have hopens : Opened.none.after l = .none ↔ l.opens = false := by
    rw [Line.opens_eq]
    simp only [Opened.after, Opened.none, hend]
    cases l.loops <;> cases l.selects <;> cases l.startsBlock <;> simp
  rw [extent?] at h
  split at h
  · rename_i hafter
    cases h
    exact .inl ⟨hopens.mp hafter, rfl⟩
  · rename_i hafter
    exact .inr ⟨by simpa using fun hl => hafter (hopens.mpr hl), Opened.closing?_isEnd hafter h⟩

/-! ### Lines that belong together -/

/-- In a selection, or outside of one, the lines close what they open, so that whatever is
open around them stays open. -/
def Skips (selection : Bool) (V : List Line) : Prop :=
  ∀ stack T, closing? ⟨0, selection :: stack⟩ (V ++ T) =
    (closing? ⟨0, selection :: stack⟩ T).map (· + V.length)

theorem Skips.nil (selection : Bool) : Skips selection [] := by
  intro stack T
  simp

theorem Skips.append {selection : Bool} {V W : List Line} (hV : Skips selection V) (hW : Skips selection W) :
    Skips selection (V ++ W) := by
  intro stack T
  rw [List.append_assoc, hV, hW, Option.map_map, List.length_append]
  congr 1
  funext n
  show n + W.length + V.length = n + (V.length + W.length)
  omega

section Lines
variable {selection : Bool} {l e : Line} {U : List Line}

/-- Behind its first line, a group closes with its `END`. -/
theorem closing?_group (hU : Skips selection U) (he : e.isEnd = true) (T : List Line) :
    closing? ⟨0, [selection]⟩ (U ++ e :: T) = some (U.length + 1) := by
  rw [hU, closing?, Opened.after_end he]
  simp [Opened.none, Nat.add_comm]

theorem closing?_loop (hU : depthAfter 0 U = some 0) (he : e.isEnd = true) (T : List Line) :
    closing? ⟨1, []⟩ (U ++ e :: T) = some (U.length + 1) := by
  have hafter : Opened.after ⟨0 + 1, []⟩ e = .none := by simp [Opened.after, Line.nest_end he, Opened.none]
  rw [Opened.closing?_inLoop hU, closing?, hafter, if_pos rfl]
  simp [Nat.add_comm]

theorem Skips.single (hend : l.isEnd = false) (hloop : l.loops = false) (hselect : l.selects = false)
    (hblock : selection = false → l.startsBlock = false) : Skips selection [l] := by
  intro stack T
  have hafter : Opened.after ⟨0, selection :: stack⟩ l = ⟨0, selection :: stack⟩ :=
    Opened.after_plain hend hloop hselect hblock
  rw [List.cons_append, List.nil_append, closing?, hafter]
  simp [Opened.none]

theorem Skips.group (hend : l.isEnd = false) (hloop : l.loops = false)
    (hkind : l.selects = true ∧ l.startsBlock = false ∨ l.startsBlock = true ∧ selection = false)
    (hU : Skips l.selects U) (he : e.isEnd = true) : Skips selection (l :: (U ++ [e])) := by
  intro stack T
  have hafter : Opened.after ⟨0, selection :: stack⟩ l = ⟨0, l.selects :: selection :: stack⟩ :=
    Opened.after_group hend hloop hkind
  rw [List.cons_append, closing?, hafter, List.append_assoc, hU,
    List.singleton_append, closing?, Opened.after_end he]
  simp only [Opened.none, Opened.mk.injEq, reduceCtorEq, and_false, if_false, Option.map_map, List.tail_cons,
    List.length_cons, List.length_append, List.length_nil]
  congr 1
  funext n
  show n + 1 + U.length + 1 = n + (U.length + (0 + 1) + 1)
  omega

theorem Skips.loop (hend : l.isEnd = false) (hloop : l.loops = true) (hU : depthAfter 0 U = some 0)
    (he : e.isEnd = true) : Skips selection (l :: (U ++ [e])) := by
  intro stack T
  have hafter : Opened.after ⟨0 + 1, selection :: stack⟩ e = ⟨0, selection :: stack⟩ := by
    simp [Opened.after, Line.nest_end he]
  rw [List.cons_append, closing?, Opened.after_loop hend hloop, List.append_assoc, List.singleton_append,
    Opened.closing?_inLoop hU, closing?, hafter]
  simp only [Opened.none, Opened.mk.injEq, reduceCtorEq, and_false, if_false, Option.map_map,
    List.length_cons, List.length_append, List.length_nil]
  congr 1
  funext n
  show n + 1 + U.length + 1 = n + (U.length + (0 + 1) + 1)
  omega

theorem extent?_single (hend : l.isEnd = false) (hloop : l.loops = false) (hselect : l.selects = false)
    (hblock : l.startsBlock = false) (rest : List Line) : l.extent? rest = some 0 := by
  rw [Line.extent?, Opened.none, Opened.after_plain hend hloop hselect fun _ => hblock, if_pos rfl]

theorem extent?_group (hend : l.isEnd = false) (hloop : l.loops = false)
    (hkind : l.selects = true ∧ l.startsBlock = false ∨ l.startsBlock = true)
    (hU : Skips l.selects U) (he : e.isEnd = true) (T : List Line) :
    l.extent? (U ++ e :: T) = some (U.length + 1) := by
  have hafter : Opened.none.after l = ⟨0, [l.selects]⟩ :=
    Opened.after_group hend hloop (hkind.imp_right fun hb => ⟨hb, rfl⟩)
  rw [Line.extent?, hafter, if_neg (by simp [Opened.none]), closing?_group hU he]

theorem extent?_loop (hend : l.isEnd = false) (hloop : l.loops = true) (hU : depthAfter 0 U = some 0)
    (he : e.isEnd = true) (T : List Line) : l.extent? (U ++ e :: T) = some (U.length + 1) := by
  have hafter : Opened.none.after l = ⟨1, []⟩ := Opened.after_loop hend hloop []
  rw [Line.extent?, hafter, if_neg (by simp [Opened.none]), closing?_loop hU he]

end Lines

/-! ### Lines carried out -/

theorem stays_formula {s t : Session} {terms : List Term} {fault : Option Mismatch} {b : Bus}
    (h : outcome (formula terms fault) s = (.ok b, t)) : s.Stays t := by
  have hext := (extends_formula terms fault).reached h
  exact ⟨hext.still, by rw [hext.rest]⟩

theorem Line.branch_of_none {l : Line} {n : Nested} {s t : Session} {as : List Bus}
    (hc : l.construct? true s = none) (ho : outcome (n.upon true l) s = (.ok as, t)) :
    s.Stays t ∧ l.loops = false ∧ l.selects = false := by
  obtain ⟨b, u, hv, ht⟩ := outcome_bind_ok (f := fun b => pure [b]) (on_eq_ok.mp ho)
  obtain ⟨_, rfl⟩ := pure_eq_ok.mp ht
  simp only [construct?, if_true] at hc
  cases hval : value l.text with
  | fault m =>
    rw [hval] at hv
    cases hv
  | loop count source =>
    rw [hval] at hv
    obtain ⟨_, _, _, _, _, _, _, htarget, _⟩ := Nested.loop_eq_ok.mp hv
    exact absurd rfl htarget
  | select selector fault =>
    rw [hval] at hv hc
    obtain ⟨bus, _, _, _, hbus, rfl, _⟩ := Nested.select_eq_ok.mp hv
    simp [Value.construct?, hbus] at hc
  | formula terms fault =>
    rw [hval] at hv
    rw [formula_fault hv] at hval
    exact ⟨stays_formula hv, Line.shape_of_branch hval⟩

theorem Line.statement_of_none {l : Line} {n : Nested} {s t : Session} {as : List Bus}
    (hc : l.construct? false s = none) (ho : outcome (n.upon false l) s = (.ok as, t)) :
    s.Stays t ∧ l.opens = false := by
  obtain ⟨_, u, hst, ht⟩ := outcome_bind_ok (f := fun _ => pure []) (on_eq_ok.mp ho)
  obtain ⟨_, rfl⟩ := pure_eq_ok.mp ht
  simp only [construct?, Bool.false_eq_true, if_false] at hc
  cases hread : statement l.text with
  | fault m =>
    rw [hread] at hst
    cases hst
  | block => simp [hread] at hc
  | declare name width =>
    rw [hread] at hst
    obtain ⟨_, rfl⟩ := Nested.declare_eq_ok.mp hst
    exact ⟨⟨⟨rfl, rfl⟩, rfl⟩, Line.opens_of_declare hread⟩
  | input name width =>
    rw [hread] at hst
    obtain ⟨_, _, _, rfl⟩ := Nested.input_eq_ok.mp hst
    exact ⟨⟨⟨rfl, rfl⟩, rfl⟩, Line.opens_of_input hread⟩
  | assign target value =>
    rw [hread] at hst
    obtain ⟨slot, v, b, w, hslot, rfl, hv, _⟩ := Nested.assign_eq_ok.mp hst
    rw [Nested.execute, Nested.assign_ok, hslot] at hst
    simp only [hread, hslot] at hc
    cases v with
    | fault m => cases hv
    | loop count source =>
      obtain ⟨times, name, length, initial, _, htimes, rfl, htarget, hlength, hinitial, _⟩ :=
        Nested.loop_eq_ok.mp hv
      simp [Value.construct?, htimes, hlength, hinitial, htarget] at hc
    | select selector fault =>
      obtain ⟨bus, _, _, _, hbus, rfl, _⟩ := Nested.select_eq_ok.mp hv
      simp [Value.construct?, hbus] at hc
    | formula terms fault =>
      obtain ⟨b, w, hv, hgive⟩ := bind_eq_ok.mp hst
      have hstays := (stays_receive target slot b).reached hgive
      exact ⟨IsTrans.trans _ _ _ (stays_formula hv) hstays, Line.opens_of_formula hread⟩

/-- A line that has nothing to do with other lines is a statement or branch for itself. -/
theorem Line.single_of_none {branch : Bool} {l : Line} {n : Nested} {s t : Session} {as : List Bus}
    (hc : l.construct? branch s = none) (ho : outcome (n.upon branch l) s = (.ok as, t)) :
    s.Stays t ∧ l.loops = false ∧ l.selects = false ∧ (branch = false → l.startsBlock = false) := by
  cases branch with
  | true =>
    obtain ⟨hstays, hloops, hselects⟩ := Line.branch_of_none hc ho
    exact ⟨hstays, hloops, hselects, nofun⟩
  | false =>
    obtain ⟨hstays, hopens⟩ := Line.statement_of_none hc ho
    simp only [Line.opens_eq, Bool.or_eq_false_iff] at hopens
    exact ⟨hstays, hopens.1.2, hopens.2, fun _ => hopens.1.1⟩

/-- An `END` is no statement. -/
theorem Completes.isEnd_of_line {l : Line} {s t : Session} {trace : List Event} {as : List Bus}
    (h : Completes (.line false l) s trace (.ok as, t)) : l.isEnd = false := by
  obtain ⟨_, u, hu, _⟩ := outcome_bind_ok (f := fun _ => pure []) h.outcome_eq
  exact isEnd_of_ample hu

/-- What a task that succeeds has done: the lines it took are those of the text, and the
counter is as before. -/
def Task.Done (s t : Session) : Task → Prop
  | .line branch l => t.counter = s.counter ∧ (l.isEnd = false → ∃ V, s.Takes V t ∧ Skips branch (l :: V) ∧
      (branch = false → ∀ T, l.extent? (V ++ T) = some V.length))
  | .rows branch => t.counter = s.counter ∧ ∃ U e, s.Takes (U ++ [e]) t ∧ e.isEnd = true ∧ Skips branch U
  | .linesTo _ => t.counter = s.counter ∧ ∃ W, s.Takes W t
  | .passes _ _ _ => s.Still t

/-- A construct is done when its lines are, and its value has been given to its target. -/
theorem done_construct {branch : Bool} {l : Line} {s u t : Session} {c : Construct} {bs as : List Bus}
    (hc : l.construct? branch s = some c) (hfinish : outcome (c.finish bs) u = (.ok as, t))
    (hu : c.task.Done c.entry u) : (Task.line branch l).Done s t := by
  cases Line.sets hc with
  | rows hloop hkind _ htask hentry hstays =>
    rw [htask, hentry] at hu
    obtain ⟨hcounter, U, e, htakes, he, hU⟩ := hu
    have hst := (hstays bs).reached hfinish
    refine ⟨hst.counter.trans hcounter, fun hend => ⟨U ++ [e], ?_, .group hend hloop hkind hU he, fun _ T => ?_⟩⟩
    · simpa using htakes.trans hst.toStill.takes
    · rw [List.append_assoc, List.singleton_append, List.length_append,
        extent?_group hend hloop (hkind.imp_right And.left) hU he]
      rfl
  | passes hloop hbranch _ hlength hstart hstop htask hentry hstays =>
    rw [htask, hentry] at hu
    obtain ⟨hst, hcounter⟩ := hstays bs u as t hfinish
    obtain ⟨U, e, R, hrest, rfl, he, hU⟩ := bodyLength?_eq_some_iff.mp hlength
    have hstill : Still _ t := IsTrans.trans _ _ _ hu hst
    have htakes : s.Takes (U ++ [e]) t := by
      refine takes_of_cursor hstill.lines (hstill.cursor.trans ?_) (R := R) (by rw [hrest]; simp)
      show s.cursor + U.length + 1 = s.cursor + (U ++ [e]).length
      rw [List.length_append, Nat.add_assoc]
      rfl
    refine ⟨hcounter, fun hend => ⟨U ++ [e], htakes, .loop hend hloop hU he, fun _ T => ?_⟩⟩
    rw [List.append_assoc, List.singleton_append, List.length_append, extent?_loop hend hloop hU he]
    rfl

/-- Whatever succeeds is done. -/
theorem Completes.done {task : Task} {s t : Session} {trace : List Event} {as : List Bus}
    (h : Completes task s trace (.ok as, t)) : task.Done s t := by
  generalize hr : (Except.ok as, t) = r at h
  induction h generalizing as t with
  | @plain branch l s r hc h =>
    obtain ⟨hstays, hl, hs, hb⟩ := Line.single_of_none hc ((h ample).trans hr.symm)
    refine ⟨hstays.counter, fun hend => ⟨[], hstays.toStill.takes, .single hend hl hs hb, fun hbranch T => ?_⟩⟩
    exact extent?_single hend hl hs (hb hbranch) T
  | construct hc _ ih =>
    rename_i r _
    rcases r with ⟨e | bs, u⟩
    · cases hr
    · exact done_construct hc (on_eq_ok.mp hr.symm) (ih rfl)
  | rowsOut hl => cases hr
  | @rowsEnd branch s l hl he =>
    cases hr
    exact ⟨rfl, [], l, takes_line hl, he, .nil branch⟩
  | rowsFail hl he h ih => cases hr
  | @rowsNext branch s u l trace trace' as r hl he _ _ ih ih' =>
    rcases r with ⟨e | bs, t⟩
    · cases hr
    · cases hr
      obtain ⟨hcounter, hline⟩ := ih rfl
      obtain ⟨hcounter', U, e, htakes', hend, hU⟩ := ih' rfl
      obtain ⟨V, htakes, hV, _⟩ := hline he
      refine ⟨hcounter'.trans hcounter, l :: (V ++ U), e, ?_, hend, ?_⟩
      · simpa using ((takes_line hl).trans htakes).trans htakes'
      · exact hV.append hU
  | linesDone hs =>
    cases hr
    exact ⟨rfl, [], Still.takes ⟨rfl, rfl⟩⟩
  | linesOut hs hl => cases hr
  | linesFail hs hl h ih => cases hr
  | @linesNext stop s u l trace trace' as' r hs hl h h' ih ih' =>
    subst hr
    obtain ⟨hcounter, hline⟩ := ih rfl
    obtain ⟨hcounter', W, htakes'⟩ := ih' rfl
    obtain ⟨V, htakes, _⟩ := hline h.isEnd_of_line
    exact ⟨hcounter'.trans hcounter, _, ((takes_line hl).trans htakes).trans htakes'⟩
  | passesDone =>
    cases hr
    exact refl _
  | passesFail h ih => cases hr
  | passesUnknown h hn ih => cases hr
  | passesNext h hn h' ih ih' =>
    subst hr
    obtain ⟨_, W, htakes⟩ := ih rfl
    have hstill : Still _ _ := ih' rfl
    exact ⟨hstill.lines.trans htakes.lines, hstill.cursor⟩

/-! ### Lines handed on -/

/-- Where the lines of a task start. -/
def Task.origin (s : Session) : Task → Nat
  | .passes round _ _ => round.start
  | _ => s.cursor

/-- A line that is carried out never takes the session back. -/
theorem Completes.cursor_le {branch : Bool} {l : Line} {s t : Session} {trace : List Event} {as : List Bus}
    (h : Completes (.line branch l) s trace (.ok as, t)) (he : l.isEnd = false) : s.cursor ≤ t.cursor :=
  (movesOn_each branch l s as t he h.outcome_eq).2

/-- Of a line that is handed on and those after it, all are behind the cursor. -/
theorem le_of_mem_takes {s t : Session} (hle : s.cursor + 1 ≤ t.cursor) {trace trace' : List Event}
    {branch first : Bool} {i : Nat} (hi : Event.takes branch i ∈ .takes first s.cursor :: (trace ++ trace'))
    (hfirst : .takes branch i ∈ trace → s.cursor + 1 ≤ i) (hlater : .takes branch i ∈ trace' → t.cursor ≤ i) :
    s.cursor ≤ i := by
  simp only [List.mem_cons, List.mem_append, Event.takes.injEq] at hi
  rcases hi with ⟨_, rfl⟩ | hi | hi
  · exact Nat.le_refl _
  · exact Nat.le_of_succ_le (hfirst hi)
  · exact Nat.le_of_succ_le (hle.trans (hlater hi))

/-- **Only lines from the start of the task on are handed on.** -/
theorem Completes.takes_later {task : Task} {s : Session} {trace : List Event}
    {r : Except Failure (List Bus) × Session} (h : Completes task s trace r) {branch : Bool} {i : Nat}
    (hi : Event.takes branch i ∈ trace) : task.origin s ≤ i := by
  induction h with
  | plain hc h => cases hi
  | @construct _ l s c trace r hc _ ih =>
    have hin : Event.takes branch i ∈ trace := by
      rcases List.mem_append.mp hi with hi | hi
      · exact hi
      · rcases r with ⟨e | bs, u⟩ <;> simp [closing] at hi
    have hle := ih hin
    cases Line.sets hc with
    | rows _ _ _ htask hentry _ =>
      rw [htask, hentry] at hle
      exact hle
    | passes _ _ _ _ hstart _ htask _ _ =>
      rw [htask] at hle
      exact hstart.ge.trans hle
  | rowsOut hl => cases hi
  | rowsEnd hl he => cases hi
  | rowsFail hl he _ ih =>
    rcases List.mem_cons.mp hi with hi | hi
    · cases hi
      exact Nat.le_refl _
    · exact Nat.le_of_succ_le (ih hi)
  | rowsNext hl he h _ ih ih' => exact le_of_mem_takes (h.cursor_le he) hi ih ih'
  | linesDone hs => cases hi
  | linesOut hs hl => cases hi
  | linesFail hs hl _ ih =>
    rcases List.mem_cons.mp hi with hi | hi
    · cases hi
      exact Nat.le_refl _
    · exact Nat.le_of_succ_le (ih hi)
  | linesNext hs hl h _ ih ih' => exact le_of_mem_takes (h.cursor_le h.isEnd_of_line) hi ih ih'
  | passesDone => cases hi
  | passesFail _ ih => exact ih hi
  | passesUnknown _ hn ih =>
    rcases List.mem_append.mp hi with hi | hi
    · exact ih hi
    · cases hi with
      | tail _ hi => cases hi
  | passesNext _ hn _ ih ih' =>
    rcases List.mem_append.mp hi with hi | hi
    · exact ih hi
    · cases hi with
      | tail _ hi => exact ih' hi

/-! ### Passes -/

/-- A line that is carried out is the last one taken, and the passes of a loop go through
lines that close what they open. -/
def Task.Placed (s : Session) : Task → Prop
  | .line _ l => ∃ p, s.cursor = p + 1 ∧ s.lines[p]? = some l
  | .passes round _ _ => ∃ U R, s.lines.toList.drop round.start = U ++ R ∧ Closes U ∧
      round.stop = round.start + U.length
  | _ => True

/-- The body of a loop is such lines. -/
theorem Line.placed {branch : Bool} {l : Line} {s : Session} {c : Construct} (hc : l.construct? branch s = some c) :
    c.task.Placed c.entry := by
  cases Line.sets hc with
  | rows _ _ _ htask _ _ =>
    rw [htask]
    trivial
  | passes _ _ _ hlength hstart hstop htask hentry _ =>
    obtain ⟨U, e, R, hrest, rfl, _, hU⟩ := bodyLength?_eq_some_iff.mp hlength
    rw [htask, hentry]
    exact ⟨U, e :: R, by rw [hstart]; exact hrest, ⟨0, hU⟩, by rw [hstop, hstart]⟩

section Passes
variable {round : Round} {times k : Nat} {s u : Session}

/-- A pass carries out these lines, all of them and none behind them. -/
theorem Task.Placed.carried (hp : (Task.passes round times k).Placed s) {trace : List Event} {as : List Bus}
    (h : Completes (.linesTo round.stop) (round.enter k s) trace (.ok as, u)) :
    ∃ U R, s.lines.toList.drop round.start = U ++ R ∧ Closes U ∧ round.stop = round.start + U.length ∧
      Carried U (round.enter k s) u := by
  obtain ⟨U, R, hrest, hU, hstop⟩ := hp
  have hup := (Nested.linesTo_eq_ok.mp h.outcome_eq).2
  rw [hstop] at hup
  exact ⟨U, R, hrest, hU, hstop, upTo_carried (s := round.enter k s) (.inl hU) hrest (by simp [Round.enter]) hup⟩

/-- So it ends with the last of them. -/
theorem Task.Placed.cursor (hp : (Task.passes round times k).Placed s) {trace : List Event} {as : List Bus}
    (h : Completes (.linesTo round.stop) (round.enter k s) trace (.ok as, u)) : u.cursor = round.stop := by
  obtain ⟨U, _, _, _, hstop, hU⟩ := hp.carried h
  exact hU.takes.cursor.trans hstop.symm

/-- The next pass goes through the same lines. -/
theorem Task.Placed.leave (hp : (Task.passes round (times + 1) k).Placed s) (hlines : u.lines = s.lines) (next : Bus) :
    (Task.passes round times (k + 1)).Placed (round.leave s u next) := by
  obtain ⟨U, R, hrest, hU, hstop⟩ := hp
  refine ⟨U, R, ?_, hU, hstop⟩
  rw [← hrest, ← hlines]
  rfl

end Passes

/-- **Each pass ends with the last line of the body.** -/
theorem Completes.pass_exact {task : Task} {s : Session} {trace : List Event}
    {r : Except Failure (List Bus) × Session} (h : Completes task s trace r) (hp : task.Placed s) {stop cursor : Nat}
    (hi : Event.pass stop cursor ∈ trace) : cursor = stop := by
  induction h with
  | plain hc h => cases hi
  | @construct branch l s c trace r hc _ ih =>
    rcases List.mem_append.mp hi with hi | hi
    · exact ih (Line.placed hc) hi
    · rcases r with ⟨e | bs, u⟩ <;> simp [closing] at hi
  | rowsOut hl => cases hi
  | rowsEnd hl he => cases hi
  | rowsFail hl he _ ih =>
    cases hi with
    | tail _ hi => exact ih ⟨_, rfl, hl⟩ hi
  | rowsNext hl he _ _ ih ih' =>
    cases hi with
    | tail _ hi =>
      rcases List.mem_append.mp hi with hi | hi
      · exact ih ⟨_, rfl, hl⟩ hi
      · exact ih' trivial hi
  | linesDone hs => cases hi
  | linesOut hs hl => cases hi
  | linesFail hs hl _ ih =>
    cases hi with
    | tail _ hi => exact ih ⟨_, rfl, hl⟩ hi
  | linesNext hs hl _ _ ih ih' =>
    cases hi with
    | tail _ hi =>
      rcases List.mem_append.mp hi with hi | hi
      · exact ih ⟨_, rfl, hl⟩ hi
      · exact ih' trivial hi
  | passesDone => cases hi
  | passesFail _ ih => exact ih trivial hi
  | passesUnknown h hn ih =>
    rcases List.mem_append.mp hi with hi | hi
    · exact ih trivial hi
    · obtain ⟨rfl, rfl⟩ := Event.pass.inj (List.mem_singleton.mp hi)
      exact hp.cursor h
  | passesNext h hn _ ih ih' =>
    rcases List.mem_append.mp hi with hi | hi
    · exact ih trivial hi
    · rcases List.mem_cons.mp hi with hi | hi
      · obtain ⟨rfl, rfl⟩ := Event.pass.inj hi
        exact hp.cursor h
      · obtain ⟨U, _, _, _, _, hU⟩ := hp.carried h
        exact ih' (hp.leave hU.takes.lines _) hi

/-! ### Cursor discipline -/

/-- Whether a statement is a construct of several lines. -/
def Statement.hasLines : Statement → Bool
  | .block | .assign _ (.ok (.loop _ _)) | .assign _ (.ok (.select _ _)) => true
  | _ => false

/-- Of a statement that is carried out, the text says whether it is a construct. -/
theorem Line.opens_of_ok {n : Nested} {l : Line} {s t : Session} {r : Unit}
    (h : outcome (n.execute (statement l.text)) s = (.ok r, t)) : l.opens = (statement l.text).hasLines := by
  cases hread : statement l.text with
  | fault m =>
    rw [hread] at h
    cases h
  | block => rw [Line.opens_eq, (Line.shape_of_block hread).1]; rfl
  | declare name width => exact Line.opens_of_declare hread
  | input name width => exact Line.opens_of_input hread
  | assign target value =>
    rw [hread] at h
    obtain ⟨_, v, _, _, _, rfl, hv, _⟩ := Nested.assign_eq_ok.mp h
    cases v with
    | fault m => cases hv
    | loop count source => simp [Line.opens_eq, Line.shape_of_loop hread, Statement.hasLines]
    | select selector fault => simp [Line.opens_eq, Line.shape_of_select hread, Statement.hasLines]
    | formula terms fault => exact Line.opens_of_formula hread

/-- A line that is carried out with enough depth does what its task comes to. -/
theorem Completes.outcome_nested {l : Line} {s : Session} {trace : List Event}
    {r : Except Failure (List Bus) × Session} (h : Completes (.line false l) s trace r) {depth : Nat}
    (hdepth : s.lines.size < s.cursor + depth) (hle : s.cursor ≤ s.lines.size) :
    outcome ((nested depth).statement l) s = (r.1.map fun _ => (), r.2) := by
  have hample := ((matches_ample s.lines hdepth).statement l s ⟨⟨rfl, Nat.le_refl _⟩, hle⟩).1
  rw [hample, ← h.outcome_eq]
  show _ = ((outcome ((fun _ => []) <$> ample.statement l) s).1.map _, (outcome ((fun _ => []) <$> ample.statement l) s).2)
  rw [outcome_map]
  rcases outcome (ample.statement l) s with ⟨e | _, t⟩ <;> rfl

/-- Building a script is one more task. -/
theorem Completes.outcome_build {s : Session} {trace : List Event} {r : Except Failure (List Bus) × Session}
    (h : Completes (.linesTo s.lines.size) s trace r) :
    outcome Session.build s = (r.1.map fun _ => (), r.2) := by
  rw [Script.outcome_build, ← h.outcome_eq]
  show _ = ((outcome ((fun _ => []) <$> upTo ample.statement s.lines.size (s.lines.size - s.cursor)) s).1.map _,
    (outcome ((fun _ => []) <$> upTo ample.statement s.lines.size (s.lines.size - s.cursor)) s).2)
  rw [outcome_map]
  rcases outcome (upTo ample.statement s.lines.size (s.lines.size - s.cursor)) s with ⟨e | _, t⟩ <;> rfl

/-- **Cursor discipline.** Building comes to an end from every session. So does carrying out
line `p` with the cursor behind it, however often and however deep its loops; only lines
after line `p` are handed on, and each pass of a loop on the way ends with the cursor at the
end of its body. If the line succeeds, the counter is as it was, and the cursor is behind
the lines that the text gives to it: none for a statement of one line, and else those up to
the `END` that closes its construct. -/
theorem cursor_discipline (s : Session) :
    (∃ trace r, Completes (.linesTo s.lines.size) s trace r ∧
      outcome Session.build s = (r.1.map fun _ => (), r.2)) ∧
    ∀ p l, s.lines[p]? = some l →
      (∃ trace r, Completes (.line false l) { s with cursor := p + 1 } trace r) ∧
      ∀ trace r, Completes (.line false l) { s with cursor := p + 1 } trace r →
        (∀ depth, s.lines.size ≤ p + depth →
          outcome ((nested depth).statement l) { s with cursor := p + 1 } = (r.1.map fun _ => (), r.2)) ∧
        (∀ branch i, .takes branch i ∈ trace → p < i) ∧
        (∀ stop cursor, .pass stop cursor ∈ trace → cursor = stop) ∧
        ∀ as t, r = (.ok as, t) → t.counter = s.counter ∧
          ∃ n, l.extent? (s.lines.toList.drop (p + 1)) = some n ∧ t.cursor = p + 1 + n ∧
            (n = 0 ↔ (statement l.text).hasLines = false) ∧
            (n ≠ 0 → ∃ e, s.lines[p + n]? = some e ∧ e.isEnd = true) := by
  constructor
  · obtain ⟨trace, r, h⟩ := exists_completes (.linesTo s.lines.size) s
    exact ⟨trace, r, h, h.outcome_build⟩
  intro p l hl
  have hlt : p < s.lines.size := (Array.getElem?_eq_some_iff.mp hl).1
  refine ⟨exists_completes _ _, fun trace r h => ⟨fun depth hdepth => ?_, fun _ i hi => h.takes_later hi,
    fun stop cursor hi => h.pass_exact ⟨p, rfl, hl⟩ hi, ?_⟩⟩
  · exact h.outcome_nested (by simp only; omega) hlt
  · rintro as t rfl
    have hend := h.isEnd_of_line
    obtain ⟨hcounter, hdone⟩ := h.done
    obtain ⟨V, htakes, _, hextent⟩ := hdone hend
    have hrest : s.lines.toList.drop (p + 1) = V ++ t.rest := htakes.rest
    have hn : l.extent? (s.lines.toList.drop (p + 1)) = some V.length := by
      rw [hrest]
      exact hextent rfl _
    have hopens : l.opens = (statement l.text).hasLines := by
      obtain ⟨_, u, hu, _⟩ := outcome_bind_ok (f := fun _ => pure []) h.outcome_eq
      rw [ample_statement, on_eq_ok] at hu
      exact Line.opens_of_ok hu
    refine ⟨hcounter, V.length, hn, htakes.cursor, ?_, fun hne => ?_⟩
    · rw [← hopens]
      rcases Line.extent?_cases hend hn with ⟨ho, h0⟩ | ⟨ho, k, _, hk, _⟩
      · exact ⟨fun _ => ho, fun _ => h0⟩
      · simp [ho, hk]
    · rcases Line.extent?_cases hend hn with ⟨_, h0⟩ | ⟨_, k, e, hk, he, hisEnd⟩
      · exact absurd h0 hne
      · refine ⟨e, ?_, hisEnd⟩
        rw [List.getElem?_drop, Array.getElem?_toList] at he
        rw [hk, ← he]
        congr 1
        omega

/-- A loop around a block and a selection. -/
def loopedSample : String :=
  "IN a /2\nIN s /1\nx = a\ny = LOOP(2) x\nBLOCK b\nz = SELECT(s)\na.0\na.1\nEND\nEND\ny = x\nEND\n"

/-- The line of the loop in `loopedSample`. -/
def loopedLine : Line := ⟨4, "y = LOOP(2) x".toList⟩

/-- Eight lines belong to the loop, and the cursor is behind them once it is carried out. -/
theorem cursor_discipline_loopedSample :
    (Session.inBlock loopedSample 3).lines[3]? = some loopedLine ∧
      loopedLine.extent? ((Session.inBlock loopedSample 3).lines.toList.drop 4) = some 8 ∧
      ∃ t, outcome ((nested 12).statement loopedLine) (.inBlock loopedSample 3) = (.ok (), t) ∧
        t.cursor = 12 ∧ t.counter = none := by
  obtain ⟨hline, hextent, hok, hsize, hcounter⟩ :
      (Session.inBlock loopedSample 3).lines[3]? = some loopedLine ∧
        loopedLine.extent? ((Session.inBlock loopedSample 3).lines.toList.drop 4) = some 8 ∧
        (outcome ((nested 12).statement loopedLine) (.inBlock loopedSample 3)).1 = .ok () ∧
        (Session.inBlock loopedSample 3).lines.size = 12 ∧ (Session.inBlock loopedSample 3).counter = none := by
    decide +kernel
  obtain ⟨⟨trace, r, h⟩, hall⟩ := (cursor_discipline (.inBlock loopedSample 3)).2 3 loopedLine hline
  obtain ⟨hnested, _, _, hsuccess⟩ := hall trace r h
  have hr : outcome ((nested 12).statement loopedLine) (.inBlock loopedSample 3) = (r.1.map fun _ => (), r.2) :=
    hnested 12 (by omega)
  rcases r with ⟨e | as, t⟩
  · rw [hr] at hok
    cases hok
  · obtain ⟨ht, n, hn, hcursor, _⟩ := hsuccess as t rfl
    rw [hextent] at hn
    cases hn
    exact ⟨hline, hextent, t, hr, hcursor, ht.trans hcounter⟩

end BusLogic.Script
