import BusLogic.Proofs.Script.Ample
import BusLogic.Proofs.Script.Opening
import BusLogic.Proofs.Script.Steps

/-! Where constructs end.

The end of a construct is found twice: by carrying its lines out, and, for the body of
a loop, by a scan that counts lines that open a construct against lines that close one
(`bodyLength?`). The two go by different rules inside a selection, where every line is
a branch: a branch that starts with the word `BLOCK` stands for a bus of that name, and
opens a construct for the scan only. Each such branch leaves the scan one construct
deeper (`Spans`), and nothing else sets the two apart, so they find the same end exactly
when there is no such branch (`bodyLength?_block_iff`). -/
namespace BusLogic.Script
open Attempt Run

/-! ### The scan -/

/-- The number of constructs open behind a line with `depth` open in front of it, unless
the line closes what was not open. -/
def Line.nest (depth : Nat) (line : Line) : Option Nat :=
  if line.isEnd then
    match depth with
    | 0 => none
    | depth + 1 => some depth
  else if line.opens then some (depth + 1)
  else some depth

/-- The same behind some lines. -/
def depthAfter (depth : Nat) (lines : List Line) : Option Nat := lines.foldlM Line.nest depth

theorem depthAfter_cons (depth : Nat) (line : Line) (rest : List Line) :
    depthAfter depth (line :: rest) = (line.nest depth).bind (depthAfter · rest) := rfl

theorem depthAfter_append (depth : Nat) (V W : List Line) :
    depthAfter depth (V ++ W) = (depthAfter depth V).bind (depthAfter · W) := List.foldlM_append

theorem Line.nest_end {line : Line} (h : line.isEnd = true) (depth : Nat) :
    line.nest (depth + 1) = some depth := by
  unfold nest
  rw [if_pos h]

theorem Line.nest_opens {line : Line} (h : line.opens = true) (depth : Nat) :
    line.nest depth = some (depth + 1) := by
  have hend : ¬ line.isEnd = true := fun hend => by
    rw [(Line.shape_of_end hend).1] at h
    cases h
  unfold nest
  rw [if_neg hend, if_pos h]

theorem Line.nest_plain {line : Line} (hend : line.isEnd = false) (h : line.opens = false) (depth : Nat) :
    line.nest depth = some depth := by
  unfold nest
  rw [hend, h, if_neg Bool.false_ne_true, if_neg Bool.false_ne_true]

/-- What is open around a line stays open. -/
theorem Line.nest_add {line : Line} {depth after : Nat} (h : line.nest depth = some after) (n : Nat) :
    line.nest (depth + n) = some (after + n) := by
  unfold nest at h ⊢
  split at h
  · rename_i hend
    rw [if_pos hend]
    cases depth with
    | zero => cases h
    | succ depth =>
      cases h
      rw [Nat.add_right_comm]
  · rename_i hend
    rw [if_neg hend]
    split at h
    · rename_i hopen
      cases h
      rw [if_pos hopen, Nat.add_right_comm]
    · rename_i hopen
      cases h
      rw [if_neg hopen]

theorem depthAfter_add {depth after : Nat} {V : List Line} (h : depthAfter depth V = some after) (n : Nat) :
    depthAfter (depth + n) V = some (after + n) := by
  induction V generalizing depth with
  | nil =>
    cases h
    rfl
  | cons line rest ih =>
    rw [depthAfter_cons] at h ⊢
    obtain ⟨d, hd, hrest⟩ := Option.bind_eq_some_iff.mp h
    rw [Line.nest_add hd n]
    exact ih hrest

/-- Whatever comes before the end of lines that close only what is open does so, too. -/
theorem depthAfter_left {depth after : Nat} {V W : List Line} (h : depthAfter depth (V ++ W) = some after) :
    ∃ between, depthAfter depth V = some between ∧ depthAfter between W = some after := by
  rw [depthAfter_append] at h
  exact Option.bind_eq_some_iff.mp h

theorem bodyLength?_cons (depth : Nat) (line : Line) (rest : List Line) :
    bodyLength? depth (line :: rest) = if line.isEnd = true ∧ depth = 0 then some 0
      else (line.nest depth).bind fun d => (bodyLength? d rest).map (· + 1) := by
  unfold Line.nest
  cases depth with
  | zero => by_cases hend : line.isEnd = true <;> by_cases hopen : line.opens = true <;> simp [bodyLength?, hend, hopen]
  | succ depth => by_cases hend : line.isEnd = true <;> by_cases hopen : line.opens = true <;> simp [bodyLength?, hend, hopen]

/-- The scan stops at the first `END` with nothing open in front of it. -/
theorem bodyLength?_eq_some_iff {depth n : Nat} {lines : List Line} : bodyLength? depth lines = some n ↔
    ∃ V e rest, lines = V ++ e :: rest ∧ V.length = n ∧ e.isEnd = true ∧ depthAfter depth V = some 0 := by
  constructor
  · intro h
    induction lines generalizing depth n with
    | nil => cases depth <;> cases h
    | cons line rest ih =>
      rw [bodyLength?_cons] at h
      split at h
      · rename_i hend
        cases h
        exact ⟨[], line, rest, rfl, rfl, hend.1, by rw [hend.2]; rfl⟩
      · obtain ⟨d, hd, h⟩ := Option.bind_eq_some_iff.mp h
        obtain ⟨m, hm, rfl⟩ := Option.map_eq_some_iff.mp h
        obtain ⟨V, e, rest', rfl, rfl, he, hV⟩ := ih hm
        exact ⟨line :: V, e, rest', rfl, rfl, he, by rw [depthAfter_cons, hd]; exact hV⟩
  · rintro ⟨V, e, rest, rfl, rfl, he, hV⟩
    induction V generalizing depth with
    | nil =>
      cases hV
      rw [List.nil_append, bodyLength?_cons, if_pos ⟨he, rfl⟩]
      rfl
    | cons line V ih =>
      rw [depthAfter_cons] at hV
      obtain ⟨d, hd, hV⟩ := Option.bind_eq_some_iff.mp hV
      rw [List.cons_append, bodyLength?_cons, if_neg, hd]
      · exact Option.map_eq_some_iff.mpr ⟨_, ih hV, rfl⟩
      · rintro ⟨hend, rfl⟩
        rw [Line.nest, if_pos hend] at hd
        cases hd

/-! ### Branches of selections -/

/-- The lines that stand as branches of a selection outside loops. `stack` says of each
construct that is open whether it is a selection, the innermost first; inside a loop,
`inLoop` constructs are open from the loop on. -/
def branchLines : (inLoop : Nat) → (stack : List Bool) → List Line → List Line
  | _, _, [] => []
  | inLoop + 1, stack, line :: rest => branchLines ((line.nest (inLoop + 1)).getD 0) stack rest
  | 0, stack, line :: rest =>
    if line.isEnd then branchLines 0 stack.tail rest
    else
      (if stack.headD false then [line] else []) ++
        if line.loops then branchLines 1 stack rest
        else if line.selects || (line.startsBlock && !stack.headD false) then
          branchLines 0 (line.selects :: stack) rest
        else branchLines 0 stack rest

theorem branchLines_end {line : Line} (h : line.isEnd = true) (stack : List Bool) (rest : List Line) :
    branchLines 0 stack (line :: rest) = branchLines 0 stack.tail rest := by
  rw [branchLines, if_pos h]

/-- Inside a loop there is nothing but the scan. -/
theorem branchLines_inLoop {depth after : Nat} {U : List Line} (h : depthAfter depth U = some after)
    (stack : List Bool) (T : List Line) :
    branchLines (depth + 1) stack (U ++ T) = branchLines (after + 1) stack T := by
  induction U generalizing depth with
  | nil =>
    cases h
    rfl
  | cons line rest ih =>
    rw [depthAfter_cons] at h
    obtain ⟨d, hd, hrest⟩ := Option.bind_eq_some_iff.mp h
    rw [List.cons_append, branchLines, Line.nest_add hd 1]
    exact ih hrest

/-! ### Lines that belong together -/

/-- `V` is a row of whole statements, or of whole branches of a selection, with the
branches `Bs` in it. -/
structure Row (selection : Bool) (V Bs : List Line) : Prop where
  depth : depthAfter 0 V = some (Bs.countP Line.startsBlock)
  branches : ∀ (stack : List Bool) (T : List Line), stack.headD false = selection →
    branchLines 0 stack (V ++ T) = Bs ++ branchLines 0 stack T

/-- `V` is a single statement or branch: a construct is open until its last line. -/
structure Spans (selection : Bool) (V Bs : List Line) : Prop extends Row selection V Bs where
  inside : ∀ V₁ V₂, V = V₁ ++ V₂ → V₁ ≠ [] → V₂ ≠ [] → ∃ d, depthAfter 0 V₁ = some (d + 1)

theorem Row.nil (selection : Bool) : Row selection [] [] := ⟨rfl, fun _ _ _ => rfl⟩

theorem Row.append {selection : Bool} {V W Bs Cs : List Line} (hV : Row selection V Bs)
    (hW : Row selection W Cs) : Row selection (V ++ W) (Bs ++ Cs) := by
  refine ⟨?_, fun stack T hs => ?_⟩
  · have hadd := depthAfter_add hW.depth (Bs.countP Line.startsBlock)
    rw [Nat.zero_add, Nat.add_comm] at hadd
    rw [depthAfter_append, hV.depth, List.countP_append]
    exact hadd
  · rw [List.append_assoc, hV.branches stack _ hs, hW.branches stack T hs, List.append_assoc]

/-- A line for itself. -/
theorem Spans.single {selection : Bool} {line : Line} {Bs : List Line} (h : Row selection [line] Bs) :
    Spans selection [line] Bs := by
  refine ⟨h, fun V₁ V₂ hV h₁ h₂ => ?_⟩
  rcases List.append_eq_singleton_iff.mp hV.symm with ⟨rfl, _⟩ | ⟨_, rfl⟩
  · exact absurd rfl h₁
  · exact absurd rfl h₂

theorem Spans.statement {line : Line} (hend : line.isEnd = false) (hopen : line.opens = false) :
    Spans false [line] [] := by
  have hkind := hopen
  simp only [Line.opens_eq, Bool.or_eq_false_iff] at hkind
  refine .single ⟨?_, fun stack T hs => ?_⟩
  · rw [depthAfter_cons, Line.nest_plain hend hopen]
    rfl
  · rw [List.cons_append, branchLines, hs]
    simp [hend, hkind]

theorem Spans.branch {line : Line} (hend : line.isEnd = false) (hloop : line.loops = false)
    (hselect : line.selects = false) : Spans true [line] [line] := by
  have hopen : line.opens = line.startsBlock := by rw [Line.opens_eq, hloop, hselect]; simp
  refine .single ⟨?_, fun stack T hs => ?_⟩
  · rw [depthAfter_cons]
    by_cases hb : line.startsBlock = true
    · rw [Line.nest_opens (hopen.trans hb), List.countP_cons_of_pos hb]
      rfl
    · rw [Line.nest_plain hend (by simpa [hopen] using hb), List.countP_cons_of_neg hb]
      rfl
  · rw [List.cons_append, branchLines, hs]
    simp [hend, hloop, hselect]

/-- A line that opens a construct, lines that close only what they open, and an `END`. -/
theorem enclosed {line e : Line} {U : List Line} {x : Nat} (hopen : line.opens = true)
    (hU : depthAfter 0 U = some x) (he : e.isEnd = true) :
    depthAfter 0 (line :: (U ++ [e])) = some x ∧
      ∀ V₁ V₂, line :: (U ++ [e]) = V₁ ++ V₂ → V₁ ≠ [] → V₂ ≠ [] → ∃ d, depthAfter 0 V₁ = some (d + 1) := by
  constructor
  · rw [depthAfter_cons, Line.nest_opens hopen]
    show depthAfter (0 + 1) (U ++ [e]) = _
    rw [depthAfter_append, depthAfter_add hU 1]
    show (e.nest (x + 1)).bind _ = _
    rw [Line.nest_end he]
    rfl
  · intro V₁ V₂ hV h₁ h₂
    obtain ⟨U₁, rfl⟩ : ∃ U₁, V₁ = line :: U₁ := by
      cases V₁ with
      | nil => exact absurd rfl h₁
      | cons c U₁ => exact ⟨U₁, by rw [(List.cons.inj hV).1]⟩
    -- the last line is the closing one, which lies in the second part
    obtain ⟨V₃, z, rfl⟩ := (List.eq_nil_or_concat V₂).resolve_left h₂
    rw [List.cons_append, List.cons.injEq, List.concat_eq_append, ← List.append_assoc] at hV
    obtain ⟨rfl, _⟩ := List.append_inj' hV.2 rfl
    obtain ⟨d, hd, _⟩ := depthAfter_left hU
    refine ⟨d, ?_⟩
    rw [depthAfter_cons, Line.nest_opens hopen]
    exact depthAfter_add hd 1

/-- A block, or a selection: the lines inside are statements or branches. -/
theorem Spans.group {selection : Bool} {line e : Line} {U Bs : List Line} (hend : line.isEnd = false)
    (hloop : line.loops = false)
    (hkind : line.selects = true ∧ line.startsBlock = false ∨ line.startsBlock = true ∧ selection = false)
    (hU : Row line.selects U Bs) (he : e.isEnd = true) :
    Spans selection (line :: (U ++ [e])) ((if selection then [line] else []) ++ Bs) := by
  have hopen : line.opens = true := by
    rw [Line.opens_eq]
    rcases hkind with ⟨h, _⟩ | ⟨h, _⟩ <;> simp [h]
  obtain ⟨hdepth, hinside⟩ := enclosed hopen hU.depth he
  refine ⟨⟨?_, fun stack T hs => ?_⟩, hinside⟩
  · have hcount : ((if selection then [line] else []) ++ Bs).countP Line.startsBlock =
        Bs.countP Line.startsBlock := by
      rcases hkind with ⟨_, h⟩ | ⟨_, rfl⟩
      · cases selection <;> simp [h]
      · rfl
    rw [hcount]
    exact hdepth
  · have hbranch : (line.selects || (line.startsBlock && !stack.headD false)) = true := by
      rw [hs]
      rcases hkind with ⟨h, _⟩ | ⟨h, rfl⟩ <;> simp [h]
    rw [List.cons_append, branchLines, hend, if_neg Bool.false_ne_true, hloop, if_neg Bool.false_ne_true,
      if_pos hbranch, List.append_assoc, hU.branches (line.selects :: stack) _ rfl, hs, List.singleton_append,
      branchLines_end he, List.append_assoc]
    rfl

/-- A loop: the lines inside are those of the scan. -/
theorem Spans.loop {line e : Line} {U : List Line} (hend : line.isEnd = false) (hloop : line.loops = true)
    (hU : depthAfter 0 U = some 0) (he : e.isEnd = true) : Spans false (line :: (U ++ [e])) [] := by
  have hopen : line.opens = true := by
    rw [Line.opens_eq, hloop]
    simp
  obtain ⟨hdepth, hinside⟩ := enclosed hopen hU he
  refine ⟨⟨hdepth, fun stack T hs => ?_⟩, hinside⟩
  rw [List.cons_append, branchLines, hend, if_neg Bool.false_ne_true, hloop, if_pos rfl, List.append_assoc,
    branchLines_inLoop hU, hs, List.singleton_append, branchLines, Line.nest_end he]
  rfl

/-! ### Carrying lines out -/

/-- From `s` on, exactly the lines `W` have been taken. -/
structure Session.Takes (W : List Line) (s t : Session) : Prop where
  lines : t.lines = s.lines
  cursor : t.cursor = s.cursor + W.length
  rest : s.rest = W ++ t.rest

open Session (Takes Still)

theorem Session.Still.takes {s t : Session} (h : s.Still t) : Takes [] s t :=
  ⟨h.lines, h.cursor, by rw [rest, rest, h.lines, h.cursor]; rfl⟩

theorem Session.Takes.trans {V W : List Line} {s t u : Session} (hV : Takes V s t) (hW : Takes W t u) :
    Takes (V ++ W) s u := by
  refine ⟨hW.lines.trans hV.lines, ?_, by rw [hV.rest, hW.rest, List.append_assoc]⟩
  rw [hW.cursor, hV.cursor, List.length_append, Nat.add_assoc]

theorem takes_line {s : Session} {line : Line} (h : s.lines[s.cursor]? = some line) :
    Takes [line] s { s with cursor := s.cursor + 1 } := ⟨rfl, rfl, Session.rest_cons h⟩

theorem takes_of_cursor {s t : Session} {W R : List Line} (hlines : t.lines = s.lines)
    (hcursor : t.cursor = s.cursor + W.length) (hrest : s.rest = W ++ R) : Takes W s t := by
  refine ⟨hlines, hcursor, ?_⟩
  have ht : t.rest = s.rest.drop W.length := by
    rw [Session.rest, Session.rest, hlines, hcursor, List.drop_drop]
  rw [ht, hrest, List.drop_left]

/-- Where each line takes the lines of its own construct, a body takes a row of them and
an `END`. -/
theorem body_takes {α : Type} {each : Line → Run α} {selection : Bool}
    (he : ∀ line (s t : Session) (a : α), line.isEnd = false → outcome (each line) s = (.ok a, t) →
      ∃ W Bs, Takes W s t ∧ Spans selection (line :: W) Bs)
    {budget : Nat} {s t : Session} {as : List α} (h : outcome (body each budget) s = (.ok as, t)) :
    ∃ U e Bs, Takes (U ++ [e]) s t ∧ e.isEnd = true ∧ Row selection U Bs := by
  induction budget generalizing s as with
  | zero => cases h
  | succ budget ih =>
    obtain ⟨line, hline, ⟨hend, _, rfl⟩ | ⟨hend, a, as', u, _, hu, hbody⟩⟩ := body_succ_eq_ok.mp h
    · exact ⟨[], line, [], takes_line hline, hend, .nil _⟩
    · obtain ⟨W, Bs, htakes, hspans⟩ := he line _ u a hend hu
      obtain ⟨U, e, Cs, htakes', hend', hrow⟩ := ih hbody
      refine ⟨line :: (W ++ U), e, Bs ++ Cs, ?_, hend', hspans.toRow.append hrow⟩
      have hall := ((takes_line hline).trans htakes).trans htakes'
      simpa using hall

theorem upTo_lines {each : Line → Run Unit}
    (he : ∀ line (s t : Session) (r : Unit), outcome (each line) s = (.ok r, t) → t.lines = s.lines)
    {stop budget : Nat} {s t : Session} {r : Unit} (h : outcome (upTo each stop budget) s = (.ok r, t)) :
    t.lines = s.lines := by
  induction budget generalizing s with
  | zero =>
    obtain ⟨_, rfl⟩ := pure_eq_ok.mp h
    rfl
  | succ budget ih =>
    obtain ⟨_, rfl⟩ | ⟨_, line, u, _, hu, hup⟩ := upTo_succ_eq_ok.mp h
    · rfl
    · have hline := he line _ u () hu
      exact (ih hup).trans hline

/-- `END` is no statement. -/
theorem Nested.isEnd_of_execute {n : Nested} {line : Line} {s t : Session} {r : Unit}
    (h : outcome (n.execute (Script.statement line.text)) s = (.ok r, t)) : line.isEnd = false := by
  refine Line.isEnd_of_statement fun m hst => ?_
  rw [hst] at h
  obtain ⟨_, _, _, _, _, hv, _⟩ := assign_eq_ok.mp h
  cases hv

/-- Each line inside a construct takes the lines of its own construct. -/
structure Nested.Spans (n : Nested) : Prop where
  statement : ∀ line (s t : Session) (r : Unit), outcome (n.statement line) s = (.ok r, t) →
    ∃ W Bs, Takes W s t ∧ Script.Spans false (line :: W) Bs
  branch : ∀ line (s t : Session) (b : Bus), line.isEnd = false → outcome (n.branch line) s = (.ok b, t) →
    ∃ W Bs, Takes W s t ∧ Script.Spans true (line :: W) Bs

namespace Nested.Spans

variable {n : Nested} (h : n.Spans) {s t : Session}
include h

theorem pass {target source : String} {width start stop k : Nat} {r : Unit}
    (ho : outcome (n.pass target source width start stop k) s = (.ok r, t)) : s.Still t := by
  obtain ⟨u, next, hup, _, rfl⟩ := pass_eq_ok.mp ho
  have hlines := upTo_lines (fun line s t r hr => by
    obtain ⟨_, _, htakes, _⟩ := h.statement line s t r hr
    exact htakes.lines) hup
  exact ⟨hlines, rfl⟩

theorem passes {target source : String} {width start stop times k : Nat} {r : Unit}
    (ho : outcome (Run.passes (n.pass target source width start stop) times k) s = (.ok r, t)) : s.Still t := by
  induction times generalizing s k with
  | zero =>
    obtain ⟨_, rfl⟩ := pure_eq_ok.mp ho
    exact refl s
  | succ times ih =>
    obtain ⟨u, hu, hrest⟩ := passes_succ_eq_ok.mp ho
    exact IsTrans.trans _ _ _ (h.pass hu) (ih hrest)

/-- A loop takes the lines that the scan gives it. -/
theorem loop {target : String} {count : Index} {source : Except Mismatch String} {b : Bus}
    (ho : outcome (n.loop target count source) s = (.ok b, t)) :
    ∃ U e, Takes (U ++ [e]) s t ∧ e.isEnd = true ∧ depthAfter 0 U = some 0 := by
  obtain ⟨times, name, length, initial, u, _, _, _, hlength, _, hpasses, _, rfl⟩ := loop_eq_ok.mp ho
  obtain ⟨U, e, R, hrest, rfl, hend, hdepth⟩ := bodyLength?_eq_some_iff.mp hlength
  have hstill := h.passes hpasses
  refine ⟨U, e, takes_of_cursor hstill.lines (hstill.cursor.trans ?_) (R := R) (by rw [hrest]; simp), hend,
    hdepth⟩
  show s.cursor + U.length + 1 = s.cursor + (U ++ [e]).length
  rw [List.length_append, Nat.add_assoc]
  rfl

/-- A selection takes a row of branches. -/
theorem select {selector : Ref} {fault : Option Mismatch} {b : Bus}
    (ho : outcome (n.select selector fault) s = (.ok b, t)) :
    fault = none ∧ ∃ U e Bs, Takes (U ++ [e]) s t ∧ e.isEnd = true ∧ Row true U Bs := by
  obtain ⟨_, branches, u, net, _, hfault, hbody, _, rfl⟩ := select_eq_ok.mp ho
  obtain ⟨U, e, Bs, htakes, hend, hrow⟩ := body_takes h.branch hbody
  exact ⟨hfault, U, e, Bs, ⟨htakes.lines, htakes.cursor, htakes.rest⟩, hend, hrow⟩

theorem execute {line : Line} {r : Unit} (ho : outcome (n.execute (Script.statement line.text)) s = (.ok r, t)) :
    ∃ W Bs, Takes W s t ∧ Script.Spans false (line :: W) Bs := by
  have hend := isEnd_of_execute ho
  cases hst : Script.statement line.text with
  | fault m =>
    rw [hst] at ho
    cases ho
  | block =>
    rw [hst] at ho
    obtain ⟨rs, hbody⟩ := block_eq_ok.mp ho
    obtain ⟨hb, hl, hs⟩ := Line.shape_of_block hst
    obtain ⟨U, e, Bs, htakes, he, hrow⟩ := body_takes (fun line s t r _ => h.statement line s t r) hbody
    exact ⟨U ++ [e], Bs, htakes, .group hend hl (.inr ⟨hb, rfl⟩) (by rwa [hs]) he⟩
  | declare name width =>
    rw [hst] at ho
    obtain ⟨_, rfl⟩ := declare_eq_ok.mp ho
    exact ⟨[], [], Still.takes ⟨rfl, rfl⟩, .statement hend (Line.opens_of_declare hst)⟩
  | input name width =>
    rw [hst] at ho
    obtain ⟨_, _, _, rfl⟩ := input_eq_ok.mp ho
    exact ⟨[], [], Still.takes ⟨rfl, rfl⟩, .statement hend (Line.opens_of_input hst)⟩
  | assign target value =>
    rw [hst] at ho
    obtain ⟨slot, v, b, u, _, rfl, hv, _, hgive⟩ := assign_eq_ok.mp ho
    -- giving the value to its target takes no lines
    have hstill : u.Still t := by
      rcases hgive with ⟨i, _, hbind⟩ | ⟨_, rfl⟩
      · obtain ⟨_, _, _, _, _, _, _, rfl⟩ := bindSlot_eq_ok.mp hbind
        exact ⟨rfl, rfl⟩
      · cases target <;> exact ⟨rfl, rfl⟩
    have htakes {W : List Line} (hW : Takes W s u) : Takes W s t := by
      simpa using hW.trans hstill.takes
    cases v with
    | fault m => cases hv
    | loop count source =>
      obtain ⟨U, e, hU, he, hdepth⟩ := h.loop hv
      exact ⟨_, [], htakes hU, .loop hend (Line.shape_of_loop hst).2 hdepth he⟩
    | select selector fault =>
      obtain ⟨hb, hl, hs⟩ := Line.shape_of_select hst
      obtain ⟨_, U, e, Bs, hU, he, hrow⟩ := h.select hv
      exact ⟨_, Bs, htakes hU, .group hend hl (.inl ⟨hs, hb⟩) (by rwa [hs]) he⟩
    | formula terms fault =>
      have hext : s.Still u := ((extends_formula terms fault).reached hv).still
      exact ⟨[], [], htakes hext.takes, .statement hend (Line.opens_of_formula hst)⟩

theorem evaluate {line : Line} {b : Bus} (hend : line.isEnd = false)
    (ho : outcome (n.evaluate "" (value line.text)) s = (.ok b, t)) :
    ∃ W Bs, Takes W s t ∧ Script.Spans true (line :: W) Bs := by
  cases hv : value line.text with
  | fault m =>
    rw [hv] at ho
    cases ho
  | loop count source =>
    rw [hv] at ho
    obtain ⟨_, _, _, _, _, _, _, htarget, _⟩ := loop_eq_ok.mp ho
    exact absurd rfl htarget
  | select selector fault =>
    rw [hv] at ho
    obtain ⟨rfl, U, e, Bs, hU, he, hrow⟩ := h.select ho
    obtain ⟨hb, hl, hs⟩ := Line.shape_of_selectBranch hv
    exact ⟨_, _, hU, .group hend hl (.inl ⟨hs, hb⟩) (by rwa [hs]) he⟩
  | formula terms fault =>
    rw [hv] at ho
    have hext : s.Still t := ((extends_formula terms fault).reached ho).still
    rw [formula_fault ho] at hv
    obtain ⟨hl, hs⟩ := Line.shape_of_branch hv
    exact ⟨[], _, hext.takes, .branch hend hl hs⟩

end Nested.Spans

theorem spans_nested (depth : Nat) : (nested depth).Spans := by
  induction depth with
  | zero => exact ⟨fun _ _ _ _ h => (by cases h), fun _ _ _ _ _ h => (by cases h)⟩
  | succ depth ih =>
    exact ⟨fun line s t r h => ih.execute (on_eq_ok.mp h), fun line s t b hend h => ih.evaluate hend (on_eq_ok.mp h)⟩

/-- **The scan finds the end of a block exactly when no branch starts with `BLOCK`.** If the
lines from the cursor on are carried out as the body of a block, the block ends with an
`END`, and the scan for the body of a loop ends with the same line if and only if no branch
of a selection among the lines before it, outside loops, starts with the word `BLOCK`. -/
theorem bodyLength?_block_iff (depth : Nat) (s t : Session)
    (h : outcome ((nested depth).execute .block) s = (.ok (), t)) :
    ∃ body e, s.Takes (body ++ [e]) t ∧ e.isEnd = true ∧
      (bodyLength? 0 s.rest = some body.length ↔
        ∀ line ∈ branchLines 0 [] body, line.startsBlock = false) := by
  obtain ⟨rs, hbody⟩ := Nested.block_eq_ok.mp h
  obtain ⟨U, e, Bs, htakes, he, hrow⟩ :=
    body_takes (fun line s t r _ => (spans_nested depth).statement line s t r) hbody
  refine ⟨U, e, htakes, he, ?_⟩
  have hbranches : branchLines 0 [] U = Bs := by
    have hB := hrow.branches [] [] rfl
    rw [List.append_nil] at hB
    rw [hB]
    exact List.append_nil _
  have hnone : (∀ line ∈ Bs, line.startsBlock = false) ↔ Bs.countP Line.startsBlock = 0 := by
    rw [List.countP_eq_zero]
    simp
  rw [hbranches, hnone, bodyLength?_eq_some_iff]
  have hrest : s.rest = U ++ e :: t.rest := by
    rw [htakes.rest]
    simp
  constructor
  · rintro ⟨V, e', R, hV, hlen, he', hdepth⟩
    rw [hrest] at hV
    obtain ⟨rfl, _⟩ := List.append_inj hV hlen.symm
    rw [hrow.depth] at hdepth
    exact Option.some.inj hdepth
  · intro hzero
    exact ⟨U, e, t.rest, hrest, rfl, he, by rw [hrow.depth, hzero]⟩

/-- A session inside the block of a script, its lines in front of the block carried out. -/
def Session.inBlock (source : String) (opener : Nat) : Session :=
  { (outcome (upTo (nested opener).statement opener opener) (.start source {})).2 with cursor := opener + 1 }

/-- A block that holds another one and a selection. -/
def pickSample : String :=
  "IN s /1\nIN a /1\nBLOCK outer\nBLOCK inner\nEND\ny = SELECT(s)\na\nNOT a\nEND\nEND\n"

theorem bodyLength?_pickSample :
    (outcome ((nested 10).execute .block) (.inBlock pickSample 2)).1 = .ok () ∧
      bodyLength? 0 (Session.inBlock pickSample 2).rest = some 6 := by
  have hok : (outcome ((nested 10).execute .block) (.inBlock pickSample 2)).1 = .ok () := by decide +kernel
  have hcursor : (outcome ((nested 10).execute .block) (.inBlock pickSample 2)).2.cursor = 10 := by decide +kernel
  obtain ⟨body, e, htakes, _, hiff⟩ := bodyLength?_block_iff 10 (.inBlock pickSample 2) _ (Prod.ext hok rfl)
  have hlength : body.length = 6 := by
    have hc : 10 = 3 + (body ++ [e]).length := hcursor.symm.trans htakes.cursor
    rw [List.length_append, List.length_singleton] at hc
    omega
  have hbody : body = (Session.inBlock pickSample 2).rest.take 6 := by
    rw [htakes.rest, List.append_assoc, ← hlength, List.take_left]
  rw [hlength] at hiff
  refine ⟨hok, hiff.mpr ?_⟩
  rw [hbody]
  decide +kernel

/-- A bus may be called `BLOCK`, and then a branch may be no more than this name. -/
def blockSample : String :=
  "IN s /1\nIN BLOCK /1\nIN a /1\nBLOCK g\ny = SELECT(s)\nBLOCK\na\nEND\nt = y\nEND\n"

/-- Carried out, the block ends with the last line; the scan finds no end at all. -/
theorem bodyLength?_blockSample :
    (outcome ((nested 10).execute .block) (.inBlock blockSample 3)).1 = .ok () ∧
      (outcome ((nested 10).execute .block) (.inBlock blockSample 3)).2.cursor = 10 ∧
      bodyLength? 0 (Session.inBlock blockSample 3).rest = none := by
  decide +kernel

end BusLogic.Script
