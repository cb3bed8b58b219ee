import BusLogic.Proofs.Script.Beside
import BusLogic.Proofs.Script.Blocks

/-! Lines carried out in another place.

Lines may be copied elsewhere in a script, or into another script, and their numbers
written out: each line then reads the same as its copy, number for number, in the session
that carries it out (`Line.Mirrors`), and the lines of an inner loop, whose numbers
depend on its passes, are copied as they are (`Copied`). A session in front of some
lines and one in front of their copies (`Follows`) do the same with them: whatever the
first carries out without leaving these lines, the second carries out as well, and the
two end side by side again (`leads_ample`). The relation can be turned around, so this
holds in both directions. -/
namespace BusLogic.Script
open Attempt Run
open Session (Takes Still Beside)

/-! ### Copies of lines -/

/-- The two lines read the same, with `counter` as the counter for one and `counter'` for
the other, and do not mention `keep`. -/
structure Line.Mirrors (keep : String) (counter counter' : Option Nat) (l l' : Line) : Prop where
  statement : (Script.statement l'.text).resolve counter' = (Script.statement l.text).resolve counter
  value : (Script.value l'.text).resolve counter' = (Script.value l.text).resolve counter
  isEnd : l'.isEnd = l.isEnd
  loops : l'.loops = l.loops
  selects : l'.selects = l.selects
  startsBlock : l'.startsBlock = l.startsBlock
  fresh : keep ∉ l.names

theorem Term.names_resolve (counter : Option Nat) (t : Term) : (t.resolve counter).names = t.names := by
  cases t with
  | operator op => rfl
  | operand o =>
    cases o with
    | ref r => rfl
    | source op extent => rfl
    | list l => simp [resolve, Operand.resolve, names, Operand.names, Listing.resolve, Listing.names, Ref.resolve]
    | reduction op l =>
      simp [resolve, Operand.resolve, names, Operand.names, Listing.resolve, Listing.names, Ref.resolve]

theorem Value.names_resolve (counter : Option Nat) (v : Value) : (v.resolve counter).names = v.names := by
  cases v with
  | fault m => rfl
  | loop count source => cases source <;> rfl
  | select selector text => rfl
  | formula terms text => simp [resolve, names, List.flatMap_map, Term.names_resolve]

theorem Statement.names_resolve (counter : Option Nat) (st : Statement) :
    (st.resolve counter).names = st.names := by
  cases st with
  | assign target value =>
    cases value with
    | error m => cases target <;> rfl
    | ok v =>
      have hname : (target.resolve counter).name = target.name := by cases target <;> rfl
      show (target.resolve counter).name :: ([v.resolve counter].flatMap Value.names) = _
      rw [hname, List.flatMap_cons, Value.names_resolve]
      rfl
  | _ => rfl

/-! What reads the same as a statement is a statement of its kind. -/

section Inversion
variable {counter counter' : Option Nat} {st : Statement}

theorem Statement.eq_block_of_resolve (h : st.resolve counter' = .block) : st = .block := by
  cases st with
  | block => rfl
  | _ => cases h

theorem Statement.eq_declare_of_resolve {name : String} {width : Nat}
    (h : st.resolve counter' = .declare name width) : st = .declare name width := by
  cases st with
  | declare name' width' =>
    cases h
    rfl
  | _ => cases h

theorem Statement.eq_input_of_resolve {name : String} {width : Nat}
    (h : st.resolve counter' = .input name width) : st = .input name width := by
  cases st with
  | input name' width' =>
    cases h
    rfl
  | _ => cases h

theorem Statement.eq_assign_of_resolve {target : Target} {v : Value}
    (h : st.resolve counter' = (Statement.assign target (.ok v)).resolve counter) :
    ∃ target' v', st = .assign target' (.ok v') ∧ target'.resolve counter' = target.resolve counter ∧
      v'.resolve counter' = v.resolve counter := by
  cases st with
  | assign target' value' =>
    obtain ⟨htarget, hvalue⟩ := Statement.assign.inj h
    cases value' with
    | error m => cases hvalue
    | ok v' => exact ⟨target', v', rfl, htarget, Except.ok.inj hvalue⟩
  | _ => cases h

end Inversion

theorem Line.Mirrors.symm {keep : String} {counter counter' : Option Nat} {l l' : Line}
    (h : l.Mirrors keep counter counter' l') : l'.Mirrors keep counter' counter l := by
  refine ⟨h.statement.symm, h.value.symm, h.isEnd.symm, h.loops.symm, h.selects.symm, h.startsBlock.symm, ?_⟩
  rw [names, ← Statement.names_resolve counter', ← Value.names_resolve counter', h.statement, h.value,
    Statement.names_resolve, Value.names_resolve]
  exact h.fresh

theorem Line.Mirrors.of_text {keep : String} {counter : Option Nat} {l l' : Line} (h : l'.text = l.text)
    (hn : keep ∉ l.names) : l.Mirrors keep counter counter l' :=
  ⟨by rw [h], by rw [h], by rw [Line.isEnd, Line.isEnd, h], by rw [Line.loops, Line.loops, h],
    by rw [Line.selects, Line.selects, h], by rw [Line.startsBlock, Line.startsBlock, h], hn⟩

/-- The lines and their copies. With `inLoop` constructs open from a loop on, the lines
are copied as they are. -/
inductive Copied (keep : String) (counter counter' : Option Nat) :
    (inLoop : Nat) → List Line → List Line → Prop
  | nil {inLoop : Nat} : Copied keep counter counter' inLoop [] []
  | line {l l' : Line} {W W' : List Line} (h : l.Mirrors keep counter counter' l')
    (hW : Copied keep counter counter' l.loops.toNat W W') : Copied keep counter counter' 0 (l :: W) (l' :: W')
  | same {inLoop d : Nat} {l l' : Line} {W W' : List Line} (ht : l'.text = l.text) (hn : keep ∉ l.names)
    (hd : l.nest (inLoop + 1) = some d) (hW : Copied keep counter counter' d W W') :
    Copied keep counter counter' (inLoop + 1) (l :: W) (l' :: W')

theorem Line.nest_of_text {l l' : Line} (h : l'.text = l.text) (depth : Nat) : l'.nest depth = l.nest depth := by
  unfold nest
  rw [isEnd, isEnd, opens, opens, h]

/-- Inside a construct, a line may always close it. -/
theorem Line.nest_succ (line : Line) (depth : Nat) : ∃ d, line.nest (depth + 1) = some d := by
  unfold nest
  split
  · exact ⟨_, rfl⟩
  · split <;> exact ⟨_, rfl⟩

section Copied
variable {keep : String} {counter counter' : Option Nat} {inLoop : Nat} {W W' : List Line}

theorem Copied.length (h : Copied keep counter counter' inLoop W W') : W'.length = W.length := by
  induction h with
  | nil => rfl
  | line _ _ ih => rw [List.length_cons, List.length_cons, ih]
  | same _ _ _ _ ih => rw [List.length_cons, List.length_cons, ih]

theorem Copied.symm (h : Copied keep counter counter' inLoop W W') : Copied keep counter' counter inLoop W' W := by
  induction h with
  | nil => exact .nil
  | line h _ ih => exact .line h.symm (by rw [h.loops]; exact ih)
  | same ht hn hd _ ih =>
    refine .same ht.symm ?_ ?_ ih
    · rw [Line.names, ht]
      exact hn
    · rw [Line.nest_of_text ht]
      exact hd

theorem Line.Mirrors.nest {l l' : Line} (h : l.Mirrors keep counter counter' l') (depth : Nat) :
    l'.nest depth = l.nest depth := by
  unfold Line.nest
  rw [h.isEnd, Line.opens_eq, Line.opens_eq, h.loops, h.selects, h.startsBlock]

/-- Copies open and close the same constructs. -/
theorem Copied.depthAfter_eq (h : Copied keep counter counter' inLoop W W') (depth : Nat) :
    depthAfter depth W' = depthAfter depth W := by
  induction h generalizing depth with
  | nil => rfl
  | line h _ ih =>
    rw [depthAfter_cons, depthAfter_cons, h.nest]
    exact congrArg _ (funext ih)
  | same ht _ _ _ ih =>
    rw [depthAfter_cons, depthAfter_cons, Line.nest_of_text ht]
    exact congrArg _ (funext ih)

/-- The branches among copies are copies of branches. -/
theorem Copied.map_startsBlock (h : Copied keep counter counter' inLoop W W') (stack : List Bool) :
    (branchLines inLoop stack W').map Line.startsBlock = (branchLines inLoop stack W).map Line.startsBlock := by
  induction h generalizing stack with
  | nil =>
    rw [branchLines]
  | @line l l' W W' h _ ih =>
    rw [branchLines, branchLines, h.isEnd, h.loops, h.selects, h.startsBlock]
    split
    · rename_i hend
      rw [Line.loops_of_end hend] at ih
      exact ih _
    · rw [List.map_append, List.map_append]
      congr 1
      · split
        · exact congrArg (fun b => [b]) h.startsBlock
        · rfl
      · cases hloop : l.loops with
        | true =>
          rw [hloop] at ih
          exact ih _
        | false =>
          rw [hloop] at ih
          rw [if_neg Bool.false_ne_true, if_neg Bool.false_ne_true]
          split
          · exact ih _
          · exact ih _
  | same ht _ hd _ ih =>
    rw [branchLines, branchLines, Line.nest_of_text ht, hd]
    exact ih _

/-- Lines are copies of themselves. -/
theorem Copied.of_texts (ht : W'.map Line.text = W.map Line.text) (hn : ∀ l ∈ W, keep ∉ l.names) :
    Copied keep counter counter inLoop W W' := by
  induction W generalizing W' inLoop with
  | nil =>
    rw [List.map_nil] at ht
    rw [List.map_eq_nil_iff.mp ht]
    exact .nil
  | cons l W ih =>
    rw [List.map_cons] at ht
    obtain ⟨l', W', rfl, htext, hrest⟩ := List.map_eq_cons_iff.mp ht
    have hl := hn l (List.mem_cons_self ..)
    have hW := fun l hl => hn l (List.mem_cons_of_mem _ hl)
    cases inLoop with
    | zero => exact .line (.of_text htext hl) (ih hrest hW)
    | succ inLoop =>
      obtain ⟨d, hd⟩ := l.nest_succ inLoop
      exact .same htext hl hd (ih hrest hW)

/-- The body of a loop is copied as it is. -/
theorem Copied.split {depth : Nat} {U : List Line} {e : Line}
    (h : Copied keep counter counter' (depth + 1) (U ++ e :: W) W') (hU : depthAfter depth U = some 0)
    (he : e.isEnd = true) : ∃ U' e' W₂, W' = U' ++ e' :: W₂ ∧ U'.map Line.text = U.map Line.text ∧
      (∀ l ∈ U, keep ∉ l.names) ∧ e'.text = e.text ∧ Copied keep counter counter' 0 W W₂ := by
  induction U generalizing depth W' with
  | nil =>
    cases hU
    cases h with
    | same ht _ hd hW =>
      rw [Line.nest_end he] at hd
      cases hd
      exact ⟨[], _, _, rfl, rfl, fun _ hl => absurd hl List.not_mem_nil, ht, hW⟩
  | cons l U ih =>
    rw [depthAfter_cons] at hU
    obtain ⟨d, hd, hU⟩ := Option.bind_eq_some_iff.mp hU
    cases h with
    | same ht hn hnest hW =>
      rw [Line.nest_add hd 1] at hnest
      cases hnest
      obtain ⟨U', e', W₂, rfl, htexts, hnames, hetext, hW₂⟩ := ih hW hU
      exact ⟨_ :: U', e', W₂, rfl, by rw [List.map_cons, List.map_cons, ht, htexts],
        List.forall_mem_cons.mpr ⟨hn, hnames⟩, hetext, hW₂⟩

end Copied

theorem depthAfter_of_texts {U U' : List Line} (h : U'.map Line.text = U.map Line.text) (depth : Nat) :
    depthAfter depth U' = depthAfter depth U := by
  induction U generalizing U' depth with
  | nil =>
    rw [List.map_nil] at h
    rw [List.map_eq_nil_iff.mp h]
  | cons l U ih =>
    rw [List.map_cons] at h
    obtain ⟨l', U', rfl, htext, hrest⟩ := List.map_eq_cons_iff.mp h
    rw [depthAfter_cons, depthAfter_cons, Line.nest_of_text htext]
    congr 1
    funext d
    exact ih hrest d

/-! ### Staying within some lines -/

/-- Every construct that the lines open is closed in them. -/
def Closes (W : List Line) : Prop := ∃ depth, depthAfter depth W = some 0

theorem Closes.drop {V W : List Line} (h : Closes (V ++ W)) : Closes W := by
  obtain ⟨depth, h⟩ := h
  obtain ⟨between, _, hW⟩ := depthAfter_left h
  exact ⟨between, hW⟩

/-- Behind such lines no construct is open. -/
theorem Closes.not_open {W : List Line} (h : Closes W) (d : Nat) : depthAfter 0 W ≠ some (d + 1) := by
  intro hd
  obtain ⟨depth, hclosed⟩ := h
  have hadd := depthAfter_add hd depth
  rw [Nat.zero_add, hclosed] at hadd
  have hzero := Option.some.inj hadd
  omega

/-- A statement that starts in such lines ends in them, and so it does where no lines are
left behind them. -/
theorem Spans.split {selection : Bool} {V Bs W T R : List Line} (h : Spans selection V Bs)
    (hW : Closes W ∨ T = []) (hne : W ≠ []) (heq : W ++ T = V ++ R) : ∃ W₂, W = V ++ W₂ ∧ R = W₂ ++ T := by
  rcases List.append_eq_append_iff.mp heq with ⟨V₂, hV, hT⟩ | ⟨W₂, hsplit, hR⟩
  · obtain rfl : V₂ = [] := by
      rcases hW with hW | rfl
      · by_contra hne₂
        obtain ⟨d, hd⟩ := h.inside W V₂ hV hne hne₂
        exact hW.not_open d hd
      · exact (List.append_eq_nil_iff.mp hT.symm).1
    exact ⟨[], by simpa using hV.symm, by simpa using hT.symm⟩
  · exact ⟨W₂, hsplit, hR⟩

theorem spans_ample : ample.Spans := by
  refine ⟨fun line s t r h => ?_, fun line s t b hend h => ?_⟩
  · rw [outcome_ample_statement] at h
    exact (spans_nested _).statement line s t r h
  · rw [outcome_ample_branch] at h
    exact (spans_nested _).branch line s t b hend h

theorem isEnd_of_ample {l : Line} {s t : Session} {r : Unit} (h : outcome (ample.statement l) s = (.ok r, t)) :
    l.isEnd = false := by
  rw [ample_statement, on_eq_ok] at h
  exact Nested.isEnd_of_execute h

section Within
variable {s u : Session} {l : Line} {V W R : List Line}

/-- A line takes at least itself. -/
theorem takes_statement (hl : s.lines[s.cursor]? = some l)
    (hu : outcome (ample.statement l) { s with cursor := s.cursor + 1 } = (.ok (), u)) :
    ∃ V Bs, Takes (l :: V) s u ∧ Spans false (l :: V) Bs := by
  obtain ⟨V, Bs, htakes, hspans⟩ := spans_ample.statement l _ u () hu
  exact ⟨V, Bs, (takes_line hl).trans htakes, hspans⟩

/-- Behind the first line that was taken, the others were. -/
theorem Session.Takes.tail (h : Takes (l :: V) s u) (hl : s.lines[s.cursor]? = some l) :
    Takes V { s with cursor := s.cursor + 1 } u := by
  refine takes_of_cursor h.lines ?_ (R := u.rest) ?_
  · rw [h.cursor, List.length_cons]
    simp only
    omega
  · exact (List.cons.inj ((Session.rest_cons hl).symm.trans h.rest)).2

/-- The first of some statements that close what they open takes lines of its own, and leaves
those of the others. -/
theorem statement_within (hW : Closes (l :: W) ∨ R = []) (hrest : s.rest = l :: W ++ R)
    (hl : s.lines[s.cursor]? = some l)
    (hu : outcome (ample.statement l) { s with cursor := s.cursor + 1 } = (.ok (), u)) :
    ∃ V W₂ Bs, W = V ++ W₂ ∧ Takes (l :: V) s u ∧ Spans false (l :: V) Bs ∧ u.rest = W₂ ++ R ∧
      s.cursor + (l :: W).length = u.cursor + W₂.length := by
  obtain ⟨V, Bs, htakes, hspans⟩ := takes_statement hl hu
  obtain ⟨W₂, hsplit, hR⟩ := hspans.split hW (List.cons_ne_nil l W) (hrest.symm.trans htakes.rest)
  obtain rfl : W = V ++ W₂ := (List.cons.inj hsplit).2
  refine ⟨V, W₂, Bs, rfl, htakes, hspans, hR, ?_⟩
  rw [htakes.cursor, List.length_cons, List.length_cons, List.length_append]
  omega

end Within

/-! ### Sessions in front of copies -/

/-- One session is in front of the lines `W`, the other in front of their copies, with
`T` and `T'` behind them, and the two stand beside each other. -/
structure Follows (keep : String) (held held' : Option Bus) (counter counter' : Option Nat) (inLoop : Nat) (T T' W W' : List Line)
    (s s' : Session) : Prop extends s.Beside keep held held' s' where
  left : s.counter = counter
  right : s'.counter = counter'
  rest : s.rest = W ++ T
  rest' : s'.rest = W' ++ T'
  copied : Copied keep counter counter' inLoop W W'

theorem Session.Still.rest_eq {s t : Session} (h : s.Still t) : t.rest = s.rest := by
  rw [rest, rest, h.lines, h.cursor]

theorem Session.Takes.length_rest {V : List Line} {s t : Session} (h : Takes V s t) :
    s.rest.length = V.length + t.rest.length := by
  rw [h.rest, List.length_append]

section Follows
variable {keep : String} {held held' : Option Bus} {counter counter' : Option Nat} {inLoop : Nat} {T T' W W' : List Line}
  {s s' t t' : Session}

theorem Follows.symm (h : Follows keep held held' counter counter' inLoop T T' W W' s s') :
    Follows keep held' held counter' counter inLoop T' T W' W s' s :=
  ⟨h.toBeside.symm, h.right, h.left, h.rest', h.rest, h.copied.symm⟩

/-- The first line, and its copy. -/
theorem Follows.step {l : Line} (h : Follows keep held held' counter counter' 0 T T' (l :: W) W' s s') :
    ∃ l' W₁, W' = l' :: W₁ ∧ l.Mirrors keep counter counter' l' ∧
      s.lines[s.cursor]? = some l ∧ s'.lines[s'.cursor]? = some l' ∧
      Follows keep held held' counter counter' l.loops.toNat T T' W W₁ { s with cursor := s.cursor + 1 }
        { s' with cursor := s'.cursor + 1 } := by
  obtain ⟨hl, hrest⟩ := Session.rest_eq_cons_iff.mp h.rest
  have hcopied := h.copied
  have hrest' := h.rest'
  cases hcopied with
  | line hm hW =>
    obtain ⟨hl', hr⟩ := Session.rest_eq_cons_iff.mp hrest'
    exact ⟨_, _, rfl, hm, hl, hl', ⟨h.netlist, h.buses, h.spare, h.spare'⟩, h.left, h.right, hrest, hr, hW⟩

/-- Changes that leave the sessions beside each other and their cursors alone. -/
theorem Follows.still (h : Follows keep held held' counter counter' inLoop T T' W W' s s') (hb : t.Beside keep held held' t')
    (hs : s.Still t) (hs' : s'.Still t') (hc : t.counter = s.counter) (hc' : t'.counter = s'.counter) :
    Follows keep held held' counter counter' inLoop T T' W W' t t' :=
  ⟨hb, hc.trans h.left, hc'.trans h.right, hs.rest_eq.trans h.rest, hs'.rest_eq.trans h.rest', h.copied⟩

end Follows

/-- What `each` does with a line whose construct has fewer than `n` lines in front of `T`, it
does with a copy of the line. -/
def Leads {α : Type} (keep : String) (n : Nat) (each : Line → Run α) : Prop :=
  ∀ ⦃held held' : Option Bus⦄ ⦃counter counter' : Option Nat⦄ ⦃T T' W W' : List Line⦄ ⦃l l' : Line⦄ ⦃u u' v : Session⦄ ⦃a : α⦄,
    W.length < n → l.isEnd = false → l.Mirrors keep counter counter' l' →
    Follows keep held held' counter counter' l.loops.toNat T T' W W' u u' → outcome (each l) u = (.ok a, v) →
    T.length ≤ v.rest.length →
    ∃ v' W₂ W₂', outcome (each l') u' = (.ok a, v') ∧ Follows keep held held' counter counter' 0 T T' W₂ W₂' v v'

section Rows
variable {keep : String} {held held' : Option Bus} {n : Nat} {counter counter' : Option Nat} {T T' W W' : List Line} {s s' t : Session}

/-- What is left in front of `T` only becomes less. -/
theorem length_le_of_takes {V : List Line} (htakes : Takes V s t) (hs : s.rest = W ++ T)
    {W₂ : List Line} (ht : t.rest = W₂ ++ T) : W.length = V.length + W₂.length := by
  have hlen := htakes.length_rest
  rw [hs, ht, List.length_append, List.length_append] at hlen
  omega

/-- Where the lines in front of `T` end stays the same. -/
theorem Session.Takes.cursor_add {V : List Line} (htakes : Takes V s t) (hs : s.rest = W ++ T)
    {W₂ : List Line} (ht : t.rest = W₂ ++ T) : s.cursor + W.length = t.cursor + W₂.length := by
  rw [htakes.cursor, length_le_of_takes htakes hs ht, Nat.add_assoc]

/-- Where no lines are left, nothing is done on either side. -/
theorem Follows.upTo_nil (hf : Follows keep held held' counter counter' 0 T T' [] W' s s') {b b' : Nat} {r : Unit}
    (ho : outcome (upTo ample.statement s.cursor b) s = (.ok r, t)) :
    ∃ t', outcome (upTo ample.statement (s'.cursor + W'.length) b') s' = (.ok (), t') ∧
      Follows keep held held' counter counter' 0 T T' [] [] t t' := by
  obtain rfl : W' = [] := List.eq_nil_of_length_eq_zero hf.copied.length
  rw [upTo_of_le (Nat.le_refl _)] at ho
  cases ho
  exact ⟨s', upTo_of_le (Nat.le_refl _) b', hf⟩

theorem Leads.body {α : Type} {each : Line → Run α} {selection : Bool} (h : Leads keep n each)
    (he : ∀ line (s t : Session) (a : α), line.isEnd = false → outcome (each line) s = (.ok a, t) →
      ∃ W Bs, Takes W s t ∧ Spans selection (line :: W) Bs)
    (hW : W.length ≤ n) (hf : Follows keep held held' counter counter' 0 T T' W W' s s') {b b' : Nat} {as : List α}
    (hb : s'.rest.length ≤ b') (ho : outcome (body each b) s = (.ok as, t)) (hT : T.length ≤ t.rest.length) :
    ∃ t' W₂ W₂', outcome (body each b') s' = (.ok as, t') ∧ Follows keep held held' counter counter' 0 T T' W₂ W₂' t t' := by
  induction b generalizing W W' s s' as b' with
  | zero => cases ho
  | succ b ih =>
    -- the body takes a line at least, which lies in front of `T`
    obtain ⟨U, e, _, htakes, _, _⟩ := body_takes he ho
    have hlen := htakes.length_rest
    rw [hf.rest, List.length_append, List.length_append, List.length_singleton] at hlen
    cases W with
    | nil =>
      rw [List.length_nil] at hlen
      omega
    | cons l W₁ =>
      obtain ⟨l', W₁', rfl, hm, hl, hl', hf₁⟩ := hf.step
      have hb₁ : ({ s' with cursor := s'.cursor + 1 } : Session).rest.length + 1 ≤ b' := by
        rw [Session.rest_cons hl'] at hb
        exact hb
      obtain ⟨b', rfl⟩ : ∃ b₁, b' = b₁ + 1 := ⟨b' - 1, by omega⟩
      obtain ⟨line, hline, hcase⟩ := body_succ_eq_ok.mp ho
      rw [hl] at hline
      cases hline
      rcases hcase with ⟨hend, rfl, rfl⟩ | ⟨hend, a, as', u, rfl, hu, hbody⟩
      · rw [Line.loops_of_end hend] at hf₁
        refine ⟨_, W₁, W₁', body_succ_eq_ok.mpr ⟨l', hl', .inl ⟨hm.isEnd.trans hend, rfl, rfl⟩⟩, hf₁⟩
      · obtain ⟨V, _, hV, _⟩ := he l _ u a hend hu
        obtain ⟨U', e', _, hU', _, _⟩ := body_takes he hbody
        have hV' := hV.length_rest
        have hU'' := hU'.length_rest
        rw [List.length_cons] at hW
        obtain ⟨u', W₂, W₂', hu', hf₂⟩ := h (Nat.lt_of_succ_le hW) hend hm hf₁ hu (by omega)
        have hW₂ := length_le_of_takes hV hf₁.rest hf₂.rest
        obtain ⟨V', _, hVr, _⟩ := he l' _ u' a (hm.isEnd.trans hend) hu'
        have hVr' := hVr.length_rest
        have hb₂ : u'.rest.length ≤ b' := by omega
        obtain ⟨t', W₃, W₃', ht', hf₃⟩ := ih (by omega) hf₂ hb₂ hbody
        exact ⟨t', W₃, W₃', body_succ_eq_ok.mpr ⟨l', hl', .inr ⟨hm.isEnd.trans hend, a, as', u', rfl, hu', ht'⟩⟩,
          hf₃⟩

/-- Lines that close what they open, carried out one after the other. -/
theorem Leads.upTo (h : Leads keep n ample.statement) (hW : W.length ≤ n) (hc : Closes W)
    (hf : Follows keep held held' counter counter' 0 T T' W W' s s') {b b' : Nat} {r : Unit} (hb : W.length ≤ b)
    (hb' : W'.length ≤ b') (ho : outcome (upTo ample.statement (s.cursor + W.length) b) s = (.ok r, t)) :
    ∃ t', outcome (Run.upTo ample.statement (s'.cursor + W'.length) b') s' = (.ok (), t') ∧
      Follows keep held held' counter counter' 0 T T' [] [] t t' := by
  induction b generalizing W W' s s' b' with
  | zero =>
    obtain rfl : W = [] := List.eq_nil_of_length_eq_zero (Nat.le_zero.mp hb)
    exact hf.upTo_nil ho
  | succ b ih =>
    cases W with
    | nil => exact hf.upTo_nil ho
    | cons l W₁ =>
      obtain ⟨l', W₁', rfl, hm, hl, hl', hf₁⟩ := hf.step
      rw [List.length_cons] at hb hb' hW
      obtain ⟨b', rfl⟩ : ∃ b₁, b' = b₁ + 1 := ⟨b' - 1, by omega⟩
      obtain ⟨hle, _⟩ | ⟨_, line, u, hline, hu, hup⟩ := upTo_succ_eq_ok.mp ho
      · rw [List.length_cons] at hle
        omega
      rw [hl] at hline
      cases hline
      obtain ⟨V, W₂, _, rfl, hV, _, hrest, hstop⟩ := statement_within (.inl hc) hf.rest hl hu
      have hlen : T.length ≤ u.rest.length := by
        rw [hrest, List.length_append]
        omega
      obtain ⟨u', U, W₂', hu', hf₂⟩ := h (Nat.lt_of_succ_le hW) (isEnd_of_ample hu) hm hf₁ hu hlen
      obtain rfl : W₂ = U := List.append_cancel_right (hrest.symm.trans hf₂.rest)
      -- the copy of the statement leaves the copies of the others
      obtain ⟨V', _, hV', _⟩ := takes_statement hl' hu'
      have hstop' : s'.cursor + (l' :: W₁').length = u'.cursor + W₂'.length := hV'.cursor_add hf.rest' hf₂.rest'
      have hlen' := hf₂.copied.length
      have hcopied := hf₁.copied.length
      rw [List.length_append] at hb hW hcopied
      have hb₂ : W₂'.length ≤ b' := by omega
      rw [hstop] at hup
      obtain ⟨t', ht', hf₃⟩ := ih (by omega) (Closes.drop (V := l :: V) hc) hf₂ (by omega) hb₂ hup
      refine ⟨t', upTo_succ_eq_ok.mpr (.inr ⟨?_, l', u', hl', hu', by rw [hstop']; exact ht'⟩), hf₃⟩
      rw [List.length_cons]
      omega

end Rows

/-! ### Constructs -/

theorem Session.Beside.setBus {keep : String} {held held' : Option Bus} {s s' : Session}
    (h : s.Beside keep held held' s') {name : String} (hname : name ≠ keep) (b : Bus) :
    Beside keep held held' { s with buses := s.buses.insert name b } { s' with buses := s'.buses.insert name b } := by
  refine ⟨h.netlist, fun other hn => ?_, ?_, ?_⟩
  · simp only [Session.bus?, buses_insert]
    split
    · rfl
    · exact h.buses other hn
  · simp only [Session.bus?, buses_insert, hname, if_false]
    exact h.spare
  · simp only [Session.bus?, buses_insert, hname, if_false]
    exact h.spare'

section Constructs
variable {keep : String} {held held' : Option Bus} {n : Nat} {counter counter' : Option Nat} {T T' U U' W W' : List Line}
  {s s' t : Session}

/-- A pass over lines, and one over copies of them. -/
theorem Leads.pass (h : Leads keep n ample.statement) (hU : U.length ≤ n) (hc : Closes U) {k : Nat}
    (hcopied : Copied keep (some k) counter' 0 U U') {start start' : Nat}
    (hl : s.lines.toList.drop start = U ++ T) (hr : s'.lines.toList.drop start' = U' ++ T')
    {target : String} (htarget : target ≠ keep) {width : Nat} {b b' : Nat} (hleft : U.length ≤ b) (hright : U'.length ≤ b') (hb : s.Beside keep held held' s')
    {r : Unit} (ho : outcome (Run.upTo ample.statement (start + U.length) b)
      { s with cursor := start, buses := s.buses.insert target (.unbound width), counter := some k } = (.ok r, t)) :
    ∃ t', outcome (Run.upTo ample.statement (start' + U'.length) b')
      { s' with cursor := start', buses := s'.buses.insert target (.unbound width), counter := counter' } =
        (.ok (), t') ∧ Follows keep held held' (some k) counter' 0 T T' [] [] t t' := by
  have hbus := hb.setBus htarget (.unbound width)
  have hf : Follows keep held held' (some k) counter' 0 T T' U U'
      { s with cursor := start, buses := s.buses.insert target (.unbound width), counter := some k }
      { s' with cursor := start', buses := s'.buses.insert target (.unbound width), counter := counter' } :=
    ⟨⟨hbus.netlist, hbus.buses, hbus.spare, hbus.spare'⟩, rfl, rfl, hl, hr, hcopied⟩
  exact h.upTo hU hc hf hleft hright ho

theorem Leads.passes (h : Leads keep n ample.statement) (hU : U.length ≤ n) (hc : Closes U)
    (ht : U'.map Line.text = U.map Line.text) (hn : ∀ l ∈ U, keep ∉ l.names) {start start' : Nat}
    (hl : s.lines.toList.drop start = U ++ T) (hr : s'.lines.toList.drop start' = U' ++ T')
    {target source : String} (htarget : target ≠ keep) (hsource : source ≠ keep) {width times k : Nat} (hb : s.Beside keep held held' s') {r : Unit}
    (ho : outcome (Run.passes (ample.pass target source width start (start + U.length)) times k) s = (.ok r, t)) :
    ∃ t', outcome (Run.passes (ample.pass target source width start' (start' + U'.length)) times k) s' =
      (.ok (), t') ∧ t.Beside keep held held' t' := by
  induction times generalizing s s' k with
  | zero =>
    obtain ⟨_, rfl⟩ := pure_eq_ok.mp ho
    exact ⟨s', rfl, hb⟩
  | succ times ih =>
    obtain ⟨u, hu, ho⟩ := passes_succ_eq_ok.mp ho
    have hstill := spans_ample.pass hu
    obtain ⟨p, next, hup, hnext, rfl⟩ := Nested.pass_eq_ok.mp hu
    rw [Nat.add_sub_cancel_left] at hup
    have hcopied : Copied keep (some k) (some k) 0 U U' := .of_texts ht hn
    obtain ⟨p', hup', hf⟩ := h.pass hU hc hcopied hl hr htarget (Nat.le_refl _) (Nat.le_refl _) hb hup
    have hu' : outcome (ample.pass target source width start' (start' + U'.length) k) s' =
        (.ok (), { p' with cursor := s'.cursor, buses := p'.buses.insert source next }) := by
      refine Nested.pass_eq_ok.mpr ⟨p', next, ?_, by rw [hf.lookup htarget]; exact hnext, rfl⟩
      rw [Nat.add_sub_cancel_left]
      exact hup'
    have hstill' := spans_ample.pass hu'
    have hbus := hf.toBeside.setBus hsource next
    have hbeside : Beside keep held held' { p with cursor := s.cursor, buses := p.buses.insert source next }
        { p' with cursor := s'.cursor, buses := p'.buses.insert source next } := ⟨hbus.netlist, hbus.buses, hbus.spare, hbus.spare'⟩
    obtain ⟨t', ht', hbt⟩ := ih (by rw [hstill.lines]; exact hl) (by rw [hstill'.lines]; exact hr) hbeside ho
    exact ⟨t', passes_succ_eq_ok.mpr ⟨_, hu', ht'⟩, hbt⟩

/-- Behind the lines of a construct and the line that closes it. -/
theorem Session.rest_behind {R : List Line} {e : Line} (h : s.rest = U ++ e :: R) :
    ({ s with cursor := s.cursor + U.length + 1 } : Session).rest = R := by
  rw [Session.rest, Nat.add_assoc, ← List.drop_drop]
  show s.rest.drop _ = _
  rw [h]
  simp [List.drop_append]

/-- Lines with no fewer than those of `T` behind them lie in front of `T`. -/
theorem split_in_front {R : List Line} {e : Line} (h : W ++ T = U ++ e :: R) (hlen : T.length ≤ R.length) :
    ∃ W₂, W = U ++ e :: W₂ ∧ R = W₂ ++ T := by
  have hcut : W ++ T = (U ++ [e]) ++ R := by rw [h, List.append_assoc, List.singleton_append]
  rcases List.append_eq_append_iff.mp hcut with ⟨a, ha, hR⟩ | ⟨W₂, hW, hR⟩
  · obtain rfl : a = [] := by
      rw [hR, List.length_append] at hlen
      exact List.eq_nil_of_length_eq_zero (by omega)
    exact ⟨[], by simpa using ha.symm, by simpa using hR.symm⟩
  · exact ⟨W₂, by simpa using hW, hR⟩

theorem Leads.loop (h : Leads keep n ample.statement) (hW : W.length ≤ n)
    (hf : Follows keep held held' counter counter' 1 T T' W W' s s') {target : String} (htarget : target ≠ keep)
    {count count' : Index} {source source' : Except Mismatch String} {b : Bus}
    (hcount : count'.resolve counter' = count.resolve counter)
    (hsource : (source'.mapError fun _ => unsaid) = source.mapError fun _ => unsaid)
    (hn : keep ∉ source.toOption.toList) (ho : outcome (ample.loop target count source) s = (.ok b, t))
    (hT : T.length ≤ t.rest.length) :
    ∃ t' W₂ W₂', outcome (ample.loop target count' source') s' = (.ok b, t') ∧
      Follows keep held held' counter counter' 0 T T' W₂ W₂' t t' := by
  obtain ⟨times, name, length, initial, p, htimes, rfl, hne, hlength, hinitial, hpasses, hb, rfl⟩ :=
    Nested.loop_eq_ok.mp ho
  obtain ⟨U, e, R, hrest, rfl, hend, hdepth⟩ := bodyLength?_eq_some_iff.mp hlength
  have hstill := spans_ample.passes hpasses
  -- the body and its end lie in front of `T`
  have hR : p.rest = R := hstill.rest_eq.trans (Session.rest_behind hrest)
  obtain ⟨W₂, rfl, rfl⟩ := split_in_front (hf.rest.symm.trans hrest) (hR ▸ hT)
  obtain ⟨U', e', W₂', rfl, htexts, hnames, hetext, hcopied⟩ := hf.copied.split hdepth hend
  have hlenU : U'.length = U.length := by simpa using congrArg List.length htexts
  have hrest' : s'.rest = U' ++ e' :: (W₂' ++ T') := by
    rw [hf.rest']
    simp
  have hend' : e'.isEnd = true := by rw [Line.isEnd, hetext]; exact hend
  have hname : name ≠ keep := fun heq => hn (by rw [heq]; exact List.mem_singleton.mpr rfl)
  have hbase : Beside keep held held' { s with cursor := s.cursor + U.length + 1 }
      { s' with cursor := s'.cursor + U'.length + 1 } :=
    ⟨hf.netlist, hf.buses, hf.spare, hf.spare'⟩
  have hU : U.length ≤ n := by
    rw [List.length_append] at hW
    omega
  have hl : ({ s with cursor := s.cursor + U.length + 1 } : Session).lines.toList.drop s.cursor =
      U ++ e :: (W₂ ++ T) := hrest
  have hr : ({ s' with cursor := s'.cursor + U'.length + 1 } : Session).lines.toList.drop s'.cursor =
      U' ++ e' :: (W₂' ++ T') := hrest'
  obtain ⟨p', hp', hbeside⟩ := h.passes hU ⟨0, hdepth⟩ htexts hnames hl hr htarget hname hbase hpasses
  have hstill' := spans_ample.passes hp'
  obtain ⟨source', rfl⟩ : ∃ name', source' = .ok name' := by
    cases source' with
    | ok name' => exact ⟨name', rfl⟩
    | error m => cases hsource
  cases hsource
  refine ⟨_, W₂, W₂', Nested.loop_eq_ok.mpr ⟨times, name, U'.length, initial, p', ?_, rfl, hne,
    bodyLength?_eq_some_iff.mpr ⟨U', e', _, hrest', rfl, hend', (depthAfter_of_texts htexts 0).trans hdepth⟩,
    by rw [hf.lookup hname]; exact hinitial, hp', by rw [hbeside.lookup htarget]; exact hb, rfl⟩, ?_⟩
  · exact Session.index_of_resolve (by rw [hf.left, hf.right]; exact hcount) htimes
  · have hbus := hbeside.setBus hname initial
    refine ⟨⟨hbus.netlist, hbus.buses, hbus.spare, hbus.spare'⟩, hf.left, hf.right, ?_, ?_, hcopied⟩
    · exact hR
    · exact hstill'.rest_eq.trans (Session.rest_behind hrest')

theorem Leads.select (h : Leads keep n ample.branch) (hW : W.length ≤ n)
    (hf : Follows keep held held' counter counter' 0 T T' W W' s s') {selector selector' : Ref}
    {fault fault' : Option Mismatch} {b : Bus} (hselector : selector'.resolve counter' = selector.resolve counter)
    (hfault : (fault'.map fun _ => unsaid) = fault.map fun _ => unsaid) (hn : selector.name ≠ keep)
    (ho : outcome (ample.select selector fault) s = (.ok b, t)) (hT : T.length ≤ t.rest.length) :
    ∃ t' W₂ W₂', outcome (ample.select selector' fault') s' = (.ok b, t') ∧
      Follows keep held held' counter counter' 0 T T' W₂ W₂' t t' := by
  obtain ⟨bus, branches, u, net, hbus, rfl, hbody, hnet, rfl⟩ := Nested.select_eq_ok.mp ho
  have hbudget : s'.rest.length ≤ s'.lines.size - s'.cursor := by
    rw [Session.rest, List.length_drop, Array.length_toList]
  obtain ⟨u', W₂, W₂', hbody', hf₂⟩ := h.body spans_ample.branch hW hf hbudget hbody hT
  refine ⟨_, W₂, W₂', Nested.select_eq_ok.mpr ⟨bus, branches, u', net, ?_, ?_, hbody', ?_, rfl⟩, ?_⟩
  · exact hf.ref (by rw [hf.left, hf.right]; exact hselector) hn hbus
  · exact Option.map_eq_none_iff.mp (hfault.trans (Option.map_none _))
  · rw [hf₂.netlist]
    exact hnet
  · exact hf₂.still ⟨rfl, hf₂.buses, hf₂.spare, hf₂.spare'⟩ ⟨rfl, rfl⟩ ⟨rfl, rfl⟩ rfl rfl

/-- Whether the lines behind a value are those of a loop. -/
def Value.isLoop : Value → Bool
  | .loop _ _ => true
  | _ => false

theorem leads_evaluate (hst : Leads keep n ample.statement) (hbr : Leads keep n ample.branch)
    (hW : W.length ≤ n) {v v' : Value} (hf : Follows keep held held' counter counter' v.isLoop.toNat T T' W W' s s')
    {target : String} (htarget : target ≠ keep) {b : Bus} (hv : v'.resolve counter' = v.resolve counter)
    (hn : keep ∉ v.names) (ho : outcome (ample.evaluate target v) s = (.ok b, t)) (hT : T.length ≤ t.rest.length) :
    ∃ t' W₂ W₂', outcome (ample.evaluate target v') s' = (.ok b, t') ∧
      Follows keep held held' counter counter' 0 T T' W₂ W₂' t t' := by
  cases v with
  | fault m => cases ho
  | loop count source =>
    cases v' <;> try cases hv
    obtain ⟨hcount, hsource⟩ := Value.loop.inj hv
    exact hst.loop hW hf htarget hcount hsource hn ho hT
  | select selector text =>
    cases v' <;> try cases hv
    obtain ⟨hselector, htext⟩ := Value.select.inj hv
    have hname : selector.name ≠ keep := fun heq => hn (by rw [← heq]; exact List.mem_singleton.mpr rfl)
    exact hbr.select hW hf hselector htext hname ho hT
  | formula terms text =>
    cases v' <;> try cases hv
    rename_i terms' text'
    obtain ⟨hterms, htext⟩ := Value.formula.inj hv
    have hext : s.Extends t := (extends_formula terms text).reached ho
    refine ⟨_, W, W', formula_beside hf.toBeside ?_ htext hn ho, ?_⟩
    · rw [hf.left, hf.right]
      exact hterms
    · exact hf.still (hf.toBeside.extend hext) hext.still ⟨rfl, rfl⟩ (by rw [hext.rest]) rfl

theorem bindSlot_beside (h : s.Beside keep held held' s') {name : String} (hn : name ≠ keep) {i : Nat} {value : Bus} {r : Unit}
    (ho : outcome (bindSlot name i value) s = (.ok r, t)) :
    ∃ t', outcome (bindSlot name i value) s' = (.ok (), t') ∧ t.Beside keep held held' t' ∧ s.Still t ∧ s'.Still t' ∧
      t.counter = s.counter ∧ t'.counter = s'.counter := by
  obtain ⟨gate, whole, bound, hwidth, hgate, hwhole, hbind, rfl⟩ := bindSlot_eq_ok.mp ho
  exact ⟨_, bindSlot_eq_ok.mpr ⟨gate, whole, bound, hwidth, hgate, by rw [h.lookup hn]; exact hwhole, hbind, rfl⟩,
    h.setBus hn bound, ⟨rfl, rfl⟩, ⟨rfl, rfl⟩, rfl, rfl⟩

theorem Session.Beside.give (h : s.Beside keep held held' s') {target : Target} (hn : target.name ≠ keep) (b : Bus) :
    (target.give b s).Beside keep held held' (target.give b s') := by
  have hbus := h.setBus hn b
  cases target with
  | bus name => exact hbus
  | slot name i => exact hbus
  | port name => exact ⟨by simp only [Target.give, h.netlist], hbus.buses, hbus.spare, hbus.spare'⟩

theorem Target.name_of_resolve {target target' : Target}
    (h : target'.resolve counter' = target.resolve counter) : target'.name = target.name := by
  have hname (counter : Option Nat) (target : Target) : (target.resolve counter).name = target.name := by
    cases target <;> rfl
  rw [← hname counter', h, hname]

theorem Target.give_of_resolve {target target' : Target}
    (h : target'.resolve counter' = target.resolve counter) (b : Bus) (s : Session) :
    target'.give b s = target.give b s := by
  have hgive (counter : Option Nat) (target : Target) : (target.resolve counter).give b s = target.give b s := by
    cases target <;> rfl
  rw [← hgive counter', h, hgive]

theorem leads_assign (hst : Leads keep n ample.statement) (hbr : Leads keep n ample.branch)
    (hW : W.length ≤ n) {v v' : Value} (hf : Follows keep held held' counter counter' v.isLoop.toNat T T' W W' s s')
    {target target' : Target} (htarget : target'.resolve counter' = target.resolve counter)
    (hv : v'.resolve counter' = v.resolve counter) (hn : keep ∉ target.name :: v.names) {r : Unit}
    (ho : outcome (ample.assign target (.ok v)) s = (.ok r, t)) (hT : T.length ≤ t.rest.length) :
    ∃ t' W₂ W₂', outcome (ample.assign target' (.ok v')) s' = (.ok (), t') ∧
      Follows keep held held' counter counter' 0 T T' W₂ W₂' t t' := by
  rw [List.mem_cons, not_or] at hn
  have hname : target'.name = target.name := Target.name_of_resolve htarget
  obtain ⟨slot, _, b, u, hslot, hok, hb, hne, hgive⟩ := Nested.assign_eq_ok.mp ho
  cases hok
  have hstill : u.rest = t.rest := by
    rcases hgive with ⟨i, _, hbind⟩ | ⟨_, rfl⟩
    · obtain ⟨_, _, _, _, _, _, _, rfl⟩ := bindSlot_eq_ok.mp hbind
      rfl
    · cases target <;> rfl
  obtain ⟨u', W₂, W₂', hb', hf₂⟩ := leads_evaluate hst hbr hW hf (Ne.symm hn.1) hv hn.2 hb (by rw [hstill]; exact hT)
  have hslot' : target'.check s' = .ok slot :=
    hf.check (by rw [hf.left, hf.right]; exact htarget) (Ne.symm hn.1) hslot
  rw [← hname] at hb'
  rcases hgive with ⟨i, rfl, hbind⟩ | ⟨rfl, rfl⟩
  · obtain ⟨t', hbind', hbeside, hs, hs', hc, hc'⟩ := bindSlot_beside hf₂.toBeside (Ne.symm hn.1) hbind
    rw [← hname] at hbind'
    exact ⟨t', W₂, W₂', Nested.assign_eq_ok.mpr ⟨_, v', b, u', hslot', rfl, hb', hne, .inl ⟨i, rfl, hbind'⟩⟩,
      hf₂.still hbeside hs hs' hc hc'⟩
  · refine ⟨_, W₂, W₂', Nested.assign_eq_ok.mpr ⟨_, v', b, u', hslot', rfl, hb', hne, .inr ⟨rfl, rfl⟩⟩, ?_⟩
    rw [Target.give_of_resolve htarget]
    refine hf₂.still (hf₂.toBeside.give (Ne.symm hn.1) b) ?_ ?_ ?_ ?_
    all_goals cases target <;> first | exact ⟨rfl, rfl⟩ | rfl

end Constructs

/-! ### Statements -/

section Statements
variable {keep : String} {held held' : Option Bus} {n : Nat} {counter counter' : Option Nat} {T T' W W' : List Line}
  {s s' t : Session}

theorem Statement.names_assign (target : Target) (v : Value) :
    (Statement.assign target (.ok v)).names = target.name :: v.names := by
  show target.name :: [v].flatMap Value.names = _
  rw [List.flatMap_cons, List.flatMap_nil, List.append_nil]

/-- Of an assignment that is carried out, the text says whether its value is a loop. -/
theorem Line.loops_of_assign {l : Line} {target : Target} {v : Value} {r : Unit} (hl : statement l.text = .assign target (.ok v))
    (ho : outcome (ample.assign target (.ok v)) s = (.ok r, t)) : l.loops = v.isLoop := by
  cases v with
  | fault m =>
    obtain ⟨_, _, _, _, _, hv, hb, _⟩ := Nested.assign_eq_ok.mp ho
    cases hv
    cases hb
  | loop count source => exact (Line.shape_of_loop hl).2
  | select selector text => exact (Line.shape_of_select hl).2.1
  | formula terms text => exact Line.loops_of_opens (Line.opens_of_formula hl)

theorem leads_execute (hst : Leads keep n ample.statement) (hbr : Leads keep n ample.branch)
    (hW : W.length ≤ n) {l l' : Line} (hm : l.Mirrors keep counter counter' l')
    (hf : Follows keep held held' counter counter' l.loops.toNat T T' W W' s s') {r : Unit}
    (ho : outcome (ample.execute (statement l.text)) s = (.ok r, t)) (hT : T.length ≤ t.rest.length) :
    ∃ t' W₂ W₂', outcome (ample.execute (statement l'.text)) s' = (.ok (), t') ∧
      Follows keep held held' counter counter' 0 T T' W₂ W₂' t t' := by
  have hnames : keep ∉ (statement l.text).names := fun hmem => hm.fresh (List.mem_append_left _ hmem)
  have hread := hm.statement
  cases hl : statement l.text with
  | fault m =>
    rw [hl] at ho
    cases ho
  | block =>
    rw [hl] at ho hread
    obtain ⟨rs, hbody⟩ := Nested.block_eq_ok.mp ho
    have hbudget : s'.rest.length ≤ s'.lines.size - s'.cursor := by
      rw [Session.rest, List.length_drop, Array.length_toList]
    rw [(Line.shape_of_block hl).2.1] at hf
    obtain ⟨t', W₂, W₂', hbody', hf₂⟩ :=
      hst.body (fun line s t r _ => spans_ample.statement line s t r) hW hf hbudget hbody hT
    rw [Statement.eq_block_of_resolve hread]
    exact ⟨t', W₂, W₂', Nested.block_eq_ok.mpr ⟨rs, hbody'⟩, hf₂⟩
  | declare name width =>
    rw [hl] at ho hread hnames
    obtain ⟨hwidth, rfl⟩ := Nested.declare_eq_ok.mp ho
    have hname : name ≠ keep := fun heq => hnames (by rw [heq]; exact List.mem_singleton.mpr rfl)
    rw [Line.loops_of_opens (Line.opens_of_declare hl)] at hf
    rw [Statement.eq_declare_of_resolve hread]
    exact ⟨_, W, W', Nested.declare_eq_ok.mpr ⟨by rw [hf.checkWidth]; exact hwidth, rfl⟩,
      hf.still (hf.toBeside.setBus hname _) ⟨rfl, rfl⟩ ⟨rfl, rfl⟩ rfl rfl⟩
  | input name width =>
    rw [hl] at ho hread hnames
    obtain ⟨b, net, hnet, rfl⟩ := Nested.input_eq_ok.mp ho
    have hname : name ≠ keep := fun heq => hnames (by rw [heq]; exact List.mem_singleton.mpr rfl)
    rw [Line.loops_of_opens (Line.opens_of_input hl)] at hf
    rw [Statement.eq_input_of_resolve hread]
    have hbus := hf.toBeside.setBus hname b
    exact ⟨_, W, W', Nested.input_eq_ok.mpr ⟨b, net, by rw [hf.netlist]; exact hnet, rfl⟩,
      hf.still ⟨rfl, hbus.buses, hbus.spare, hbus.spare'⟩ ⟨rfl, rfl⟩ ⟨rfl, rfl⟩ rfl rfl⟩
  | assign target value =>
    rw [hl] at ho hread hnames
    obtain ⟨_, v, _, _, _, rfl, _⟩ := Nested.assign_eq_ok.mp ho
    obtain ⟨target', v', hl', htarget, hv⟩ := Statement.eq_assign_of_resolve hread
    rw [Line.loops_of_assign hl ho] at hf
    rw [Statement.names_assign] at hnames
    rw [hl']
    exact leads_assign hst hbr hW hf htarget hv hnames ho hT

theorem leads_branch (hkeep : keep ≠ "") (hst : Leads keep n ample.statement) (hbr : Leads keep n ample.branch)
    (hW : W.length ≤ n) {l l' : Line} (hm : l.Mirrors keep counter counter' l')
    (hf : Follows keep held held' counter counter' l.loops.toNat T T' W W' s s') {b : Bus}
    (ho : outcome (ample.evaluate "" (value l.text)) s = (.ok b, t)) (hT : T.length ≤ t.rest.length) :
    ∃ t' W₂ W₂', outcome (ample.evaluate "" (value l'.text)) s' = (.ok b, t') ∧
      Follows keep held held' counter counter' 0 T T' W₂ W₂' t t' := by
  have hnames : keep ∉ (value l.text).names := fun hmem => hm.fresh (List.mem_append_right _ hmem)
  have hloop : l.loops = (value l.text).isLoop := by
    cases hv : value l.text with
    | fault m =>
      rw [hv] at ho
      cases ho
    | loop count source =>
      rw [hv] at ho
      obtain ⟨_, _, _, _, _, _, _, htarget, _⟩ := Nested.loop_eq_ok.mp ho
      exact absurd rfl htarget
    | select selector text =>
      rw [hv] at ho
      obtain ⟨_, _, _, _, _, rfl, _⟩ := Nested.select_eq_ok.mp ho
      exact (Line.shape_of_selectBranch hv).2.1
    | formula terms text =>
      rw [hv] at ho
      rw [formula_fault ho] at hv
      exact (Line.shape_of_branch hv).1
  rw [hloop] at hf
  exact leads_evaluate hst hbr hW hf (Ne.symm hkeep) hm.value hnames ho hT

end Statements

/-- **What a session does with some lines, a session in front of copies of them does as
well**, as long as it does not leave these lines. -/
theorem leads_ample {keep : String} (hkeep : keep ≠ "") (n : Nat) :
    Leads keep n ample.statement ∧ Leads keep n ample.branch := by
  induction n with
  | zero => exact ⟨fun _ _ _ _ _ _ _ _ _ _ _ _ _ _ h => absurd h (Nat.not_lt_zero _),
      fun _ _ _ _ _ _ _ _ _ _ _ _ _ _ h => absurd h (Nat.not_lt_zero _)⟩
  | succ n ih =>
    obtain ⟨hst, hbr⟩ := ih
    constructor
    · intro held held' counter counter' T T' W W' l l' u u' v a hW _ hm hf ho hT
      rw [ample_statement, on_eq_ok] at ho
      obtain ⟨v', W₂, W₂', hv', hf₂⟩ := leads_execute hst hbr (Nat.le_of_lt_succ hW) hm hf ho hT
      exact ⟨v', W₂, W₂', by rw [ample_statement, on_eq_ok]; exact hv', hf₂⟩
    · intro held held' counter counter' T T' W W' l l' u u' v a hW _ hm hf ho hT
      rw [ample_branch, on_eq_ok] at ho
      obtain ⟨v', W₂, W₂', hv', hf₂⟩ := leads_branch hkeep hst hbr (Nat.le_of_lt_succ hW) hm hf ho hT
      exact ⟨v', W₂, W₂', by rw [ample_branch, on_eq_ok]; exact hv', hf₂⟩

end BusLogic.Script
