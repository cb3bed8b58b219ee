import BusLogic.Proofs.Script.Copies

/-! Carrying out a script line by line.

Building takes the lines one after the other, and a block takes its lines the same way.
So a session on its way through a script is told by where it stands and by how many
blocks are open around it: it may carry out the line in front of it, enter a block or
leave one (`Moves`). What it finishes with does not depend on how it got there
(`Reaches.finishes_iff`), and building is finishing with no block open
(`build_iff_finishes`). Lines and their copies are gone through alike
(`Follows.finishes`, `Follows.reaches`). -/
namespace BusLogic.Script
open Attempt Run
open Session (Takes)

/-! ### Moves -/

/-- The session carries out a line as a statement, or enters or leaves a block. -/
inductive Moves : Nat → Session → Nat → Session → Prop
  | line {b : Nat} {s u : Session} {l : Line} (hl : s.lines[s.cursor]? = some l)
    (hu : outcome (ample.statement l) { s with cursor := s.cursor + 1 } = (.ok (), u)) : Moves b s b u
  | enter {b : Nat} {s : Session} {l : Line} (hl : s.lines[s.cursor]? = some l)
    (hb : statement l.text = .block) : Moves b s (b + 1) { s with cursor := s.cursor + 1 }
  | leave {b : Nat} {s : Session} {l : Line} (hl : s.lines[s.cursor]? = some l)
    (he : l.isEnd = true) : Moves (b + 1) s b { s with cursor := s.cursor + 1 }

/-- Where moves from `s` on may lead, with the number of blocks open there. -/
inductive Reaches (s : Session) : Nat → Session → Prop
  | start : Reaches s 0 s
  | move {b b' : Nat} {t u : Session} (h : Reaches s b t) (hm : Moves b t b' u) : Reaches s b' u

/-- The session carries out the lines that are left and ends as `f`, with `b` blocks open
at first and none in the end. -/
inductive Finishes : Nat → Session → Session → Prop
  | done {s : Session} (h : s.lines.size ≤ s.cursor) : Finishes 0 s s
  | leave {b : Nat} {s f : Session} {l : Line} (hl : s.lines[s.cursor]? = some l) (he : l.isEnd = true)
    (hf : Finishes b { s with cursor := s.cursor + 1 } f) : Finishes (b + 1) s f
  | line {b : Nat} {s u f : Session} {l : Line} (hl : s.lines[s.cursor]? = some l)
    (hu : outcome (ample.statement l) { s with cursor := s.cursor + 1 } = (.ok (), u))
    (hf : Finishes b u f) : Finishes b s f

section Finishing
variable {b n : Nat} {s t u f : Session} {l : Line}

theorem cursor_lt (hl : s.lines[s.cursor]? = some l) : s.cursor < s.lines.size :=
  (Array.getElem?_eq_some_iff.mp hl).1

theorem finishes_of_upTo (hn : s.lines.size - s.cursor ≤ n)
    (h : outcome (upTo ample.statement s.lines.size n) s = (.ok (), f)) : Finishes 0 s f := by
  induction n generalizing s with
  | zero =>
    obtain ⟨_, rfl⟩ := pure_eq_ok.mp h
    exact .done (by omega)
  | succ n ih =>
    obtain ⟨hle, rfl⟩ | ⟨_, l, u, hl, hu, hup⟩ := upTo_succ_eq_ok.mp h
    · exact .done hle
    · obtain ⟨V, _, htakes, _⟩ := takes_statement hl hu
      have hcursor := htakes.cursor
      rw [List.length_cons] at hcursor
      rw [← htakes.lines] at hup
      exact .line hl hu (ih (by rw [htakes.lines]; omega) hup)

theorem upTo_of_finishes (hn : s.lines.size - s.cursor ≤ n) (h : Finishes 0 s f) :
    outcome (upTo ample.statement s.lines.size n) s = (.ok (), f) := by
  generalize hb : 0 = b at h
  induction h generalizing n with
  | done hle => exact upTo_of_le hle n
  | leave _ _ _ _ => cases hb
  | @line b s u f l hl hu _ ih =>
    have hlt := cursor_lt hl
    obtain ⟨V, _, htakes, _⟩ := takes_statement hl hu
    have hcursor := htakes.cursor
    rw [List.length_cons] at hcursor
    obtain ⟨n, rfl⟩ : ∃ m, n = m + 1 := ⟨n - 1, by omega⟩
    refine upTo_succ_eq_ok.mpr (.inr ⟨hlt, l, u, hl, hu, ?_⟩)
    rw [← htakes.lines]
    exact ih (by rw [htakes.lines]; omega) hb

/-- Building is finishing with no block open. -/
theorem build_iff_finishes : outcome Session.build s = (.ok (), f) ↔ Finishes 0 s f := by
  rw [outcome_build]
  exact ⟨finishes_of_upTo (Nat.le_refl _), upTo_of_finishes (Nat.le_refl _)⟩

theorem Finishes.of_body {rs : List Unit} (h : outcome (body ample.statement n) s = (.ok rs, t))
    (hf : Finishes b t f) : Finishes (b + 1) s f := by
  induction n generalizing s rs with
  | zero => cases h
  | succ n ih =>
    obtain ⟨l, hl, ⟨hend, _, rfl⟩ | ⟨_, _, rs', u, _, hu, hbody⟩⟩ := body_succ_eq_ok.mp h
    · exact .leave hl hend hf
    · exact .line hl hu (ih hbody)

theorem Finishes.body (h : Finishes (b + 1) s f) (hn : s.lines.size - s.cursor ≤ n) :
    ∃ rs t, outcome (body ample.statement n) s = (.ok rs, t) ∧ Finishes b t f := by
  generalize hc : b + 1 = c at h
  induction h generalizing n with
  | done _ => cases hc
  | @leave b' s f l hl he hf _ =>
    cases hc
    have hlt := cursor_lt hl
    obtain ⟨n, rfl⟩ : ∃ m, n = m + 1 := ⟨n - 1, by omega⟩
    exact ⟨[], _, body_succ_eq_ok.mpr ⟨l, hl, .inl ⟨he, rfl, rfl⟩⟩, hf⟩
  | @line b' s u f l hl hu _ ih =>
    have hlt := cursor_lt hl
    obtain ⟨V, _, htakes, _⟩ := takes_statement hl hu
    have hcursor := htakes.cursor
    rw [List.length_cons] at hcursor
    obtain ⟨n, rfl⟩ : ∃ m, n = m + 1 := ⟨n - 1, by omega⟩
    have hm : u.lines.size - u.cursor ≤ n := by
      rw [htakes.lines]
      omega
    obtain ⟨rs, t, hbody, hf⟩ := ih hm hc
    exact ⟨() :: rs, t, body_succ_eq_ok.mpr ⟨l, hl, .inr ⟨isEnd_of_ample hu, (), rs, u, rfl, hu, hbody⟩⟩, hf⟩

/-- A session that finishes carries out the line in front of it. -/
theorem Finishes.line_of_rest (h : Finishes b s f) (hl : s.lines[s.cursor]? = some l) (he : l.isEnd = false) :
    ∃ u, outcome (ample.statement l) { s with cursor := s.cursor + 1 } = (.ok (), u) ∧ Finishes b u f := by
  cases h with
  | done hle => exact absurd (cursor_lt hl) (Nat.not_lt.mpr hle)
  | leave hl' he' _ =>
    rw [hl] at hl'
    cases hl'
    rw [he] at he'
    cases he'
  | line hl' hu hf =>
    rw [hl] at hl'
    cases hl'
    exact ⟨_, hu, hf⟩

end Finishing

/-- What a session finishes with is not changed by a move. -/
theorem Moves.finishes_iff {b b' : Nat} {s s' f : Session} (h : Moves b s b' s') :
    Finishes b s f ↔ Finishes b' s' f := by
  constructor
  · intro hf
    cases h with
    | line hl hu =>
      obtain ⟨u', hu', hf⟩ := hf.line_of_rest hl (isEnd_of_ample hu)
      rw [hu] at hu'
      cases hu'
      exact hf
    | @enter _ _ l hl hb =>
      have hend : l.isEnd = false := Line.isEnd_of_statement (by rw [hb]; nofun)
      obtain ⟨u, hu, hf⟩ := hf.line_of_rest hl hend
      rw [ample_statement, on_eq_ok, hb] at hu
      obtain ⟨rs, hbody⟩ := Nested.block_eq_ok.mp hu
      exact .of_body hbody hf
    | leave hl he =>
      cases hf with
      | leave _ _ hf => exact hf
      | line hl' hu _ =>
        rw [hl] at hl'
        cases hl'
        rw [isEnd_of_ample hu] at he
        cases he
  · intro hf
    cases h with
    | line hl hu => exact .line hl hu hf
    | enter hl hb =>
      obtain ⟨rs, t, hbody, hf⟩ := hf.body (Nat.le_refl _)
      refine .line hl ?_ hf
      rw [ample_statement, on_eq_ok, hb]
      exact Nested.block_eq_ok.mpr ⟨rs, hbody⟩
    | leave hl he => exact .leave hl he hf

/-- Wherever a session comes by, it finishes the same. -/
theorem Reaches.finishes_iff {b : Nat} {s t f : Session} (h : Reaches s b t) :
    Finishes 0 s f ↔ Finishes b t f := by
  induction h with
  | start => exact Iff.rfl
  | move _ hm ih => exact ih.trans hm.finishes_iff

/-- Lines carried out one after the other are moves. -/
theorem finishes_iff_of_upTo {b n stop : Nat} {s t f : Session} {r : Unit}
    (h : outcome (upTo ample.statement stop n) s = (.ok r, t)) : Finishes b s f ↔ Finishes b t f := by
  induction n generalizing s with
  | zero =>
    obtain ⟨_, rfl⟩ := pure_eq_ok.mp h
    exact Iff.rfl
  | succ n ih =>
    obtain ⟨_, rfl⟩ | ⟨_, l, u, hl, hu, hup⟩ := upTo_succ_eq_ok.mp h
    · exact Iff.rfl
    · exact (Moves.line hl hu).finishes_iff.trans (ih hup)

/-- A session that finishes carries out lines that close what they open, if no branch in
them starts with `BLOCK`. -/
theorem Finishes.upTo {b n : Nat} {W R : List Line} {s f : Session} (h : Finishes b s f) (hs : s.rest = W ++ R)
    (hW : depthAfter 0 W = some 0) (htidy : ∀ line ∈ branchLines 0 [] W, line.startsBlock = false)
    (hn : W.length ≤ n) : ∃ t, outcome (upTo ample.statement (s.cursor + W.length) n) s = (.ok (), t) := by
  induction n generalizing W s with
  | zero => exact ⟨s, rfl⟩
  | succ n ih =>
    cases W with
    | nil => exact ⟨s, upTo_succ_eq_ok.mpr (.inl ⟨Nat.le_refl _, rfl⟩)⟩
    | cons l W =>
      obtain ⟨hl, _⟩ := Session.rest_eq_cons_iff.mp hs
      have hend : l.isEnd = false := by
        by_contra hne
        rw [depthAfter_cons, Line.nest, if_pos (by simpa using hne)] at hW
        cases hW
      obtain ⟨u, hu, hf⟩ := h.line_of_rest hl hend
      obtain ⟨V, W₂, Bs, rfl, htakes, hspans, hrest₂, hstop⟩ := statement_within (.inl ⟨0, hW⟩) hs hl hu
      rw [← List.cons_append] at hW htidy
      rw [hspans.branches [] W₂ rfl] at htidy
      have hcount : Bs.countP Line.startsBlock = 0 := by
        rw [List.countP_eq_zero]
        intro line hmem
        rw [htidy line (List.mem_append_left _ hmem)]
        exact Bool.false_ne_true
      rw [depthAfter_append, hspans.depth, hcount] at hW
      rw [List.length_cons, List.length_append] at hn
      obtain ⟨t, ht⟩ := ih hf hrest₂ hW (fun line hmem => htidy line (List.mem_append_right _ hmem)) (by omega)
      refine ⟨t, upTo_succ_eq_ok.mpr (.inr ⟨by rw [List.length_cons]; omega, l, u, hl, hu, ?_⟩)⟩
      rw [hstop]
      exact ht

/-! ### Going through copies -/

section Copies
variable {keep : String} {held held' : Option Bus} {b b' : Nat} {T T' W W' : List Line} {s s' t u f : Session}

/-- A move in front of some lines can be made in front of their copies. -/
theorem Follows.moves (hkeep : keep ≠ "") (hf : Follows keep held held' none none 0 T T' W W' s s') (hm : Moves b s b' u)
    (hT : T.length ≤ u.rest.length) :
    ∃ u' W₂ W₂', Moves b s' b' u' ∧ Follows keep held held' none none 0 T T' W₂ W₂' u u' := by
  have hcons {l : Line} (hl : s.lines[s.cursor]? = some l) (hle : T.length < s.rest.length) :
      ∃ l' W₁ W₁', l.Mirrors keep none none l' ∧ s'.lines[s'.cursor]? = some l' ∧
        Follows keep held held' none none l.loops.toNat T T' W₁ W₁' { s with cursor := s.cursor + 1 }
          { s' with cursor := s'.cursor + 1 } := by
    have hrest := Session.rest_cons hl
    cases W with
    | nil =>
      rw [hf.rest, List.nil_append] at hle
      omega
    | cons l₁ W₁ =>
      rw [hf.rest, List.cons_append] at hrest
      cases (List.cons.inj hrest).1
      obtain ⟨l', W₁', rfl, hmirror, _, hl', hf₁⟩ := hf.step
      exact ⟨l', W₁, W₁', hmirror, hl', hf₁⟩
  have hplain {l : Line} (hopen : l.loops = false) {v v' : Session} {W₁ W₁' : List Line}
      (hv : Follows keep held held' none none l.loops.toNat T T' W₁ W₁' v v') : Follows keep held held' none none 0 T T' W₁ W₁' v v' := by
    rw [hopen] at hv
    exact hv
  cases hm with
  | @line _ _ _ l hl hu =>
    obtain ⟨V, _, htakes, _⟩ := takes_statement hl hu
    have hlen := htakes.length_rest
    rw [List.length_cons] at hlen
    obtain ⟨l', W₁, W₁', hmirror, hl', hf₁⟩ := hcons hl (by omega)
    obtain ⟨u', W₂, W₂', hu', hf₂⟩ :=
      (leads_ample hkeep (W₁.length + 1)).1 (Nat.lt_succ_self _) (isEnd_of_ample hu) hmirror hf₁ hu hT
    exact ⟨u', W₂, W₂', .line hl' hu', hf₂⟩
  | @enter _ _ l hl hb =>
    have hlen := (takes_line hl).length_rest
    rw [List.length_singleton] at hlen
    obtain ⟨l', W₁, W₁', hmirror, hl', hf₁⟩ := hcons hl (by omega)
    have hb' : statement l'.text = .block := by
      have hread := hmirror.statement
      rw [hb] at hread
      exact Statement.eq_block_of_resolve hread
    exact ⟨_, W₁, W₁', .enter hl' hb', hplain (Line.shape_of_block hb).2.1 hf₁⟩
  | @leave _ _ l hl he =>
    have hlen := (takes_line hl).length_rest
    rw [List.length_singleton] at hlen
    obtain ⟨l', W₁, W₁', hmirror, hl', hf₁⟩ := hcons hl (by omega)
    exact ⟨_, W₁, W₁', .leave hl' (hmirror.isEnd.trans he), hplain (Line.loops_of_end he) hf₁⟩

theorem Moves.length_rest (h : Moves b s b' u) : u.rest.length < s.rest.length := by
  cases h with
  | line hl hu =>
    obtain ⟨V, _, htakes, _⟩ := takes_statement hl hu
    have hlen := htakes.length_rest
    rw [List.length_cons] at hlen
    omega
  | enter hl _ =>
    have hlen := (takes_line hl).length_rest
    rw [List.length_singleton] at hlen
    omega
  | leave hl _ =>
    have hlen := (takes_line hl).length_rest
    rw [List.length_singleton] at hlen
    omega

/-- The way through some lines is the way through their copies. -/
theorem Follows.reaches (hkeep : keep ≠ "") (hf : Follows keep held held' none none 0 T T' W W' s s') (h : Reaches s b t)
    (hT : T.length ≤ t.rest.length) :
    ∃ t' W₂ W₂', Reaches s' b t' ∧ Follows keep held held' none none 0 T T' W₂ W₂' t t' := by
  induction h with
  | start => exact ⟨s', W, W', .start, hf⟩
  | move _ hm ih =>
    have hlen := hm.length_rest
    obtain ⟨t', W₂, W₂', ht', hf₂⟩ := ih (by omega)
    obtain ⟨u', W₃, W₃', hm', hf₃⟩ := hf₂.moves hkeep hm hT
    exact ⟨u', W₃, W₃', .move ht' hm', hf₃⟩

/-- What finishes in front of some lines finishes in front of their copies, and both end
side by side. -/
theorem Follows.finishes (hkeep : keep ≠ "") (hf : Follows keep held held' none none 0 [] [] W W' s s')
    (h : Finishes b s f) : ∃ f', Finishes b s' f' ∧ f.Beside keep held held' f' ∧ f.counter = none ∧ f'.counter = none := by
  induction h generalizing W W' s' with
  | @done s hle =>
    have hnil : s.rest = [] := List.drop_eq_nil_of_le (by rw [Array.length_toList]; exact hle)
    have hW : W = [] := by
      have hrest := hf.rest
      rw [hnil, List.append_nil] at hrest
      exact hrest.symm
    have hW' : W' = [] := by
      apply List.eq_nil_of_length_eq_zero
      rw [hf.copied.length, hW]
      rfl
    have hle' : s'.lines.size ≤ s'.cursor := by
      have hrest := hf.rest'
      rw [hW'] at hrest
      simpa using List.drop_eq_nil_iff.mp hrest
    exact ⟨s', .done hle', hf.toBeside, hf.left, hf.right⟩
  | @leave b s f l hl he _ ih =>
    obtain ⟨u', W₂, W₂', hm', hf₂⟩ := hf.moves hkeep (Moves.leave (b := b) hl he) (Nat.zero_le _)
    obtain ⟨f', hf', hend⟩ := ih hf₂
    exact ⟨f', hm'.finishes_iff.mpr hf', hend⟩
  | @line b s u f l hl hu _ ih =>
    obtain ⟨u', W₂, W₂', hm', hf₂⟩ := hf.moves hkeep (Moves.line (b := b) hl hu) (Nat.zero_le _)
    obtain ⟨f', hf', hend⟩ := ih hf₂
    exact ⟨f', hm'.finishes_iff.mpr hf', hend⟩

end Copies

end BusLogic.Script
