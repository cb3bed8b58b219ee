import BusLogic.Proofs.Script.Copies
import BusLogic.Proofs.Script.Numbers

/-! Lines with the counter written out.

With a number for the constant `i` in its text, a line reads as before, except that the
number stands in every place of the constant (`statement_writeNumbers`,
`value_writeNumbers`), and it opens and closes the same constructs. For the body of a loop
this is done line by line, leaving out the bodies of the loops inside (`writePass`): what
comes out is a copy of the body for one pass, in which there is no counter
(`copied_writePass`). -/
namespace BusLogic.Script
open Text

/-! ### Reading references, lists and terms -/

theorem trimStart_of_eat? {m : Char} {s r : List Char} (h : eat? [m] s = some r) : trimStart r = r := by
  obtain ⟨rest, _, rfl⟩ := eat?_single h
  exact List.dropWhile_idempotent ..

theorem trimStart_of_dots {s r : List Char} (h : eat? ['.', '.'] s = some r) : trimStart r = r := by
  cases s with
  | nil => cases h
  | cons c rest =>
    rw [eat?] at h
    split at h
    · exact trimStart_of_eat? h
    · cases h

theorem span?_eq (s : List Char) : span? s =
    match eat? ['.'] s with
    | none => (none, s)
    | some r =>
      match eat? ['.', '.'] (index r).2 with
      | none => (some ⟨(index r).1, none⟩, (index r).2)
      | some r' => (some ⟨(index r).1, some (index r').1⟩, (index r').2) := rfl

theorem listParts_eq (s : List Char) : listParts s =
    match name? s with
    | none => (⟨[], some ⟨"bus name", found s⟩⟩, s)
    | some (name, r) =>
      match eat? [']'] (span? r).2 with
      | some r' => (⟨[⟨name, (span? r).1⟩], none⟩, r')
      | none =>
        match eat? [','] (span? r).2 with
        | some r' =>
          (⟨⟨name, (span? r).1⟩ :: (listParts r').1.parts, (listParts r').1.fault⟩, (listParts r').2)
        | none => (⟨[⟨name, (span? r).1⟩], some ⟨"`,`", found (span? r).2⟩⟩, (span? r).2) := by
  conv_lhs => unfold listParts
  split
  · rename_i h
    rw [h]
  · rename_i name r h
    rw [h]
    dsimp only
    cases eat? [']'] (span? r).2 with
    | some r' => rfl
    | none =>
      dsimp only
      split
      · rename_i h'
        rw [h']
      · rename_i h'
        rw [h']

theorem terms_eq (s : List Char) : terms s =
    match term? s with
    | none => ([], s)
    | some (t, r) => (t :: (terms r).1, (terms r).2) := by
  conv_lhs => unfold terms
  split
  · rename_i h
    rw [h]
  · rename_i h
    rw [h]

section Terms
variable {k : Nat} {p : Place} (hk : k < 2 ^ 64)
include hk

theorem span?_writeNumbers (hp : p ≠ .number) (s : List Char) :
    ((span? (writeNumbers k p s)).1.map (·.resolve none)) = (span? s).1.map (·.resolve (some k)) ∧
      Written k (span? (writeNumbers k p s)).2 (span? s).2 := by
  have hmark : p.mark '.' = .number := by simp [Place.mark]
  rw [span?_eq, span?_eq, eat?_single_writeNumbers (by decide) (by decide), hmark]
  cases hr : eat? ['.'] s with
  | none => exact ⟨rfl, p, hp, rfl⟩
  | some r =>
    obtain ⟨hfirst, q, hq, hrest⟩ := index_writeNumbers hk (trimStart_of_eat? hr)
    rw [Option.map_some]
    dsimp only
    rw [hrest, eat?_dots_writeNumbers]
    cases hr' : eat? ['.', '.'] (index r).2 with
    | none => exact ⟨by simp [Span.resolve, hfirst], q, hq, rfl⟩
    | some r' =>
      obtain ⟨hlast, hrest'⟩ := index_writeNumbers hk (trimStart_of_dots hr')
      exact ⟨by simp [Span.resolve, hfirst, hlast], hrest'⟩

theorem listParts_writeNumbers (hp : p ≠ .number) (s : List Char) :
    (listParts (writeNumbers k p s)).1.resolve none = (listParts s).1.resolve (some k) ∧
      Written k (listParts (writeNumbers k p s)).2 (listParts s).2 := by
  induction hn : s.length using Nat.strong_induction_on generalizing p s with
  | _ n ih =>
    rw [listParts_eq, listParts_eq s, name?_writeNumbers hp]
    cases hname : name? s with
    | none => exact ⟨rfl, p, hp, rfl⟩
    | some x =>
      obtain ⟨name, r⟩ := x
      obtain ⟨hspan, q, hq, hrest⟩ := span?_writeNumbers hk (Place.word_ne_number name.toList) r
      have hpart : (Ref.mk name (span? (writeNumbers k (.word name.toList) r)).1).resolve none =
          (Ref.mk name (span? r).1).resolve (some k) := congrArg (Ref.mk name) hspan
      rw [Option.map_some]
      dsimp only
      rw [hrest, eat?_single_writeNumbers (by decide) (by decide), eat?_single_writeNumbers (by decide) (by decide)]
      cases hclose : eat? [']'] (span? r).2 with
      | some r' => exact ⟨by simp [Listing.resolve, hpart], _, by simp [Place.mark], rfl⟩
      | none =>
        cases hcomma : eat? [','] (span? r).2 with
        | none => exact ⟨by simp [Listing.resolve, hpart], q, hq, rfl⟩
        | some r' =>
          have hlt : r'.length < n := by
            have := length_name?_lt hname
            have := length_span?_le r
            have := length_eat?_le hcomma
            omega
          have hplain : q.mark ',' = .plain := by simp [Place.mark]
          rw [hplain]
          obtain ⟨hmore, hrest'⟩ := ih r'.length hlt Place.plain_ne_number r' rfl
          obtain ⟨hparts, hfault⟩ := Listing.mk.inj hmore
          exact ⟨by simp [Listing.resolve, hpart, hparts, hfault], hrest'⟩

theorem listing_writeNumbers (hp : p ≠ .number) (s : List Char) :
    (listing (writeNumbers k p s)).1.resolve none = (listing s).1.resolve (some k) ∧
      Written k (listing (writeNumbers k p s)).2 (listing s).2 := by
  unfold listing
  rw [eat?_single_writeNumbers (by decide) (by decide)]
  cases eat? [']'] s with
  | some r => exact ⟨rfl, _, by simp [Place.mark], rfl⟩
  | none => exact listParts_writeNumbers hk hp s

theorem extent?_writeNumbers (s : List Char) :
    ((extent? (writeNumbers k .plain s)).1.map (·.resolve none)) = (extent? s).1.map (·.resolve (some k)) ∧
      Written k (extent? (writeNumbers k .plain s)).2 (extent? s).2 := by
  have hmark : Place.plain.mark '(' = .number := by simp [Place.mark]
  unfold extent?
  rw [eat?_single_writeNumbers (by decide) (by decide), hmark]
  cases hr : eat? ['('] s with
  | none => exact ⟨rfl, .plain, Place.plain_ne_number, rfl⟩
  | some r =>
    obtain ⟨hwidth, q, hq, hrest⟩ := index_writeNumbers hk (trimStart_of_eat? hr)
    rw [Option.map_some]
    dsimp only
    rw [hrest, eat?_single_writeNumbers (by decide) (by decide)]
    cases eat? [')'] (index r).2 with
    | none => exact ⟨by simp [Extent.resolve, hwidth], q, hq, rfl⟩
    | some r' => exact ⟨by simp [Extent.resolve, hwidth], _, by simp [Place.mark], rfl⟩

theorem named_writeNumbers (name : String) (s : List Char) :
    (named name (writeNumbers k (.word name.toList) s)).1.resolve none = (named name s).1.resolve (some k) ∧
      Written k (named name (writeNumbers k (.word name.toList) s)).2 (named name s).2 := by
  have hp := Place.word_ne_number name.toList
  unfold named
  cases hsource : Opcode.ofSourceWord? name with
  | some op =>
    have hplain : Place.word name.toList = .plain := by
      refine if_neg fun heq => ?_
      rw [String.ofList_toList] at heq
      rw [heq] at hsource
      cases hsource
    obtain ⟨hextent, hrest⟩ := extent?_writeNumbers hk s
    rw [hplain]
    exact ⟨by simp [Term.resolve, Operand.resolve, hextent], hrest⟩
  | none =>
    dsimp only
    cases Opcode.ofKeyword? name with
    | some op =>
      dsimp only
      rw [eat?_single_writeNumbers (by decide) (by decide)]
      cases eat? ['['] s with
      | none => exact ⟨rfl, _, hp, rfl⟩
      | some r =>
        obtain ⟨hlist, hrest⟩ := listing_writeNumbers hk (p := (Place.word name.toList).mark '[') (by simp [Place.mark]) r
        exact ⟨by simp [Term.resolve, Operand.resolve, hlist], hrest⟩
    | none =>
      obtain ⟨hspan, hrest⟩ := span?_writeNumbers hk hp s
      exact ⟨by simp [Term.resolve, Operand.resolve, Ref.resolve, hspan], hrest⟩

/-- The next term is there where it was. -/
theorem term?_writeNumbers (hp : p ≠ .number) (s : List Char) :
    (term? (writeNumbers k p s) = none ∧ term? s = none) ∨
      ∃ t' r' t r, term? (writeNumbers k p s) = some (t', r') ∧ term? s = some (t, r) ∧
        t'.resolve none = t.resolve (some k) ∧ Written k r' r := by
  have hname := name?_writeNumbers (k := k) hp s
  have hhead := head?_writeNumbers (k := k) hp s
  by_cases hbracket : s.head? = some '['
  · obtain ⟨rest, rfl⟩ : ∃ rest, s = '[' :: rest := List.head?_eq_some_iff.mp hbracket
    have hplain : p.mark '[' = .plain := by simp [Place.mark]
    obtain ⟨hlist, hrest⟩ := listing_writeNumbers hk Place.plain_ne_number (trimStart rest)
    rw [writeNumbers_mark (by decide) (by decide), hplain]
    refine .inr ⟨_, _, _, _, rfl, rfl, ?_, ?_⟩
    · rw [trimStart_writeNumbers]
      exact congrArg (fun l => Term.operand (.list l)) hlist
    · rw [trimStart_writeNumbers]
      exact hrest
  · have hterm (s : List Char) (h : s.head? ≠ some '[') :
        term? s = match name? s with | none => none | some (name, r) => some (named name r) := by
      unfold term?
      split
      · exact absurd rfl h
      · rfl
    rw [hterm s hbracket, hterm _ (by rw [hhead]; exact hbracket), hname]
    cases hn : name? s with
    | none => exact .inl ⟨rfl, rfl⟩
    | some x =>
      obtain ⟨name, r⟩ := x
      obtain ⟨hnamed, hrest⟩ := named_writeNumbers hk name r
      exact .inr ⟨_, _, _, _, rfl, rfl, hnamed, hrest⟩

theorem terms_writeNumbers (hp : p ≠ .number) (s : List Char) :
    ((terms (writeNumbers k p s)).1.map (·.resolve none)) = (terms s).1.map (·.resolve (some k)) ∧
      Written k (terms (writeNumbers k p s)).2 (terms s).2 := by
  induction hn : s.length using Nat.strong_induction_on generalizing p s with
  | _ n ih =>
    rw [terms_eq, terms_eq s]
    rcases term?_writeNumbers hk hp s with ⟨hnone', hnone⟩ | ⟨t', r', t, r, hsome', hsome, hterm, q, hq, rfl⟩
    · rw [hnone', hnone]
      exact ⟨rfl, p, hp, rfl⟩
    · have hlt := length_term?_lt hsome
      obtain ⟨hts, hrest⟩ := ih r.length (by omega) hq r rfl
      rw [hsome', hsome]
      exact ⟨by simp [hterm, hts], hrest⟩

end Terms

/-! ### Reading values and statements -/

theorem leftover?_written {k : Nat} {s' s : List Char} (h : Written k s' s) :
    ((leftover? s').map fun _ => unsaid) = (leftover? s).map fun _ => unsaid := by
  cases s with
  | nil => rw [h.eq_nil_iff.mpr rfl]
  | cons c rest =>
    cases s' with
    | nil => exact absurd (h.eq_nil_iff.mp rfl) (List.cons_ne_nil c rest)
    | cons c' rest' => rfl

section Values
variable {k : Nat} {p : Place} (hk : k < 2 ^ 64)
include hk

theorem loop_writeNumbers (s : List Char) :
    (loop (writeNumbers k .plain s)).resolve none = (loop s).resolve (some k) := by
  have hmark : Place.plain.mark '(' = .number := by simp [Place.mark]
  unfold loop
  rw [eat?_single_writeNumbers (by decide) (by decide), hmark]
  cases hr : eat? ['('] s with
  | none => rfl
  | some r =>
    obtain ⟨hcount, q, hq, hrest⟩ := index_writeNumbers hk (trimStart_of_eat? hr)
    rw [Option.map_some]
    dsimp only
    rw [hrest, eat?_single_writeNumbers (by decide) (by decide)]
    cases eat? [')'] (index r).2 with
    | none => exact congrArg (Value.loop · _) hcount
    | some r' =>
      have hname := name?_writeNumbers (k := k) (p := q.mark ')') (by simp [Place.mark]) r'
      rw [Option.map_some]
      dsimp only
      rw [hname]
      cases name? r' with
      | none => exact congrArg (Value.loop · _) hcount
      | some x =>
        obtain ⟨source, tail⟩ := x
        have hleft := leftover?_written (k := k) (s := tail) ⟨_, Place.word_ne_number source.toList, rfl⟩
        rw [Option.map_some]
        dsimp only
        cases hl : leftover? tail with
        | none =>
          rw [hl, Option.map_none, Option.map_eq_none_iff] at hleft
          rw [hleft]
          exact congrArg (Value.loop · _) hcount
        | some m =>
          rw [hl, Option.map_some] at hleft
          obtain ⟨m', hm', _⟩ := Option.map_eq_some_iff.mp hleft
          rw [hm']
          exact congrArg (Value.loop · _) hcount

theorem select_writeNumbers (s : List Char) :
    (select (writeNumbers k .selection s)).resolve none = (select s).resolve (some k) := by
  have hmark : Place.selection.mark '(' = .plain := by simp [Place.mark]
  unfold select
  rw [eat?_single_writeNumbers (by decide) (by decide), hmark]
  cases eat? ['('] s with
  | none => rfl
  | some r =>
    rw [Option.map_some]
    dsimp only
    rw [name?_writeNumbers Place.plain_ne_number]
    cases name? r with
    | none => rfl
    | some x =>
      obtain ⟨name, r⟩ := x
      obtain ⟨hspan, q, hq, hrest⟩ := span?_writeNumbers hk (Place.word_ne_number name.toList) r
      have hselector : (Ref.mk name (span? (writeNumbers k (.word name.toList) r)).1).resolve none =
          (Ref.mk name (span? r).1).resolve (some k) := congrArg (Ref.mk name) hspan
      rw [Option.map_some]
      dsimp only
      rw [hrest, eat?_single_writeNumbers (by decide) (by decide)]
      cases eat? [')'] (span? r).2 with
      | none => exact congrArg (Value.select · _) hselector
      | some r' =>
        have hleft := leftover?_written (k := k) (s := r') ⟨q.mark ')', by simp [Place.mark], rfl⟩
        rw [Option.map_some]
        show Value.select _ _ = Value.select _ _
        rw [hselector, hleft]

theorem value_writeNumbers (hp : p ≠ .number) (s : List Char) :
    (value (writeNumbers k p s)).resolve none = (value s).resolve (some k) := by
  obtain ⟨q, hq, hword, hplace⟩ := word_writeNumbers (k := k) hp s
  have hfst : (word (writeNumbers k p s)).1 = (word s).1 := by rw [hword]
  have hsnd : (word (writeNumbers k p s)).2 = writeNumbers k q (word s).2 := by rw [hword]
  rcases value_cases s with ⟨hw, hv⟩ | ⟨hw, hv⟩ | ⟨hl, hs, hv⟩
  · rcases value_cases (writeNumbers k p s) with ⟨_, hv'⟩ | ⟨hw', _⟩ | ⟨hl', _⟩
    · rw [hv, hv', hsnd, hplace (by rw [hw]; decide), hw]
      exact loop_writeNumbers hk _
    · rw [hfst, hw] at hw'
      exact absurd hw' (by decide)
    · exact absurd (hfst.trans hw) hl'
  · rcases value_cases (writeNumbers k p s) with ⟨hw', _⟩ | ⟨_, hv'⟩ | ⟨_, hs', _⟩
    · rw [hfst, hw] at hw'
      exact absurd hw' (by decide)
    · rw [hv, hv', hsnd, hplace (by rw [hw]; decide), hw]
      exact select_writeNumbers hk _
    · exact absurd (hfst.trans hw) hs'
  · rcases value_cases (writeNumbers k p s) with ⟨hw', _⟩ | ⟨hw', _⟩ | ⟨_, _, hv'⟩
    · exact absurd (hfst.symm.trans hw') hl
    · exact absurd (hfst.symm.trans hw') hs
    · obtain ⟨hterms, hrest⟩ := terms_writeNumbers hk hp s
      rw [hv, hv']
      show Value.formula _ _ = Value.formula _ _
      rw [hterms, leftover?_written hrest]

theorem assigned_writeNumbers {s' s : List Char} (h : Written k s' s) :
    (((assigned s').mapError fun _ => unsaid).map (·.resolve none)) =
      ((assigned s).mapError fun _ => unsaid).map (·.resolve (some k)) := by
  obtain ⟨p, hp, rfl⟩ := h
  have hplain : p.mark '=' = .plain := by simp [Place.mark]
  unfold assigned
  rw [eat?_single_writeNumbers (by decide) (by decide), hplain]
  cases eat? ['='] s with
  | none => rfl
  | some r => exact congrArg Except.ok (value_writeNumbers hk Place.plain_ne_number r)

end Values

/-- A width is read from digits alone, which stay. -/
theorem number?_append {w X Y : List Char} (hw : ∀ c ∈ w, isWordChar c = true)
    (hX : ∀ c, X.head? = some c → isWordChar c = false) (hY : ∀ c, Y.head? = some c → isWordChar c = false)
    (hXY : trimStart X = [] ↔ trimStart Y = []) : (number? (w ++ X)).1 = (number? (w ++ Y)).1 ∧
      ((number? (w ++ X)).2 = [] ↔ (number? (w ++ Y)).2 = []) := by
  have hstop {Z : List Char} (hZ : ∀ c, Z.head? = some c → isWordChar c = false) :
      Z.takeWhile isDigit = [] ∧ Z.dropWhile isDigit = Z :=
    run_append (w := []) nofun fun c hc => isDigit_of_isWordChar (hZ c hc)
  simp only [number?, List.takeWhile_append, List.dropWhile_append, hstop hX, hstop hY, List.append_nil]
  refine ⟨trivial, ?_⟩
  cases hd : w.dropWhile isDigit with
  | nil => exact hXY
  | cons c rest =>
    have hc : isBlank c = false := by
      refine isBlank_of_isWordChar (hw c ((List.dropWhile_suffix isDigit).mem ?_))
      rw [hd]
      exact List.mem_cons_self ..
    simp [trimStart, hc]

theorem declared_writeNumbers {k : Nat} {p : Place} (hp : p ≠ .number) (s : List Char) {st : Nat → Statement}
    (hst : ∀ width, (st width).resolve none = (st width).resolve (some k)) :
    (declared (writeNumbers k p s) st).resolve none = (declared s st).resolve (some k) := by
  obtain ⟨q, hq, htake, hdrop, _⟩ := splitWord_writeNumbers (k := k) hp s
  have hY : ∀ c, (s.dropWhile isWordChar).head? = some c → isWordChar c = false := fun c => head?_dropWhile
  have hsplit := number?_append (w := s.takeWhile isWordChar) (X := writeNumbers k q (s.dropWhile isWordChar))
    (fun c hc => List.mem_takeWhile_imp hc) (by rw [head?_writeNumbers hq]; exact hY) hY (by
      rw [trimStart_writeNumbers]
      exact Written.eq_nil_iff ⟨q, hq, rfl⟩)
  have hW : s.takeWhile isWordChar ++ writeNumbers k q (s.dropWhile isWordChar) = writeNumbers k p s := by
    rw [← htake, ← hdrop, List.takeWhile_append_dropWhile]
  rw [hW, List.takeWhile_append_dropWhile] at hsplit
  have hdeclared (r : List Char) : declared r st = (number? r).1.elim (.fault ⟨"bus width", found (number? r).2⟩)
      fun width => (leftover? (number? r).2).elim (st width) .fault := by
    unfold declared
    rcases number? r with ⟨_ | width, tail⟩
    · rfl
    · dsimp only
      cases leftover? tail <;> rfl
  rw [hdeclared, hdeclared, hsplit.1]
  cases (number? s).1 with
  | none => rfl
  | some width =>
    rw [Option.elim_some, Option.elim_some]
    cases hl : (number? s).2 with
    | nil =>
      rw [hsplit.2.mpr hl]
      exact hst width
    | cons c rest =>
      cases hl' : (number? (writeNumbers k p s)).2 with
      | nil =>
        rw [hsplit.2.mp hl'] at hl
        cases hl
      | cons c' rest' => rfl

theorem inputStatement_writeNumbers {k : Nat} {p : Place} (hp : p ≠ .number) (s : List Char) :
    (inputStatement (writeNumbers k p s)).resolve none = (inputStatement s).resolve (some k) := by
  unfold inputStatement
  rw [name?_writeNumbers hp]
  cases name? s with
  | none => rfl
  | some x =>
    obtain ⟨name, r⟩ := x
    rw [Option.map_some]
    dsimp only
    rw [eat?_single_writeNumbers (by decide) (by decide)]
    cases eat? ['/'] r with
    | some r' =>
      exact declared_writeNumbers (p := (Place.word name.toList).mark '/') (by simp [Place.mark]) r' fun _ => rfl
    | none => rfl

section Statements
variable {k : Nat} {p : Place} (hk : k < 2 ^ 64)
include hk

theorem plain_writeNumbers (hp : p ≠ .number) (s : List Char) :
    (plain (writeNumbers k p s)).resolve none = (plain s).resolve (some k) := by
  unfold plain
  rw [name?_writeNumbers hp]
  cases name? s with
  | none => rfl
  | some x =>
    obtain ⟨name, r⟩ := x
    have hq := Place.word_ne_number name.toList
    rw [Option.map_some]
    dsimp only
    rw [eat?_single_writeNumbers (by decide) (by decide), eat?_single_writeNumbers (by decide) (by decide)]
    cases eat? ['/'] r with
    | some r' =>
      exact declared_writeNumbers (p := (Place.word name.toList).mark '/') (by simp [Place.mark]) r' fun _ => rfl
    | none =>
      cases hr : eat? ['.'] r with
      | none => exact congrArg (Statement.assign _) (assigned_writeNumbers hk ⟨_, hq, rfl⟩)
      | some r' =>
        have hmark : (Place.word name.toList).mark '.' = .number := by simp [Place.mark]
        obtain ⟨hi, hrest⟩ := index_writeNumbers hk (trimStart_of_eat? hr)
        rw [Option.map_none, Option.map_some, hmark]
        show Statement.assign (.slot name _) _ = Statement.assign (.slot name _) _
        rw [hi, assigned_writeNumbers hk hrest]

theorem outputStatement_writeNumbers (hp : p ≠ .number) (s : List Char) :
    (outputStatement (writeNumbers k p s)).resolve none = (outputStatement s).resolve (some k) := by
  unfold outputStatement
  rw [name?_writeNumbers hp]
  cases name? s with
  | none => rfl
  | some x =>
    obtain ⟨name, r⟩ := x
    rw [Option.map_some]
    dsimp only
    rw [eat?_single_writeNumbers (by decide) (by decide)]
    cases eat? ['/'] r with
    | some r' =>
      exact declared_writeNumbers (p := (Place.word name.toList).mark '/') (by simp [Place.mark]) r' fun _ => rfl
    | none =>
      exact congrArg (Statement.assign (.port name)) (assigned_writeNumbers hk ⟨_, Place.word_ne_number _, rfl⟩)

/-- A statement reads as before, with the counter's number for the constant. -/
theorem statement_writeNumbers (hp : p ≠ .number) (s : List Char) :
    (statement (writeNumbers k p s)).resolve none = (statement s).resolve (some k) := by
  obtain ⟨q, hq, hword, _⟩ := word_writeNumbers (k := k) hp s
  unfold statement
  rw [hword]
  dsimp only
  split
  · obtain ⟨q', hq', hword', _⟩ := word_writeNumbers (k := k) hq (word s).2
    have hleft := leftover?_written (k := k) (s := (word (word s).2).2) ⟨q', hq', rfl⟩
    rw [hword']
    dsimp only
    cases hl : leftover? (word (word s).2).2 with
    | none =>
      rw [hl, Option.map_none, Option.map_eq_none_iff] at hleft
      rw [hleft]
      rfl
    | some m =>
      rw [hl, Option.map_some] at hleft
      obtain ⟨m', hm', _⟩ := Option.map_eq_some_iff.mp hleft
      rw [hm']
      rfl
  · split
    · exact inputStatement_writeNumbers hq _
    · split
      · exact outputStatement_writeNumbers hk hq _
      · exact plain_writeNumbers hk hp s

end Statements

/-! ### Lines -/

theorem toEquals_cons {c : Char} (hc : c ≠ '=') (rest : List Char) : toEquals (c :: rest) = toEquals rest := by
  rw [toEquals, List.dropWhile_cons, if_pos (bne_iff_ne.mpr hc)]
  rfl

/-- Words hold no equals sign. -/
theorem toEquals_append {w : List Char} (hw : ∀ c ∈ w, isWordChar c = true) (X : List Char) :
    toEquals (w ++ X) = toEquals X := by
  refine List.dropWhile_append_of_pos fun c hc => bne_iff_ne.mpr ?_
  rintro rfl
  cases hw _ hc

theorem toEquals_writeNumbers (k : Nat) (p : Place) (s : List Char) :
    toEquals (writeNumbers k p s) = writeNumbers k .plain (toEquals s) := by
  -- a word is gone through at once, so the induction is on the length
  induction hn : s.length using Nat.strong_induction_on generalizing p s with
  | _ n ih =>
    subst hn
    cases s with
    | nil =>
      show toEquals (writeNumbers k p []) = writeNumbers k .plain []
      rw [writeNumbers_nil, writeNumbers_nil]
      rfl
    | cons c rest =>
      by_cases hw : isWordChar c = true
      · obtain ⟨w, w', q, r, hsplit, hwritten, ⟨hne, hrun⟩, _, hrun'⟩ := writeNumbers_run (k := k) (p := p) hw rest
        have hlt : r.length < (c :: rest).length := by
          have hpos := List.length_pos_iff.mpr hne
          rw [hsplit, List.length_append]
          omega
        rw [hwritten, hsplit, toEquals_append hrun', toEquals_append hrun]
        exact ih _ hlt q r rfl
      · have hw : isWordChar c = false := by simpa using hw
        by_cases hb : isBlank c = true
        · have hne : c ≠ '=' := by
            rintro rfl
            cases hb
          rw [writeNumbers_blank hb, toEquals_cons hne, toEquals_cons hne]
          exact ih _ (Nat.lt_succ_self _) p rest rfl
        · have hb : isBlank c = false := by simpa using hb
          rw [writeNumbers_mark hb hw]
          by_cases hc : c = '='
          · subst hc
            have hstay (X : List Char) : toEquals ('=' :: X) = '=' :: X := rfl
            have hplain (p : Place) : p.mark '=' = .plain := by simp [Place.mark]
            rw [hstay, hstay, writeNumbers_mark hb hw, hplain, hplain]
          · rw [toEquals_cons hc, toEquals_cons hc]
            exact ih _ (Nat.lt_succ_self _) _ rest rfl

theorem startsWith_writeNumbers {k : Nat} (keyword : String) {s' s : List Char} (h : Written k s' s) :
    startsWith keyword s' = startsWith keyword s := by
  obtain ⟨p, hp, rfl⟩ := h
  obtain ⟨q, hq, hword, _⟩ := word_writeNumbers (k := k) hp (trimStart s)
  rw [startsWith, startsWith, trimStart_writeNumbers, hword, head?_writeNumbers hq]

theorem afterEquals_writeNumbers {k : Nat} {p : Place} (hp : p ≠ .number) (s : List Char) :
    Written k (Line.afterEquals (writeNumbers k p s)) (Line.afterEquals s) := by
  rw [afterEquals_eq, afterEquals_eq, toEquals_writeNumbers]
  cases hs : toEquals s with
  | nil =>
    rw [writeNumbers_nil]
    exact ⟨p, hp, rfl⟩
  | cons c rest =>
    have hc : c = '=' := by
      have hhead : (s.dropWhile (· != '=')).head? = some c := by
        show (toEquals s).head? = _
        rw [hs]
        rfl
      simpa using head?_dropWhile (f := (· != '=')) hhead
    rw [hc, writeNumbers_mark (by decide) (by decide)]
    exact ⟨_, by simp [Place.mark], rfl⟩

/-- The line with the counter written out reads the same. -/
theorem mirrors_writeNumbers {keep : String} {k : Nat} (hk : k < 2 ^ 64) {l l' : Line}
    (ht : l'.text = writeNumbers k .plain l.text) (hn : keep ∉ l.names) : l.Mirrors keep (some k) none l' where
  statement := by
    rw [ht]
    exact statement_writeNumbers hk Place.plain_ne_number l.text
  value := by
    rw [ht]
    exact value_writeNumbers hk Place.plain_ne_number l.text
  isEnd := by
    obtain ⟨q, hq, hword, _⟩ := word_writeNumbers (k := k) Place.plain_ne_number l.text
    obtain ⟨q', hq', hword', _⟩ := word_writeNumbers (k := k) hq (word l.text).2
    have hnil : (writeNumbers k q' (word (word l.text).2).2).isEmpty = (word (word l.text).2).2.isEmpty := by
      rw [Bool.eq_iff_iff, List.isEmpty_iff, List.isEmpty_iff]
      exact Written.eq_nil_iff ⟨q', hq', rfl⟩
    rw [Line.isEnd, Line.isEnd, ht, hword]
    dsimp only
    rw [hword']
    dsimp only
    rw [hnil]
  loops := by
    rw [Line.loops, Line.loops, ht]
    exact startsWith_writeNumbers "LOOP" (afterEquals_writeNumbers Place.plain_ne_number l.text)
  selects := by
    rw [Line.selects, Line.selects, ht]
    exact startsWith_writeNumbers "SELECT" (afterEquals_writeNumbers Place.plain_ne_number l.text)
  startsBlock := by
    obtain ⟨q, hq, hword, _⟩ := word_writeNumbers (k := k) Place.plain_ne_number l.text
    rw [Line.startsBlock, Line.startsBlock, ht, hword]
  fresh := hn

/-- The body of a loop for pass `k`: the counter is written out, except inside the loops
in it. With `inLoop` constructs open from such a loop on, lines stay as they are. -/
def writePass (k : Nat) : (inLoop : Nat) → List Line → List (List Char)
  | _, [] => []
  | 0, line :: rest => writeNumbers k .plain line.text :: writePass k line.loops.toNat rest
  | inLoop + 1, line :: rest => line.text :: writePass k ((line.nest (inLoop + 1)).getD 0) rest

theorem copied_writePass {keep : String} {k : Nat} (hk : k < 2 ^ 64) {inLoop : Nat} {W W' : List Line}
    (ht : W'.map Line.text = writePass k inLoop W) (hn : ∀ l ∈ W, keep ∉ l.names) :
    Copied keep (some k) none inLoop W W' := by
  induction W generalizing inLoop W' with
  | nil =>
    rw [writePass] at ht
    rw [List.map_eq_nil_iff.mp ht]
    exact .nil
  | cons l W ih =>
    have hl := hn l (List.mem_cons_self ..)
    have hW := fun l hl => hn l (List.mem_cons_of_mem _ hl)
    cases inLoop with
    | zero =>
      rw [writePass] at ht
      obtain ⟨l', W', rfl, htext, hrest⟩ := List.map_eq_cons_iff.mp ht
      exact .line (mirrors_writeNumbers hk htext hl) (ih hrest hW)
    | succ inLoop =>
      rw [writePass] at ht
      obtain ⟨l', W', rfl, htext, hrest⟩ := List.map_eq_cons_iff.mp ht
      obtain ⟨d, hd⟩ := Line.nest_succ l inLoop
      rw [hd] at hrest
      exact .same htext hl hd (ih hrest hW)

end BusLogic.Script
