import BusLogic.Proofs.Script.Numbers
import BusLogic.Proofs.Text

/-! The tokens of a text.

A text is a row of tokens: words, runs of dots, and other marks one by one (`tokens`). White
space between two tokens may be there or not, so more of it makes no difference
(`tokens_insert`). Scanning goes by tokens: what a word or a number is read from
(`takeWhile_of_tokens`) and where a mark is found (`eat?_of_tokens`) depends on the tokens
only. So texts of the same tokens are scanned alike, and what is left of them is of the
same tokens again (`SameTokens`). -/
namespace BusLogic.Script
open Text

/-- Whether two characters that stand next to each other belong to one token: both to a word,
or to a run of dots. -/
def joins (a b : Char) : Bool := (isWordChar a && isWordChar b) || (a == '.' && b == '.')

/-- Whether the text behind a character goes on with its token. -/
def continues (c : Char) (s : List Char) : Bool := s.head?.any (joins c)

/-- The tokens of a text. -/
def tokens : List Char → List (List Char)
  | [] => []
  | c :: s =>
    if isBlank c then tokens s
    else if continues c s then (tokens s).modifyHead (c :: ·)
    else [c] :: tokens s

/-- What is left of a token, in front of others. -/
def pushToken : List Char → List (List Char) → List (List Char)
  | [], ts => ts
  | w, ts => w :: ts

variable {a z s t w : List Char} {ts : List (List Char)} {c d : Char}

/-! ### One character more -/

theorem isBlank_of_joins (h : joins c d = true) : isBlank d = false := by
  simp only [joins, Bool.or_eq_true, Bool.and_eq_true, beq_iff_eq] at h
  rcases h with ⟨_, hd⟩ | ⟨_, rfl⟩
  · exact isBlank_of_isWordChar hd
  · rfl

theorem joins_of_isBlank (h : isBlank d = true) : joins c d = false := by
  by_contra hne
  rw [isBlank_of_joins (by simpa using hne)] at h
  cases h

theorem joins_of_isWordChar (hc : isWordChar c = true) (hd : isWordChar d = true) : joins c d = true := by
  rw [joins, hc, hd]
  rfl

theorem tokens_cons (c : Char) (s : List Char) : tokens (c :: s) =
    if isBlank c then tokens s
    else if continues c s then (tokens s).modifyHead (c :: ·)
    else [c] :: tokens s := rfl

theorem tokens_blank (hc : isBlank c = true) : tokens (c :: s) = tokens s := by
  rw [tokens_cons, if_pos hc]

theorem trimStart_cons (hc : isBlank c = false) : trimStart (c :: s) = c :: s :=
  List.dropWhile_cons_of_neg (by rw [hc]; exact Bool.false_ne_true)

theorem trimStart_of_continues (h : continues c s = true) : trimStart s = s := by
  cases s with
  | nil => rfl
  | cons d s => exact trimStart_cons (isBlank_of_joins h)

/-- The first token starts with the first character. -/
theorem exists_tokens_cons (hc : isBlank c = false) : ∃ w ts, tokens (c :: s) = (c :: w) :: ts := by
  induction s generalizing c with
  | nil => exact ⟨[], [], by rw [tokens_cons, if_neg (by rw [hc]; exact Bool.false_ne_true)]; rfl⟩
  | cons d s ih =>
    rw [tokens_cons, if_neg (by rw [hc]; exact Bool.false_ne_true)]
    by_cases hjoins : continues c (d :: s) = true
    · obtain ⟨w, ts, hts⟩ := ih (isBlank_of_joins hjoins)
      exact ⟨d :: w, ts, by rw [if_pos hjoins, hts]; rfl⟩
    · exact ⟨[], tokens (d :: s), by rw [if_neg hjoins]⟩

/-- A character is a token, or it belongs to the first token of what follows. -/
theorem tokens_step (hc : isBlank c = false) :
    (continues c s = false ∧ tokens (c :: s) = [c] :: tokens s) ∨
      (continues c s = true ∧ ∃ w ts, w ≠ [] ∧ tokens s = w :: ts ∧ tokens (c :: s) = (c :: w) :: ts) := by
  have hstep : tokens (c :: s) = if continues c s then (tokens s).modifyHead (c :: ·) else [c] :: tokens s := by
    rw [tokens_cons, if_neg (by rw [hc]; exact Bool.false_ne_true)]
  cases hjoins : continues c s with
  | false =>
    rw [hstep, hjoins]
    exact .inl ⟨rfl, rfl⟩
  | true =>
    cases s with
    | nil => cases hjoins
    | cons d s =>
      obtain ⟨w, ts, hts⟩ := exists_tokens_cons (s := s) (isBlank_of_joins hjoins)
      rw [hstep, hjoins, hts]
      exact .inr ⟨rfl, d :: w, ts, List.cons_ne_nil d w, rfl, rfl⟩

theorem ne_nil_of_mem_tokens (h : w ∈ tokens s) : w ≠ [] := by
  induction s generalizing w with
  | nil => cases h
  | cons c s ih =>
    by_cases hc : isBlank c = true
    · rw [tokens_blank hc] at h
      exact ih h
    · rcases tokens_step (s := s) (by simpa using hc) with ⟨_, hstep⟩ | ⟨_, v, ts, _, hrest, hstep⟩
      all_goals
        rw [hstep] at h
        rcases List.mem_cons.mp h with rfl | h
        · exact List.cons_ne_nil c _
      · exact ih h
      · exact ih (hrest ▸ List.mem_cons_of_mem v h)

/-! ### White space -/

/-- White space next to a place where no token goes on makes no difference. -/
theorem tokens_insert {b : Char} (hb : isBlank b = true)
    (hfree : ∀ x y, a.getLast? = some x → z.head? = some y → joins x y = false) :
    tokens (a ++ b :: z) = tokens (a ++ z) := by
  induction a with
  | nil => exact tokens_blank hb
  | cons c a ih =>
    cases a with
    | nil =>
      have hgap : continues c (b :: z) = false := joins_of_isBlank hb
      have hnext : continues c z = false := by
        cases z with
        | nil => rfl
        | cons y z => exact hfree c y rfl rfl
      rw [List.cons_append, List.cons_append, List.nil_append, List.nil_append, tokens_cons c, tokens_cons c, hgap,
        hnext, tokens_blank hb]
    | cons d a =>
      have hrest := ih fun x y hx hy => hfree x y (by rwa [List.getLast?_cons_cons]) hy
      have hnext : continues c (d :: a ++ b :: z) = continues c (d :: a ++ z) := rfl
      show tokens (c :: (d :: a ++ b :: z)) = tokens (c :: (d :: a ++ z))
      rw [tokens_cons c, tokens_cons c, hnext, hrest]

theorem tokens_trimStart (s : List Char) : tokens (trimStart s) = tokens s := by
  induction s with
  | nil => rfl
  | cons c s ih =>
    by_cases hc : isBlank c = true
    · rw [trimStart, List.dropWhile_cons_of_pos hc, ← trimStart, ih, tokens_blank hc]
    · rw [trimStart_cons (by simpa using hc)]

theorem tokens_trimEnd (s : List Char) : tokens (trimEnd s) = tokens s := by
  induction s using List.reverseRecOn with
  | nil => rfl
  | append_singleton s c ih =>
    rw [trimEnd, List.reverse_append, List.reverse_singleton, List.singleton_append]
    by_cases hc : isBlank c = true
    · have hdrop := tokens_insert (a := s) (z := []) hc fun _ _ _ hy => by cases hy
      rw [List.append_nil] at hdrop
      rw [List.dropWhile_cons_of_pos hc, ← trimEnd, ih, hdrop]
    · rw [List.dropWhile_cons_of_neg hc, List.reverse_cons, List.reverse_reverse]

theorem tokens_trim (s : List Char) : tokens (trim s) = tokens s :=
  (tokens_trimEnd _).trans (tokens_trimStart s)

/-! ### Scanning by tokens -/

theorem eq_nil_of_tokens (hs : trimStart s = s) (h : tokens s = []) : s = [] := by
  cases s with
  | nil => rfl
  | cons c s =>
    obtain ⟨w, ts, hts⟩ := exists_tokens_cons (s := s) (isBlank_of_trimStart hs)
    rw [hts] at h
    cases h

/-- The first character is that of the first token, and behind it the rest of the token is
left. -/
theorem cons_of_tokens (hs : trimStart s = s) (h : tokens s = (c :: w) :: ts) : ∃ rest, s = c :: rest ∧
    tokens rest = pushToken w ts ∧ continues c rest = !w.isEmpty := by
  cases s with
  | nil => cases h
  | cons d s =>
    rcases tokens_step (s := s) (isBlank_of_trimStart hs) with ⟨hends, hstep⟩ | ⟨hgoes, w', ts', hne, hrest, hstep⟩
    · rw [hstep] at h
      cases h
      exact ⟨s, rfl, rfl, hends⟩
    · rw [hstep] at h
      cases h
      obtain ⟨d', w', rfl⟩ := List.exists_cons_of_ne_nil hne
      exact ⟨s, rfl, hrest, hgoes⟩

/-- A run of characters that only words have is found in the first token. -/
theorem takeWhile_of_tokens {p : Char → Bool} (hp : ∀ c, p c = true → isWordChar c = true) (hs : trimStart s = s)
    (h : tokens s = w :: ts) :
    s.takeWhile p = w.takeWhile p ∧ tokens (s.dropWhile p) = pushToken (w.dropWhile p) ts := by
  induction s generalizing w ts with
  | nil => cases h
  | cons c s ih =>
    have hc := isBlank_of_trimStart hs
    rcases tokens_step (s := s) hc with ⟨hends, hstep⟩ | ⟨hgoes, w', ts', hne, hrest, hstep⟩
    · rw [hstep] at h
      cases h
      by_cases hpc : p c = true
      · -- the token ends here, and no word goes on behind it
        have hstop : s.takeWhile p = [] ∧ s.dropWhile p = s := by
          cases s with
          | nil => exact ⟨rfl, rfl⟩
          | cons d s =>
            have hd : ¬ p d = true := by
              intro hpd
              have hjoins : continues c (d :: s) = true := joins_of_isWordChar (hp c hpc) (hp d hpd)
              rw [hends] at hjoins
              cases hjoins
            exact ⟨List.takeWhile_cons_of_neg hd, List.dropWhile_cons_of_neg hd⟩
        rw [List.takeWhile_cons_of_pos hpc, List.dropWhile_cons_of_pos hpc, hstop.1, hstop.2,
          List.takeWhile_cons_of_pos hpc, List.dropWhile_cons_of_pos hpc]
        exact ⟨rfl, rfl⟩
      · rw [List.takeWhile_cons_of_neg hpc, List.dropWhile_cons_of_neg hpc, List.takeWhile_cons_of_neg hpc,
          List.dropWhile_cons_of_neg hpc]
        exact ⟨rfl, hstep⟩
    · rw [hstep] at h
      cases h
      by_cases hpc : p c = true
      · obtain ⟨htake, hdrop⟩ := ih (trimStart_of_continues hgoes) hrest
        rw [List.takeWhile_cons_of_pos hpc, List.dropWhile_cons_of_pos hpc, List.takeWhile_cons_of_pos hpc,
          List.dropWhile_cons_of_pos hpc, htake]
        exact ⟨rfl, hdrop⟩
      · rw [List.takeWhile_cons_of_neg hpc, List.dropWhile_cons_of_neg hpc, List.takeWhile_cons_of_neg hpc,
          List.dropWhile_cons_of_neg hpc]
        exact ⟨rfl, hstep⟩

/-- A mark is found if the first token starts with it. -/
theorem eat?_of_tokens (hs : trimStart s = s) (h : tokens s = (c :: w) :: ts) :
    (∃ r, eat? [c] s = some r ∧ tokens r = pushToken w ts ∧ trimStart r = r) ∧
      ∀ m, m ≠ c → eat? [m] s = none := by
  obtain ⟨rest, rfl, hrest, _⟩ := cons_of_tokens hs h
  refine ⟨⟨trimStart rest, ?_, ?_, List.dropWhile_idempotent ..⟩, fun m hm => if_neg hm⟩
  · rw [eat?, if_pos rfl, eat?]
  · rw [tokens_trimStart, hrest]

/-! ### Texts of the same tokens -/

/-- The two texts have the same tokens, and no blank in front of them. -/
structure SameTokens (s t : List Char) : Prop where
  tokens : tokens s = tokens t
  left : trimStart s = s
  right : trimStart t = t

theorem sameTokens_trimStart (h : tokens s = tokens t) : SameTokens (trimStart s) (trimStart t) :=
  ⟨by rw [tokens_trimStart, tokens_trimStart, h], List.dropWhile_idempotent .., List.dropWhile_idempotent ..⟩

theorem sameTokens_trim (h : tokens s = tokens t) : SameTokens (trim s) (trim t) := by
  -- trimming the end of a text cannot bare a blank at its start
  have htrim (s : List Char) : trimStart (trim s) = trim s := by
    cases hs : trim s with
    | nil => rfl
    | cons c rest =>
      have hfix : trim s = trimEnd (trimStart s) := rfl
      have hsub : trimEnd (trimStart s) <+: trimStart s :=
        List.reverse_suffix.mp (by rw [trimEnd, List.reverse_reverse]; exact List.dropWhile_suffix _)
      rw [← hfix, hs] at hsub
      obtain ⟨tail, htail⟩ := hsub
      exact trimStart_cons (head?_dropWhile (s := s) (by rw [← trimStart, ← htail]; rfl))
  exact ⟨by rw [tokens_trim, tokens_trim, h], htrim s, htrim t⟩

namespace SameTokens

variable (h : SameTokens s t)
include h

/-- Both are empty, or both start with the same character and go on alike. -/
theorem cases_cons : (s = [] ∧ t = []) ∨ ∃ c s' t', s = c :: s' ∧ t = c :: t' ∧ Script.tokens s' = Script.tokens t' ∧
    continues c s' = continues c t' := by
  cases hts : Script.tokens s with
  | nil => exact .inl ⟨eq_nil_of_tokens h.left hts, eq_nil_of_tokens h.right (h.tokens ▸ hts)⟩
  | cons w ts =>
    cases s with
    | nil => cases hts
    | cons c s =>
      obtain ⟨w', ts', hfirst⟩ := exists_tokens_cons (s := s) (isBlank_of_trimStart h.left)
      obtain ⟨s', hs, hrest, hgoes⟩ := cons_of_tokens h.left hfirst
      obtain ⟨t', ht, hrest', hgoes'⟩ := cons_of_tokens h.right (h.tokens ▸ hfirst)
      cases hs
      exact .inr ⟨c, s, t', rfl, ht, hrest.trans hrest'.symm, hgoes.trans hgoes'.symm⟩

theorem eq_nil_iff : s = [] ↔ t = [] := by
  rcases h.cases_cons with ⟨rfl, rfl⟩ | ⟨c, s', t', rfl, rfl, _⟩
  · exact Iff.rfl
  · exact ⟨nofun, nofun⟩

theorem head? : s.head? = t.head? := by
  rcases h.cases_cons with ⟨rfl, rfl⟩ | ⟨c, s', t', rfl, rfl, _⟩ <;> rfl

theorem isCode : isCode s = isCode t := by
  rcases h.cases_cons with ⟨rfl, rfl⟩ | ⟨c, s', t', rfl, rfl, _⟩ <;> rfl

theorem takeWhile {p : Char → Bool} (hp : ∀ c, p c = true → isWordChar c = true) :
    s.takeWhile p = t.takeWhile p ∧ SameTokens (trimStart (s.dropWhile p)) (trimStart (t.dropWhile p)) := by
  cases hts : Script.tokens s with
  | nil =>
    rw [eq_nil_of_tokens h.left hts, eq_nil_of_tokens h.right (h.tokens ▸ hts)]
    exact ⟨rfl, rfl, rfl, rfl⟩
  | cons w ts =>
    obtain ⟨htake, hdrop⟩ := takeWhile_of_tokens hp h.left hts
    obtain ⟨htake', hdrop'⟩ := takeWhile_of_tokens hp h.right (h.tokens ▸ hts)
    exact ⟨htake.trans htake'.symm, sameTokens_trimStart (hdrop.trans hdrop'.symm)⟩

theorem word : (word s).1 = (word t).1 ∧ SameTokens (word s).2 (word t).2 := by
  obtain ⟨htake, hrest⟩ := h.takeWhile fun _ => id
  exact ⟨congrArg String.ofList htake, hrest⟩

theorem name? : (name? s = none ∧ name? t = none) ∨
    ∃ name r r', name? s = some (name, r) ∧ name? t = some (name, r') ∧ SameTokens r r' := by
  obtain ⟨htake, hrest⟩ := h.takeWhile fun _ => id
  unfold Script.name?
  rw [← htake]
  cases s.takeWhile isWordChar with
  | nil => exact .inl ⟨rfl, rfl⟩
  | cons c name => exact .inr ⟨_, _, _, rfl, rfl, hrest⟩

theorem number? : (number? s).1 = (number? t).1 ∧ SameTokens (number? s).2 (number? t).2 := by
  obtain ⟨htake, hrest⟩ := h.takeWhile fun _ => isWordChar_of_isDigit
  exact ⟨congrArg (fun digits => (readNumeral 10 digits).toOption) htake, hrest⟩

theorem eat? (m : Char) : (eat? [m] s = none ∧ eat? [m] t = none) ∨
    ∃ r r', eat? [m] s = some r ∧ eat? [m] t = some r' ∧ SameTokens r r' := by
  rcases h.cases_cons with ⟨rfl, rfl⟩ | ⟨c, s', t', rfl, rfl, hrest, _⟩
  · exact .inl ⟨rfl, rfl⟩
  · by_cases hm : m = c
    · refine .inr ⟨trimStart s', trimStart t', ?_, ?_, sameTokens_trimStart hrest⟩ <;>
        rw [Script.eat?, if_pos hm, Script.eat?]
    · exact .inl ⟨if_neg hm, if_neg hm⟩

/-- Two dots are found where they are one token. -/
theorem dots : (Script.eat? ['.', '.'] s = none ∧ Script.eat? ['.', '.'] t = none) ∨
    ∃ r r', Script.eat? ['.', '.'] s = some r ∧ Script.eat? ['.', '.'] t = some r' ∧ SameTokens r r' := by
  have hdots (c : Char) (s : List Char) :
      Script.eat? ['.', '.'] (c :: s) = if '.' = c then Script.eat? ['.'] s else none := rfl
  have hnone (s : List Char) (hends : continues '.' s = false) : Script.eat? ['.'] s = none := by
    cases s with
    | nil => rfl
    | cons d s => exact if_neg fun heq => by rw [← heq] at hends; cases hends
  rcases h.cases_cons with ⟨rfl, rfl⟩ | ⟨c, s', t', rfl, rfl, hrest, hgoes⟩
  · exact .inl ⟨rfl, rfl⟩
  · rw [hdots, hdots]
    by_cases hc : '.' = c
    · rw [if_pos hc, if_pos hc]
      rw [← hc] at hgoes
      cases hgo : continues '.' s' with
      | true =>
        exact eat? ⟨hrest, trimStart_of_continues hgo, trimStart_of_continues (hgoes ▸ hgo)⟩ '.'
      | false => exact .inl ⟨hnone s' hgo, hnone t' (hgoes ▸ hgo)⟩
    · rw [if_neg hc, if_neg hc]
      exact .inl ⟨rfl, rfl⟩

end SameTokens

/-! ### The first equals sign -/

/-- An equals sign is a token, so the first of them is found among the tokens. -/
theorem tokens_toEquals (s : List Char) : tokens (toEquals s) = (tokens s).dropWhile (· != ['=']) := by
  induction s with
  | nil => rfl
  | cons c s ih =>
    by_cases hc : c = '='
    · subst hc
      have hends : continues '=' s = false := by
        cases s with
        | nil => rfl
        | cons d s => rfl
      have hstep : tokens ('=' :: s) = ['='] :: tokens s := by
        rw [tokens_cons, if_neg (by decide), hends, if_neg Bool.false_ne_true]
      rw [toEquals, List.dropWhile_cons_of_neg (by decide), hstep, List.dropWhile_cons_of_neg (by decide)]
    · have hskip : toEquals (c :: s) = toEquals s := List.dropWhile_cons_of_pos (by simpa using hc)
      rw [hskip, ih]
      by_cases hb : isBlank c = true
      · rw [tokens_blank hb]
      · rcases tokens_step (s := s) (by simpa using hb) with ⟨_, hstep⟩ | ⟨hgoes, w, ts, _, hrest, hstep⟩
        · rw [hstep, List.dropWhile_cons_of_pos (by simpa using hc)]
        · -- neither the token nor what is left of it is an equals sign
          have hw : w ≠ ['='] := by
            rintro rfl
            obtain ⟨_, rfl, _⟩ := cons_of_tokens (trimStart_of_continues hgoes) hrest
            have hjoins : joins c '=' = false := by simp [joins, isWordChar]
            rw [continues, List.head?_cons, Option.any_some, hjoins] at hgoes
            cases hgoes
          rw [hstep, hrest, List.dropWhile_cons_of_pos (by simpa using hw),
            List.dropWhile_cons_of_pos (by simp [hc])]

theorem tokens_afterEquals (h : tokens s = tokens t) :
    tokens (Line.afterEquals s) = tokens (Line.afterEquals t) := by
  have htrim (s : List Char) : trimStart (toEquals s) = toEquals s := by
    cases hs : toEquals s with
    | nil => rfl
    | cons c rest =>
      obtain rfl : c = '=' := by simpa using head?_dropWhile (s := s) (congrArg List.head? hs)
      rfl
  have hsame : SameTokens (toEquals s) (toEquals t) :=
    ⟨by rw [tokens_toEquals, tokens_toEquals, h], htrim s, htrim t⟩
  rw [afterEquals_eq, afterEquals_eq]
  rcases hsame.cases_cons with ⟨hs, ht⟩ | ⟨c, s', t', hs, ht, hrest, _⟩
  · rw [hs, ht]
    exact h
  · rw [hs, ht]
    exact hrest

end BusLogic.Script
