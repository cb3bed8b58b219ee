import BusLogic.Proofs.Numeral
import BusLogic.Proofs.Script.Beside
import BusLogic.Proofs.Script.Opening
import BusLogic.Proofs.Text

/-! A number written out in the text of a line.

A number may be given through the constant `i`, which stands for the pass of the
innermost loop. It can be written out in the text instead: wherever a number is expected,
behind a dot or an opening parenthesis other than that of a selection, the word `i` makes
room for digits (`writeNumbers`). All else stays, so words and marks are found where they
were, and where a number is expected, the constant comes to the same as its digits
(`index_writeNumbers`). -/
namespace BusLogic.Script
open Text

/-! ### Digits -/

/-- The number in decimal. -/
def decimal (n : Nat) : List Char := Nat.toDigits 10 n

theorem isWordChar_of_isDigit {c : Char} (h : isDigit c = true) : isWordChar c = true := by
  rw [isDigit_eq] at h
  simp [isWordChar, Char.isAlphanum, h]

theorem isDigit_of_isWordChar {c : Char} (h : isWordChar c = false) : isDigit c = false := by
  by_contra hne
  rw [isWordChar_of_isDigit (by simpa using hne)] at h
  cases h

theorem isDigit_decimal {n : Nat} {c : Char} (h : c ∈ decimal n) : isDigit c = true := isDigit_of_mem_toDigits h

theorem decimal_cons (n : Nat) : ∃ d ds, decimal n = d :: ds ∧ isDigit d = true := by
  cases hd : decimal n with
  | nil => exact absurd hd Nat.toDigits_ne_nil
  | cons d ds => exact ⟨d, ds, rfl, isDigit_decimal (n := n) (by rw [hd]; exact List.mem_cons_self ..)⟩

theorem readNumeral_decimal {n : Nat} (h : n < 2 ^ 64) : readNumeral 10 (decimal n) = .ok n :=
  readNumeral_eq_ok_iff.mpr ⟨numeral_toDigits (by decide) (by decide) n, h⟩

/-! ### Places where a number is expected -/

/-- What the text in front of a place expects there. -/
inductive Place where
  | plain
  /-- A number, behind a dot or an opening parenthesis. -/
  | number
  /-- The parenthesis of a selection, which holds a bus. -/
  | selection
  deriving DecidableEq, Repr

/-- The place behind a mark. -/
def Place.mark (p : Place) (c : Char) : Place :=
  if c = '.' ∨ c = '(' ∧ p ≠ .selection then .number else .plain

/-- The place behind a word. -/
def Place.word (w : List Char) : Place := if String.ofList w = "SELECT" then .selection else .plain

/-- The text with the number `k` for the word `i` wherever it stands as a number. -/
def writeNumbers (k : Nat) (p : Place) : List Char → List Char
  | [] => []
  | c :: rest =>
    if isBlank c then c :: writeNumbers k p rest
    else if !isWordChar c then c :: writeNumbers k (p.mark c) rest
    else if p = .number ∧ isDigit c then
      c :: rest.takeWhile isDigit ++ writeNumbers k .plain (rest.dropWhile isDigit)
    else
      let w := c :: rest.takeWhile isWordChar
      (if p = .number ∧ w = ['i'] then decimal k else w) ++
        writeNumbers k (.word w) (rest.dropWhile isWordChar)
termination_by s => s.length
decreasing_by
  · simp
  · simp
  · exact Nat.lt_succ_of_le (List.dropWhile_suffix isDigit).length_le
  · exact Nat.lt_succ_of_le (List.dropWhile_suffix isWordChar).length_le

section Written
variable {k : Nat} {p : Place} {c : Char} {rest s : List Char}

/-- The equation for a text that is not empty, as it is defined. -/
theorem writeNumbers_step : writeNumbers k p (c :: rest) =
    if isBlank c then c :: writeNumbers k p rest
    else if !isWordChar c then c :: writeNumbers k (p.mark c) rest
    else if p = .number ∧ isDigit c then
      c :: rest.takeWhile isDigit ++ writeNumbers k .plain (rest.dropWhile isDigit)
    else
      (if p = .number ∧ c :: rest.takeWhile isWordChar = ['i'] then decimal k else c :: rest.takeWhile isWordChar) ++
        writeNumbers k (.word (c :: rest.takeWhile isWordChar)) (rest.dropWhile isWordChar) :=
  writeNumbers.eq_def k p (c :: rest)

theorem writeNumbers_nil : writeNumbers k p [] = [] := by
  unfold writeNumbers
  rfl

theorem writeNumbers_blank (hc : isBlank c = true) :
    writeNumbers k p (c :: rest) = c :: writeNumbers k p rest := by
  rw [writeNumbers_step, if_pos hc]

theorem writeNumbers_mark (hb : isBlank c = false) (hw : isWordChar c = false) :
    writeNumbers k p (c :: rest) = c :: writeNumbers k (p.mark c) rest := by
  rw [writeNumbers_step, hb, hw, if_neg Bool.false_ne_true, Bool.not_false, if_pos rfl]

theorem writeNumbers_digits (hc : isDigit c = true) : writeNumbers k .number (c :: rest) =
    c :: rest.takeWhile isDigit ++ writeNumbers k .plain (rest.dropWhile isDigit) := by
  have hw := isWordChar_of_isDigit hc
  rw [writeNumbers_step, isBlank_of_isWordChar hw, hw, if_neg Bool.false_ne_true, Bool.not_true,
    if_neg Bool.false_ne_true, if_pos ⟨rfl, hc⟩]

theorem writeNumbers_word (hw : isWordChar c = true) (hp : p ≠ .number ∨ isDigit c = false) :
    writeNumbers k p (c :: rest) =
      (if p = .number ∧ c :: rest.takeWhile isWordChar = ['i'] then decimal k else c :: rest.takeWhile isWordChar) ++
        writeNumbers k (.word (c :: rest.takeWhile isWordChar)) (rest.dropWhile isWordChar) := by
  rw [writeNumbers_step, isBlank_of_isWordChar hw, hw, if_neg Bool.false_ne_true, Bool.not_true,
    if_neg Bool.false_ne_true, if_neg]
  rintro ⟨hnumber, hdigit⟩
  rcases hp with hp | hp
  · exact hp hnumber
  · rw [hdigit] at hp
    cases hp

theorem Place.plain_ne_number : Place.plain ≠ .number := nofun

theorem Place.word_ne_number (w : List Char) : Place.word w ≠ .number := by
  unfold Place.word
  split <;> nofun

end Written

/-! ### Scanning -/

section Scanning
variable {k : Nat} {p : Place}

/-- Where no number is expected, the next character stays. -/
theorem head?_writeNumbers (hp : p ≠ .number) (s : List Char) : (writeNumbers k p s).head? = s.head? := by
  cases s with
  | nil => rw [writeNumbers_nil]
  | cons c rest =>
    by_cases hb : isBlank c = true
    · rw [writeNumbers_blank hb]
      rfl
    · by_cases hw : isWordChar c = true
      · rw [writeNumbers_word hw (.inl hp), if_neg fun h => hp h.1]
        rfl
      · rw [writeNumbers_mark (by simpa using hb) (by simpa using hw)]
        rfl

/-- Text in front of which no number is expected and in which `i` has been written out. -/
def Written (k : Nat) (s' s : List Char) : Prop := ∃ p, p ≠ Place.number ∧ s' = writeNumbers k p s

theorem Written.eq_nil_iff {s' s : List Char} (h : Written k s' s) : s' = [] ↔ s = [] := by
  obtain ⟨p, hp, rfl⟩ := h
  rw [← List.head?_eq_none_iff, head?_writeNumbers hp, List.head?_eq_none_iff]

/-- A run of word characters at the start of a text becomes such a run. -/
theorem writeNumbers_run {c : Char} (hw : isWordChar c = true) (rest : List Char) : ∃ w w' q r,
    c :: rest = w ++ r ∧ writeNumbers k p (c :: rest) = w' ++ writeNumbers k q r ∧
      (w ≠ [] ∧ ∀ d ∈ w, isWordChar d = true) ∧ (w' ≠ [] ∧ ∀ d ∈ w', isWordChar d = true) := by
  by_cases hnumber : p = .number ∧ isDigit c = true
  · obtain ⟨rfl, hd⟩ := hnumber
    have hrun : c :: rest.takeWhile isDigit ≠ [] ∧ ∀ d ∈ c :: rest.takeWhile isDigit, isWordChar d = true :=
      ⟨nofun, List.forall_mem_cons.mpr ⟨hw, fun d hd => isWordChar_of_isDigit (List.mem_takeWhile_imp hd)⟩⟩
    refine ⟨_, _, _, rest.dropWhile isDigit, ?_, writeNumbers_digits hd, hrun, hrun⟩
    rw [List.cons_append, List.takeWhile_append_dropWhile]
  · have hrun : c :: rest.takeWhile isWordChar ≠ [] ∧ ∀ d ∈ c :: rest.takeWhile isWordChar, isWordChar d = true :=
      ⟨nofun, List.forall_mem_cons.mpr ⟨hw, fun d hd => List.mem_takeWhile_imp hd⟩⟩
    rw [not_and_or, Bool.not_eq_true] at hnumber
    refine ⟨_, _, _, rest.dropWhile isWordChar, ?_, writeNumbers_word hw hnumber, hrun, ?_⟩
    · rw [List.cons_append, List.takeWhile_append_dropWhile]
    · split
      · obtain ⟨d, ds, hd, _⟩ := decimal_cons k
        exact ⟨by rw [hd]; nofun, fun d hd => isWordChar_of_isDigit (isDigit_decimal hd)⟩
      · exact hrun

/-- The next character stays, unless it belongs to a word. -/
theorem writeNumbers_cons {c : Char} (rest : List Char) : ∃ c' rest', writeNumbers k p (c :: rest) = c' :: rest' ∧
    isWordChar c' = isWordChar c ∧ (isWordChar c = false → c' = c) := by
  by_cases hw : isWordChar c = true
  · obtain ⟨_, w', q, r, _, heq, _, hne, hrun⟩ := writeNumbers_run (k := k) (p := p) hw rest
    obtain ⟨c', w', rfl⟩ := List.exists_cons_of_ne_nil hne
    refine ⟨c', w' ++ writeNumbers k q r, heq, (hrun c' List.mem_cons_self).trans hw.symm, fun h => ?_⟩
    rw [hw] at h
    cases h
  · have hw : isWordChar c = false := by simpa using hw
    by_cases hb : isBlank c = true
    · exact ⟨c, _, writeNumbers_blank hb, rfl, fun _ => rfl⟩
    · exact ⟨c, _, writeNumbers_mark (by simpa using hb) hw, rfl, fun _ => rfl⟩

theorem trimStart_writeNumbers (s : List Char) :
    trimStart (writeNumbers k p s) = writeNumbers k p (trimStart s) := by
  induction s with
  | nil =>
    show trimStart (writeNumbers k p []) = writeNumbers k p []
    rw [writeNumbers_nil]
    rfl
  | cons c rest ih =>
    by_cases hb : isBlank c = true
    · rw [writeNumbers_blank hb, trimStart, List.dropWhile_cons, if_pos hb]
      rw [trimStart, List.dropWhile_cons, if_pos hb]
      exact ih
    · have htrim : trimStart (c :: rest) = c :: rest := by rw [trimStart, List.dropWhile_cons, if_neg hb]
      obtain ⟨c', rest', heq, hword, hother⟩ := writeNumbers_cons (p := p) (c := c) rest
      have hb' : isBlank c' = false := by
        by_cases hw : isWordChar c = true
        · exact isBlank_of_isWordChar (hword.trans hw)
        · rw [hother (by simpa using hw)]
          simpa using hb
      rw [htrim, heq, trimStart, List.dropWhile_cons, hb', if_neg Bool.false_ne_true]

theorem eat?_writeNumbers {m : Char} (hb : isBlank m = false) (hw : isWordChar m = false) (mark s : List Char) :
    eat? (m :: mark) (writeNumbers k p s) =
      match s with
      | [] => none
      | c :: rest => if m = c then eat? mark (writeNumbers k (p.mark m) rest) else none := by
  cases s with
  | nil =>
    rw [writeNumbers_nil]
    rfl
  | cons c rest =>
    by_cases hc : m = c
    · subst hc
      rw [writeNumbers_mark hb hw, eat?, if_pos rfl]
      dsimp only
      rw [if_pos rfl]
    · obtain ⟨c', rest', heq, hword, hother⟩ := writeNumbers_cons (p := p) (c := c) rest
      have hc' : m ≠ c' := by
        by_cases hwc : isWordChar c = true
        · rintro rfl
          rw [hword, hwc] at hw
          cases hw
        · rw [hother (by simpa using hwc)]
          exact hc
      rw [heq, eat?, if_neg hc']
      dsimp only
      rw [if_neg hc]

/-- A mark is found where it was. -/
theorem eat?_single_writeNumbers {m : Char} (hb : isBlank m = false) (hw : isWordChar m = false) (s : List Char) :
    eat? [m] (writeNumbers k p s) = (eat? [m] s).map (writeNumbers k (p.mark m)) := by
  rw [eat?_writeNumbers hb hw]
  cases s with
  | nil => rfl
  | cons c rest =>
    rw [eat?]
    dsimp only
    split
    · rw [eat?, eat?, trimStart_writeNumbers]
      rfl
    · rfl

theorem eat?_dots_writeNumbers (s : List Char) :
    eat? ['.', '.'] (writeNumbers k p s) = (eat? ['.', '.'] s).map (writeNumbers k .number) := by
  rw [eat?_writeNumbers (by decide) (by decide)]
  cases s with
  | nil => rfl
  | cons c rest =>
    rw [eat?]
    dsimp only
    split
    · rw [eat?_single_writeNumbers (by decide) (by decide)]
      rfl
    · rfl

/-- Where no number is expected, words stay. -/
theorem splitWord_writeNumbers (hp : p ≠ .number) (s : List Char) : ∃ q, q ≠ .number ∧
    (writeNumbers k p s).takeWhile isWordChar = s.takeWhile isWordChar ∧
    (writeNumbers k p s).dropWhile isWordChar = writeNumbers k q (s.dropWhile isWordChar) ∧
    (s.takeWhile isWordChar ≠ [] → q = .word (s.takeWhile isWordChar)) := by
  have hstop {q : Place} (hq : q ≠ .number) (s : List Char) (c : Char) :
      (writeNumbers k q (s.dropWhile isWordChar)).head? = some c → isWordChar c = false := by
    rw [head?_writeNumbers hq]
    exact head?_dropWhile
  cases s with
  | nil =>
    refine ⟨p, hp, ?_, ?_, fun h => absurd rfl h⟩
    · rw [writeNumbers_nil]
    · rw [writeNumbers_nil]
      exact writeNumbers_nil.symm
  | cons c rest =>
    by_cases hw : isWordChar c = true
    · refine ⟨.word (c :: rest.takeWhile isWordChar), Place.word_ne_number _, ?_⟩
      have hall : ∀ d ∈ c :: rest.takeWhile isWordChar, isWordChar d = true :=
        List.forall_mem_cons.mpr ⟨hw, fun d hd => List.mem_takeWhile_imp hd⟩
      obtain ⟨htake, hdrop⟩ := run_append hall (hstop (Place.word_ne_number (c :: rest.takeWhile isWordChar)) rest)
      rw [writeNumbers_word hw (.inl hp), if_neg fun h => hp h.1, htake, hdrop, List.takeWhile_cons,
        List.dropWhile_cons, if_pos hw, if_pos hw]
      exact ⟨rfl, rfl, fun _ => rfl⟩
    · have htake : (c :: rest).takeWhile isWordChar = [] := by rw [List.takeWhile_cons, if_neg hw]
      have hdrop : (c :: rest).dropWhile isWordChar = c :: rest := by rw [List.dropWhile_cons, if_neg hw]
      obtain ⟨htake', hdrop'⟩ := run_append (w := []) nofun (hstop hp (c :: rest))
      rw [hdrop] at htake' hdrop'
      rw [htake, hdrop]
      exact ⟨p, hp, htake', hdrop', fun h => absurd rfl h⟩

theorem word_writeNumbers (hp : p ≠ .number) (s : List Char) : ∃ q, q ≠ .number ∧
    word (writeNumbers k p s) = ((word s).1, writeNumbers k q (word s).2) ∧
    ((word s).1 ≠ "" → q = .word (word s).1.toList) := by
  obtain ⟨q, hq, htake, hdrop, hword⟩ := splitWord_writeNumbers hp s
  refine ⟨q, hq, ?_, fun h => ?_⟩
  · rw [word, htake, hdrop, trimStart_writeNumbers]
    rfl
  · rw [word, String.toList_ofList]
    exact hword fun hnil => h (by rw [word, hnil])

theorem name?_writeNumbers (hp : p ≠ .number) (s : List Char) : name? (writeNumbers k p s) =
    (name? s).map fun (name, r) => (name, writeNumbers k (.word name.toList) r) := by
  obtain ⟨q, hq, htake, hdrop, hword⟩ := splitWord_writeNumbers hp s
  rw [name?, name?, htake, hdrop]
  split
  · rfl
  · rename_i hnil
    rw [trimStart_writeNumbers, hword hnil, Option.map_some]
    dsimp only
    rw [String.toList_ofList]

end Scanning

/-! ### Reading numbers -/

theorem index_digit {c : Char} {rest : List Char} (hc : isDigit c = true) (counter : Option Nat) :
    (index (c :: rest)).1.resolve counter =
        (match (number? (c :: rest)).1 with | some n => .literal n | none => .missing unsaid) ∧
      (index (c :: rest)).2 = (number? (c :: rest)).2 := by
  have hhead : (c :: rest).head?.any isDigit = true := hc
  unfold index
  rw [if_pos hhead]
  rcases number? (c :: rest) with ⟨_ | n, r⟩ <;> exact ⟨rfl, rfl⟩

theorem index_name {s r : List Char} {name : String} (hd : s.head?.any isDigit = false)
    (h : name? s = some (name, r)) : index s = (.constant name, r) := by
  unfold index
  rw [hd, if_neg Bool.false_ne_true, h]

theorem index_none {s : List Char} (h : name? s = none) :
    ∃ m, index s = (.missing m, s) := by
  have hd : s.head?.any isDigit = false := by
    cases s with
    | nil => rfl
    | cons c rest =>
      by_contra hne
      have hc : isDigit c = true := by simpa using hne
      simp [name?, isWordChar_of_isDigit hc] at h
  unfold index
  rw [hd, if_neg Bool.false_ne_true, h]
  exact ⟨_, rfl⟩

theorem name?_of_wordChar {c : Char} {rest : List Char} (hc : isWordChar c = true) : name? (c :: rest) =
    some (String.ofList (c :: rest.takeWhile isWordChar), trimStart (rest.dropWhile isWordChar)) := by
  simp [name?, hc]

/-- Text that has been trimmed starts with no white space. -/
theorem isBlank_of_trimStart {c : Char} {rest : List Char} (h : trimStart (c :: rest) = c :: rest) :
    isBlank c = false := by
  by_contra hne
  have hlen := length_trimStart_le rest
  rw [trimStart, List.dropWhile_cons, if_pos (by simpa using hne)] at h
  rw [trimStart, h, List.length_cons] at hlen
  omega

theorem name?_eq_none_iff {c : Char} {rest : List Char} : name? (c :: rest) = none ↔ isWordChar c = false := by
  unfold name?
  by_cases hc : isWordChar c = true
  · simp [hc]
  · simp [hc]

section Reading
variable {k : Nat} {p : Place}

/-- Digits come to an end where they did. -/
theorem number?_writeNumbers {c : Char} (hc : isDigit c = true) (rest : List Char) :
    number? (writeNumbers k .number (c :: rest)) =
      ((number? (c :: rest)).1, writeNumbers k .plain (number? (c :: rest)).2) := by
  have hall : ∀ d ∈ c :: rest.takeWhile isDigit, isDigit d = true :=
    List.forall_mem_cons.mpr ⟨hc, fun d hd => List.mem_takeWhile_imp hd⟩
  have hstop : ∀ d, (writeNumbers k .plain (rest.dropWhile isDigit)).head? = some d → isDigit d = false := by
    rw [head?_writeNumbers Place.plain_ne_number]
    exact fun d => head?_dropWhile
  obtain ⟨htake, hdrop⟩ := run_append hall hstop
  have hself : (c :: rest).takeWhile isDigit = c :: rest.takeWhile isDigit ∧
      (c :: rest).dropWhile isDigit = rest.dropWhile isDigit := by
    rw [List.takeWhile_cons, List.dropWhile_cons, if_pos hc, if_pos hc]
    exact ⟨rfl, rfl⟩
  rw [number?, number?, writeNumbers_digits hc, htake, hdrop, hself.1, hself.2, trimStart_writeNumbers]

/-- The number written out is read. -/
theorem number?_decimal (hk : k < 2 ^ 64) {X : List Char} (h : ∀ d, X.head? = some d → isWordChar d = false) :
    number? (decimal k ++ X) = (some k, trimStart X) := by
  obtain ⟨htake, hdrop⟩ := run_append (f := isDigit) (w := decimal k) (X := X) (fun d => isDigit_decimal)
    fun d hd => isDigit_of_isWordChar (h d hd)
  rw [number?, htake, hdrop, readNumeral_decimal hk]
  rfl

theorem trimStart_decimal (k : Nat) (X : List Char) : trimStart (decimal k ++ X) = decimal k ++ X := by
  obtain ⟨d, ds, hd, hdigit⟩ := decimal_cons k
  rw [hd, List.cons_append, trimStart, List.dropWhile_cons, isBlank_of_isWordChar (isWordChar_of_isDigit hdigit)]
  rfl

theorem index_decimal (hk : k < 2 ^ 64) {X : List Char} (h : ∀ d, X.head? = some d → isWordChar d = false) :
    index (decimal k ++ X) = (.literal k, trimStart X) := by
  obtain ⟨d, ds, hd, hdigit⟩ := decimal_cons k
  have hhead : (decimal k ++ X).head?.any isDigit = true := by simp [hd, hdigit]
  rw [index, if_pos hhead, number?_decimal hk h]

theorem declared_decimal (hk : k < 2 ^ 64) (f : Nat → Statement) : declared (trimStart (decimal k)) f = f k := by
  have htrim := trimStart_decimal k []
  have hnumber := number?_decimal hk (X := []) nofun
  rw [List.append_nil] at htrim hnumber
  rw [htrim, declared, hnumber]
  rfl

/-- The number that the text starts with is the same once the counter is written out, and what
follows it is that with the counter written out. -/
def ReadsOut (k : Nat) (s : List Char) : Prop :=
  (index (writeNumbers k .number s)).1.resolve none = (index s).1.resolve (some k) ∧
    Written k (index (writeNumbers k .number s)).2 (index s).2

section ReadsOut
variable {c : Char} {rest : List Char}

theorem readsOut_digits (hd : isDigit c = true) : ReadsOut k (c :: rest) := by
  obtain ⟨tail, htail⟩ : ∃ tail, writeNumbers k .number (c :: rest) = c :: tail := ⟨_, writeNumbers_digits hd⟩
  have hnum := number?_writeNumbers (k := k) hd rest
  unfold ReadsOut
  rw [htail] at hnum ⊢
  rw [(index_digit hd none).1, (index_digit hd none).2, (index_digit hd (some k)).1, (index_digit hd none).2, hnum]
  exact ⟨rfl, .plain, nofun, rfl⟩

/-- The counter: its digits are read instead. -/
theorem readsOut_counter (hk : k < 2 ^ 64) (hw : isWordChar c = true) (hd : isDigit c = false)
    (hi : c :: rest.takeWhile isWordChar = ['i']) : ReadsOut k (c :: rest) := by
  have hq := Place.word_ne_number (c :: rest.takeWhile isWordChar)
  have hwritten : writeNumbers k .number (c :: rest) =
      decimal k ++ writeNumbers k (.word (c :: rest.takeWhile isWordChar)) (rest.dropWhile isWordChar) := by
    rw [writeNumbers_word hw (.inr hd), if_pos ⟨rfl, hi⟩]
  have hstop : ∀ e, (writeNumbers k (.word (c :: rest.takeWhile isWordChar))
      (rest.dropWhile isWordChar)).head? = some e → isWordChar e = false := by
    intro e he
    rw [head?_writeNumbers hq] at he
    exact head?_dropWhile he
  unfold ReadsOut
  rw [hwritten, index_decimal hk hstop, index_name (s := c :: rest) hd (name?_of_wordChar hw), hi,
    trimStart_writeNumbers]
  exact ⟨rfl, _, Place.word_ne_number _, rfl⟩

/-- Another constant, which is never defined. -/
theorem readsOut_name (hw : isWordChar c = true) (hd : isDigit c = false)
    (hi : c :: rest.takeWhile isWordChar ≠ ['i']) : ReadsOut k (c :: rest) := by
  have hplain : writeNumbers k .number (c :: rest) = writeNumbers k .plain (c :: rest) := by
    rw [writeNumbers_word hw (.inr hd), writeNumbers_word hw (.inr hd), if_neg fun h => hi h.2,
      if_neg fun h => hi h.2]
  have hhead := head?_writeNumbers (k := k) Place.plain_ne_number (c :: rest)
  have hname := name?_writeNumbers (k := k) Place.plain_ne_number (c :: rest)
  rw [name?_of_wordChar hw, Option.map_some] at hname
  have hne : String.ofList (c :: rest.takeWhile isWordChar) ≠ "i" := fun h => hi (String.ofList_inj.mp h)
  unfold ReadsOut
  rw [hplain, index_name (by rw [hhead]; exact hd) hname, index_name (s := c :: rest) hd (name?_of_wordChar hw)]
  refine ⟨?_, _, Place.word_ne_number _, rfl⟩
  simp only [Index.resolve, hne, if_false]

/-- No number at all. -/
theorem readsOut_none (hb : isBlank c = false) (hw : isWordChar c = false) : ReadsOut k (c :: rest) := by
  have hplain : writeNumbers k .number (c :: rest) = writeNumbers k .plain (c :: rest) := by
    rw [writeNumbers_mark hb hw, writeNumbers_mark hb hw]
    simp [Place.mark]
  obtain ⟨m, hm⟩ := index_none (name?_eq_none_iff.mpr hw : name? (c :: rest) = none)
  have hnone := name?_writeNumbers (k := k) Place.plain_ne_number (c :: rest)
  rw [name?_eq_none_iff.mpr hw, Option.map_none] at hnone
  obtain ⟨m', hm'⟩ := index_none hnone
  unfold ReadsOut
  rw [hplain, hm, hm']
  exact ⟨rfl, .plain, nofun, rfl⟩

end ReadsOut

/-- A number through the constant is the number written out. -/
theorem index_writeNumbers (hk : k < 2 ^ 64) {s : List Char} (hs : trimStart s = s) : ReadsOut k s := by
  cases s with
  | nil =>
    unfold ReadsOut
    rw [writeNumbers_nil]
    exact ⟨rfl, .plain, nofun, writeNumbers_nil.symm⟩
  | cons c rest =>
    by_cases hw : isWordChar c = true
    · by_cases hd : isDigit c = true
      · exact readsOut_digits hd
      · have hd : isDigit c = false := by simpa using hd
        by_cases hi : c :: rest.takeWhile isWordChar = ['i']
        · exact readsOut_counter hk hw hd hi
        · exact readsOut_name hw hd hi
    · exact readsOut_none (isBlank_of_trimStart hs) (by simpa using hw)

end Reading

end BusLogic.Script
