import BusLogic.Text.Blank
import BusLogic.Text.Numeral
import Mathlib.Data.List.Forall2
import Mathlib.Data.Nat.Digits.Defs
import Mathlib.Tactic.IntervalCases
import Mathlib.Tactic.Ring

/-! What a numeral says.

A character is the digit of a value (`Digit`), digits spell a number by their places
(`Spells`), and a numeral is one or more digits, with or without a plus sign (`Numeral`).
A numeral is read from the left, and reading stops at the first digit with which the number
would not fit. One more digit never makes a number smaller, so what is read is exactly what
fits as a whole (`readDigits_eq_ok_iff`, `readNumeral_eq_ok_iff`), however many zeros stand
in front. Every number is spelled by the digits it is written in (`spells_toDigits`). -/
namespace BusLogic.Text
variable {base d n : Nat} {c : Char} {text : List Char}

/-! ### Digits -/

theorem isDigit_eq (c : Char) : isDigit c = c.isDigit := by
  simp only [isDigit, Char.isDigit, Char.le_def, ge_iff_le, UInt32.le_iff_toNat_le]

theorem isDigit_of_mem_toDigits (h : c ∈ Nat.toDigits 10 n) : isDigit c = true := by
  rw [isDigit_eq]
  exact Nat.isDigit_of_mem_toDigits (by decide) (by decide) h

/-- The character is the digit of value `d` in a base; letters count in either case. -/
def Digit (base : Nat) (c : Char) (d : Nat) : Prop :=
  d < base ∧ ("0123456789abcdef".toList[d]? = some c ∨ "0123456789ABCDEF".toList[d]? = some c)

theorem Digit.lt_sixteen (h : Digit base c d) : d < 16 := by
  rcases h.2 with hc | hc <;> exact (List.getElem?_eq_some_iff.mp hc).1

theorem Digit.mem (h : Digit base c d) : c ∈ "0123456789abcdefABCDEF".toList := by
  rcases h.2 with hc | hc
  · exact List.mem_append_left _ (List.mem_of_getElem? hc)
  · have hmem : c ∈ "0123456789ABCDEF".toList := List.mem_of_getElem? hc
    have hsub : "0123456789ABCDEF".toList ⊆ "0123456789abcdefABCDEF".toList := by decide
    exact hsub hmem

theorem Digit.not_blank (h : Digit base c d) : isBlank c = false := by
  have hall : "0123456789abcdefABCDEF".toList.all (fun c => !isBlank c) = true := by decide
  simpa using List.all_eq_true.mp hall c h.mem

theorem Digit.ne_plus (h : Digit base c d) : c ≠ '+' := by
  rintro rfl
  exact absurd h.mem (by decide)

/-- The reader's ranges of characters are the table of digits. -/
theorem digit?_eq_some_iff : digit? base c = some d ↔ Digit base c d := by
  simp only [digit?, Option.filter_eq_some_iff, decide_eq_true_eq, Digit]
  rw [and_comm, and_congr_right_iff]
  intro hlt
  constructor
  · intro h
    have hall : ∀ m < 103, (48 ≤ m → m ≤ 57 → "0123456789abcdef".toList[m - 48]? = some (Char.ofNat m)) ∧
        (97 ≤ m → "0123456789abcdef".toList[m - 97 + 10]? = some (Char.ofNat m)) ∧
        (65 ≤ m → m ≤ 70 → "0123456789ABCDEF".toList[m - 65 + 10]? = some (Char.ofNat m)) := by decide
    have hat := hall c.toNat
    rw [Char.ofNat_toNat] at hat
    split at h
    · rename_i hrange
      have hto : c.toNat ≤ 57 := hrange.2
      cases h
      exact .inl ((hat (by omega)).1 hrange.1 hto)
    · split at h
      · rename_i hrange
        have hto : c.toNat ≤ 102 := hrange.2
        cases h
        exact .inl ((hat (by omega)).2.1 hrange.1)
      · split at h
        · rename_i hrange
          have hto : c.toNat ≤ 70 := hrange.2
          cases h
          exact .inr ((hat (by omega)).2.2 hrange.1 hto)
        · cases h
  · intro h
    have hd : d < 16 := Digit.lt_sixteen ⟨hlt, h⟩
    interval_cases d <;> rcases h with h | h <;> cases h <;> rfl

/-- A character is the digit of one value at most. -/
theorem Digit.unique {e : Nat} (hd : Digit base c d) (he : Digit base c e) : d = e := by
  rw [← digit?_eq_some_iff] at hd he
  exact Option.some.inj (hd.symm.trans he)

theorem digit_digitChar (hd : d < base) (hbase : base ≤ 16) : Digit base (Nat.digitChar d) d := by
  have hall : ∀ d < 16, "0123456789abcdef".toList[d]? = some (Nat.digitChar d) := by decide
  exact ⟨hd, .inl (hall d (by omega))⟩

/-- A digit in capitals has the same value. -/
theorem Digit.toUpper (h : Digit base c d) : Digit base c.toUpper d := by
  have hall : ∀ d < 16, ("0123456789abcdef".toList[d]?).map Char.toUpper = "0123456789ABCDEF".toList[d]? ∧
      ("0123456789ABCDEF".toList[d]?).map Char.toUpper = "0123456789ABCDEF".toList[d]? := by decide
  refine ⟨h.1, .inr ?_⟩
  rcases h.2 with hc | hc
  · rw [← (hall d h.lt_sixteen).1, hc, Option.map_some]
  · rw [← (hall d h.lt_sixteen).2, hc, Option.map_some]

/-! ### Numbers by their digits -/

/-- The digits spell the number in a base, the highest place first. -/
def Spells (base : Nat) (text : List Char) (n : Nat) : Prop :=
  ∃ digits, List.Forall₂ (Digit base) text digits ∧ Nat.ofDigits base digits.reverse = n

theorem spells_nil (base : Nat) : Spells base [] 0 := ⟨[], .nil, rfl⟩

/-- One more digit moves the others up by a place. -/
theorem Spells.concat (h : Spells base text n) (hc : Digit base c d) : Spells base (text ++ [c]) (base * n + d) := by
  obtain ⟨digits, hdigits, rfl⟩ := h
  refine ⟨digits ++ [d], List.rel_append hdigits (.cons hc .nil), ?_⟩
  rw [List.reverse_append, List.reverse_singleton, List.singleton_append, Nat.ofDigits_cons, Nat.add_comm]

theorem Spells.mem (h : Spells base text n) (hc : c ∈ text) : ∃ d, Digit base c d := by
  obtain ⟨digits, hdigits, -⟩ := h
  induction hdigits with
  | nil => cases hc
  | cons hd _ ih =>
    rcases List.mem_cons.mp hc with rfl | hc
    · exact ⟨_, hd⟩
    · exact ih hc

theorem Spells.toUpper (h : Spells base text n) : Spells base (text.map Char.toUpper) n := by
  obtain ⟨digits, hdigits, hn⟩ := h
  exact ⟨digits, List.forall₂_map_left_iff.mpr (hdigits.imp fun _ _ => Digit.toUpper), hn⟩

theorem spells_toDigits (hone : 1 < base) (hbase : base ≤ 16) (n : Nat) : Spells base (Nat.toDigits base n) n := by
  induction n using Nat.strong_induction_on with
  | _ n ih =>
    rw [Nat.toDigits_eq_if hone]
    split
    · rename_i hlt
      have h := (spells_nil base).concat (digit_digitChar hlt hbase)
      rwa [Nat.mul_zero, Nat.zero_add] at h
    · rename_i hge
      have hless : n / base < n := Nat.div_lt_self (by omega) hone
      have h := (ih (n / base) hless).concat (digit_digitChar (Nat.mod_lt n (by omega)) hbase)
      rwa [Nat.div_add_mod] at h

/-! ### Reading -/

/-- The first of some digits behind a number, taken to the number. -/
theorem places_cons (base acc d : Nat) (digits : List Nat) :
    acc * base ^ (d :: digits).length + Nat.ofDigits base (d :: digits).reverse =
      (acc * base + d) * base ^ digits.length + Nat.ofDigits base digits.reverse := by
  rw [Nat.ofDigits_reverse_cons, List.length_cons]
  ring

/-- Digits are read behind a number that fits exactly if the number they make of it fits. -/
theorem readDigits_eq_ok_iff {acc : Nat} (hacc : acc < 2 ^ 64) : readDigits base acc text = .ok n ↔
    ∃ digits, List.Forall₂ (Digit base) text digits ∧
      acc * base ^ digits.length + Nat.ofDigits base digits.reverse = n ∧ n < 2 ^ 64 := by
  induction text generalizing acc with
  | nil =>
    simp only [readDigits, Except.ok.injEq, List.forall₂_nil_left_iff, exists_eq_left, List.length_nil,
      Nat.pow_zero, Nat.mul_one, List.reverse_nil, Nat.ofDigits_nil, Nat.add_zero]
    exact ⟨fun h => ⟨h, h ▸ hacc⟩, And.left⟩
  | cons c rest ih =>
    rw [readDigits]
    cases hc : digit? base c with
    | none =>
      refine ⟨by rintro ⟨⟩, ?_⟩
      rintro ⟨_, hdigits, -⟩
      obtain ⟨d, _, hd, -, rfl⟩ := List.forall₂_cons_left_iff.mp hdigits
      rw [digit?_eq_some_iff.mpr hd] at hc
      cases hc
    | some d =>
      have hd := digit?_eq_some_iff.mp hc
      show (if acc * base + d < 2 ^ 64 then _ else _) = _ ↔ _
      split
      · rename_i hfits
        rw [ih hfits]
        constructor
        · rintro ⟨digits, hdigits, hn, hlt⟩
          exact ⟨d :: digits, .cons hd hdigits, (places_cons ..).trans hn, hlt⟩
        · rintro ⟨_, hdigits, hn, hlt⟩
          obtain ⟨e, digits, he, hrest, rfl⟩ := List.forall₂_cons_left_iff.mp hdigits
          obtain rfl := hd.unique he
          exact ⟨digits, hrest, (places_cons ..).symm.trans hn, hlt⟩
      · rename_i hfits
        refine ⟨by rintro ⟨⟩, ?_⟩
        rintro ⟨_, hdigits, hn, hlt⟩
        obtain ⟨e, digits, he, -, rfl⟩ := List.forall₂_cons_left_iff.mp hdigits
        obtain rfl := hd.unique he
        -- the digits that follow only add to what is already too large
        have hpow : 0 < base ^ digits.length := Nat.pow_pos (Nat.zero_lt_of_lt hd.1)
        have hle := Nat.le_mul_of_pos_right (acc * base + d) hpow
        rw [places_cons] at hn
        omega

theorem readDigits_zero_eq_ok_iff : readDigits base 0 text = .ok n ↔ Spells base text n ∧ n < 2 ^ 64 := by
  rw [readDigits_eq_ok_iff (by decide)]
  simp only [Nat.zero_mul, Nat.zero_add, Spells, exists_and_right, ← and_assoc]

/-- One or more digits in a base, with or without a plus sign in front of them. -/
def Numeral (base : Nat) (text : List Char) (n : Nat) : Prop :=
  ∃ digits, digits ≠ [] ∧ (text = digits ∨ text = '+' :: digits) ∧ Spells base digits n

theorem Numeral.of_spells (h : Spells base text n) (hne : text ≠ []) : Numeral base text n := ⟨text, hne, .inl rfl, h⟩

theorem numeral_toDigits (hone : 1 < base) (hbase : base ≤ 16) (n : Nat) : Numeral base (Nat.toDigits base n) n :=
  .of_spells (spells_toDigits hone hbase n) Nat.toDigits_ne_nil

theorem numeral_plus_iff : Numeral base ('+' :: text) n ↔ text ≠ [] ∧ Spells base text n := by
  constructor
  · rintro ⟨digits, hne, rfl | heq, hspells⟩
    · obtain ⟨d, hd⟩ := hspells.mem (List.mem_cons_self ..)
      exact absurd rfl hd.ne_plus
    · cases heq
      exact ⟨hne, hspells⟩
  · rintro ⟨hne, hspells⟩
    exact ⟨text, hne, .inr rfl, hspells⟩

theorem numeral_iff_of_ne_plus (hc : c ≠ '+') : Numeral base (c :: text) n ↔ Spells base (c :: text) n := by
  constructor
  · rintro ⟨digits, -, rfl | heq, hspells⟩
    · exact hspells
    · exact absurd (List.cons.inj heq).1 hc
  · exact fun h => .of_spells h (List.cons_ne_nil c text)

theorem Numeral.not_blank (h : Numeral base text n) : ∀ c ∈ text, isBlank c = false := by
  obtain ⟨digits, -, htext, hspells⟩ := h
  have hdigits : ∀ c ∈ digits, isBlank c = false := by
    intro c hc
    obtain ⟨d, hd⟩ := hspells.mem hc
    exact hd.not_blank
  rcases htext with rfl | rfl
  · exact hdigits
  · exact List.forall_mem_cons.mpr ⟨rfl, hdigits⟩

/-- **A numeral is read exactly if it is one and its number fits**, and it is read as this number. -/
theorem readNumeral_eq_ok_iff : readNumeral base text = .ok n ↔ Numeral base text n ∧ n < 2 ^ 64 := by
  unfold readNumeral
  split
  · refine ⟨by rintro ⟨⟩, ?_⟩
    rintro ⟨⟨digits, hne, heq | heq, -⟩, -⟩
    · exact absurd heq.symm hne
    · cases heq
  · refine ⟨by rintro ⟨⟩, fun h => ?_⟩
    exact absurd rfl (numeral_plus_iff.mp h.1).1
  · rename_i digits hmore
    have hne : digits ≠ [] := by
      rintro rfl
      exact hmore rfl
    rw [readDigits_zero_eq_ok_iff, numeral_plus_iff, and_iff_right hne]
  · rename_i hnil _ hplus
    obtain ⟨c, rest, rfl⟩ := List.exists_cons_of_ne_nil hnil
    have hc : c ≠ '+' := by
      rintro rfl
      exact hplus rest rfl
    rw [readDigits_zero_eq_ok_iff, numeral_iff_of_ne_plus hc]

end BusLogic.Text
