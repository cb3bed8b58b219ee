import BusLogic.Command.Stimulus
import BusLogic.Proofs.Numeral
import BusLogic.Proofs.Text

/-! Which stimuli are read, and as what.

A value is a numeral in decimal, in hexadecimal behind `0x`, or in binary behind `0b`
(`Denotes`). No decimal numeral begins like that, so the mark in front decides the base and
takes nothing away from the other two (`readValue_eq_ok_iff`). A stimulus is split at its
first equals sign (`splitEquals?_eq_some_iff`), and both parts are trimmed. -/
namespace BusLogic.Command
open Text

/-! ### Values -/

/-- A number in decimal, or in hexadecimal behind `0x`, or in binary behind `0b`. -/
inductive Denotes : List Char → Nat → Prop where
  | decimal {text n} : Numeral 10 text n → Denotes text n
  | hexadecimal {text n} : Numeral 16 text n → Denotes ('0' :: 'x' :: text) n
  | binary {text n} : Numeral 2 text n → Denotes ('0' :: 'b' :: text) n

variable {text : List Char} {n : Nat}

/-- A zero and a letter begin no decimal numeral. -/
theorem not_numeral_of_letter {c : Char} (hc : digit? 10 c = none) : ¬ Numeral 10 ('0' :: c :: text) n := by
  rw [numeral_iff_of_ne_plus (by decide)]
  intro h
  obtain ⟨d, hd⟩ := h.mem (c := c) (by simp)
  rw [digit?_eq_some_iff.mpr hd] at hc
  cases hc

theorem denotes_hexadecimal_iff : Denotes ('0' :: 'x' :: text) n ↔ Numeral 16 text n := by
  constructor
  · intro h
    cases h with
    | decimal h => exact absurd h (not_numeral_of_letter (by decide))
    | hexadecimal h => exact h
  · exact .hexadecimal

theorem denotes_binary_iff : Denotes ('0' :: 'b' :: text) n ↔ Numeral 2 text n := by
  constructor
  · intro h
    cases h with
    | decimal h => exact absurd h (not_numeral_of_letter (by decide))
    | binary h => exact h
  · exact .binary

theorem readValue_eq_ok_iff : readValue text = .ok n ↔ Denotes text n ∧ n < 2 ^ 64 := by
  unfold readValue
  split
  · rw [readNumeral_eq_ok_iff, denotes_hexadecimal_iff]
  · rw [readNumeral_eq_ok_iff, denotes_binary_iff]
  · rename_i hx hb
    rw [readNumeral_eq_ok_iff, and_congr_left_iff]
    intro _
    constructor
    · exact .decimal
    · intro h
      cases h with
      | decimal h => exact h
      | hexadecimal => exact absurd rfl (hx _)
      | binary => exact absurd rfl (hb _)

theorem Denotes.not_blank (h : Denotes text n) : ∀ c ∈ text, isBlank c = false := by
  cases h with
  | decimal h => exact h.not_blank
  | hexadecimal h => exact List.forall_mem_cons.mpr ⟨rfl, List.forall_mem_cons.mpr ⟨rfl, h.not_blank⟩⟩
  | binary h => exact List.forall_mem_cons.mpr ⟨rfl, List.forall_mem_cons.mpr ⟨rfl, h.not_blank⟩⟩

/-- The ways to write a number as a value: in decimal, in hexadecimal with small letters or
capitals, and in binary. -/
def renderings (n : Nat) : List (List Char) :=
  [Nat.toDigits 10 n, '0' :: 'x' :: Nat.toDigits 16 n, '0' :: 'x' :: (Nat.toDigits 16 n).map Char.toUpper,
    '0' :: 'b' :: Nat.toDigits 2 n]

theorem denotes_of_mem_renderings (h : text ∈ renderings n) : Denotes text n := by
  have hhex : Spells 16 (Nat.toDigits 16 n) n := spells_toDigits (by decide) (by decide) n
  simp only [renderings, List.mem_cons, List.not_mem_nil, or_false] at h
  rcases h with rfl | rfl | rfl | rfl
  · exact .decimal (numeral_toDigits (by decide) (by decide) n)
  · exact .hexadecimal (numeral_toDigits (by decide) (by decide) n)
  · exact .hexadecimal (.of_spells hhex.toUpper (by simp [Nat.toDigits_ne_nil]))
  · exact .binary (numeral_toDigits (by decide) (by decide) n)

/-! ### Stimuli -/

variable {s name value : List Char}

theorem splitEquals?_eq_some_iff : splitEquals? s = some (name, value) ↔ s = name ++ '=' :: value ∧ '=' ∉ name := by
  constructor
  · intro h
    have hsplit : s.takeWhile (· != '=') ++ s.dropWhile (· != '=') = s := List.takeWhile_append_dropWhile
    unfold splitEquals? at h
    split at h
    · cases h
    · rename_i c rest hdrop
      cases h
      obtain rfl : c = '=' := by simpa using head?_dropWhile (s := s) (congrArg List.head? hdrop)
      rw [hdrop] at hsplit
      exact ⟨hsplit.symm, fun hmem => by simpa using List.mem_takeWhile_imp hmem⟩
  · rintro ⟨rfl, hname⟩
    have hrun : ∀ c ∈ name, (c != '=') = true := by
      intro c hc
      simpa using fun heq : c = '=' => hname (heq ▸ hc)
    obtain ⟨htake, hdrop⟩ := run_append (X := '=' :: value) hrun (by simp)
    rw [splitEquals?, hdrop, htake]

theorem parse_eq_ok_iff_parts {stimulus : Stimulus} : Stimulus.parse s = .ok stimulus ↔
    ∃ name value, splitEquals? s = some (name, value) ∧ String.ofList (trim name) = stimulus.bus ∧
      readValue (trim value) = .ok stimulus.value := by
  cases hsplit : splitEquals? s with
  | none => simp [Stimulus.parse, hsplit]
  | some parts =>
    cases hread : readValue (trim parts.2) with
    | error fault =>
      simp only [Stimulus.parse, hsplit, hread, reduceCtorEq, false_iff]
      rintro ⟨name, value, ⟨⟩, -, hok⟩
      rw [hread] at hok
      cases hok
    | ok n =>
      simp only [Stimulus.parse, hsplit, hread, Except.ok.injEq]
      constructor
      · rintro rfl
        exact ⟨parts.1, parts.2, rfl, rfl, hread⟩
      · rintro ⟨name, value, ⟨⟩, hbus, hok⟩
        rw [hread] at hok
        cases hok
        rw [hbus]

/-- What is read is told by the text alone, without the reader. -/
theorem parse_eq_ok_iff {stimulus : Stimulus} : Stimulus.parse s = .ok stimulus ↔
    ∃ name value text, s = name ++ '=' :: value ∧ '=' ∉ name ∧ Trims name stimulus.bus.toList ∧ Trims value text ∧
      Denotes text stimulus.value ∧ stimulus.value < 2 ^ 64 := by
  simp only [parse_eq_ok_iff_parts, splitEquals?_eq_some_iff, readValue_eq_ok_iff]
  constructor
  · rintro ⟨name, value, ⟨hs, hname⟩, hbus, hvalue⟩
    refine ⟨name, value, trim value, hs, hname, ?_, trims_trim value, hvalue⟩
    rw [← hbus, String.toList_ofList]
    exact trims_trim name
  · rintro ⟨name, value, text, hs, hname, hbus, htext, hvalue⟩
    refine ⟨name, value, ⟨hs, hname⟩, ?_, ?_⟩
    · rw [hbus.trim_eq, String.ofList_toList]
    · rwa [htext.trim_eq]

theorem parse_of_denotes (hname : '=' ∉ name) (hpad : Unpadded name) (htext : Denotes text n) (hn : n < 2 ^ 64) :
    Stimulus.parse (name ++ '=' :: text) = .ok ⟨String.ofList name, n⟩ := by
  have hbus : Trims name (String.ofList name).toList := by
    rw [String.toList_ofList]
    exact hpad.trims
  have hvalue : Trims text text := (Unpadded.of_forall htext.not_blank).trims
  exact parse_eq_ok_iff.mpr ⟨name, text, text, rfl, hname, hbus, hvalue, htext, hn⟩

/-- **A stimulus is read exactly if it has an equals sign and a value that fits behind the
first one**, and it is then the name in front and the number that the value denotes. White
space around either part does not count. So every number that fits, written in decimal,
hexadecimal or binary behind a name, is read back with it, if the name has no equals sign
and no white space at its ends. -/
theorem parse_exact :
    (∀ (s : List Char) (stimulus : Stimulus), Stimulus.parse s = .ok stimulus ↔
      ∃ name value text, s = name ++ '=' :: value ∧ '=' ∉ name ∧ Trims name stimulus.bus.toList ∧ Trims value text ∧
        Denotes text stimulus.value ∧ stimulus.value < 2 ^ 64) ∧
    ∀ (name : List Char) (n : Nat), '=' ∉ name → Unpadded name → n < 2 ^ 64 →
      ∀ text ∈ renderings n, Stimulus.parse (name ++ '=' :: text) = .ok ⟨String.ofList name, n⟩ := by
  constructor
  · intro s stimulus
    exact parse_eq_ok_iff
  · intro name n hname hpad hn text htext
    exact parse_of_denotes hname hpad (denotes_of_mem_renderings htext) hn

/-- White space, a sign, zeros in front and digits of either case in one stimulus; and the
greatest number that fits, in capitals. -/
theorem parse_exact_greatest :
    Stimulus.parse " a b\t= 0x+00fF\n".toList = .ok ⟨"a b", 255⟩ ∧
      Stimulus.parse "sel=0xFFFFFFFFFFFFFFFF".toList = .ok ⟨"sel", 2 ^ 64 - 1⟩ := by
  constructor
  · refine (parse_exact.1 _ _).mpr ⟨" a b\t".toList, " 0x+00fF\n".toList, "0x+00fF".toList, rfl, by decide,
      ?_, ?_, ?_, by decide⟩
    · exact trim_eq_iff.mp (by decide)
    · exact trim_eq_iff.mp (by decide)
    · exact (readValue_eq_ok_iff.mp (by decide)).1
  · have hpad : Unpadded "sel".toList := ⟨by rintro _ ⟨⟩; rfl, by rintro _ ⟨⟩; rfl⟩
    exact parse_exact.2 "sel".toList (2 ^ 64 - 1) (by decide) hpad (by decide) "0xFFFFFFFFFFFFFFFF".toList (by decide)

end BusLogic.Command
