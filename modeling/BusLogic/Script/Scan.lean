import BusLogic.Error
import BusLogic.Text.Blank
import BusLogic.Text.Numeral

/-! Scanning a line: words, numbers and marks, each with the white space after it. -/
namespace BusLogic.Script
open Text

/-- Words are made of letters, digits and underscores. -/
def isWordChar (c : Char) : Bool := c.isAlphanum || c == '_'

/-- The longest word the text starts with, possibly empty, and what follows it. -/
def word (s : List Char) : String × List Char :=
  (String.ofList (s.takeWhile isWordChar), trimStart (s.dropWhile isWordChar))

/-- The word the text starts with, if there is one, and what follows it. -/
def name? (s : List Char) : Option (String × List Char) :=
  match s.takeWhile isWordChar with
  | [] => none
  | name => some (String.ofList name, trimStart (s.dropWhile isWordChar))

/-- The number the text starts with, if it fits 64 bits, and what follows its
digits. -/
def number? (s : List Char) : Option Nat × List Char :=
  ((readNumeral 10 (s.takeWhile isDigit)).toOption, trimStart (s.dropWhile isDigit))

/-- What follows a mark, if the text starts with it. -/
def eat? : (mark : List Char) → List Char → Option (List Char)
  | [], s => some (trimStart s)
  | m :: mark, c :: s => if m = c then eat? mark s else none
  | _ :: _, [] => none

/-- What is reported as found where something else was expected. -/
def found : List Char → String
  | [] => "end of line"
  | s => String.ofList s

/-- What is wrong with text left over at the end of a statement. -/
def leftover? : List Char → Option Mismatch
  | [] => none
  | s => some ⟨"end of line", found s⟩

/-! ### Scanning never lengthens the text -/

theorem length_trimStart_le (s : List Char) : (trimStart s).length ≤ s.length :=
  (List.dropWhile_suffix isBlank).length_le

theorem length_number?_le (s : List Char) : (number? s).2.length ≤ s.length :=
  Nat.le_trans (length_trimStart_le _) (List.dropWhile_suffix isDigit).length_le

/-- A name takes at least its first letter. -/
theorem length_name?_lt {s r : List Char} {name : String} (h : name? s = some (name, r)) :
    r.length < s.length := by
  cases s with
  | nil => simp [name?] at h
  | cons c rest =>
    by_cases hc : isWordChar c
    · have h₁ := length_trimStart_le (rest.dropWhile isWordChar)
      have h₂ := (List.dropWhile_suffix (l := rest) isWordChar).length_le
      simp only [name?, List.takeWhile_cons, List.dropWhile_cons, hc, if_true, Option.some.injEq,
        Prod.mk.injEq] at h
      rw [← h.2, List.length_cons]
      omega
    · simp [name?, hc] at h

theorem length_eat?_le {mark s r : List Char} (h : eat? mark s = some r) : r.length ≤ s.length := by
  induction mark generalizing s with
  | nil =>
    rw [eat?, Option.some.injEq] at h
    exact h ▸ length_trimStart_le s
  | cons m mark ih =>
    cases s with
    | nil => simp [eat?] at h
    | cons c s =>
      rw [eat?] at h
      split at h
      · exact Nat.le_succ_of_le (ih h)
      · simp at h

end BusLogic.Script
