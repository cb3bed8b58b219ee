import BusLogic.Proofs.Checked.Basic
import BusLogic.Proofs.Script.Opening
import BusLogic.Proofs.Text

/-! Scanning a line by byte positions.

A line is a text in which characters take one to four bytes, and a scanner is a position
in it. The position may not leave the text, and the text may be cut only between two
characters (`sliceFrom`, `sliceTo`). Words, marks and white space are made of whole
characters, so a scanner that steps over them stands between two characters again
(`Scanner.At`). What it reads is then what is read from the characters that are left
(`Scans`), up to the statement a line makes. -/
namespace BusLogic.Script
open Attempt Text

/-! ### Bytes of a text -/

/-- How many bytes a text takes. -/
def bytes : List Char → Nat
  | [] => 0
  | c :: rest => c.utf8Size + bytes rest

/-- The text from byte `n` on. -/
def sliceFrom : List Char → (n : Nat) → Except (Halt Error) (List Char)
  | [], n => if n = 0 then .ok [] else .error (.trap .outOfBounds)
  | c :: rest, n =>
    if n = 0 then .ok (c :: rest)
    else if c.utf8Size ≤ n then sliceFrom rest (n - c.utf8Size)
    else .error (.trap .outOfBounds)

/-- The first `n` bytes of the text. -/
def sliceTo : List Char → (n : Nat) → Except (Halt Error) (List Char)
  | [], n => if n = 0 then .ok [] else .error (.trap .outOfBounds)
  | c :: rest, n =>
    if n = 0 then .ok []
    else if c.utf8Size ≤ n then do
      let more ← sliceTo rest (n - c.utf8Size)
      return c :: more
    else .error (.trap .outOfBounds)

theorem bytes_append (a b : List Char) : bytes (a ++ b) = bytes a + bytes b := by
  induction a with
  | nil => exact (Nat.zero_add _).symm
  | cons c a ih => rw [List.cons_append, bytes, bytes, ih, Nat.add_assoc]

theorem sliceFrom_append (a b : List Char) : sliceFrom (a ++ b) (bytes a) = .ok b := by
  induction a with
  | nil => cases b <;> rfl
  | cons c a ih =>
    have hpos := c.utf8Size_pos
    rw [List.cons_append, bytes, sliceFrom, if_neg (by omega), if_pos (Nat.le_add_right _ _), Nat.add_sub_cancel_left, ih]

-- one byte into a character of two there is nothing to cut
example : sliceFrom ['é', 'a'] 1 = .error (.trap .outOfBounds) := rfl

theorem sliceTo_append (a b : List Char) : sliceTo (a ++ b) (bytes a) = .ok a := by
  induction a with
  | nil => cases b <;> rfl
  | cons c a ih =>
    have hpos := c.utf8Size_pos
    rw [List.cons_append, bytes, sliceTo, if_neg (by omega), if_pos (Nat.le_add_right _ _), Nat.add_sub_cancel_left, ih]
    rfl

/-! ### Scanners -/

/-- A position in a text, counted in bytes. -/
structure Scanner where
  text : List Char
  pos : Nat

/-- A step of a scanner. -/
abbrev Scan := Attempt (Halt Error) Scanner

namespace Scanner

/-- What is left of the text. -/
def rest : Scan (List Char) := do
  let sc ← get
  Attempt.ofExcept (sliceFrom sc.text sc.pos)

/-- Moves on by `n` bytes, inside the text. -/
def advance (n : Nat) : Scan Unit := do
  let sc ← get
  if bytes sc.text < sc.pos + n then
    throw (.trap .outOfBounds)
  modify fun sc => { sc with pos := sc.pos + n }

def skipWhitespace : Scan Unit := do
  let r ← rest
  let n ← Attempt.ofExcept (Checked.sub (bytes r) (bytes (trimStart r)))
  advance n

/-- The longest run of characters of which `p` holds, with the white space after it. -/
def takeWhile (p : Char → Bool) : Scan (List Char) := do
  let r ← rest
  let n := bytes (r.takeWhile p)
  advance n
  skipWhitespace
  Attempt.ofExcept (sliceTo r n)

def word : Scan String := String.ofList <$> takeWhile isWordChar

def number : Scan (Option Nat) := (fun digits => (readNumeral 10 digits).toOption) <$> takeWhile isDigit

/-- Steps over a mark and the white space after it, if the mark is there. -/
def eat (mark : List Char) : Scan Bool := do
  let r ← rest
  if mark.isPrefixOf r then
    advance (bytes mark)
    skipWhitespace
    return true
  else return false

def peek : Scan (Option Char) := List.head? <$> rest

def found : Scan String := Script.found <$> rest

def finish : Scan (Option Mismatch) := leftover? <$> rest

/-! ### Readers -/

def index : Scan Index := do
  if (← peek).any isDigit then
    match ← number with
    | some n => return .literal n
    | none => return .missing ⟨"number", ← found⟩
  else
    let name ← word
    if name = "" then return .missing ⟨"number", ← found⟩
    else return .constant name

def span? : Scan (Option Span) := do
  if ← eat ['.'] then
    let first ← index
    if ← eat ['.', '.'] then
      let last ← index
      return some ⟨first, some last⟩
    else return some ⟨first, none⟩
  else return none

/-- The rest of a list of at most `budget` references. -/
def listParts : (budget : Nat) → Scan Listing
  | 0 => throw (.trap .endless)
  | budget + 1 => do
    let name ← word
    if name = "" then return ⟨[], some ⟨"bus name", ← found⟩⟩
    else
      let part : Ref := ⟨name, ← span?⟩
      if ← eat [']'] then return ⟨[part], none⟩
      else if ← eat [','] then
        let more ← listParts budget
        return ⟨part :: more.parts, more.fault⟩
      else return ⟨[part], some ⟨"`,`", ← found⟩⟩

def listing : Scan Listing := do
  if ← eat [']'] then return ⟨[], none⟩
  else
    let sc ← get
    listParts (sc.text.length + 1)

def extent? : Scan (Option Extent) := do
  if ← eat ['('] then
    let width ← index
    if ← eat [')'] then return some ⟨width, none⟩
    else return some ⟨width, some ⟨"`)`", ← found⟩⟩
  else return none

def named (name : String) : Scan Term :=
  match Opcode.ofSourceWord? name with
  | some op => do
    let extent ← extent?
    return .operand (.source op extent)
  | none =>
    match Opcode.ofKeyword? name with
    | some op => do
      if ← eat ['['] then
        let l ← listing
        return .operand (.reduction op l)
      else return .operator op
    | none => do
      let span ← span?
      return .operand (.ref ⟨name, span⟩)

def term? : Scan (Option Term) := do
  if ← eat ['['] then
    let l ← listing
    return some (.operand (.list l))
  else
    let name ← word
    if name = "" then return none
    else
      let t ← named name
      return some t

/-- At most `budget` terms. -/
def terms : (budget : Nat) → Scan (List Term)
  | 0 => throw (.trap .endless)
  | budget + 1 => do
    match ← term? with
    | none => return []
    | some t =>
      let ts ← terms budget
      return t :: ts

def loop : Scan Value := do
  if ← eat ['('] then
    let count ← index
    if ← eat [')'] then
      let source ← word
      if source = "" then return .loop count (.error ⟨"loop source bus", ← found⟩)
      else
        match ← finish with
        | some m => return .loop count (.error m)
        | none => return .loop count (.ok source)
    else return .loop count (.error ⟨"`)`", ← found⟩)
  else return .fault ⟨"`(`", ← found⟩

def select : Scan Value := do
  if ← eat ['('] then
    let name ← word
    if name = "" then return .fault ⟨"selector bus", ← found⟩
    else
      let span ← span?
      if ← eat [')'] then return .select ⟨name, span⟩ (← finish)
      else return .select ⟨name, span⟩ (some ⟨"`)`", ← found⟩)
  else return .fault ⟨"`(`", ← found⟩

/-- The word in front decides, and is read again where it belongs to a formula. -/
def value : Scan Value := do
  let here ← get
  let keyword ← word
  if keyword = "LOOP" then loop
  else if keyword = "SELECT" then select
  else
    modify fun _ => here
    let ts ← terms (here.text.length + 1)
    return .formula ts (← finish)

def assigned : Scan (Except Mismatch Value) := do
  if ← eat ['='] then return .ok (← value)
  else return .error ⟨"`=`", ← found⟩

def declared (statement : Nat → Statement) : Scan Statement := do
  match ← number with
  | none => return .fault ⟨"bus width", ← found⟩
  | some width =>
    match ← finish with
    | some m => return .fault m
    | none => return statement width

def plain (name : String) : Scan Statement := do
  if name = "" then return .fault ⟨"bus name", ← found⟩
  else if ← eat ['/'] then declared (.declare name)
  else if ← eat ['.'] then
    let i ← index
    return .assign (.slot name i) (← assigned)
  else return .assign (.bus name) (← assigned)

def inputStatement : Scan Statement := do
  let name ← word
  if name = "" then return .fault ⟨"bus name", ← found⟩
  else if ← eat ['/'] then declared (.input name)
  else return .fault ⟨"`/` and a width", ← found⟩

def outputStatement : Scan Statement := do
  let name ← word
  if name = "" then return .fault ⟨"bus name", ← found⟩
  else if ← eat ['/'] then declared fun _ => .fault ⟨"`=`", "/"⟩
  else return .assign (.port name) (← assigned)

def statement : Scan Statement := do
  let keyword ← word
  if keyword = "BLOCK" then
    let _ ← word
    match ← finish with
    | some m => return .fault m
    | none => return .block
  else if keyword = "IN" then inputStatement
  else if keyword = "OUT" then outputStatement
  else plain keyword

/-- Whether there is `END`, with or without a label, and nothing more. -/
def isEnd : Scan Bool := do
  if (← word) = "END" then
    let _ ← word
    return (← rest).isEmpty
  else return false

/-- Whether a loop or a selection starts here. -/
def startsConstruct : Scan Bool := do
  let keyword ← word
  if keyword = "LOOP" ∨ keyword = "SELECT" then return (← peek) == some '('
  else return false

/-- Scans a text from its first character that is not blank. -/
def read (x : Scan α) (text : List Char) : Except (Halt Error) α :=
  (outcome (skipWhitespace >>= fun _ => x) ⟨text, 0⟩).1

/-! ### Between two characters -/

/-- The scanner has come to `r`. -/
def Before (sc : Scanner) (r : List Char) : Prop := ∃ past, sc = ⟨past ++ r, bytes past⟩

/-- The scanner has come to `r` and skipped the white space there. -/
structure At (sc : Scanner) (r : List Char) : Prop where
  before : sc.Before r
  trimmed : trimStart r = r

variable {α β : Type} {sc : Scanner} {r : List Char}

theorem Before.length_le (h : sc.Before r) : r.length ≤ sc.text.length := by
  obtain ⟨past, rfl⟩ := h
  show r.length ≤ (past ++ r).length
  rw [List.length_append]
  exact Nat.le_add_left _ _

theorem Before.rest (h : sc.Before r) : outcome rest sc = (.ok r, sc) := by
  obtain ⟨past, rfl⟩ := h
  show (sliceFrom (past ++ r) (bytes past), _) = _
  rw [sliceFrom_append]

theorem Before.advance {w t : List Char} (h : sc.Before (w ++ t)) :
    ∃ sc', outcome (advance (bytes w)) sc = (.ok (), sc') ∧ sc'.Before t := by
  obtain ⟨past, rfl⟩ := h
  have hpos : bytes (past ++ w) = bytes past + bytes w := bytes_append past w
  have hend : ¬ bytes (past ++ (w ++ t)) < bytes past + bytes w := by
    rw [bytes_append, bytes_append]
    omega
  refine ⟨⟨past ++ (w ++ t), bytes past + bytes w⟩, ?_, ⟨past ++ w, ?_⟩⟩
  · rw [Scanner.advance, outcome_bind, outcome_get]
    dsimp only
    rw [if_neg hend]
    rfl
  · rw [hpos, List.append_assoc]

theorem Before.skipWhitespace (h : sc.Before r) :
    ∃ sc', outcome skipWhitespace sc = (.ok (), sc') ∧ sc'.At (trimStart r) := by
  have hsplit : r.takeWhile isBlank ++ trimStart r = r := List.takeWhile_append_dropWhile
  have hbytes : bytes r = bytes (r.takeWhile isBlank) + bytes (trimStart r) := by rw [← bytes_append, hsplit]
  have hsub : (Checked.sub (bytes r) (bytes (trimStart r)) : Except (Halt Error) Nat) =
      .ok (bytes (r.takeWhile isBlank)) := by
    rw [Checked.sub_eq (by omega), hbytes, Nat.add_sub_cancel]
  obtain ⟨sc', hadvance, hbefore⟩ := Before.advance (hsplit.symm ▸ h)
  refine ⟨sc', ?_, hbefore, List.dropWhile_idempotent ..⟩
  rw [Scanner.skipWhitespace, outcome_bind, h.rest]
  dsimp only
  rw [outcome_bind, outcome_ofExcept, hsub]
  exact hadvance

/-! ### What is read -/

/-- At `r`, the scanner reads the first component of `p` and comes to the second. -/
def Scans (x : Scan α) (r : List Char) (p : α × List Char) : Prop :=
  ∀ sc : Scanner, sc.At r → ∃ sc', outcome x sc = (.ok p.1, sc') ∧ sc'.At p.2

/-- At `r`, the scanner reads `a`, and comes to some place. -/
def Finds (x : Scan α) (r : List Char) (a : α) : Prop := ∃ t, Scans x r (a, t)

namespace Scans

protected theorem pure (a : α) (r : List Char) : Scans (pure a) r (a, r) := fun sc h => ⟨sc, rfl, h⟩

protected theorem bind {x : Scan α} {f : α → Scan β} {p : α × List Char} {q : β × List Char} (hx : Scans x r p)
    (hf : Scans (f p.1) p.2 q) : Scans (x >>= f) r q := by
  intro sc h
  obtain ⟨sc₁, hr₁, h₁⟩ := hx sc h
  obtain ⟨sc₂, hr₂, h₂⟩ := hf sc₁ h₁
  exact ⟨sc₂, by rw [outcome_bind, hr₁]; exact hr₂, h₂⟩

protected theorem map (f : α → β) {x : Scan α} {p : α × List Char} (hx : Scans x r p) : Scans (f <$> x) r (f p.1, p.2) := by
  intro sc h
  obtain ⟨sc₁, hr₁, h₁⟩ := hx sc h
  exact ⟨sc₁, by rw [outcome_map, hr₁]; rfl, h₁⟩

theorem get {f : Scanner → Scan α} {q : α × List Char} (hf : ∀ sc : Scanner, sc.At r → Scans (f sc) r q) :
    Scans (MonadState.get >>= f) r q := by
  intro sc h
  obtain ⟨sc₁, hr₁, h₁⟩ := hf sc h sc h
  exact ⟨sc₁, by rw [outcome_bind, outcome_get]; exact hr₁, h₁⟩

theorem finds {x : Scan α} {p : α × List Char} (hx : Scans x r p) : Finds x r p.1 := ⟨p.2, hx⟩

end Scans

protected theorem Finds.bind {x : Scan α} {f : α → Scan β} {p : α × List Char} {b : β} (hx : Scans x r p)
    (hf : Finds (f p.1) p.2 b) : Finds (x >>= f) r b := by
  obtain ⟨t, ht⟩ := hf
  exact ⟨t, .bind hx ht⟩

/-- What is made of what is found. -/
theorem Finds.then {x : Scan α} {a : α} (hx : Finds x r a) (f : α → β) : Finds (x >>= fun a => pure (f a)) r (f a) := by
  obtain ⟨t, ht⟩ := hx
  exact ⟨t, .bind ht (.pure _ t)⟩

theorem scans_rest (r : List Char) : Scans rest r (r, r) := fun sc h => ⟨sc, h.before.rest, h⟩

theorem scans_found (r : List Char) : Scans found r (Script.found r, r) := .map _ (scans_rest r)

theorem scans_finish (r : List Char) : Scans finish r (leftover? r, r) := .map _ (scans_rest r)

theorem scans_takeWhile (p : Char → Bool) (r : List Char) :
    Scans (takeWhile p) r (r.takeWhile p, trimStart (r.dropWhile p)) := by
  intro sc h
  have hsplit : r.takeWhile p ++ r.dropWhile p = r := List.takeWhile_append_dropWhile
  obtain ⟨sc₁, hadvance, h₁⟩ := Before.advance (hsplit.symm ▸ h.before)
  obtain ⟨sc₂, hskip, h₂⟩ := h₁.skipWhitespace
  have hslice : sliceTo r (bytes (r.takeWhile p)) = .ok (r.takeWhile p) := by
    have happend := sliceTo_append (r.takeWhile p) (r.dropWhile p)
    rwa [hsplit] at happend
  refine ⟨sc₂, ?_, h₂⟩
  rw [takeWhile, outcome_bind, h.before.rest]
  dsimp only
  rw [outcome_bind, hadvance]
  dsimp only
  rw [outcome_bind, hskip]
  dsimp only
  rw [outcome_ofExcept, hslice]

theorem scans_word (r : List Char) : Scans word r (Script.word r) := .map _ (scans_takeWhile isWordChar r)

theorem scans_number (r : List Char) : Scans number r (number? r) := .map _ (scans_takeWhile isDigit r)

section Names
variable {f g : String → Scan α} {q : α × List Char} {a : α} {name : String} {t : List Char}

/-- Where there is no name, the word that is read is empty and nothing is passed over. -/
theorem Scans.unnamed (h : name? r = none) (hf : Scans (f "") r q) :
    Scans (word >>= fun w => if w = "" then f w else g w) r q := by
  intro sc hat
  have hnil : r.takeWhile isWordChar = [] := by
    unfold name? at h
    split at h
    · assumption
    · cases h
  have hrest : r.dropWhile isWordChar = r := by
    have hsplit := List.takeWhile_append_dropWhile (p := isWordChar) (l := r)
    rwa [hnil] at hsplit
  have hword : Script.word r = ("", r) := by rw [Script.word, hnil, hrest, hat.trimmed]
  have hscans := scans_word r
  rw [hword] at hscans
  refine Scans.bind hscans ?_ sc hat
  dsimp only
  rwa [if_pos rfl]

theorem Scans.named (h : name? r = some (name, t)) (hg : Scans (g name) t q) :
    Scans (word >>= fun w => if w = "" then f w else g w) r q := by
  obtain ⟨hword, hne⟩ := name?_eq_word h
  have hscans := scans_word r
  rw [hword] at hscans
  refine .bind hscans ?_
  dsimp only
  rwa [if_neg hne]

theorem Finds.unnamed (h : name? r = none) (hf : Finds (f "") r a) :
    Finds (word >>= fun w => if w = "" then f w else g w) r a := by
  obtain ⟨t, ht⟩ := hf
  exact ⟨t, .unnamed h ht⟩

theorem Finds.named (h : name? r = some (name, t)) (hg : Finds (g name) t a) :
    Finds (word >>= fun w => if w = "" then f w else g w) r a := by
  obtain ⟨u, hu⟩ := hg
  exact ⟨u, .named h hu⟩

end Names

theorem eat?_eq (mark s : List Char) :
    eat? mark s = if mark.isPrefixOf s then some (trimStart (s.drop mark.length)) else none := by
  induction mark generalizing s with
  | nil => rfl
  | cons m mark ih =>
    cases s with
    | nil => rfl
    | cons c s =>
      rw [eat?, ih]
      by_cases hmc : m = c
      · subst hmc
        simp
      · simp [hmc]

theorem scans_eat_some {mark t : List Char} (h : eat? mark r = some t) : Scans (eat mark) r (true, t) := by
  intro sc hat
  rw [eat?_eq] at h
  split at h
  · rename_i hmark
    cases h
    obtain ⟨t, rfl⟩ := List.isPrefixOf_iff_prefix.mp hmark
    obtain ⟨sc₁, hadvance, h₁⟩ := Before.advance hat.before
    obtain ⟨sc₂, hskip, h₂⟩ := h₁.skipWhitespace
    rw [List.drop_left]
    refine ⟨sc₂, ?_, h₂⟩
    rw [eat, outcome_bind, hat.before.rest]
    dsimp only
    rw [if_pos hmark, outcome_bind, hadvance]
    dsimp only
    rw [outcome_bind, hskip]
    rfl
  · cases h

theorem scans_eat_none {mark : List Char} (h : eat? mark r = none) : Scans (eat mark) r (false, r) := by
  intro sc hat
  rw [eat?_eq] at h
  split at h
  · cases h
  · rename_i hmark
    refine ⟨sc, ?_, hat⟩
    rw [eat, outcome_bind, hat.before.rest]
    dsimp only
    rw [if_neg hmark]
    rfl

/-! ### References, lists and formulas -/

theorem scans_index (r : List Char) : Scans index r (Script.index r) := by
  refine .bind (.map List.head? (scans_rest r)) ?_
  unfold Script.index
  dsimp only
  split
  · have hnumber := scans_number r
    rcases hn : number? r with ⟨_ | n, t⟩
    all_goals rw [hn] at hnumber
    · exact .bind hnumber (.bind (scans_found t) (.pure _ t))
    · exact .bind hnumber (.pure _ t)
  · cases hn : name? r with
    | none => exact .unnamed hn (.bind (scans_found r) (.pure _ r))
    | some p => exact .named hn (.pure _ p.2)

theorem scans_span? (r : List Char) : Scans span? r (Script.span? r) := by
  unfold span? Script.span?
  cases h : eat? ['.'] r with
  | none => exact .bind (scans_eat_none h) (.pure _ r)
  | some t =>
    refine .bind (scans_eat_some h) (.bind (scans_index t) ?_)
    dsimp only
    cases h₁ : eat? ['.', '.'] (Script.index t).2 with
    | none => exact .bind (scans_eat_none h₁) (.pure _ _)
    | some t₁ => exact .bind (scans_eat_some h₁) (.bind (scans_index t₁) (.pure _ _))

theorem scans_listParts {budget : Nat} (hbudget : r.length < budget) :
    Scans (listParts budget) r (Script.listParts r) := by
  obtain ⟨budget, rfl⟩ : ∃ k, budget = k + 1 := ⟨budget - 1, by omega⟩
  fun_induction Script.listParts r generalizing budget with
  | case1 r hn => exact .unnamed hn (.bind (scans_found r) (.pure _ r))
  | case2 r name t hn part t₁ h => exact .named hn (.bind (scans_span? t) (.bind (scans_eat_some h) (.pure _ t₁)))
  | case3 r name t hn part h t₁ h₁ more t₂ hmore ih =>
    have hshort : t₁.length < r.length := by
      have hname := length_name?_lt hn
      have hspan := length_span?_le t
      have heat := length_eat?_le h₁
      omega
    obtain ⟨budget, rfl⟩ : ∃ k, budget = k + 1 := ⟨budget - 1, by omega⟩
    have hparts := ih budget (by omega)
    rw [hmore] at hparts
    exact .named hn (.bind (scans_span? t) (.bind (scans_eat_none h) (.bind (scans_eat_some h₁)
      (.bind hparts (.pure _ t₂)))))
  | case4 r name t hn part h h₁ =>
    exact .named hn (.bind (scans_span? t) (.bind (scans_eat_none h) (.bind (scans_eat_none h₁)
      (.bind (scans_found _) (.pure _ _)))))

theorem scans_listing (r : List Char) : Scans listing r (Script.listing r) := by
  unfold listing Script.listing
  cases h : eat? [']'] r with
  | some t => exact .bind (scans_eat_some h) (.pure _ t)
  | none =>
    refine .bind (scans_eat_none h) (.get fun sc hat => ?_)
    exact scans_listParts (Nat.lt_succ_of_le hat.before.length_le)

theorem scans_extent? (r : List Char) : Scans extent? r (Script.extent? r) := by
  unfold extent? Script.extent?
  cases h : eat? ['('] r with
  | none => exact .bind (scans_eat_none h) (.pure _ r)
  | some t =>
    refine .bind (scans_eat_some h) (.bind (scans_index t) ?_)
    dsimp only
    cases h₁ : eat? [')'] (Script.index t).2 with
    | none => exact .bind (scans_eat_none h₁) (.bind (scans_found _) (.pure _ _))
    | some t₁ => exact .bind (scans_eat_some h₁) (.pure _ t₁)

theorem scans_named (name : String) (r : List Char) : Scans (named name) r (Script.named name r) := by
  unfold named Script.named
  cases Opcode.ofSourceWord? name with
  | some op => exact .bind (scans_extent? r) (.pure _ _)
  | none =>
    cases Opcode.ofKeyword? name with
    | none => exact .bind (scans_span? r) (.pure _ _)
    | some op =>
      cases h : eat? ['['] r with
      | none => exact .bind (scans_eat_none h) (.pure _ r)
      | some t => exact .bind (scans_eat_some h) (.bind (scans_listing t) (.pure _ _))

theorem term?_of_eat? (h : eat? ['['] r = none) :
    Script.term? r = (name? r).map fun p => Script.named p.1 p.2 := by
  unfold Script.term?
  split
  · cases h
  · cases name? r <;> rfl

/-- Where there is no term, nothing is passed over. -/
theorem scans_term? (r : List Char) :
    Scans term? r ((Script.term? r).map Prod.fst, ((Script.term? r).map Prod.snd).getD r) := by
  cases hopen : eat? ['['] r with
  | some t =>
    obtain ⟨rest, rfl, rfl⟩ := eat?_single hopen
    exact .bind (scans_eat_some hopen) (.bind (scans_listing _) (.pure _ _))
  | none =>
    rw [term?_of_eat? hopen]
    refine .bind (scans_eat_none hopen) ?_
    cases hn : name? r with
    | none => exact .unnamed hn (.pure none r)
    | some p => exact .named hn (.bind (scans_named p.1 p.2) (.pure _ _))

theorem scans_terms {budget : Nat} (hbudget : r.length < budget) : Scans (terms budget) r (Script.terms r) := by
  obtain ⟨budget, rfl⟩ : ∃ k, budget = k + 1 := ⟨budget - 1, by omega⟩
  fun_induction Script.terms r generalizing budget with
  | case1 r h =>
    have hterm := scans_term? r
    rw [h] at hterm
    exact .bind hterm (.pure _ r)
  | case2 r t u h ts v hterms ih =>
    have hshort := length_term?_lt h
    obtain ⟨budget, rfl⟩ : ∃ k, budget = k + 1 := ⟨budget - 1, by omega⟩
    have hterm := scans_term? r
    have hrest := ih budget (by omega)
    rw [h] at hterm
    rw [hterms] at hrest
    exact .bind hterm (.bind hrest (.pure _ v))

/-! ### Values and statements -/

theorem finds_loop (r : List Char) : Finds loop r (Script.loop r) := by
  unfold loop Script.loop
  cases h : eat? ['('] r with
  | none => exact .bind (scans_eat_none h) ((scans_found r).finds.then _)
  | some t =>
    refine .bind (scans_eat_some h) (.bind (scans_index t) ?_)
    dsimp only
    cases h₁ : eat? [')'] (Script.index t).2 with
    | none => exact .bind (scans_eat_none h₁) ((scans_found _).finds.then _)
    | some t₁ =>
      refine .bind (scans_eat_some h₁) ?_
      dsimp only
      cases hn : name? t₁ with
      | none => exact .unnamed hn ((scans_found t₁).finds.then _)
      | some p =>
        refine .named hn (.bind (scans_finish p.2) ?_)
        dsimp only
        cases leftover? p.2 with
        | none => exact (Scans.pure _ p.2).finds
        | some m => exact (Scans.pure _ p.2).finds

theorem finds_select (r : List Char) : Finds select r (Script.select r) := by
  unfold select Script.select
  cases h : eat? ['('] r with
  | none => exact .bind (scans_eat_none h) ((scans_found r).finds.then _)
  | some t =>
    refine .bind (scans_eat_some h) ?_
    dsimp only
    cases hn : name? t with
    | none => exact .unnamed hn ((scans_found t).finds.then _)
    | some p =>
      refine .named hn (.bind (scans_span? p.2) ?_)
      dsimp only
      cases h₁ : eat? [')'] (Script.span? p.2).2 with
      | none => exact .bind (scans_eat_none h₁) ((scans_found _).finds.then _)
      | some t₁ => exact .bind (scans_eat_some h₁) ((scans_finish t₁).finds.then _)

theorem finds_value (r : List Char) : Finds value r (Script.value r) := by
  unfold Script.value
  dsimp only
  by_cases hloop : (Script.word r).1 = "LOOP"
  · obtain ⟨t, ht⟩ := finds_loop (Script.word r).2
    refine ⟨t, .get fun here hat => .bind (scans_word r) ?_⟩
    rw [if_pos hloop, if_pos hloop]
    exact ht
  rw [if_neg hloop]
  by_cases hselect : (Script.word r).1 = "SELECT"
  · obtain ⟨t, ht⟩ := finds_select (Script.word r).2
    refine ⟨t, .get fun here hat => .bind (scans_word r) ?_⟩
    rw [if_neg hloop, if_pos hselect, if_pos hselect]
    exact ht
  · refine ⟨(Script.terms r).2, .get fun here hat => .bind (scans_word r) ?_⟩
    rw [if_neg hloop, if_neg hselect, if_neg hselect]
    have hback : Scans (modify fun _ => here) (Script.word r).2 ((), r) := fun _ _ => ⟨here, rfl, hat⟩
    have hterms := scans_terms (Nat.lt_succ_of_le hat.before.length_le)
    exact .bind hback (.bind hterms (.bind (scans_finish _) (.pure _ _)))

theorem finds_assigned (r : List Char) : Finds assigned r (Script.assigned r) := by
  unfold assigned Script.assigned
  cases h : eat? ['='] r with
  | none => exact .bind (scans_eat_none h) ((scans_found r).finds.then _)
  | some t => exact .bind (scans_eat_some h) ((finds_value t).then _)

theorem finds_declared (statement : Nat → Statement) (r : List Char) :
    Finds (declared statement) r (Script.declared r statement) := by
  have hnumber := scans_number r
  unfold declared Script.declared
  rcases hn : number? r with ⟨_ | width, t⟩
  all_goals rw [hn] at hnumber
  · exact .bind hnumber ((scans_found t).finds.then _)
  · refine .bind hnumber (.bind (scans_finish t) ?_)
    dsimp only
    cases leftover? t with
    | none => exact (Scans.pure _ t).finds
    | some m => exact (Scans.pure _ t).finds

theorem finds_inputStatement (r : List Char) : Finds inputStatement r (Script.inputStatement r) := by
  unfold inputStatement Script.inputStatement
  cases hn : name? r with
  | none => exact .unnamed hn ((scans_found r).finds.then _)
  | some p =>
    refine .named hn ?_
    dsimp only
    cases h : eat? ['/'] p.2 with
    | none => exact .bind (scans_eat_none h) ((scans_found p.2).finds.then _)
    | some t => exact .bind (scans_eat_some h) (finds_declared _ t)

theorem finds_outputStatement (r : List Char) : Finds outputStatement r (Script.outputStatement r) := by
  unfold outputStatement Script.outputStatement
  cases hn : name? r with
  | none => exact .unnamed hn ((scans_found r).finds.then _)
  | some p =>
    refine .named hn ?_
    dsimp only
    cases h : eat? ['/'] p.2 with
    | none => exact .bind (scans_eat_none h) ((finds_assigned p.2).then _)
    | some t => exact .bind (scans_eat_some h) (finds_declared _ t)

theorem finds_plain (r : List Char) : Finds (word >>= plain) r (Script.plain r) := by
  unfold plain Script.plain
  cases hn : name? r with
  | none => exact .unnamed hn ((scans_found r).finds.then _)
  | some p =>
    refine .named hn ?_
    dsimp only
    cases h : eat? ['/'] p.2 with
    | some t => exact .bind (scans_eat_some h) (finds_declared _ t)
    | none =>
      refine .bind (scans_eat_none h) ?_
      dsimp only
      cases h₁ : eat? ['.'] p.2 with
      | none => exact .bind (scans_eat_none h₁) ((finds_assigned p.2).then _)
      | some t => exact .bind (scans_eat_some h₁) (.bind (scans_index t) ((finds_assigned _).then _))

theorem finds_statement (r : List Char) : Finds statement r (Script.statement r) := by
  unfold Script.statement
  dsimp only
  by_cases hblock : (Script.word r).1 = "BLOCK"
  · refine .bind (scans_word r) ?_
    rw [if_pos hblock, if_pos hblock]
    refine .bind (scans_word _) (.bind (scans_finish _) ?_)
    dsimp only
    cases leftover? (Script.word (Script.word r).2).2 with
    | none => exact (Scans.pure _ _).finds
    | some m => exact (Scans.pure _ _).finds
  rw [if_neg hblock]
  by_cases hin : (Script.word r).1 = "IN"
  · refine .bind (scans_word r) ?_
    rw [if_neg hblock, if_pos hin, if_pos hin]
    exact finds_inputStatement _
  rw [if_neg hin]
  by_cases hout : (Script.word r).1 = "OUT"
  · refine .bind (scans_word r) ?_
    rw [if_neg hblock, if_neg hin, if_pos hout, if_pos hout]
    exact finds_outputStatement _
  · rw [if_neg hout]
    -- the word that was no keyword is the name the statement starts with
    obtain ⟨t, ht⟩ := finds_plain r
    refine ⟨t, fun sc hat => ?_⟩
    obtain ⟨sc₁, hword, _⟩ := scans_word r sc hat
    obtain ⟨sc₂, hplain, h₂⟩ := ht sc hat
    rw [outcome_bind, hword] at hplain
    refine ⟨sc₂, ?_, h₂⟩
    rw [statement, outcome_bind, hword]
    dsimp only
    rw [if_neg hblock, if_neg hin, if_neg hout]
    exact hplain

theorem finds_isEnd (r : List Char) :
    Finds isEnd r ((Script.word r).1 == "END" && (Script.word (Script.word r).2).2.isEmpty) := by
  refine .bind (scans_word r) ?_
  by_cases hend : (Script.word r).1 = "END"
  · rw [if_pos hend, beq_iff_eq.mpr hend, Bool.true_and]
    exact .bind (scans_word _) ((scans_rest _).finds.then _)
  · rw [if_neg hend, beq_eq_false_iff_ne.mpr hend, Bool.false_and]
    exact (Scans.pure _ _).finds

theorem finds_startsConstruct (r : List Char) : Finds startsConstruct r
    (((Script.word r).1 == "LOOP" || (Script.word r).1 == "SELECT") && (Script.word r).2.head? == some '(') := by
  refine .bind (scans_word r) ?_
  have hkeyword : ((Script.word r).1 == "LOOP" || (Script.word r).1 == "SELECT") = true ↔
      (Script.word r).1 = "LOOP" ∨ (Script.word r).1 = "SELECT" := by
    rw [Bool.or_eq_true, beq_iff_eq, beq_iff_eq]
  by_cases hstarts : (Script.word r).1 = "LOOP" ∨ (Script.word r).1 = "SELECT"
  · rw [if_pos hstarts, hkeyword.mpr hstarts, Bool.true_and]
    exact (Scans.map _ (scans_rest _)).finds.then _
  · rw [if_neg hstarts, Bool.eq_false_iff.mpr (mt hkeyword.mp hstarts), Bool.false_and]
    exact (Scans.pure _ _).finds

/-- A text is read from where its scanner has skipped the white space. -/
theorem read_eq {x : Scan α} {text : List Char} {a : α} (h : Finds x (trimStart text) a) : read x text = .ok a := by
  obtain ⟨t, ht⟩ := h
  have hbefore : Before ⟨text, 0⟩ text := ⟨[], rfl⟩
  obtain ⟨sc₁, hskip, hat⟩ := hbefore.skipWhitespace
  obtain ⟨sc₂, hx, _⟩ := ht sc₁ hat
  rw [read, outcome_bind, hskip]
  exact congrArg Prod.fst hx

end Scanner

/-! ### Lines -/

namespace Line

/-- The line has no white space in front. -/
def Trimmed (line : Line) : Prop := trimStart line.text = line.text

theorem trimmed_of_mem_linesOf {source : List Char} {line : Line} (h : line ∈ linesOf source) : line.Trimmed := by
  obtain ⟨k, raw, _, _, rfl⟩ := mem_linesOf.mp h
  exact (run_append (List.forall_mem_nil _) (trims_trim raw).unpadded.1).2

namespace Checked

def statement (line : Line) : Except (Halt Error) Statement := Scanner.read Scanner.statement line.text

def value (line : Line) : Except (Halt Error) Value := Scanner.read Scanner.value line.text

def isEnd (line : Line) : Except (Halt Error) Bool := Scanner.read Scanner.isEnd line.text

def opens (line : Line) : Except (Halt Error) Bool := do
  let keyword ← Scanner.read Scanner.word line.text
  if keyword = "BLOCK" then return true
  else Scanner.read Scanner.startsConstruct (afterEquals line.text)

variable {line : Line}

theorem statement_eq (h : line.Trimmed) : statement line = .ok (Script.statement line.text) :=
  Scanner.read_eq (by rw [h]; exact Scanner.finds_statement _)

theorem value_eq (h : line.Trimmed) : value line = .ok (Script.value line.text) :=
  Scanner.read_eq (by rw [h]; exact Scanner.finds_value _)

theorem isEnd_eq (h : line.Trimmed) : isEnd line = .ok line.isEnd :=
  Scanner.read_eq (by rw [h]; exact Scanner.finds_isEnd _)

theorem opens_eq (h : line.Trimmed) : opens line = .ok line.opens := by
  have hword : Scanner.read Scanner.word line.text = .ok (word line.text).1 :=
    Scanner.read_eq (by rw [h]; exact (Scanner.scans_word _).finds)
  have hstarts : Scanner.read Scanner.startsConstruct (afterEquals line.text) =
      .ok (startsConstruct (afterEquals line.text)) := Scanner.read_eq (Scanner.finds_startsConstruct _)
  rw [opens, hword, hstarts, Line.opens]
  show (if (word line.text).1 = "BLOCK" then Except.ok true else _) = _
  by_cases hblock : (word line.text).1 = "BLOCK"
  · rw [if_pos hblock, beq_iff_eq.mpr hblock, Bool.true_or]
  · rw [if_neg hblock, beq_eq_false_iff_ne.mpr hblock, Bool.false_or]

end Checked

end Line

end BusLogic.Script
