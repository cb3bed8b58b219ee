import BusLogic.Script.Scan
import BusLogic.Script.Statement

/-! Reading a line into a statement. -/
namespace BusLogic.Script
open Text

/-! ### References and lists -/

/-- A number: digits, or the name of a constant. -/
def index (s : List Char) : Index × List Char :=
  if s.head?.any isDigit then
    match number? s with
    | (some n, r) => (.literal n, r)
    | (none, r) => (.missing ⟨"number", found r⟩, r)
  else
    match name? s with
    | none => (.missing ⟨"number", found s⟩, s)
    | some (name, r) => (.constant name, r)

/-- The part of a bus that is meant, if not the whole: `.i` or `.i..j`. -/
def span? (s : List Char) : Option Span × List Char :=
  match eat? ['.'] s with
  | none => (none, s)
  | some r =>
    let (first, r) := index r
    match eat? ['.', '.'] r with
    | none => (some ⟨first, none⟩, r)
    | some r =>
      let (last, r) := index r
      (some ⟨first, some last⟩, r)

theorem length_index_le (s : List Char) : (index s).2.length ≤ s.length := by
  unfold index
  split
  · have h := length_number?_le s
    split <;> rename_i heq <;> simpa [heq] using h
  · split
    · exact Nat.le_refl _
    · rename_i h
      exact Nat.le_of_lt (length_name?_lt h)

theorem length_span?_le (s : List Char) : (span? s).2.length ≤ s.length := by
  unfold span?
  split
  · exact Nat.le_refl _
  · rename_i r h
    have h₁ := length_eat?_le h
    have h₂ := length_index_le r
    dsimp only
    split
    · exact Nat.le_trans h₂ h₁
    · rename_i r' h'
      have h₃ := length_eat?_le h'
      have h₄ := length_index_le r'
      dsimp only
      omega

/-- The rest of a list after its opening bracket or a comma. -/
def listParts (s : List Char) : Listing × List Char :=
  match _ : name? s with
  | none => (⟨[], some ⟨"bus name", found s⟩⟩, s)
  | some (name, r) =>
    let part : Ref := ⟨name, (span? r).1⟩
    match eat? [']'] (span? r).2 with
    | some r => (⟨[part], none⟩, r)
    | none =>
      match _ : eat? [','] (span? r).2 with
      | some r =>
        let (more, r) := listParts r
        (⟨part :: more.parts, more.fault⟩, r)
      | none => (⟨[part], some ⟨"`,`", found (span? r).2⟩⟩, (span? r).2)
termination_by s.length
decreasing_by
  rename_i r₁ h₁ h₂
  have := length_name?_lt h₁
  have := length_span?_le r₁
  have := length_eat?_le h₂
  omega

/-- A list, from after its opening bracket. -/
def listing (s : List Char) : Listing × List Char :=
  match eat? [']'] s with
  | some r => (⟨[], none⟩, r)
  | none => listParts s

theorem length_listParts_le (s : List Char) : (listParts s).2.length ≤ s.length := by
  fun_induction listParts s with
  | case1 => exact Nat.le_refl _
  | case2 s name r hn part r' he =>
    have := length_name?_lt hn
    have := length_span?_le r
    have := length_eat?_le he
    dsimp only
    omega
  | case3 s name r hn part he r' hc more r'' hp ih =>
    have := length_name?_lt hn
    have := length_span?_le r
    have := length_eat?_le hc
    rw [hp] at ih
    dsimp only at ih ⊢
    omega
  | case4 s name r hn part he hc =>
    have := length_name?_lt hn
    have := length_span?_le r
    dsimp only
    omega

theorem length_listing_le (s : List Char) : (listing s).2.length ≤ s.length := by
  unfold listing
  split
  · rename_i h
    exact length_eat?_le h
  · exact length_listParts_le s

/-! ### Formulas -/

/-- The width a constant signal is fanned out to, if one is given. -/
def extent? (s : List Char) : Option Extent × List Char :=
  match eat? ['('] s with
  | none => (none, s)
  | some r =>
    let (width, r) := index r
    match eat? [')'] r with
    | some r => (some ⟨width, none⟩, r)
    | none => (some ⟨width, some ⟨"`)`", found r⟩⟩, r)

/-- What a name stands for in a formula: a constant signal, an operator, an
operator over a whole list, or a bus. -/
def named (name : String) (s : List Char) : Term × List Char :=
  match Opcode.ofSourceWord? name with
  | some op =>
    let (extent, r) := extent? s
    (.operand (.source op extent), r)
  | none =>
    match Opcode.ofKeyword? name with
    | some op =>
      match eat? ['['] s with
      | some r =>
        let (l, r) := listing r
        (.operand (.reduction op l), r)
      | none => (.operator op, s)
    | none =>
      let (span, r) := span? s
      (.operand (.ref ⟨name, span⟩), r)

/-- The next term, if the text starts with one. -/
def term? (s : List Char) : Option (Term × List Char) :=
  match s with
  | '[' :: r =>
    let (l, r) := listing (trimStart r)
    some (.operand (.list l), r)
  | s =>
    match name? s with
    | none => none
    | some (name, r) => some (named name r)

theorem length_extent?_le (s : List Char) : (extent? s).2.length ≤ s.length := by
  unfold extent?
  split
  · exact Nat.le_refl _
  · rename_i r h
    have := length_eat?_le h
    have := length_index_le r
    dsimp only
    split
    · rename_i h'
      have := length_eat?_le h'
      dsimp only
      omega
    · dsimp only
      omega

theorem length_named_le (name : String) (s : List Char) : (named name s).2.length ≤ s.length := by
  unfold named
  split
  · exact length_extent?_le s
  · split
    · split
      · rename_i r h
        exact Nat.le_trans (length_listing_le r) (length_eat?_le h)
      · exact Nat.le_refl _
    · exact length_span?_le s

theorem length_term?_lt {s r : List Char} {t : Term} (h : term? s = some (t, r)) :
    r.length < s.length := by
  unfold term? at h
  split at h
  · rename_i r'
    have h₁ := length_listing_le (trimStart r')
    have h₂ := length_trimStart_le r'
    simp only [Option.some.injEq, Prod.mk.injEq] at h
    rw [← h.2, List.length_cons]
    omega
  · split at h
    · simp at h
    · rename_i name r' hn
      have h₁ := length_name?_lt hn
      have h₂ := length_named_le name r'
      rw [Option.some.injEq] at h
      rw [h] at h₂
      exact Nat.lt_of_le_of_lt h₂ h₁

/-- All terms the text starts with, and what is left. -/
def terms (s : List Char) : List Term × List Char :=
  match _ : term? s with
  | none => ([], s)
  | some (t, r) =>
    let (ts, rest) := terms r
    (t :: ts, rest)
termination_by s.length
decreasing_by
  rename_i h
  exact length_term?_lt h

/-! ### Values -/

/-- The head of a loop, from after its keyword: `(count) source`. -/
def loop (s : List Char) : Value :=
  match eat? ['('] s with
  | none => .fault ⟨"`(`", found s⟩
  | some r =>
    let (count, r) := index r
    .loop count (match eat? [')'] r with
      | none => .error ⟨"`)`", found r⟩
      | some r =>
        match name? r with
        | none => .error ⟨"loop source bus", found r⟩
        | some (source, r) =>
          match leftover? r with
          | some m => .error m
          | none => .ok source)

/-- The head of a selection, from after its keyword: `(selector)`. -/
def select (s : List Char) : Value :=
  match eat? ['('] s with
  | none => .fault ⟨"`(`", found s⟩
  | some r =>
    match name? r with
    | none => .fault ⟨"selector bus", found r⟩
    | some (name, r) =>
      let (span, r) := span? r
      .select ⟨name, span⟩ (match eat? [')'] r with
        | none => some ⟨"`)`", found r⟩
        | some r => leftover? r)

/-- What is assigned: a loop, a selection or a formula. -/
def value (s : List Char) : Value :=
  let (w, r) := word s
  if w = "LOOP" then loop r
  else if w = "SELECT" then select r
  else
    let (ts, rest) := terms s
    .formula ts (leftover? rest)

/-! ### Statements -/

/-- The value after an equals sign. -/
def assigned (s : List Char) : Except Mismatch Value :=
  match eat? ['='] s with
  | none => .error ⟨"`=`", found s⟩
  | some r => .ok (value r)

/-- The rest of a declaration after its slash: a width and nothing more. -/
def declared (s : List Char) (statement : Nat → Statement) : Statement :=
  match number? s with
  | (none, r) => .fault ⟨"bus width", found r⟩
  | (some width, r) =>
    match leftover? r with
    | some m => .fault m
    | none => statement width

/-- A statement that starts with the name of a bus. -/
def plain (s : List Char) : Statement :=
  match name? s with
  | none => .fault ⟨"bus name", found s⟩
  | some (name, r) =>
    match eat? ['/'] r with
    | some r => declared r (.declare name)
    | none =>
      match eat? ['.'] r with
      | none => .assign (.bus name) (assigned r)
      | some r =>
        let (i, r) := index r
        .assign (.slot name i) (assigned r)

/-- A statement after `IN`. -/
def inputStatement (s : List Char) : Statement :=
  match name? s with
  | none => .fault ⟨"bus name", found s⟩
  | some (name, r) =>
    match eat? ['/'] r with
    | some r => declared r (.input name)
    | none => .fault ⟨"`/` and a width", found r⟩

/-- A statement after `OUT`. -/
def outputStatement (s : List Char) : Statement :=
  match name? s with
  | none => .fault ⟨"bus name", found s⟩
  | some (name, r) =>
    match eat? ['/'] r with
    | some r => declared r fun _ => .fault ⟨"`=`", "/"⟩
    | none => .assign (.port name) (assigned r)

/-- What a line says. -/
def statement (s : List Char) : Statement :=
  let (w, r) := word s
  if w = "BLOCK" then
    match leftover? (word r).2 with
    | some m => .fault m
    | none => .block
  else if w = "IN" then inputStatement r
  else if w = "OUT" then outputStatement r
  else plain s

end BusLogic.Script
