import BusLogic.Json.Basic
import BusLogic.Text.Numeral

/-! Reading JSON: the text is cut into tokens, and the tokens drive a machine with
a stack of unfinished arrays and objects. -/
namespace BusLogic.Json
open Text

/-! ### Tokens -/

inductive Token where
  | openArray | closeArray | openObject | closeObject | comma | colon
  /-- A value without parts that is not a string. -/
  | scalar (value : Json)
  | string (text : List Char)

def isSpace (c : Char) : Bool := c == ' ' || c == '\n' || c == '\t' || c == '\r'

/-- The digits a text starts with, of which there must be one. -/
def digits? (s : List Char) : Option (List Char × List Char) :=
  match s.takeWhile isDigit with
  | [] => none
  | digits => some (digits, s.dropWhile isDigit)

/-- The whole part of a number: a zero alone, or digits that start with none. -/
def whole? : List Char → Option (List Char × List Char)
  | '0' :: r => some (['0'], r)
  | s => digits? s

/-- The fraction of a number, which may be absent. -/
def fraction? : List Char → Option (List Char × List Char)
  | '.' :: r => (digits? r).map fun (digits, r) => ('.' :: digits, r)
  | s => some ([], s)

/-- The exponent of a number, which may be absent. -/
def exponent? (s : List Char) : Option (List Char × List Char) :=
  match s with
  | e :: r =>
    if e = 'e' ∨ e = 'E' then
      match r with
      | '+' :: r => (digits? r).map fun (digits, r) => (e :: '+' :: digits, r)
      | '-' :: r => (digits? r).map fun (digits, r) => (e :: '-' :: digits, r)
      | r => (digits? r).map fun (digits, r) => (e :: digits, r)
    else some ([], s)
  | [] => some ([], s)

/-- A number without its sign. -/
def unsigned? (s : List Char) : Option (List Char × List Char) := do
  let (whole, r) ← whole? s
  let (fraction, r) ← fraction? r
  let (exponent, r) ← exponent? r
  return (whole ++ fraction ++ exponent, r)

/-- The text of a string up to its closing quote. Control characters must be
escaped, and escapes must be known. -/
def quoted? : List Char → Option (List Char × List Char)
  | [] => none
  | '"' :: r => some ([], r)
  | '\\' :: 'u' :: a :: b :: c :: d :: r =>
    if (hexCode? a b c d).isSome then
      (quoted? r).map fun (text, r) => ('\\' :: 'u' :: a :: b :: c :: d :: text, r)
    else none
  | '\\' :: c :: r =>
    if (escapeLetter? c).isSome then (quoted? r).map fun (text, r) => ('\\' :: c :: text, r)
    else none
  | c :: r =>
    if c.toNat < 0x20 ∨ c = '\\' then none
    else (quoted? r).map fun (text, r) => (c :: text, r)

/-- The token that starts with `c`. -/
def token? (c : Char) (r : List Char) : Option (Token × List Char) :=
  match c, r with
  | '[', r => some (.openArray, r)
  | ']', r => some (.closeArray, r)
  | '{', r => some (.openObject, r)
  | '}', r => some (.closeObject, r)
  | ',', r => some (.comma, r)
  | ':', r => some (.colon, r)
  | '"', r => (quoted? r).map fun (text, r) => (.string text, r)
  | 'n', 'u' :: 'l' :: 'l' :: r => some (.scalar .null, r)
  | 't', 'r' :: 'u' :: 'e' :: r => some (.scalar (.bool true), r)
  | 'f', 'a' :: 'l' :: 's' :: 'e' :: r => some (.scalar (.bool false), r)
  | '-', r => (unsigned? r).map fun (text, r) => (.scalar (.number ('-' :: text)), r)
  | c, r => (unsigned? (c :: r)).map fun (text, r) => (.scalar (.number text), r)

/-- All tokens of a text, with at most `budget` characters looked at; the length of
the text is enough. -/
def tokens? : (budget : Nat) → List Char → Option (List Token)
  | _, [] => some []
  | 0, _ :: _ => none
  | budget + 1, c :: r =>
    if isSpace c then tokens? budget r
    else do
      let (t, r) ← token? c r
      return t :: (← tokens? budget r)

/-! ### Values -/

/-- An array or object waiting for one of its values, the latest part first. -/
inductive Frame where
  | array (before : List Json)
  | object (before : List (List Char × Json)) (key : List Char)

/-- What may come next. -/
inductive Expectation where
  | value
  /-- The first element of an array, or its end. -/
  | element
  /-- The first key of an object, or its end. -/
  | member
  | key (before : List (List Char × Json))
  | colon (before : List (List Char × Json)) (key : List Char)
  /-- A value is complete. -/
  | after (value : Json)

/-- The machine: what may come next, and what is unfinished around it. -/
abbrev Machine := Expectation × List Frame

/-- Takes a token where a value is due. -/
def takeValue (stack : List Frame) : Token → Option Machine
  | .scalar v => some (.after v, stack)
  | .string text => some (.after (.string text), stack)
  | .openArray => some (.element, stack)
  | .openObject => some (.member, stack)
  | _ => none

/-- Takes a token after a complete value. -/
def takeAfter (v : Json) : List Frame → Token → Option Machine
  | .array before :: stack, .comma => some (.value, .array (v :: before) :: stack)
  | .array before :: stack, .closeArray => some (.after (.array (v :: before).reverse), stack)
  | .object before key :: stack, .comma => some (.key ((key, v) :: before), stack)
  | .object before key :: stack, .closeObject =>
    some (.after (.object ((key, v) :: before).reverse), stack)
  | _, _ => none

def step : Machine → Token → Option Machine
  | (.value, stack), t => takeValue stack t
  | (.element, stack), .closeArray => some (.after (.array []), stack)
  | (.element, stack), t => takeValue (.array [] :: stack) t
  | (.member, stack), .closeObject => some (.after (.object []), stack)
  | (.member, stack), .string key => some (.colon [] key, stack)
  | (.member, _), _ => none
  | (.key before, stack), .string key => some (.colon before key, stack)
  | (.key _, _), _ => none
  | (.colon before key, stack), .colon => some (.value, .object before key :: stack)
  | (.colon _ _, _), _ => none
  | (.after v, stack), t => takeAfter v stack t

/-- The value a text is, with nothing but white space around it. -/
def parse? (s : List Char) : Option Json := do
  let tokens ← tokens? s.length s
  match ← tokens.foldlM step (.value, []) with
  | (.after v, []) => return v
  | _ => none

/-- The count a value stands for: a number of 64 bits written with digits alone. -/
def count? : Json → Option Nat
  | .number text => (readDigits 10 0 text).toOption
  | _ => none

end BusLogic.Json
