/-! JSON values, kept as they are written.

A number keeps its digits and a string its escapes, so reading a document decides
nothing about what its numbers and strings mean; whoever asks for a meaning
decides that (`Json.count?`, `Json.decode?`). -/
namespace BusLogic

inductive Json where
  | null
  | bool (b : Bool)
  /-- A number by its text. -/
  | number (text : List Char)
  /-- A string by the text between its quotes. -/
  | string (text : List Char)
  | array (elements : List Json)
  /-- Members in the order written, keys by the text between their quotes. -/
  | object (members : List (List Char × Json))
  deriving Repr, Inhabited

namespace Json

/-! ### Strings -/

/-- A character as four hexadecimal digits after `\u`. -/
def escapeCode (c : Char) : List Char :=
  let n := c.toNat
  ['\\', 'u', Nat.digitChar (n / 4096 % 16), Nat.digitChar (n / 256 % 16),
    Nat.digitChar (n / 16 % 16), Nat.digitChar (n % 16)]

/-- How a character is written in a string: quotes, backslashes and control
characters are escaped, by a letter where there is one. -/
def escapeChar (c : Char) : List Char :=
  if c = '"' then ['\\', '"']
  else if c = '\\' then ['\\', '\\']
  else if c = '\n' then ['\\', 'n']
  else if c = '\r' then ['\\', 'r']
  else if c = '\t' then ['\\', 't']
  else if c = '\x08' then ['\\', 'b']
  else if c = '\x0c' then ['\\', 'f']
  else if c.toNat < 0x20 then escapeCode c
  else [c]

def ofString (s : String) : Json := .string (s.toList.flatMap escapeChar)

def ofNat (n : Nat) : Json := .number (toString n).toList

def ofOption (f : α → Json) : Option α → Json
  | some a => f a
  | none => .null

/-- An object from its fields, in order. -/
def ofFields (fields : List (String × Json)) : Json :=
  .object (fields.map fun (key, value) => (key.toList.flatMap escapeChar, value))

def hexDigit? (c : Char) : Option Nat :=
  if '0' ≤ c ∧ c ≤ '9' then some (c.toNat - '0'.toNat)
  else if 'a' ≤ c ∧ c ≤ 'f' then some (c.toNat - 'a'.toNat + 10)
  else if 'A' ≤ c ∧ c ≤ 'F' then some (c.toNat - 'A'.toNat + 10)
  else none

/-- The number written by four hexadecimal digits. -/
def hexCode? (a b c d : Char) : Option Nat := do
  return 4096 * (← hexDigit? a) + 256 * (← hexDigit? b) + 16 * (← hexDigit? c) + (← hexDigit? d)

/-- The character an escape letter stands for. -/
def escapeLetter? (c : Char) : Option Char :=
  match c with
  | '"' => some '"'
  | '\\' => some '\\'
  | '/' => some '/'
  | 'b' => some '\x08'
  | 'f' => some '\x0c'
  | 'n' => some '\n'
  | 'r' => some '\r'
  | 't' => some '\t'
  | _ => none

/-- The characters a written string stands for. Codes outside the basic plane are
written as two halves; half of one alone stands for nothing. -/
def decode? : List Char → Option (List Char)
  | [] => some []
  | '\\' :: 'u' :: a :: b :: c :: d :: '\\' :: 'u' :: e :: f :: g :: h :: rest => do
    let high ← hexCode? a b c d
    if 0xd800 ≤ high ∧ high < 0xdc00 then
      let low ← hexCode? e f g h
      if 0xdc00 ≤ low ∧ low < 0xe000 then
        return Char.ofNat (0x10000 + (high - 0xd800) * 0x400 + (low - 0xdc00)) :: (← decode? rest)
      else none
    else if 0xdc00 ≤ high ∧ high < 0xe000 then none
    else return Char.ofNat high :: (← decode? ('\\' :: 'u' :: e :: f :: g :: h :: rest))
  | '\\' :: 'u' :: a :: b :: c :: d :: rest => do
    let code ← hexCode? a b c d
    if 0xd800 ≤ code ∧ code < 0xe000 then none else return Char.ofNat code :: (← decode? rest)
  | '\\' :: c :: rest => do return (← escapeLetter? c) :: (← decode? rest)
  | c :: rest => do return c :: (← decode? rest)

/-! ### Printing -/

/-- `n` blanks. -/
def blanks (n : Nat) : String := String.ofList (List.replicate n ' ')

mutual

/-- The text of a value whose lines after the first are indented by `indent`: two
blanks a level, one element or member to a line. -/
def pretty (indent : Nat) : Json → String
  | .null => "null"
  | .bool true => "true"
  | .bool false => "false"
  | .number text => String.ofList text
  | .string text => "\"" ++ String.ofList text ++ "\""
  | .array [] => "[]"
  | .array (e :: es) =>
    "[\n" ++ String.intercalate ",\n" (prettyElements (indent + 2) (e :: es)) ++ "\n" ++ blanks indent ++ "]"
  | .object [] => "\x7b\x7d"
  | .object (m :: ms) =>
    "\x7b\n" ++ String.intercalate ",\n" (prettyMembers (indent + 2) (m :: ms)) ++ "\n" ++ blanks indent ++ "\x7d"

def prettyElements (indent : Nat) : List Json → List String
  | [] => []
  | e :: es => (blanks indent ++ pretty indent e) :: prettyElements indent es

def prettyMembers (indent : Nat) : List (List Char × Json) → List String
  | [] => []
  | (key, value) :: ms =>
    (blanks indent ++ "\"" ++ String.ofList key ++ "\": " ++ pretty indent value) :: prettyMembers indent ms

end

end Json

end BusLogic
