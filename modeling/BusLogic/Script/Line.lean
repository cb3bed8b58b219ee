import BusLogic.Script.Reader

/-! The lines of a script that are carried out, and where constructs end. -/
namespace BusLogic.Script

/-- A line that says something, trimmed, with its number in the whole text. -/
structure Line where
  number : Nat
  text : List Char
  deriving DecidableEq, Repr, Inhabited

/-- The lines of a text that are neither blank nor comments. -/
def linesOf (source : List Char) : List Line :=
  let all := (Text.lines source).zipIdx 1 |>.map fun (line, n) => Line.mk n (Text.trim line)
  all.filter fun line => !line.text.isEmpty && line.text.head? != some '#'

namespace Line

/-- `END`, with or without a label. -/
def isEnd (line : Line) : Bool :=
  let (w, r) := word line.text
  w == "END" && (word r).2.isEmpty

/-- Whether a text starts a loop or a selection. -/
def startsConstruct (s : List Char) : Bool :=
  let (w, r) := word (Text.trimStart s)
  (w == "LOOP" || w == "SELECT") && r.head? == some '('

/-- The text after the first equals sign, or all of it if there is none. -/
def afterEquals (s : List Char) : List Char :=
  match s.dropWhile (· != '=') with
  | [] => s
  | _ :: rest => rest

/-- Whether the line starts a construct that its own `END` closes. -/
def opens (line : Line) : Bool :=
  (word line.text).1 == "BLOCK" || startsConstruct (afterEquals line.text)

end Line

/-- The number of lines before the `END` that closes a construct whose body starts
here, with `depth` constructs open inside it. -/
def bodyLength? (depth : Nat) : List Line → Option Nat
  | [] => none
  | line :: rest =>
    if line.isEnd then
      match depth with
      | 0 => some 0
      | depth + 1 => (bodyLength? depth rest).map (· + 1)
    else if line.opens then (bodyLength? (depth + 1) rest).map (· + 1)
    else (bodyLength? depth rest).map (· + 1)

end BusLogic.Script
