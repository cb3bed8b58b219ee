/-! Gate operations: how many inputs each takes, the keyword that names it in a
script, and its number in the structural digest. -/
namespace BusLogic

/-- What a gate does on a tick. `passthrough`, `input` and `output` hold whatever
was driven onto them; `clock` inverts itself; `setReset` is a latch whose first
input resets and whose second input sets. -/
inductive Opcode where
  | zero | one | clock | passthrough | setReset
  | and | or | xor | nand | nor | not
  | input | output
  deriving DecidableEq, Repr, Inhabited

namespace Opcode

/-- Every operation, in the order of `code`. -/
def all : List Opcode :=
  [.zero, .one, .clock, .passthrough, .setReset, .and, .or, .xor, .nand, .nor, .not, .input, .output]

/-- The number of inputs a gate of this kind is wired to. -/
def arity : Opcode → Nat
  | .zero | .one | .clock | .passthrough | .input | .output => 0
  | .not => 1
  | .setReset | .and | .or | .xor | .nand | .nor => 2

/-- The operator a script word stands for. -/
def ofKeyword? (word : String) : Option Opcode :=
  if word = "AND" then some .and
  else if word = "OR" then some .or
  else if word = "XOR" then some .xor
  else if word = "NAND" then some .nand
  else if word = "NOR" then some .nor
  else if word = "NOT" then some .not
  else if word = "LATCH" then some .setReset
  else none

/-- The source of a constant signal a script word stands for. -/
def ofSourceWord? (word : String) : Option Opcode :=
  if word = "ONE" then some .one
  else if word = "ZERO" then some .zero
  else if word = "CLOCK" then some .clock
  else none

/-- The number that stands for the operation in the structural digest. -/
def code : Opcode → UInt8
  | .zero => 0
  | .one => 1
  | .clock => 2
  | .passthrough => 3
  | .setReset => 4
  | .and => 5
  | .or => 6
  | .xor => 7
  | .nand => 8
  | .nor => 9
  | .not => 10
  | .input => 11
  | .output => 12

/-- The name shown in messages and snapshots. -/
def name : Opcode → String
  | .zero => "Zero"
  | .one => "One"
  | .clock => "Clock"
  | .passthrough => "Passthrough"
  | .setReset => "SetReset"
  | .and => "And"
  | .or => "Or"
  | .xor => "Xor"
  | .nand => "Nand"
  | .nor => "Nor"
  | .not => "Not"
  | .input => "Input"
  | .output => "Output"

theorem code_injective {a b : Opcode} (h : a.code = b.code) : a = b := by
  revert h
  cases a <;> cases b <;> decide

end Opcode

end BusLogic
