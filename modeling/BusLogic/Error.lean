import BusLogic.Opcode
import BusLogic.Expression.Category

/-! Why a circuit could not be wired, and the words for it.

`Error` names the cause. `Failure` adds the script line on which the cause arose,
where there is one; the line nearest to the cause is the one that is kept. -/
namespace BusLogic

/-- The ways an expression can be no expression at all. -/
inductive Malformed where
  /-- No token arrived before the end. -/
  | empty
  /-- An operator must take one operand or two. -/
  | operatorArity (operands : Nat)
  | missingOperands (needed available : Nat)
  | leftover (operands : Nat)
  /-- An operator stands where its result was needed. -/
  | unresolved (op : Opcode)
  | operandWithChildren
  | operandCount (op : Opcode) (operands : Nat)
  | zeroWidth (name : String)
  | noBranches
  deriving DecidableEq, Repr

/-- Something was expected in the text of a line and something else was found. -/
structure Mismatch where
  expected : String
  found : String
  deriving DecidableEq, Repr

inductive Error where
  | capacityExceeded (capacity : Nat)
  /-- A gate may only be wired to gates before it. -/
  | invalidPin (pin next : Nat)
  | invalidArity (op : Opcode) (expected got : Nat)
  | indexOutOfRange (index width : Nat)
  | alreadyBound (slot : Nat)
  | unboundSlot (slot : Nat)
  | widthMismatch (left right : Nat)
  | malformed (reason : Malformed)
  | unexpectedToken (last next : Expression.Category)
  | undefinedSymbol (name : String)
  | branchCount (selector expected got : Nat)
  | mismatch (m : Mismatch)
  | unexpectedEnd
  deriving DecidableEq, Repr

def Malformed.message : Malformed → String
  | .empty => "empty expression"
  | .operatorArity n => s!"operator with {n} operands"
  | .missingOperands n k => s!"operator needs {n} operands, {k} available"
  | .leftover n => s!"{n} operands left after reduction"
  | .unresolved op => s!"unresolved operator {op.name}"
  | .operandWithChildren => "operand has no children"
  | .operandCount op n => s!"{op.name} got {n} operands"
  | .zeroWidth name => s!"`{name}` has zero width"
  | .noBranches => "SELECT without branches"

def Error.message : Error → String
  | .capacityExceeded capacity => s!"netlist capacity exceeded ({capacity} gates)"
  | .invalidPin pin next => s!"invalid pin reference g{pin}: next free gate is g{next}"
  | .invalidArity op expected got => s!"{op.name} takes {expected} input(s), got {got}"
  | .indexOutOfRange index width => s!"index {index} out of range for bus of width {width}"
  | .alreadyBound slot => s!"bus slot {slot} is already bound"
  | .unboundSlot slot => s!"bus slot {slot} is unbound"
  | .widthMismatch left right => s!"bus width mismatch: {left} vs {right}"
  | .malformed reason => s!"malformed expression: {reason.message}"
  | .unexpectedToken last next =>
    s!"unexpected token sequence: {last.name} followed by {next.name}"
  | .undefinedSymbol name => s!"undefined symbol `{name}`"
  | .branchCount selector expected got =>
    s!"SELECT on a {selector}-bit selector needs {expected} branches, got {got}"
  | .mismatch m => s!"expected {m.expected}, found `{m.found}`"
  | .unexpectedEnd => "unexpected end of input"

/-- A cause, with the script line on which it arose if that is known. -/
structure Failure where
  cause : Error
  line : Option Nat
  deriving DecidableEq, Repr

namespace Failure

/-- A cause that has not been placed on a line yet. -/
def of (cause : Error) : Failure := ⟨cause, none⟩

/-- Places a failure on line `n`, unless a line nearer to the cause already has. -/
def atLine (n : Nat) (f : Failure) : Failure :=
  match f.line with
  | some _ => f
  | none => { f with line := some n }

def message (f : Failure) : String :=
  match f.line with
  | some n => s!"line {n}: {f.cause.message}"
  | none => f.cause.message

@[simp] theorem atLine_of (n : Nat) (cause : Error) : (of cause).atLine n = ⟨cause, some n⟩ := rfl

@[simp] theorem atLine_cause (n : Nat) (f : Failure) : (f.atLine n).cause = f.cause := by
  cases f with
  | mk cause line => cases line <;> rfl

end Failure

end BusLogic
