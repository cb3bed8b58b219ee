import BusLogic.Error

/-! What the lines of a script say.

A line is read without looking at the session, so it may name buses and constants
that do not exist; those are looked up when the line is executed. Where the text
of a line breaks off its statement, the mismatch is kept at that very place: all
that stands before it is still carried out, and may fail first. -/
namespace BusLogic.Script

/-- A number, written out or through a constant. -/
inductive Index where
  | literal (value : Nat)
  | constant (name : String)
  /-- There is no number here. -/
  | missing (m : Mismatch)
  deriving DecidableEq, Repr

/-- One slot of a bus, or the slots from one to another. -/
structure Span where
  first : Index
  last : Option Index
  deriving DecidableEq, Repr

/-- A bus by name, whole or in part. -/
structure Ref where
  name : String
  span : Option Span
  deriving DecidableEq, Repr

/-- References between brackets, and what is wrong after the last of them. -/
structure Listing where
  parts : List Ref
  fault : Option Mismatch
  deriving DecidableEq, Repr

/-- A width between parentheses, and what stands in place of the closing one. -/
structure Extent where
  width : Index
  fault : Option Mismatch
  deriving DecidableEq, Repr

/-- What stands for a bus in a formula. -/
inductive Operand where
  | ref (r : Ref)
  | list (l : Listing)
  /-- A constant signal, one bit wide or fanned out to a width. -/
  | source (op : Opcode) (width : Option Extent)
  /-- All the bits of a list combined into one. -/
  | reduction (op : Opcode) (l : Listing)
  deriving DecidableEq, Repr

inductive Term where
  | operand (o : Operand)
  | operator (op : Opcode)
  deriving DecidableEq, Repr

/-- What is assigned. -/
inductive Value where
  | fault (m : Mismatch)
  /-- The lines up to the matching `END`, carried out `count` times. -/
  | loop (count : Index) (source : Except Mismatch String)
  /-- The lines up to `END`, one of which the selector chooses. -/
  | select (selector : Ref) (fault : Option Mismatch)
  | formula (terms : List Term) (fault : Option Mismatch)

/-- What is assigned to. -/
inductive Target where
  | bus (name : String)
  /-- A bus that is also shown as a port. -/
  | port (name : String)
  | slot (name : String) (index : Index)
  deriving DecidableEq, Repr

def Target.name : Target → String
  | .bus name | .port name | .slot name _ => name

inductive Statement where
  | fault (m : Mismatch)
  /-- The lines up to `END`, carried out once. -/
  | block
  /-- A bus whose slots will be bound one by one. -/
  | declare (name : String) (width : Nat)
  | input (name : String) (width : Nat)
  | assign (target : Target) (value : Except Mismatch Value)

end BusLogic.Script
