import BusLogic.Attempt
import BusLogic.Error

/-! A compiler for infix expressions over any kind of node.

Operands and operators arrive in the order of the text. When a binary operator
arrives, waiting operators of no higher priority are reduced first, so operators
of one priority associate to the left. What reducing means is up to the nodes. -/
namespace BusLogic

/-- What the compiler asks of a node, with `σ` the state in which operators are
resolved. -/
class Node (ν : Type) (σ : outParam Type) where
  /-- 0 for an operand, 1 for a prefix operator, 2 for a binary operator. -/
  arity : ν → Nat
  /-- Lower numbers are reduced first. -/
  priority : ν → Nat
  /-- The operand an operator becomes once its children stand before it, left to
  right. -/
  resolve : ν → List ν → Attempt Error σ ν

/-- An expression part way through. The most recent operand and operator come
first. -/
structure Expression (ν : Type) where
  operands : List ν
  operators : List ν
  last : Expression.Category

namespace Expression

variable {ν σ : Type}

def empty : Expression ν := ⟨[], [], .start⟩

/-- A step of compilation works on the expression and on the nodes' own state, and
keeps both when it fails. -/
abbrev Step (ν σ : Type) := Attempt Error (Expression ν × σ)

/-- Runs a computation on the nodes' state. -/
def onNodes (x : Attempt Error σ α) : Step ν σ α := fun (e, s) =>
  let (r, s) := x.outcome s
  (r, (e, s))

/-- Moves to the next category, if it may follow the last. -/
def accept (next : Category) : Step ν σ Unit := fun (e, s) =>
  if e.last.accepts next then (.ok (), ({ e with last := next }, s))
  else (.error (.unexpectedToken e.last next), (e, s))

def pushOperand (node : ν) : Step ν σ Unit :=
  modify fun (e, s) => ({ e with operands := node :: e.operands }, s)

def pushOperator (node : ν) : Step ν σ Unit :=
  modify fun (e, s) => ({ e with operators := node :: e.operators }, s)

/-- Takes the next operand. -/
def addOperand (node : ν) : Step ν σ Unit := do
  accept .operand
  pushOperand node

variable [Node ν σ]

/-- Reduces `node`, which has just left the stack of operators, with the topmost
operands as its children. -/
def reduce (node : ν) : Step ν σ Unit := do
  let n := Node.arity node
  let operands := (← get).1.operands
  if n = 0 ∨ operands.length < n then
    throw (.malformed (.missingOperands n operands.length))
  modify fun (e, s) => ({ e with operands := operands.drop n }, s)
  let result ← onNodes (Node.resolve node (operands.take n).reverse)
  pushOperand result

/-- Reduces the topmost operators as long as `p` holds of them. `waiting` is the
stack of operators. -/
def reduceWhile (p : ν → Bool) : (waiting : List ν) → Step ν σ Unit
  | [] => pure ()
  | top :: rest =>
    if p top then do
      modify fun (e, s) => ({ e with operators := rest }, s)
      reduce top
      reduceWhile p rest
    else pure ()

/-- Takes the next operator, reducing first what binds no weaker. A prefix
operator's operand has not arrived yet, so before it nothing can be reduced. -/
def addOperator (node : ν) : Step ν σ Unit :=
  match Node.arity node with
  | 1 => do
    accept .unary
    pushOperator node
  | 2 => do
    accept .binary
    reduceWhile (fun top => Node.priority top ≤ Node.priority node) (← get).1.operators
    pushOperator node
  | n => throw (.malformed (.operatorArity n))

/-- Ends the expression and reduces it to the one node that is left. -/
def compile : Step ν σ ν := do
  if (← get).1.last = .start then
    throw (.malformed .empty)
  accept .finish
  reduceWhile (fun _ => true) (← get).1.operators
  match (← get).1.operands with
  | [node] => return node
  | operands => throw (.malformed (.leftover operands.length))

end Expression

end BusLogic
