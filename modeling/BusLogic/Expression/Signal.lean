import BusLogic.Expression.Basic
import BusLogic.Netlist.Wiring

/-! Expressions over buses: reducing an operator wires its gates. -/
namespace BusLogic

/-- A node of a bus expression. -/
inductive Signal where
  /-- An operator whose gates are still to be wired. -/
  | operator (op : Opcode)
  /-- A bus that is wired already. -/
  | bus (b : Bus)
  deriving DecidableEq, Repr

namespace Signal

/-- The bus behind a node. -/
def toBus : Signal → Except Error Bus
  | .bus b => .ok b
  | .operator op => .error (.malformed (.unresolved op))

def arity : Signal → Nat
  | .bus _ => 0
  | .operator op => op.arity

/-- The buses behind a list of nodes. -/
def toBuses : List Signal → Except Error (List Bus)
  | [] => .ok []
  | node :: rest => do
    let b ← node.toBus
    let bs ← toBuses rest
    return b :: bs

/-- Wires an operator to its children: bit by bit to one, pair by pair to two. -/
def resolve (node : Signal) (children : List Signal) : Attempt Error Netlist Signal := do
  match node with
  | .bus _ => throw (.malformed .operandWithChildren)
  | .operator op =>
    match ← Attempt.ofExcept (toBuses children) with
    | [a] => .bus <$> Netlist.applyUnary op a
    | [a, b] => .bus <$> Netlist.applyBinary op a b
    | buses => throw (.malformed (.operandCount op buses.length))

/-- Operators that take fewer operands are reduced first. -/
instance : Node Signal Netlist where
  arity := arity
  priority := arity
  resolve := resolve

end Signal

end BusLogic
