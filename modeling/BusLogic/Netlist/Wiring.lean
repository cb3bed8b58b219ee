import BusLogic.Netlist.Basic

/-! Wiring whole buses: elementwise operations, two-way multiplexers and balanced
reductions. Each operation is a sequence of allocations; one that fails leaves
the gates it has added. -/
namespace BusLogic

/-- A way to combine a nonempty row of items two at a time. -/
inductive Tree (α : Type) where
  | leaf (a : α)
  | node (left right : Tree α)
  deriving DecidableEq, Repr

namespace Tree

/-- The tree over a nonempty row that halves it again and again, the left half
taking the odd item. -/
def balanced (a : α) (rest : List α) : Tree α :=
  if h : rest.length = 0 then .leaf a
  else
    let half := rest.length / 2
    .node (balanced a (rest.take half)) (balanced (rest[half]) (rest.drop (half + 1)))
termination_by rest.length

/-- The value of the tree under an operation of two arguments. -/
def fold (f : α → α → α) : Tree α → α
  | .leaf a => a
  | .node left right => f (left.fold f) (right.fold f)

def toList : Tree α → List α
  | .leaf a => [a]
  | .node left right => left.toList ++ right.toList

end Tree

namespace Netlist

/-- Adds a gate for each pair of pins, in order. -/
def allocateAll (op : Opcode) : List (Option Nat × Option Nat) → Attempt Error Netlist Unit
  | [] => pure ()
  | (in1, in2) :: rest => do
    let _ ← allocate op in1 in2
    allocateAll op rest

/-- One gate per bit. -/
def applyUnary (op : Opcode) (a : Bus) : Attempt Error Netlist Bus := do
  let pins ← Attempt.ofExcept a.gates
  let start := (← get).size
  allocateAll op (pins.map fun x => (some x, none))
  return .contiguous start a.width

/-- The pairs of bits an elementwise operation works on: position by position, or
a single bit against every bit of the other bus. -/
def pairs : List Nat → List Nat → Except Error (List (Nat × Nat))
  | xs, ys =>
    if xs.length = ys.length then .ok (xs.zip ys)
    else match xs, ys with
      | [x], ys => .ok (ys.map fun y => (x, y))
      | xs, [y] => .ok (xs.map fun x => (x, y))
      | xs, ys => .error (.widthMismatch xs.length ys.length)

/-- One gate per pair of bits. -/
def applyBinary (op : Opcode) (a b : Bus) : Attempt Error Netlist Bus := do
  let xs ← Attempt.ofExcept a.gates
  let ys ← Attempt.ofExcept b.gates
  let pins ← Attempt.ofExcept (pairs xs ys)
  let start := (← get).size
  allocateAll op (pins.map fun (x, y) => (some x, some y))
  return .contiguous start pins.length

/-- A two-way multiplexer: `a` while the selector is low, `b` while it is high. -/
def select (selector : Nat) (a b : Bus) : Attempt Error Netlist Bus := do
  if a.width ≠ b.width then
    throw (.widthMismatch a.width b.width)
  let inverted ← allocate .not (some selector) none
  let low ← applyBinary .and a (.single inverted)
  let high ← applyBinary .and b (.single selector)
  applyBinary .or low high

/-- A gate for each node of a tree over gates, children before their parent, left
before right. -/
def allocateTree (op : Opcode) : Tree Nat → Attempt Error Netlist Nat
  | .leaf gate => pure gate
  | .node left right => do
    let l ← allocateTree op left
    let r ← allocateTree op right
    allocate op (some l) (some r)

/-- Combines all bits of a bus into one by a balanced tree of gates. -/
def reduce (op : Opcode) (a : Bus) : Attempt Error Netlist Nat := do
  if op.arity ≠ 2 then
    throw (.invalidArity op op.arity 2)
  match ← Attempt.ofExcept a.gates with
  | [] => throw (.indexOutOfRange 0 0)
  | gate :: rest => allocateTree op (.balanced gate rest)

/-- Adds `n` gates to be driven from outside. -/
def allocateInputs : Nat → Attempt Error Netlist Unit
  | 0 => pure ()
  | n + 1 => do
    let _ ← allocate .passthrough none none
    allocateInputs n

/-- Adds `width` gates to be driven from outside and shows them as a port. -/
def addInput (name : String) (width : Nat) : Attempt Error Netlist Bus := do
  let start := (← get).size
  allocateInputs width
  let bus := Bus.contiguous start width
  modify fun net => net.registerPort name bus
  return bus

/-! ### Multiplexers of many branches -/

/-- Halves a row of branches: neighbours are joined by a two-way multiplexer, or
stand for themselves where they are the same bus. -/
def multiplexLevel (selector : Nat) : List Bus → Attempt Error Netlist (List Bus)
  | a :: b :: rest => do
    let joined ← if a.coincides b then pure a else select selector a b
    let more ← multiplexLevel selector rest
    return joined :: more
  | rest => pure rest

/-- One level for each slot of the selector, the lowest slot nearest to the
branches. `index` is the number of the first slot. -/
def multiplexLevels (index : Nat) : List (Option Nat) → List Bus → Attempt Error Netlist (List Bus)
  | [], branches => pure branches
  | none :: _, _ => throw (.unboundSlot index)
  | some gate :: slots, branches => do
    let halved ← multiplexLevel gate branches
    multiplexLevels (index + 1) slots halved

/-- The number of branches a selector tells apart, for widths from one up to the
64 bits of a count. -/
def branches? (width : Nat) : Option Nat :=
  if 0 < width ∧ width < 64 then some (1 <<< width) else none

/-- The branch whose number is the value of the selector. -/
def multiplex (selector : Bus) (branches : List Bus) : Attempt Error Netlist Bus := do
  if branches? selector.width ≠ some branches.length then
    throw (.branchCount selector.width ((branches? selector.width).getD 0) branches.length)
  match ← multiplexLevels 0 selector.slots branches with
  | [out] => return out
  | _ => throw (.malformed .noBranches)

end Netlist

end BusLogic
