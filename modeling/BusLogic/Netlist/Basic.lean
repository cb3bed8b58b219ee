import Std.Data.ExtTreeMap
import BusLogic.Attempt
import BusLogic.Bus
import BusLogic.Random.Generator
import BusLogic.Settings

/-! The netlist: an arena of gates that only grows.

A gate is wired once, to gates that stand before it, and keeps its number for
good. The arena counts as it grows: each gate knows how far it is from the
sources (`depth`) and how many pins read it (`usage`), and the netlist keeps the
greatest of both. -/
namespace BusLogic

/-- One cell of a netlist. -/
structure Gate where
  opcode : Opcode
  in1 : Option Nat
  in2 : Option Nat
  value : Bool
  /-- The length of the longest chain of pins that ends here. -/
  depth : Nat
  /-- The number of pins that read this gate. -/
  usage : Nat
  deriving DecidableEq, Repr, Inhabited

/-- The pins that are wired, first pin first. -/
def Gate.pins (g : Gate) : List Nat := g.in1.toList ++ g.in2.toList

/-- Names and what they stand for, in the order of the names. -/
abbrev Table (α : Type) := Std.ExtTreeMap String α compare

structure Netlist where
  gates : Array Gate
  capacity : Nat
  maxDepth : Nat
  maxUsage : Nat
  /-- The buses shown to the outside, by name. -/
  ports : Table Bus
  generator : Random.Generator

namespace Netlist

/-- A netlist without gates or ports. -/
def empty (settings : Settings) : Netlist where
  gates := #[]
  capacity := settings.capacity
  maxDepth := 0
  maxUsage := 0
  ports := ∅
  generator := .ofSeed settings.seed

instance : Inhabited Netlist := ⟨.empty {}⟩

/-- The number of gates, which is also the number of the next gate. -/
def size (net : Netlist) : Nat := net.gates.size

/-- The depth of a gate; a number without a gate has none. -/
def depthAt (net : Netlist) (gate : Nat) : Nat :=
  match net.gates[gate]? with
  | some g => g.depth
  | none => 0

/-- How often a gate is read; a number without a gate never is. -/
def usageAt (net : Netlist) (gate : Nat) : Nat :=
  match net.gates[gate]? with
  | some g => g.usage
  | none => 0

/-- Why a gate cannot be added, if it cannot: the arena is full, a pin does not
stand before it, or the pins do not suit the operation. A single input goes to
the first pin. -/
def refusal? (net : Netlist) (op : Opcode) (in1 in2 : Option Nat) : Option Error :=
  if net.capacity ≤ net.size then some (.capacityExceeded net.capacity)
  else match (in1.toList ++ in2.toList).find? (net.size ≤ ·) with
    | some pin => some (.invalidPin pin net.size)
    | none =>
      let got := in1.toList.length + in2.toList.length
      if got ≠ op.arity ∨ (op.arity = 1 ∧ in1 = none) then some (.invalidArity op op.arity got)
      else none

/-- Counts one more pin on a gate. -/
def countPin (net : Netlist) (pin : Nat) : Netlist :=
  let usage := net.usageAt pin + 1
  { net with
    gates := net.gates.modify pin fun g => { g with usage }
    maxUsage := max net.maxUsage usage }

/-- The netlist with one more gate, low and unread, wired to the given pins. -/
def push (net : Netlist) (op : Opcode) (in1 in2 : Option Nat) : Netlist :=
  let pins := in1.toList ++ in2.toList
  let depth := pins.foldl (fun d pin => max d (net.depthAt pin + 1)) 0
  let net := pins.foldl countPin net
  { net with
    gates := net.gates.push { opcode := op, in1, in2, value := false, depth, usage := 0 }
    maxDepth := max net.maxDepth depth }

/-- Adds a gate and answers with its number. -/
def allocate (op : Opcode) (in1 in2 : Option Nat) : Attempt Error Netlist Nat := fun net =>
  match net.refusal? op in1 in2 with
  | some e => (.error e, net)
  | none =>
    let next := net.size
    (.ok next, net.push op in1 in2)

/-- Shows a bus to the outside under a name, in place of any bus of that name. -/
def registerPort (net : Netlist) (name : String) (bus : Bus) : Netlist :=
  { net with ports := net.ports.insert name bus }

def port? (net : Netlist) (name : String) : Option Bus := net.ports[name]?

end Netlist

end BusLogic
