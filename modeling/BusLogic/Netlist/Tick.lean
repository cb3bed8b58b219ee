import BusLogic.Netlist.Basic

/-! Simulation: driving gates from outside, stepping the netlist, observing it.

A tick visits every gate once, in order. A gate is wired to gates before it only,
so its inputs have already taken their new values. -/
namespace BusLogic

namespace Gate

/-- The value a gate takes on a tick when its inputs are `a` and `b`, unless it is
undecided. A latch keeps its value when neither input is high. -/
def settled (g : Gate) (a b : Bool) : Bool :=
  match g.opcode with
  | .zero => false
  | .one => true
  | .clock => !g.value
  | .passthrough | .input | .output => g.value
  | .setReset => if a then false else if b then true else g.value
  | .and => a && b
  | .or => a || b
  | .xor => a != b
  | .nand => !(a && b)
  | .nor => !(a || b)
  | .not => !a

/-- A latch told to reset and to set at once. -/
def undecided (g : Gate) (a b : Bool) : Bool := g.opcode == .setReset && a && b

end Gate

namespace Netlist

/-- Observes a gate. A number without a gate reads low. -/
def valueAt (net : Netlist) (gate : Nat) : Bool :=
  match net.gates[gate]? with
  | some g => g.value
  | none => false

/-- Drives a gate. A number without a gate is ignored. -/
def drive (net : Netlist) (gate : Nat) (value : Bool) : Netlist :=
  { net with gates := net.gates.modify gate fun g => { g with value } }

/-- What a pin carries: an absent pin is low. -/
def level (net : Netlist) (pin : Option Nat) : Bool :=
  match pin with
  | some gate => net.valueAt gate
  | none => false

/-- Steps one gate; an undecided latch takes a drawn bit. -/
def tickGate (net : Netlist) (gate : Nat) : Netlist :=
  match net.gates[gate]? with
  | none => net
  | some g =>
    let a := net.level g.in1
    let b := net.level g.in2
    if g.undecided a b then
      let (value, generator) := net.generator.draw
      { net with gates := net.gates.modify gate fun g => { g with value }, generator }
    else
      net.drive gate (g.settled a b)

/-- Steps every gate, in order. -/
def tick (net : Netlist) : Netlist := (List.range net.size).foldl tickGate net

/-- `n` ticks. -/
def ticks : Nat → Netlist → Netlist
  | 0, net => net
  | n + 1, net => ticks n net.tick

/-- Drives the slots of a bus with the bits of a number, slot by slot from the
lowest bit. -/
def writeSlots (net : Netlist) (value : Nat) : List (Option Nat) → Netlist
  | [] => net
  | slot :: rest =>
    let net := match slot with
      | some gate => net.drive gate (value % 2 == 1)
      | none => net
    net.writeSlots (value / 2) rest

/-- Drives a bus with the bits of a number, slot 0 with the lowest. Slots past
the first 64 and unbound slots are left alone. -/
def write (net : Netlist) (bus : Bus) (value : Nat) : Netlist :=
  net.writeSlots value (bus.lowSlots 64)

/-- The number whose bits are the levels of the slots, the first slot lowest. -/
def readSlots (net : Netlist) : List (Option Nat) → Nat
  | [] => 0
  | slot :: rest => (net.level slot).toNat + 2 * net.readSlots rest

/-- The number a bus shows on its first 64 slots; an unbound slot reads low. -/
def readBus (net : Netlist) (bus : Bus) : Nat := net.readSlots (bus.lowSlots 64)

end Netlist

end BusLogic
