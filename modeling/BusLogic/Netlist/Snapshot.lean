import BusLogic.Netlist.Tick
import BusLogic.Digest.Tree
import BusLogic.Text.Column

/-! What a netlist shows of itself: texts of its ports and gates, its statistics,
and a digest of its structure. -/
namespace BusLogic

structure Stats where
  gates : Nat
  capacity : Nat
  maxDepth : Nat
  maxUsage : Nat
  deriving DecidableEq, Repr

namespace Netlist

def stats (net : Netlist) : Stats := ⟨net.size, net.capacity, net.maxDepth, net.maxUsage⟩

/-! ### Texts -/

/-- A slot in a port's text. -/
def slotChar (net : Netlist) : Option Nat → Char
  | some gate => if net.valueAt gate then '1' else '0'
  | none => '?'

/-- The slots of a port, the highest first. -/
def portBits (net : Netlist) (bus : Bus) : List Char := (bus.slots.map net.slotChar).reverse

/-- A line for each port in the order of the names: name, colon, bits. -/
def dumpPorts (net : Netlist) : String :=
  String.join (net.ports.toList.map fun (name, bus) =>
    name ++ ": " ++ String.ofList (net.portBits bus) ++ "\n")

/-- The text of the gates from number `index` on: every 32nd opens a row with its
number, and the one before ends the row. -/
def gateCells (index : Nat) : List Gate → List String
  | [] => []
  | g :: rest =>
    let label := if index % 32 = 0 then Text.inColumn 5 index ++ "   " else ""
    let cell := if g.value then "1 " else "0 "
    let close := if (index + 1) % 32 = 0 then "\n" else ""
    (label ++ cell ++ close) :: gateCells (index + 1) rest

/-- The values of all gates, 32 to a row, and a newline after the last row whether
or not it is full. -/
def dumpGates (net : Netlist) : String := String.join (gateCells 0 net.gates.toList) ++ "\n"

/-! ### Digest -/

/-- The lowest `n` bytes of a number, lowest first. -/
def littleEndian : Nat → Nat → List UInt8
  | 0, _ => []
  | n + 1, value => value.toUInt8 :: littleEndian n (value / 256)

/-- A pin in eight bytes; an absent pin is the greatest number they hold. -/
def pinBytes (pin : Option Nat) : List UInt8 := littleEndian 8 (pin.getD (UInt64.size - 1))

/-- The part of a gate that is structure: what it does and what it is wired to. -/
def gateBytes (g : Gate) : List UInt8 := g.opcode.code :: (pinBytes g.in1 ++ pinBytes g.in2)

/-- The structure of a netlist as bytes, under a heading that names the format. -/
def encoding (net : Netlist) : List UInt8 :=
  "netlist/v0".toUTF8.toList ++ net.gates.toList.flatMap gateBytes

/-- The identity of a netlist's structure: gates and wiring, not values. -/
def hash (net : Netlist) : String := Digest.hexDigest net.encoding

end Netlist

end BusLogic
