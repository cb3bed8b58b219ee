import BusLogic.Json.Basic
import BusLogic.Netlist.Snapshot

/-! The JSON form of a netlist. -/
namespace BusLogic

def Bus.toJson : Bus → Json
  | .contiguous start width =>
    .ofFields [("Range", .ofFields [("start", .ofNat start), ("len", .ofNat width)])]
  | .explicit slots => .ofFields [("Slots", .array (slots.map (.ofOption .ofNat)))]

def Gate.toJson (g : Gate) : Json :=
  .ofFields [("in1", .ofOption .ofNat g.in1), ("in2", .ofOption .ofNat g.in2),
    ("opcode", .ofString g.opcode.name), ("value", .bool g.value), ("depth", .ofNat g.depth),
    ("usage", .ofNat g.usage)]

def Stats.toJson (st : Stats) : Json :=
  .ofFields [("gates", .ofNat st.gates), ("capacity", .ofNat st.capacity),
    ("max_depth", .ofNat st.maxDepth), ("max_usage", .ofNat st.maxUsage)]

/-- The netlist's digest, statistics, ports in the order of their names, and gates. -/
def Netlist.toJson (net : Netlist) : Json :=
  .ofFields [("hash", .ofString net.hash), ("stats", net.stats.toJson),
    ("ports", .ofFields (net.ports.toList.map fun (name, bus) => (name, bus.toJson))),
    ("gates", .array (net.gates.toList.map Gate.toJson))]

end BusLogic
