import BusLogic.Netlist.Basic
import BusLogic.Script.Line

/-! A script part way through being carried out.

A session holds the lines, how far it has come, the netlist wired so far and what
the names stand for. Constructs of several lines take their bodies from the
cursor on, so the cursor is part of the state. -/
namespace BusLogic.Script

structure Session where
  lines : Array Line
  /-- The next line to take. -/
  cursor : Nat
  netlist : Netlist
  buses : Table Bus
  /-- The pass of the innermost loop, which scripts call `i`. -/
  counter : Option Nat

namespace Session

/-- A session at the start of a script. -/
def start (source : String) (settings : Settings) : Session where
  lines := (linesOf source.toList).toArray
  cursor := 0
  netlist := .empty settings
  buses := ∅
  counter := none

def bus? (s : Session) (name : String) : Option Bus := s.buses[name]?

/-- The only constant is the loop counter. -/
def constant? (s : Session) (name : String) : Option Nat :=
  if name = "i" then s.counter else none

/-! ### Looking things up -/

/-- The bus a name stands for. -/
def lookup (s : Session) (name : String) : Except Error Bus :=
  match s.bus? name with
  | some bus => .ok bus
  | none => .error (.undefinedSymbol name)

def index (s : Session) : Index → Except Error Nat
  | .literal n => .ok n
  | .constant name =>
    match s.constant? name with
    | some n => .ok n
    | none => .error (.undefinedSymbol name)
  | .missing m => .error (.mismatch m)

/-- Fails with a mismatch, if there is one. -/
def checkText : Option Mismatch → Except Error Unit
  | some m => .error (.mismatch m)
  | none => .ok ()

/-- No bus can be wider than the netlist has room for gates. -/
def checkWidth (s : Session) (width : Nat) : Except Error Unit :=
  if s.netlist.capacity < width then .error (.capacityExceeded s.netlist.capacity) else .ok ()

/-- The bus, or part of one, a reference stands for. -/
def ref (s : Session) (r : Ref) : Except Error Bus := do
  let bus ← s.lookup r.name
  match r.span with
  | none => return bus
  | some span =>
    let first ← s.index span.first
    let last ← match span.last with
      | none => pure first
      | some last => s.index last
    bus.slice first last

/-- The parts of a list one after another, behind the bus collected so far. -/
def parts (s : Session) (bus : Bus) : List Ref → Except Error Bus
  | [] => .ok bus
  | r :: rest => do
    let part ← s.ref r
    s.checkWidth (bus.width + part.width)
    s.parts (bus ++ part) rest

def listing (s : Session) (l : Listing) : Except Error Bus := do
  let bus ← s.parts (.explicit []) l.parts
  checkText l.fault
  return bus

/-- The width a constant signal is fanned out to. -/
def extent (s : Session) : Option Extent → Except Error (Option Nat)
  | none => .ok none
  | some e => do
    let width ← s.index e.width
    checkText e.fault
    s.checkWidth width
    return some width

end Session

end BusLogic.Script
