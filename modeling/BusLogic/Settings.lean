import BusLogic.Json.Reader

/-! What a session is started with, and its JSON form. -/
namespace BusLogic

structure Settings where
  /-- The most gates the netlist may hold. -/
  capacity : Nat := 5000
  /-- The seed of the bits an undecided latch draws. -/
  seed : UInt64 := 0
  deriving DecidableEq, Repr, Inhabited

namespace Settings

/-- Settings part way through an object. A key counts once. -/
structure Partial where
  capacity : Option Nat := none
  seed : Option Nat := none

/-- Takes a member of an object. Unknown keys are passed over, whatever their
values; a known key must be new and have a count. -/
def Partial.take (p : Partial) (member : List Char × Json) : Option Partial := do
  let key := String.ofList (← Json.decode? member.1)
  if key = "capacity" then
    if p.capacity.isSome then none else return { p with capacity := some (← member.2.count?) }
  else if key = "seed" then
    if p.seed.isSome then none else return { p with seed := some (← member.2.count?) }
  else return p

/-- What was not given takes its default. -/
def Partial.complete (p : Partial) : Settings where
  capacity := p.capacity.getD ({} : Settings).capacity
  seed := (p.seed.map Nat.toUInt64).getD ({} : Settings).seed

/-- The settings an object gives by name, or an array by position. -/
def ofJson? : Json → Option Settings
  | .object members => do return (← members.foldlM Partial.take {}).complete
  | .array [] => some {}
  | .array [capacity] => do return Partial.complete { capacity := some (← capacity.count?) }
  | .array [capacity, seed] => do
    return Partial.complete { capacity := some (← capacity.count?), seed := some (← seed.count?) }
  | _ => none

/-- The settings a JSON text gives. -/
def parse? (text : String) : Option Settings := (Json.parse? text.toList).bind ofJson?

end Settings

end BusLogic
