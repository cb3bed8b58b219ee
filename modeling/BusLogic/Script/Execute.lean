import BusLogic.Netlist.Snapshot
import BusLogic.Script.Run

/-! Carrying out a script.

A line is read into a statement, and the statement wires gates and names buses.
The lines inside a construct come after the line that opens it, so a session ends
whatever its script says. -/
namespace BusLogic.Script
open Run

/-! ### Formulas -/

/-- The bus an operand stands for, wired if need be. -/
def Operand.evaluate : Operand → Run Bus
  | .ref r => ask (·.ref r)
  | .list l => ask (·.listing l)
  | .source op extent => do
    let width ← ask (·.extent extent)
    let gate ← wire (Netlist.allocate op none none)
    return match width with
      | some width => .explicit (List.replicate width (some gate))
      | none => .single gate
  | .reduction op l => do
    let bus ← ask (·.listing l)
    let gate ← wire (Netlist.reduce op bus)
    return .single gate

/-- Adds a term to an expression. -/
def Term.feed (e : Expression Signal) : Term → Run (Expression Signal)
  | .operand o => do
    let bus ← o.evaluate
    let (_, e) ← compile e (Expression.addOperand (.bus bus))
    return e
  | .operator op => do
    let (_, e) ← compile e (Expression.addOperator (.operator op))
    return e

/-- The bus a formula stands for. Text left over after it is refused only once the
formula itself has been wired. -/
def formula (terms : List Term) (fault : Option Mismatch) : Run Bus := do
  let e ← terms.foldlM Term.feed .empty
  let (result, _) ← compile e Expression.compile
  let bus ← ask fun _ => result.toBus
  ask fun _ => Session.checkText fault
  return bus

/-! ### Statements

The lines inside a construct come after the line that opens it, and are carried
out through a `Nested`: what to do with a line that is a statement, and with one
that is a branch of a selection. -/

structure Nested where
  statement : Line → Run Unit
  branch : Line → Run Bus

/-- One pass of a loop: the target starts out unbound, the body runs, and the
source becomes what the target is now. -/
def Nested.pass (nested : Nested) (target source : String) (width start stop k : Nat) : Run Unit := do
  setBus target (.unbound width)
  setCounter (some k)
  between nested.statement start stop
  let next ← ask (·.lookup target)
  setBus source next

/-- Unrolls a loop. Each pass computes the target from the source, then the source
takes that value; in the end the source and the counter are what they were. -/
def Nested.loop (nested : Nested) (target : String) (count : Index)
    (source : Except Mismatch String) : Run Bus := do
  let count ← ask (·.index count)
  let source ← ask fun _ => source.mapError .mismatch
  if target = "" then
    raise (.mismatch ⟨"assignment target", "LOOP"⟩)
  let start := (← get).cursor
  let length ← ask fun s =>
    match bodyLength? 0 (s.lines.toList.drop start) with
    | some length => .ok length
    | none => .error .unexpectedEnd
  let stop := start + length
  setCursor (stop + 1)
  let initial ← ask (·.lookup source)
  let outer := (← get).counter
  passes (nested.pass target source initial.width start stop) count 0
  let result ← ask (·.lookup target)
  setBus source initial
  setCounter outer
  return result

/-- Wires the branches and chooses between them. -/
def Nested.select (nested : Nested) (selector : Ref) (fault : Option Mismatch) : Run Bus := do
  let selector ← ask (·.ref selector)
  ask fun _ => Session.checkText fault
  let s ← get
  let branches ← body nested.branch (s.lines.size - s.cursor)
  wire (Netlist.multiplex selector branches)

/-- The bus a value stands for. `target` is what it will be assigned to, or empty
for a branch. -/
def Nested.evaluate (nested : Nested) (target : String) : Value → Run Bus
  | .fault m => raise (.mismatch m)
  | .loop count source => nested.loop target count source
  | .select selector fault => nested.select selector fault
  | .formula terms fault => formula terms fault

/-- Checks what can be checked of a target before its value is known. -/
def Target.check (s : Session) : Target → Except Error (Option Nat)
  | .bus _ | .port _ => .ok none
  | .slot name i => do
    let bus ← s.lookup name
    let i ← s.index i
    if i < bus.width then return some i else throw (.indexOutOfRange i bus.width)

/-- Binds slot `i` of a bus to the one gate of `value`. -/
def bindSlot (name : String) (i : Nat) (value : Bus) : Run Unit := do
  if value.width ≠ 1 then
    raise (.widthMismatch 1 value.width)
  let bus ← ask fun s => do
    let gate ← value.gate 0
    (← s.lookup name).bind i gate
  setBus name bus

/-- Gives a target that has been checked its value. -/
def Target.receive (target : Target) (slot : Option Nat) (bus : Bus) : Run Unit := do
  if bus.isEmpty then
    raise (.malformed (.zeroWidth target.name))
  match slot with
  | some i => bindSlot target.name i bus
  | none =>
    match target with
    | .port name => modify fun s => { s with netlist := s.netlist.registerPort name bus }
    | _ => pure ()
    setBus target.name bus

/-- Evaluates a value and gives it to its target. -/
def Nested.assign (nested : Nested) (target : Target) (value : Except Mismatch Value) : Run Unit := do
  let slot ← ask target.check
  let value ← ask fun _ => value.mapError .mismatch
  let bus ← nested.evaluate target.name value
  target.receive slot bus

/-- Carries out a statement. -/
def Nested.execute (nested : Nested) : Statement → Run Unit
  | .fault m => raise (.mismatch m)
  | .block => do
    let s ← get
    let _ ← body nested.statement (s.lines.size - s.cursor)
  | .declare name width => do
    ask (·.checkWidth width)
    setBus name (.unbound width)
  | .input name width => do
    let bus ← wire (Netlist.addInput name width)
    setBus name bus
  | .assign target value => nested.assign target value

/-- How to carry out lines that open at most `depth` constructs one inside another.
A construct's lines come after the line that opens it, so there are never more
open than there are lines. -/
def nested : (depth : Nat) → Nested
  | 0 => ⟨fun _ => raise .unexpectedEnd, fun _ => raise .unexpectedEnd⟩
  | depth + 1 =>
    let inner := nested depth
    { statement := fun line => on line (inner.execute (statement line.text))
      branch := fun line => on line (inner.evaluate "" (value line.text)) }

namespace Session

/-- Carries out the lines from the cursor to the end. -/
def build : Run Unit := do
  let s ← get
  upTo (nested s.lines.size).statement s.lines.size (s.lines.size - s.cursor)

/-- Builds, ticks once and shows the ports and the gates. -/
def report : Run String := do
  build
  modify fun s => { s with netlist := s.netlist.tick }
  let s ← get
  return s.netlist.dumpPorts ++ s.netlist.dumpGates

end Session

end BusLogic.Script
