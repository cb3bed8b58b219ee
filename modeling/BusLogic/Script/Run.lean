import BusLogic.Expression.Signal
import BusLogic.Script.Session

/-! Steps of a session.

Everything done before a failure stays done: a session that failed can be told to
go on, and continues with the line after the last one it took. -/
namespace BusLogic.Script

/-- A step may fail, and what it did before stays done. -/
abbrev Run := Attempt Failure Session

namespace Run

/-- Fails; the line is added where the line is known. -/
def raise (e : Error) : Run α := throw (.of e)

/-- Asks something of the session as it is. -/
def ask (f : Session → Except Error α) : Run α := fun s => ((f s).mapError .of, s)

/-- Wires something into the session's netlist. -/
def wire (x : Attempt Error Netlist α) : Run α := fun ⟨lines, cursor, netlist, buses, counter⟩ =>
  let (r, netlist) := x.outcome netlist
  (r.mapError .of, ⟨lines, cursor, netlist, buses, counter⟩)

/-- Takes a step of an expression whose operators are wired into the netlist. -/
def compile (e : Expression Signal) (x : Expression.Step Signal Netlist α) :
    Run (α × Expression Signal) := fun ⟨lines, cursor, netlist, buses, counter⟩ =>
  let (r, (e, netlist)) := x.outcome (e, netlist)
  ((r.map (·, e)).mapError .of, ⟨lines, cursor, netlist, buses, counter⟩)

def setBus (name : String) (bus : Bus) : Run Unit :=
  modify fun s => { s with buses := s.buses.insert name bus }

def setCounter (counter : Option Nat) : Run Unit := modify fun s => { s with counter }

def setCursor (cursor : Nat) : Run Unit := modify fun s => { s with cursor }

/-- Places a failure on a line, unless it has been placed on one. -/
def on (line : Line) (x : Run α) : Run α := fun s =>
  let (r, s) := x.outcome s
  (r.mapError (·.atLine line.number), s)

/-- Takes the next line. -/
def nextLine : Run Line := do
  let s ← get
  match s.lines[s.cursor]? with
  | none => raise .unexpectedEnd
  | some line =>
    setCursor (s.cursor + 1)
    return line

/-- Carries out `each` on the lines up to `END`, which is taken too. At most
`budget` lines are taken, so that this ends; the number of lines left is enough. -/
def body (each : Line → Run α) : (budget : Nat) → Run (List α)
  | 0 => raise .unexpectedEnd
  | budget + 1 => do
    let line ← nextLine
    if line.isEnd then return []
    else
      let first ← each line
      let rest ← body each budget
      return first :: rest

/-- Carries out `each` on the lines up to number `stop`, of which at most `budget`
are taken; the number of lines up to `stop` is enough. -/
def upTo (each : Line → Run Unit) (stop : Nat) : (budget : Nat) → Run Unit
  | 0 => pure ()
  | budget + 1 => do
    if (← get).cursor < stop then
      let line ← nextLine
      each line
      upTo each stop budget

/-- Carries out `each` on the lines from `start` up to `stop`, then goes on where
it was. -/
def between (each : Line → Run Unit) (start stop : Nat) : Run Unit := do
  let resume := (← get).cursor
  setCursor start
  upTo each stop (stop - start)
  setCursor resume

/-- `n` passes, numbered from `k` on. -/
def passes (pass : Nat → Run Unit) : (n k : Nat) → Run Unit
  | 0, _ => pure ()
  | n + 1, k => do
    pass k
    passes pass n (k + 1)

end Run

end BusLogic.Script
