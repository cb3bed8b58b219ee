import BusLogic.Script.Execute

/-! What a script means, without gates.

The reference evaluator carries out the same lines over tables of bit vectors, in
which a slot holds a level or is still unbound. Inputs take their levels from a given
supply, operators work on levels, and nothing is ever wired. It fails where a script
makes no sense, and it never stops short of a line it has to come to. -/
namespace BusLogic.Script.Reference

/-! ### Bit vectors -/

/-- What the slots of a bus hold, slot 0 first. -/
abbrev Bits := List (Option Bool)

/-- The levels of slots that are all bound. -/
def levels? : Bits → Option (List Bool)
  | [] => some []
  | none :: _ => none
  | some level :: rest => (levels? rest).map (level :: ·)

/-- Slots `first` to `last`, both included. -/
def slice (bits : Bits) (first last : Nat) : Option Bits :=
  if first ≤ last ∧ last < bits.length then some ((bits.drop first).take (last - first + 1)) else none

/-- Binds the unbound slot `i`. -/
def bind (bits : Bits) (i : Nat) (level : Bool) : Option Bits :=
  if bits[i]? = some none then some (bits.set i (some level)) else none

/-- The function of a binary operator. -/
def function? : Opcode → Option (Bool → Bool → Bool)
  | .and => some fun a b => a && b
  | .or => some fun a b => a || b
  | .xor => some fun a b => a ^^ b
  | .nand => some fun a b => !(a && b)
  | .nor => some fun a b => !(a || b)
  | _ => none

/-- The level of a constant signal. -/
def constant? : Opcode → Option Bool
  | .one => some true
  | .zero => some false
  | _ => none

/-- Position by position, or one level against every level of the other side. -/
def zipLevels (f : Bool → Bool → Bool) (a b : List Bool) : Option (List Bool) :=
  if a.length = b.length then some (List.zipWith f a b)
  else match a, b with
    | [x], b => some (b.map fun y => f x y)
    | a, [y] => some (a.map fun x => f x y)
    | _, _ => none

def complement (bits : Bits) : Option Bits :=
  (levels? bits).map fun levels => levels.map fun level => some !level

/-- A binary operator with its right operand, applied to what stands to the left. -/
def combine (left : Bits) (right : Opcode × Bits) : Option Bits := do
  let f ← function? right.1
  let levels ← zipLevels f (← levels? left) (← levels? right.2)
  return levels.map some

/-- All levels combined over the balanced tree. -/
def reduce (op : Opcode) (bits : Bits) : Option Bool := do
  let f ← function? op
  match ← levels? bits with
  | [] => none
  | level :: rest => return (Tree.balanced level rest).fold f

/-- The number the levels write, the first of them lowest. -/
def number : List Bool → Nat
  | [] => 0
  | level :: rest => level.toNat + 2 * number rest

/-! ### The state -/

structure State where
  lines : Array Line
  cursor : Nat
  /-- The levels that inputs still to come will take. -/
  supply : List Bool
  buses : Table Bits
  ports : Table Bits
  counter : Option Nat

namespace State

def start (source : String) (supply : List Bool) : State where
  lines := (linesOf source.toList).toArray
  cursor := 0
  supply := supply
  buses := ∅
  ports := ∅
  counter := none

def index (t : State) : Index → Option Nat
  | .literal n => some n
  | .constant name => if name = "i" then t.counter else none
  | .missing _ => none

def ref (t : State) (r : Ref) : Option Bits := do
  let bits ← t.buses[r.name]?
  match r.span with
  | none => return bits
  | some span => slice bits (← t.index span.first) (← t.index (span.last.getD span.first))

/-- The parts of a list, one after another. -/
def listing (t : State) : List Ref → Option Bits
  | [] => some []
  | r :: rest => do
    let bits ← t.ref r
    return bits ++ (← t.listing rest)

def operand (t : State) : Operand → Option Bits
  | .ref r => t.ref r
  | .list l => t.listing l.parts
  | .source op extent => do
    let level ← constant? op
    match extent with
    | none => return [some level]
    | some e => return List.replicate (← t.index e.width) (some level)
  | .reduction op l => do
    let level ← reduce op (← t.listing l.parts)
    return [some level]

/-- The values of the operands of a formula, each with the `NOT`s in front of it
applied; all but the first behind their binary operators. -/
def factors (t : State) : List Term → Option (Bits × List (Opcode × Bits))
  | [.operand o] => do
    return (← t.operand o, [])
  | .operand o :: .operator op :: rest => do
    let bits ← t.operand o
    let (next, more) ← t.factors rest
    return (bits, (op, next) :: more)
  | .operator .not :: rest => do
    let (next, more) ← t.factors rest
    return (← complement next, more)
  | _ => none

/-- A formula from left to right. -/
def formula (t : State) (terms : List Term) : Option Bits := do
  let (first, rest) ← t.factors terms
  rest.foldlM combine first

end State

/-! ### Carrying out lines -/

abbrev Eval := StateT State Option

def ask (f : State → Option α) : Eval α := fun t => (f t).map (·, t)

def setBus (name : String) (bits : Bits) : Eval Unit :=
  modify fun t => { t with buses := t.buses.insert name bits }

def setPort (name : String) (bits : Bits) : Eval Unit :=
  modify fun t => { t with ports := t.ports.insert name bits }

def setCounter (counter : Option Nat) : Eval Unit := modify fun t => { t with counter }

def setCursor (cursor : Nat) : Eval Unit := modify fun t => { t with cursor }

/-- The next `n` levels of the supply. -/
def supplied (n : Nat) : Eval Bits := fun t =>
  if n ≤ t.supply.length then
    some ((t.supply.take n).map some, { t with supply := t.supply.drop n })
  else none

/-- Inputs that are also shown as a port. -/
def addInput (name : String) (width : Nat) : Eval Bits := do
  let bits ← supplied width
  setPort name bits
  return bits

def nextLine : Eval Line := do
  let t ← get
  let line ← ask (·.lines[t.cursor]?)
  setCursor (t.cursor + 1)
  return line

/-- The lines up to `END`, which is taken too, of which there are at most `budget`. -/
def body (each : Line → Eval α) : (budget : Nat) → Eval (List α)
  | 0 => failure
  | budget + 1 => do
    let line ← nextLine
    if line.isEnd then return []
    else
      let first ← each line
      let rest ← body each budget
      return first :: rest

/-- The lines up to number `stop`, of which there are at most `budget`. -/
def upTo (each : Line → Eval Unit) (stop : Nat) : (budget : Nat) → Eval Unit
  | 0 => ask fun t => if t.cursor < stop then none else some ()
  | budget + 1 => do
    if (← get).cursor < stop then
      let line ← nextLine
      each line
      upTo each stop budget

/-- The lines from `start` up to `stop`; then the evaluation goes on where it was. -/
def between (each : Line → Eval Unit) (start stop : Nat) : Eval Unit := do
  let resume := (← get).cursor
  setCursor start
  upTo each stop (stop - start)
  setCursor resume

/-- `n` passes, numbered from `k` on. -/
def passes (pass : Nat → Eval Unit) : (n k : Nat) → Eval Unit
  | 0, _ => pure ()
  | n + 1, k => do
    pass k
    passes pass n (k + 1)

/-! ### Statements -/

/-- Binds slot `i` of a bus to a single level. -/
def bindSlot (name : String) (i : Nat) : Bits → Eval Unit
  | [some level] => do
    let bits ← ask fun t => do
      bind (← t.buses[name]?) i level
    setBus name bits
  | _ => failure

/-- What to do with a line inside a construct, as a statement and as a branch. -/
structure Nested where
  statement : Line → Eval Unit
  branch : Line → Eval Bits

namespace Nested

/-- One pass of a loop: the target starts out unbound, and in the end becomes the
source. -/
def pass (nested : Nested) (target source : String) (width start stop k : Nat) : Eval Unit := do
  setBus target (List.replicate width none)
  setCounter (some k)
  between nested.statement start stop
  let next ← ask (·.buses[target]?)
  setBus source next

def loop (nested : Nested) (target : String) (count : Index) (source : Except Mismatch String) :
    Eval Bits := do
  let count ← ask (·.index count)
  let source ← ask fun _ => source.toOption
  let start := (← get).cursor
  let length ← ask fun t => bodyLength? 0 (t.lines.toList.drop start)
  setCursor (start + length + 1)
  let initial ← ask (·.buses[source]?)
  let outer := (← get).counter
  passes (nested.pass target source initial.length start (start + length)) count 0
  let result ← ask (·.buses[target]?)
  setBus source initial
  setCounter outer
  return result

/-- The branch whose number is the value of the selector. -/
def select (nested : Nested) (selector : Ref) : Eval Bits := do
  let selector ← ask (·.ref selector)
  let t ← get
  let branches ← body nested.branch (t.lines.size - t.cursor)
  ask fun _ => do
    branches[number (← levels? selector)]?

def evaluate (nested : Nested) (target : String) : Value → Eval Bits
  | .fault _ => failure
  | .loop count source => nested.loop target count source
  | .select selector _ => nested.select selector
  | .formula terms _ => ask (·.formula terms)

def assign (nested : Nested) (target : Target) (value : Value) : Eval Unit :=
  match target with
  | .bus name => do
    let bits ← nested.evaluate name value
    setBus name bits
  | .port name => do
    let bits ← nested.evaluate name value
    setPort name bits
    setBus name bits
  | .slot name i => do
    let i ← ask (·.index i)
    let bits ← nested.evaluate name value
    bindSlot name i bits

def execute (nested : Nested) : Statement → Eval Unit
  | .fault _ | .assign _ (.error _) => failure
  | .block => do
    let t ← get
    let _ ← body nested.statement (t.lines.size - t.cursor)
  | .declare name width => setBus name (List.replicate width none)
  | .input name width => do
    let bits ← addInput name width
    setBus name bits
  | .assign target (.ok value) => nested.assign target value

end Nested

/-- Lines that open at most `depth` constructs one inside another. -/
def nested : (depth : Nat) → Nested
  | 0 => ⟨fun _ => failure, fun _ => failure⟩
  | depth + 1 =>
    let inner := nested depth
    { statement := fun line => inner.execute (statement line.text)
      branch := fun line => inner.evaluate "" (value line.text) }

/-- What is left of a script after all its lines, with the given levels on its inputs. -/
def run (source : String) (given : List Bool) : Option State :=
  let t := State.start source given
  (upTo (nested t.lines.size).statement t.lines.size t.lines.size t).map Prod.snd

end BusLogic.Script.Reference
