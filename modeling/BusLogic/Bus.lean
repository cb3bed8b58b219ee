import BusLogic.Error

/-! Buses: ordered groups of gates treated as one signal of many bits.

A bus is a run of consecutive gates or a list of slots, and a slot may still be
unbound. `slots` is the view both forms share. The form itself is observable
(a declared bus can be bound slot by slot, a contiguous one cannot), so each
operation says which form it yields. -/
namespace BusLogic

inductive Bus where
  /-- The gates `start, …, start + width - 1`. -/
  | contiguous (start width : Nat)
  /-- Slot by slot, `none` where no gate is bound yet. -/
  | explicit (slots : List (Option Nat))
  deriving DecidableEq, Repr

namespace Bus

instance : Inhabited Bus := ⟨.contiguous 0 0⟩

/-- The one-bit bus over a gate. -/
def single (gate : Nat) : Bus := .contiguous gate 1

/-- `width` slots, none of them bound. -/
def unbound (width : Nat) : Bus := .explicit (List.replicate width none)

def width : Bus → Nat
  | .contiguous _ width => width
  | .explicit slots => slots.length

def isEmpty (b : Bus) : Bool := b.width == 0

def isContiguous : Bus → Bool
  | .contiguous _ _ => true
  | .explicit _ => false

/-- Slot 0 first. -/
def slots : Bus → List (Option Nat)
  | .contiguous start width => (List.range' start width).map some
  | .explicit slots => slots

/-- The first `n` slots, or all of them if the bus is narrower. A contiguous bus
may be far too wide to list, so only the slots asked for are built. -/
def lowSlots (n : Nat) : Bus → List (Option Nat)
  | .contiguous start width => (List.range' start (min width n)).map some
  | .explicit slots => slots.take n

/-- What slot `index` holds. -/
def slot (b : Bus) (index : Nat) : Except Error (Option Nat) :=
  match b with
  | .contiguous start width =>
    if index < width then .ok (some (start + index)) else .error (.indexOutOfRange index width)
  | .explicit slots =>
    match slots[index]? with
    | some held => .ok held
    | none => .error (.indexOutOfRange index slots.length)

/-- The gate bound to slot `index`. -/
def gate (b : Bus) (index : Nat) : Except Error Nat :=
  match b.slot index with
  | .ok (some gate) => .ok gate
  | .ok none => .error (.unboundSlot index)
  | .error e => .error e

/-- The gates of a list of slots whose first has number `index`, refusing the
first unbound one. -/
def boundFrom (index : Nat) : List (Option Nat) → Except Error (List Nat)
  | [] => .ok []
  | none :: _ => .error (.unboundSlot index)
  | some gate :: rest =>
    match boundFrom (index + 1) rest with
    | .ok gates => .ok (gate :: gates)
    | .error e => .error e

/-- All gates in order. -/
def gates (b : Bus) : Except Error (List Nat) := boundFrom 0 b.slots

/-- Slots `first` to `last`, both included. A contiguous bus gives a contiguous
one, and so does a single bound slot. -/
def slice (b : Bus) (first last : Nat) : Except Error Bus :=
  if first > last then .error (.indexOutOfRange first b.width)
  else if b.width ≤ last then .error (.indexOutOfRange last b.width)
  else match b with
    | .contiguous start _ => .ok (.contiguous (start + first) (last - first + 1))
    | .explicit slots =>
      match (slots.drop first).take (last - first + 1) with
      | [some gate] => .ok (single gate)
      | part => .ok (.explicit part)

/-- The slots of one bus after those of another, slot by slot whatever the forms. -/
def append (a b : Bus) : Bus := .explicit (a.slots ++ b.slots)

instance : Append Bus := ⟨append⟩

/-- Binds the unbound slot `index` to a gate. -/
def bind (b : Bus) (index gate : Nat) : Except Error Bus :=
  match b with
  | .contiguous _ width =>
    .error (if index < width then .alreadyBound index else .indexOutOfRange index width)
  | .explicit slots =>
    match slots[index]? with
    | none => .error (.indexOutOfRange index slots.length)
    | some (some _) => .error (.alreadyBound index)
    | some none => .ok (.explicit (slots.set index (some gate)))

/-- Whether two slots hold the same gate. An unbound slot is the same as nothing,
itself included. -/
def sameGate : Option Nat → Option Nat → Bool
  | some a, some b => a == b
  | _, _ => false

/-- Whether two buses carry the same gates in the same places. -/
def coincides (a b : Bus) : Bool :=
  a.width == b.width && (a.slots.zip b.slots).all fun (x, y) => sameGate x y

@[simp] theorem length_slots (b : Bus) : b.slots.length = b.width := by
  cases b <;> simp [slots, width]

theorem lowSlots_eq_take (n : Nat) (b : Bus) : b.lowSlots n = b.slots.take n := by
  cases b with
  | contiguous start width =>
    apply List.ext_getElem?
    intro i
    simp only [lowSlots, slots, List.getElem?_map, List.getElem?_take]
    grind
  | explicit slots => rfl

@[simp] theorem slots_append (a b : Bus) : (a ++ b).slots = a.slots ++ b.slots := rfl

end Bus

end BusLogic
