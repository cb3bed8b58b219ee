import BusLogic.Random.Cipher

/-! The source of undecided bits.

A latch told to set and to reset at once takes a drawn bit. Draws come from a
ChaCha20 key stream whose key is spread from a 64-bit seed, so that a session is
repeated exactly by repeating its seed. -/
namespace BusLogic.Random

/-- A place in a key stream: the key, the number of the next block, and the words
of the current block that have not been drawn yet. -/
structure Generator where
  key : Vector UInt32 8
  block : UInt64
  pending : List UInt32
  deriving DecidableEq, Repr

namespace Generator

/-- One step of the linear congruence that spreads a seed over the key. -/
def spread (state : UInt64) : UInt64 := state * 6364136223846793005 + 11634580027462260723

/-- The key word a spreading state yields: its upper bits folded together and
rotated right by its five highest bits. -/
def keyWord (state : UInt64) : UInt32 :=
  Word.rotateRight (((state >>> 18) ^^^ state) >>> 27).toUInt32 (state >>> 59).toUInt32

/-- The first `n` spreading states after `state`. -/
def states (state : UInt64) : Nat → List UInt64
  | 0 => []
  | n + 1 => spread state :: states (spread state) n

@[simp] theorem length_states (state : UInt64) (n : Nat) : (states state n).length = n := by
  induction n generalizing state with
  | zero => rfl
  | succ n ih => simp [states, ih]

/-- The key words of a seed. -/
def keyOf (seed : UInt64) : Vector UInt32 8 :=
  ⟨((states seed 8).map keyWord).toArray, by simp⟩

/-- The start of the key stream of a seed. -/
def ofSeed (seed : UInt64) : Generator := ⟨keyOf seed, 0, []⟩

/-- The next word of the key stream. -/
def next (g : Generator) : UInt32 × Generator :=
  match g.pending with
  | word :: rest => (word, { g with pending := rest })
  | [] =>
    let words := (Block.keyStream g.key g.block).toList
    (words.headD 0, ⟨g.key, g.block + 1, words.tail⟩)

/-- A fair bit: two words, the low one first, are true when the number they make
is below 2^63. -/
def draw (g : Generator) : Bool × Generator :=
  let (low, g) := g.next
  let (high, g) := g.next
  (decide ((high.toUInt64 <<< 32 ||| low.toUInt64) < 0x8000000000000000), g)

end Generator

end BusLogic.Random
