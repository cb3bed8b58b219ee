import BusLogic.Word

/-! The ChaCha20 block function: sixteen words of key stream from a key and a
block number. -/
namespace BusLogic.Random
open Word

/-- Sixteen 32-bit words: the working state of a block, and a block of key stream. -/
abbrev Block := Vector UInt32 16

namespace Block

/-- A round down the columns, then a round down the diagonals, fed nothing. -/
def doubleRound (s : Block) : Block := round rotateLeft s fun _ => 0

/-- The state before the first round: four fixed words, the key, the block number
in two words, and two words that stay zero. -/
def initial (key : Vector UInt32 8) (number : UInt64) : Block :=
  let fixed : Vector UInt32 4 := #v[0x61707865, 0x3320646e, 0x79622d32, 0x6b206574]
  let tail : Vector UInt32 4 := #v[number.toUInt32, (number >>> 32).toUInt32, 0, 0]
  fixed ++ key ++ tail

/-- Block `number` of the key stream: the initial state added to itself after
twenty rounds. -/
def keyStream (key : Vector UInt32 8) (number : UInt64) : Block :=
  let start := initial key number
  let mixed := (List.replicate 10 ()).foldl (fun s _ => s.doubleRound) start
  start.zipWith (· + ·) mixed

end Block

end BusLogic.Random
