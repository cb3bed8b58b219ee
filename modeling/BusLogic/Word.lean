/-! Words of 32 bits: rotations, and the rounds that stir sixteen words together. -/
namespace BusLogic.Word

/-- Rotates toward the high bits; the distance counts modulo 32. -/
def rotateLeft (x n : UInt32) : UInt32 := (x <<< n) ||| (x >>> (32 - n))

/-- Rotates toward the low bits; the distance counts modulo 32. -/
def rotateRight (x n : UInt32) : UInt32 := (x >>> n) ||| (x <<< (32 - n))

/-- Adds, exclusive-ors and rotates four words of the state into one another; `x` and
`y` are added on the way. -/
def mix (rotate : UInt32 → UInt32 → UInt32) (s : Vector UInt32 16) (a b c d : Fin 16) (x y : UInt32) :
    Vector UInt32 16 :=
  let s := s.set a (s[a] + s[b] + x)
  let s := s.set d (rotate (s[d] ^^^ s[a]) 16)
  let s := s.set c (s[c] + s[d])
  let s := s.set b (rotate (s[b] ^^^ s[c]) 12)
  let s := s.set a (s[a] + s[b] + y)
  let s := s.set d (rotate (s[d] ^^^ s[a]) 8)
  let s := s.set c (s[c] + s[d])
  s.set b (rotate (s[b] ^^^ s[c]) 7)

/-- Columns, then diagonals, each fed two of the words `m` in order. -/
def round (rotate : UInt32 → UInt32 → UInt32) (s : Vector UInt32 16) (m : Fin 16 → UInt32) : Vector UInt32 16 :=
  let s := mix rotate s 0 4 8 12 (m 0) (m 1)
  let s := mix rotate s 1 5 9 13 (m 2) (m 3)
  let s := mix rotate s 2 6 10 14 (m 4) (m 5)
  let s := mix rotate s 3 7 11 15 (m 6) (m 7)
  let s := mix rotate s 0 5 10 15 (m 8) (m 9)
  let s := mix rotate s 1 6 11 12 (m 10) (m 11)
  let s := mix rotate s 2 7 8 13 (m 12) (m 13)
  mix rotate s 3 4 9 14 (m 14) (m 15)

end BusLogic.Word
