import BusLogic.Word

/-! The compression function of BLAKE3: a chaining value and a block of sixteen
words give the next chaining value. -/
namespace BusLogic.Digest
open Word

/-- Eight words carried from one compression to the next. -/
abbrev Chain := Vector UInt32 8

/-- Sixteen message words, sixty-four bytes of input. -/
abbrev Message := Vector UInt32 16

/-- The chaining value every computation starts from. -/
def Chain.initial : Chain :=
  #v[0x6a09e667, 0xbb67ae85, 0x3c6ef372, 0xa54ff53a, 0x510e527f, 0x9b05688c, 0x1f83d9ab, 0x5be0cd19]

/-- What a block is: where it stands in its chunk, whether it joins two subtrees,
whether it is the root. Each role is a bit of one word. -/
structure Role where
  chunkStart : Bool := false
  chunkEnd : Bool := false
  parent : Bool := false
  root : Bool := false

def Role.word (r : Role) : UInt32 :=
  (if r.chunkStart then 1 else 0) ||| (if r.chunkEnd then 2 else 0) |||
    (if r.parent then 4 else 0) ||| (if r.root then 8 else 0)

/-- The order in which the next round takes the message words. -/
def permute (m : Message) : Message :=
  #v[m[2], m[6], m[3], m[10], m[7], m[0], m[4], m[13], m[1], m[11], m[12], m[5], m[9], m[14], m[15], m[8]]

/-- `n` rounds, with the message permuted between them. -/
def rounds : Nat → Vector UInt32 16 → Message → Vector UInt32 16
  | 0, s, _ => s
  | n + 1, s, m => rounds n (round rotateRight s m.get) (permute m)

/-- Seven rounds over the chaining value, the first half of the initial one, the
chunk number, the number of input bytes in the block and its role; the two halves
of the result are exclusive-ored. -/
def compress (chain : Chain) (m : Message) (number : UInt64) (bytes : UInt32) (role : Role) : Chain :=
  let fixed : Vector UInt32 4 := #v[0x6a09e667, 0xbb67ae85, 0x3c6ef372, 0xa54ff53a]
  let tail : Vector UInt32 4 := #v[number.toUInt32, (number >>> 32).toUInt32, bytes, role.word]
  let s : Vector UInt32 16 := rounds 7 (chain ++ fixed ++ tail) m
  Vector.ofFn fun i : Fin 8 => s[i.val] ^^^ s[i.val + 8]

end BusLogic.Digest
