import BusLogic.Digest.Compress

/-! The BLAKE3 digest of a byte string.

The input is cut into chunks of 1024 bytes, each chunk into blocks of 64. The
blocks of a chunk are compressed in a chain; neighbouring chunks, and then
neighbouring results, are joined in pairs until one is left, an odd one at the
end waiting for the next level. The last compression of all is marked as the
root, and its chaining value is the digest. -/
namespace BusLogic.Digest

/-- A number written with four bytes, the lowest first; missing bytes count as
zero. -/
def word : List UInt8 → UInt32
  | bytes => (bytes.take 4).foldr (fun b acc => acc <<< 8 ||| b.toUInt32) 0

/-- Up to 64 bytes as sixteen words, filled up with zeros. -/
def message (bytes : List UInt8) : Message :=
  Vector.ofFn fun i : Fin 16 => word (bytes.drop (4 * i.val))

/-- Cuts a list into pieces of `n + 1`; the last may be shorter. -/
def pieces (n : Nat) (l : List α) : List (List α) :=
  match l with
  | [] => []
  | a :: rest => (a :: rest.take n) :: pieces n (rest.drop n)
termination_by l.length
decreasing_by
  simp only [List.length_drop, List.length_cons]
  omega

/-- Compresses the blocks of a chunk in a chain. `start` tells whether the first
of them opens the chunk, `root` whether the chunk is the whole input. -/
def chainBlocks (number : UInt64) (root start : Bool) (chain : Chain) : List (List UInt8) → Chain
  | [] => chain
  | [last] =>
    compress chain (message last) number last.length.toUInt32
      { chunkStart := start, chunkEnd := true, root }
  | block :: rest =>
    let chain := compress chain (message block) number block.length.toUInt32 { chunkStart := start }
    chainBlocks number root false chain rest

/-- The chaining value of a chunk. An empty chunk has one empty block. -/
def chunk (number : UInt64) (root : Bool) (bytes : List UInt8) : Chain :=
  match pieces 63 bytes with
  | [] => chainBlocks number root true Chain.initial [[]]
  | blocks => chainBlocks number root true Chain.initial blocks

/-- Joins two subtrees. -/
def parent (root : Bool) (left right : Chain) : Chain :=
  compress Chain.initial (left ++ right) 0 64 { parent := true, root }

/-- Joins neighbours in pairs; an odd one at the end waits. -/
def joinPairs : List Chain → List Chain
  | left :: right :: rest => parent false left right :: joinPairs rest
  | rest => rest

theorem length_joinPairs (l : List Chain) : (joinPairs l).length = (l.length + 1) / 2 := by
  fun_induction joinPairs l with
  | case1 left right rest ih => simp only [List.length_cons, ih]; omega
  | case2 l h =>
    match l, h with
    | [], _ => rfl
    | [_], _ => simp
    | a :: b :: rest, h => exact absurd rfl (h a b rest)

/-- Joins level by level; the join of the last two is the root. -/
def joinAll (l : List Chain) : Chain :=
  match l with
  | [] => Chain.initial
  | [only] => only
  | [left, right] => parent true left right
  | a :: b :: c :: rest => joinAll (joinPairs (a :: b :: c :: rest))
termination_by l.length
decreasing_by simp only [length_joinPairs, List.length_cons]; omega

/-- The chaining values of consecutive chunks, the first of which has the given
number. -/
def chunks (number : UInt64) : List (List UInt8) → List Chain
  | [] => []
  | bytes :: rest => chunk number false bytes :: chunks (number + 1) rest

/-- The digest as eight words. -/
def digest (bytes : List UInt8) : Chain :=
  match pieces 1023 bytes with
  | [] => chunk 0 true []
  | [only] => chunk 0 true only
  | several => joinAll (chunks 0 several)

/-- A byte as two lower-case hexadecimal digits. -/
def hexByte (b : UInt8) : List Char :=
  [Nat.digitChar (b.toNat / 16), Nat.digitChar (b.toNat % 16)]

/-- A word as its four bytes, the lowest first. -/
def wordBytes (w : UInt32) : List UInt8 :=
  [w.toUInt8, (w >>> 8).toUInt8, (w >>> 16).toUInt8, (w >>> 24).toUInt8]

/-- The digest as 64 hexadecimal digits. -/
def hexDigest (bytes : List UInt8) : String :=
  String.ofList (((digest bytes).toList.flatMap wordBytes).flatMap hexByte)

end BusLogic.Digest
