/-!
# LogPrune.Blake3

The BLAKE3 hash of a list of bytes, to 32 bytes.

The input is cut into chunks of 1024 bytes and these into blocks of 64; an
empty input is one empty chunk.  The blocks of a chunk are compressed one
after another.  Chunks are the leaves of a binary tree in which every left
subtree is complete and as large as can be; the compression at the root is
marked as such.
-/

namespace LogPrune
namespace Blake3

/-! ## Compression -/

/-- The initial value of the chain. -/
def initial : Vector UInt32 8 :=
  #v[0x6A09E667, 0xBB67AE85, 0x3C6EF372, 0xA54FF53A,
     0x510E527F, 0x9B05688C, 0x1F83D9AB, 0x5BE0CD19]

/-- The order in which the next round reads the words of the block. -/
def schedule (m : Vector UInt32 16) : Vector UInt32 16 :=
  #v[m[2], m[6], m[3], m[10], m[7], m[0], m[4], m[13],
     m[1], m[11], m[12], m[5], m[9], m[14], m[15], m[8]]

/-- A word rotated to the right. -/
def rotate (x : UInt32) (n : UInt32) : UInt32 := (x >>> n) ||| (x <<< (32 - n))

/-- Mixes two words of the block into four words of the state. -/
def mix (s : Vector UInt32 16) (a b c d : Fin 16) (x y : UInt32) : Vector UInt32 16 :=
  let va := s[a] + s[b] + x
  let vd := rotate (s[d] ^^^ va) 16
  let vc := s[c] + vd
  let vb := rotate (s[b] ^^^ vc) 12
  let va := va + vb + y
  let vd := rotate (vd ^^^ va) 8
  let vc := vc + vd
  let vb := rotate (vb ^^^ vc) 7
  (((s.set a va).set b vb).set c vc).set d vd

/-- One round: the columns of the state and then its diagonals. -/
def round (s m : Vector UInt32 16) : Vector UInt32 16 :=
  let s := mix s 0 4 8 12 m[0] m[1]
  let s := mix s 1 5 9 13 m[2] m[3]
  let s := mix s 2 6 10 14 m[4] m[5]
  let s := mix s 3 7 11 15 m[6] m[7]
  let s := mix s 0 5 10 15 m[8] m[9]
  let s := mix s 1 6 11 12 m[10] m[11]
  let s := mix s 2 7 8 13 m[12] m[13]
  mix s 3 4 9 14 m[14] m[15]

/-- A number of rounds, with the schedule moved on in between. -/
def rounds : Nat → Vector UInt32 16 → Vector UInt32 16 → Vector UInt32 16
  | 0, s, _ => s
  | n + 1, s, m => rounds n (round s m) (schedule m)

/-- What a block is compressed with. -/
structure Input where
  chain : Vector UInt32 8
  block : Vector UInt32 16
  counter : Nat
  size : Nat
  flags : UInt32

/-- The flag of the first block of a chunk. -/
def chunkStart : UInt32 := 1
/-- The flag of the last block of a chunk. -/
def chunkEnd : UInt32 := 2
/-- The flag of an inner node. -/
def parent : UInt32 := 4
/-- The flag of the root. -/
def root : UInt32 := 8

/-- The chain value behind a block. -/
def Input.compress (i : Input) : Vector UInt32 8 :=
  let h := i.chain
  let s := rounds 7
    #v[h[0], h[1], h[2], h[3], h[4], h[5], h[6], h[7],
       initial[0], initial[1], initial[2], initial[3],
       UInt32.ofNat i.counter, UInt32.ofNat (i.counter >>> 32), UInt32.ofNat i.size, i.flags]
    i.block
  #v[s[0] ^^^ s[8], s[1] ^^^ s[9], s[2] ^^^ s[10], s[3] ^^^ s[11],
     s[4] ^^^ s[12], s[5] ^^^ s[13], s[6] ^^^ s[14], s[7] ^^^ s[15]]

/-! ## Blocks and chunks -/

/-- A list cut into pieces of a positive size; at least one piece. -/
def cutEvery (k : Nat) (l : List α) : List (List α) :=
  if _h : 0 < k ∧ k < l.length then l.take k :: cutEvery k (l.drop k) else [l]
termination_by l.length
decreasing_by simp; omega

/-- The word of four bytes, the lowest first; missing bytes are zero. -/
def word (bytes : List UInt8) (i : Nat) : UInt32 :=
  let byte := fun k => (bytes.getD (4 * i + k) 0).toUInt32
  byte 0 ||| byte 1 <<< 8 ||| byte 2 <<< 16 ||| byte 3 <<< 24

/-- The words of a block. -/
def blockWords (bytes : List UInt8) : Vector UInt32 16 := Vector.ofFn fun i => word bytes i

/-- Compresses the blocks of a chunk but the last. -/
def chunkFrom (counter : Nat) (chain : Vector UInt32 8) (flags : UInt32) :
    List (List UInt8) → Input
  | [] => ⟨chain, blockWords [], counter, 0, flags ||| chunkEnd⟩
  | [b] => ⟨chain, blockWords b, counter, b.length, flags ||| chunkEnd⟩
  | b :: bs =>
    chunkFrom counter (Input.compress ⟨chain, blockWords b, counter, b.length, flags⟩) 0 bs

/-- The last compression of a chunk. -/
def chunk (counter : Nat) (bytes : List UInt8) : Input :=
  chunkFrom counter initial chunkStart (cutEvery 64 bytes)

/-! ## The tree -/

/-- The compression of an inner node above two others. -/
def join (left right : Input) : Input :=
  ⟨initial, left.compress.append right.compress |>.cast rfl, 0, 64, parent⟩

/-- The tree above some chunks, of which the first has a given number. -/
def tree (counter : Nat) (chunks : List (List UInt8)) : Input :=
  if _h : chunks.length ≤ 1 then chunk counter (chunks.headD [])
  else
    let k := Nat.pow 2 (Nat.log2 (chunks.length - 1))
    join (tree counter (chunks.take k)) (tree (counter + k) (chunks.drop k))
termination_by chunks.length
decreasing_by
  all_goals
    have hk : Nat.pow 2 (Nat.log2 (chunks.length - 1)) ≤ chunks.length - 1 :=
      Nat.log2_self_le (by omega)
    have hp : 0 < Nat.pow 2 (Nat.log2 (chunks.length - 1)) := Nat.two_pow_pos _
    simp only [List.length_take, List.length_drop]
    omega

/-! ## Digests -/

/-- The bytes of a word, the lowest first. -/
def wordBytes (w : UInt32) : List UInt8 :=
  [w.toUInt8, (w >>> 8).toUInt8, (w >>> 16).toUInt8, (w >>> 24).toUInt8]

/-- The digest of a list of bytes. -/
def digest (bytes : List UInt8) : List UInt8 :=
  let top := tree 0 (cutEvery 1024 bytes)
  ({ top with counter := 0, flags := top.flags ||| root }.compress).toList.flatMap wordBytes

/-- A byte in hexadecimal. -/
def hexByte (b : UInt8) : List Char :=
  [Nat.digitChar (b.toNat / 16), Nat.digitChar (b.toNat % 16)]

/-- The digest in hexadecimal. -/
def hexDigest (bytes : List UInt8) : String := String.ofList ((digest bytes).flatMap hexByte)

end Blake3
end LogPrune
