/-!
The BLAKE3 hash function with its default output of 32 bytes: chunks of 1024 bytes, each a chain
of compressed 64-byte blocks, are joined pairwise into a binary tree whose root gives the digest.
-/
namespace DatasetAlgebra

/-- A 256-bit digest. -/
structure Digest where
  bytes : Vector UInt8 32
  deriving DecidableEq

namespace Digest

/-- Two hexadecimal digits a byte. -/
def hex (d : Digest) : String :=
  String.ofList (d.bytes.toList.flatMap fun b =>
    [Nat.digitChar (b.toNat / 16), Nat.digitChar (b.toNat % 16)])

/-- A digest of exactly 32 bytes. -/
def ofBytes? (bytes : List UInt8) : Option Digest :=
  if h : bytes.toArray.size = 32 then some ⟨⟨bytes.toArray, h⟩⟩ else none

end Digest

/-- The `count` low bytes of a number, the lowest first. -/
def littleEndian : (count n : Nat) → List UInt8
  | 0, _ => []
  | count + 1, n => UInt8.ofNat n :: littleEndian count (n / 256)

namespace Blake3

abbrev Words := Vector UInt32 8
abbrev Block := Vector UInt32 16

def initial : Words :=
  #v[0x6a09e667, 0xbb67ae85, 0x3c6ef372, 0xa54ff53a,
    0x510e527f, 0x9b05688c, 0x1f83d9ab, 0x5be0cd19]

def chunkStart : UInt32 := 1
def chunkEnd : UInt32 := 2
def parentNode : UInt32 := 4
def rootNode : UInt32 := 8

def rotateRight (x n : UInt32) : UInt32 := (x >>> n) ||| (x <<< (32 - n))

/-- The quarter round on four words of the state. -/
def quarter (s : Block) (a b c d : Fin 16) (mx my : UInt32) : Block :=
  let s := s.set a (s[a] + s[b] + mx)
  let s := s.set d (rotateRight (s[d] ^^^ s[a]) 16)
  let s := s.set c (s[c] + s[d])
  let s := s.set b (rotateRight (s[b] ^^^ s[c]) 12)
  let s := s.set a (s[a] + s[b] + my)
  let s := s.set d (rotateRight (s[d] ^^^ s[a]) 8)
  let s := s.set c (s[c] + s[d])
  s.set b (rotateRight (s[b] ^^^ s[c]) 7)

/-- One round: the columns of the state, then its diagonals. -/
def round (s m : Block) : Block :=
  let s := quarter s 0 4 8 12 m[0] m[1]
  let s := quarter s 1 5 9 13 m[2] m[3]
  let s := quarter s 2 6 10 14 m[4] m[5]
  let s := quarter s 3 7 11 15 m[6] m[7]
  let s := quarter s 0 5 10 15 m[8] m[9]
  let s := quarter s 1 6 11 12 m[10] m[11]
  let s := quarter s 2 7 8 13 m[12] m[13]
  quarter s 3 4 9 14 m[14] m[15]

/-- The order in which the next round takes the message words. -/
def permute (m : Block) : Block :=
  #v[m[2], m[6], m[3], m[10], m[7], m[0], m[4], m[13],
    m[1], m[11], m[12], m[5], m[9], m[14], m[15], m[8]]

def rounds : Nat → Block → Block → Block
  | 0, s, _ => s
  | n + 1, s, m => rounds n (round s m) (permute m)

/-- A compression that has not happened yet, since the root needs a flag of its own. -/
structure Node where
  chain : Words
  block : Block
  counter : UInt64
  length : UInt32
  flags : UInt32

namespace Node

/-- The eight words that a node passes on. -/
def compress (n : Node) : Words :=
  let chain := n.chain
  let s : Block :=
    #v[chain[0], chain[1], chain[2], chain[3], chain[4], chain[5], chain[6], chain[7],
      initial[0], initial[1], initial[2], initial[3],
      n.counter.toUInt32, (n.counter >>> 32).toUInt32, n.length, n.flags]
  let s := rounds 7 s n.block
  Vector.ofFn fun i : Fin 8 => s[i.val] ^^^ s[i.val + 8]

/-- The digest of the tree below a node. -/
def digest (n : Node) : Digest :=
  let words := compress { n with flags := n.flags ||| rootNode, counter := 0 }
  ⟨Vector.ofFn fun i : Fin 32 => (words[i.val / 4] >>> (8 * (i.val % 4)).toUInt32).toUInt8⟩

def parent (left right : Node) : Node where
  chain := initial
  block := (compress left ++ compress right : Vector UInt32 (8 + 8))
  counter := 0
  length := 64
  flags := parentNode

end Node

/-- Sixteen words from at most 64 bytes, zeros filling the gaps. -/
def words (bytes : List UInt8) : Block :=
  let byte (i : Nat) : UInt32 := (bytes[i]?.getD 0).toUInt32
  Vector.ofFn fun i : Fin 16 =>
    byte (4 * i) ||| (byte (4 * i + 1) <<< 8) ||| (byte (4 * i + 2) <<< 16)
      ||| (byte (4 * i + 3) <<< 24)

/-- Splits into pieces of `size` bytes; the empty input is one empty piece. -/
def pieces (size : Nat) (bytes : List UInt8) : List (List UInt8) :=
  if _h : bytes.length ≤ size ∨ size = 0 then [bytes]
  else bytes.take size :: pieces size (bytes.drop size)
termination_by bytes.length
decreasing_by simp; omega

/-- The chain of blocks of one chunk; `flags` marks the first block. -/
def chunkFrom (counter : UInt64) (chain : Words) (flags : UInt32) : List (List UInt8) → Node
  | [] => ⟨chain, words [], counter, 0, flags ||| chunkEnd⟩
  | [last] => ⟨chain, words last, counter, last.length.toUInt32, flags ||| chunkEnd⟩
  | block :: rest =>
    chunkFrom counter
      (Node.compress ⟨chain, words block, counter, block.length.toUInt32, flags⟩) 0 rest

def chunk (counter : Nat) (bytes : List UInt8) : Node :=
  chunkFrom counter.toUInt64 initial chunkStart (pieces 64 bytes)

/-- Joins neighbours; a node without one moves up as it is. -/
def join : List Node → List Node
  | left :: right :: rest => Node.parent left right :: join rest
  | nodes => nodes

/-- Joins level by level until one node is left. -/
def root : (levels : Nat) → List Node → Option Node
  | 0, nodes => nodes.head?
  | levels + 1, nodes => root levels (join nodes)

end Blake3

open Blake3 in
/-- The BLAKE3 digest of a byte string. -/
def Digest.blake3 (bytes : List UInt8) : Digest :=
  let chunks := (pieces 1024 bytes).mapIdx chunk
  match root chunks.length chunks with
  | some node => node.digest
  | none => (chunk 0 []).digest

end DatasetAlgebra
