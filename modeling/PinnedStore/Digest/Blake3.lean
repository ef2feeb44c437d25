import PinnedStore.Bytes

/-!
# BLAKE3

The hash function that names every block.  An input is cut into chunks of 1024 bytes and a chunk
into blocks of 64.  The blocks of a chunk are compressed one after the other, and the chunks are the
leaves of a binary tree in which every left subtree is complete.  Each chunk and each inner node
ends in one last compression that is left open (`Output`), because the root of the tree is
compressed with a flag of its own.

The recursions are on numbers --- blocks left, levels left --- and not on the input, so that a
closed digest can be computed inside a proof.
-/

namespace PinnedStore.Blake3

/-- Sixteen words: a message block, or the state of a compression. -/
structure Block where
  (w0 w1 w2 w3 w4 w5 w6 w7 w8 w9 w10 w11 w12 w13 w14 w15 : UInt32)

/-- Eight words: what a compression hands to the next one. -/
structure Chain where
  (w0 w1 w2 w3 w4 w5 w6 w7 : UInt32)

/-- Four words of a state: one column or one diagonal. -/
structure Quarter where
  (a b c d : UInt32)

/-- Rotation to the right; `back` is 32 less `count`. -/
@[inline] def rotate (word count back : UInt32) : UInt32 :=
  (word >>> count) ||| (word <<< back)

/-- Mixes two message words into four words of the state. -/
@[inline] def mix (a b c d x y : UInt32) : Quarter :=
  let a := a + b + x
  let d := rotate (d ^^^ a) 16 16
  let c := c + d
  let b := rotate (b ^^^ c) 12 20
  let a := a + b + y
  let d := rotate (d ^^^ a) 8 24
  let c := c + d
  let b := rotate (b ^^^ c) 7 25
  ⟨a, b, c, d⟩

/-- One round: the columns of the state, then its diagonals. -/
def Block.round (v m : Block) : Block :=
  let p := mix v.w0 v.w4 v.w8 v.w12 m.w0 m.w1
  let q := mix v.w1 v.w5 v.w9 v.w13 m.w2 m.w3
  let r := mix v.w2 v.w6 v.w10 v.w14 m.w4 m.w5
  let s := mix v.w3 v.w7 v.w11 v.w15 m.w6 m.w7
  let e := mix p.a q.b r.c s.d m.w8 m.w9
  let f := mix q.a r.b s.c p.d m.w10 m.w11
  let g := mix r.a s.b p.c q.d m.w12 m.w13
  let h := mix s.a p.b q.c r.d m.w14 m.w15
  ⟨e.a, f.a, g.a, h.a, h.b, e.b, f.b, g.b, g.c, h.c, e.c, f.c, f.d, g.d, h.d, e.d⟩

/-- The order in which the next round takes the message words. -/
def Block.permute (m : Block) : Block :=
  ⟨m.w2, m.w6, m.w3, m.w10, m.w7, m.w0, m.w4, m.w13,
    m.w1, m.w11, m.w12, m.w5, m.w9, m.w14, m.w15, m.w8⟩

/-- The words every chain starts from. -/
def start : Chain :=
  ⟨0x6A09E667, 0xBB67AE85, 0x3C6EF372, 0xA54FF53A, 0x510E527F, 0x9B05688C, 0x1F83D9AB, 0x5BE0CD19⟩

/-- One compression that is still to be made: its inputs, with the flags known so far. -/
structure Output where
  chain : Chain
  block : Block
  counter : UInt64
  length : UInt32
  flags : UInt32

/-- The flags that mark the place of a compression. -/
def chunkStart : UInt32 := 1
/-- Marks the last block of a chunk. -/
def chunkEnd : UInt32 := 2
/-- Marks an inner node of the tree. -/
def parent : UInt32 := 4
/-- Marks the root of the tree. -/
def root : UInt32 := 8

/-- Makes the compression, with further flags. -/
def Output.compress (o : Output) (flags : UInt32) : Chain :=
  let c := o.chain
  let v : Block :=
    ⟨c.w0, c.w1, c.w2, c.w3, c.w4, c.w5, c.w6, c.w7,
      start.w0, start.w1, start.w2, start.w3,
      o.counter.toUInt32, (o.counter >>> 32).toUInt32, o.length, o.flags ||| flags⟩
  let m := o.block
  let v := v.round m
  let m := m.permute
  let v := v.round m
  let m := m.permute
  let v := v.round m
  let m := m.permute
  let v := v.round m
  let m := m.permute
  let v := v.round m
  let m := m.permute
  let v := v.round m
  let m := m.permute
  let v := v.round m
  ⟨v.w0 ^^^ v.w8, v.w1 ^^^ v.w9, v.w2 ^^^ v.w10, v.w3 ^^^ v.w11,
    v.w4 ^^^ v.w12, v.w5 ^^^ v.w13, v.w6 ^^^ v.w14, v.w7 ^^^ v.w15⟩

/-- The first word of the bytes, little end first and zero past the end, and the bytes after it. -/
def takeWord : Bytes → UInt32 × Bytes
  | a :: b :: c :: d :: rest =>
    (a.toUInt32 ||| (b.toUInt32 <<< 8) ||| (c.toUInt32 <<< 16) ||| (d.toUInt32 <<< 24), rest)
  | [a, b, c] => (a.toUInt32 ||| (b.toUInt32 <<< 8) ||| (c.toUInt32 <<< 16), [])
  | [a, b] => (a.toUInt32 ||| (b.toUInt32 <<< 8), [])
  | [a] => (a.toUInt32, [])
  | [] => (0, [])

/-- The first 64 bytes as a message block, zero past the end. -/
def Block.ofBytes (bytes : Bytes) : Block :=
  let (w0, bytes) := takeWord bytes
  let (w1, bytes) := takeWord bytes
  let (w2, bytes) := takeWord bytes
  let (w3, bytes) := takeWord bytes
  let (w4, bytes) := takeWord bytes
  let (w5, bytes) := takeWord bytes
  let (w6, bytes) := takeWord bytes
  let (w7, bytes) := takeWord bytes
  let (w8, bytes) := takeWord bytes
  let (w9, bytes) := takeWord bytes
  let (w10, bytes) := takeWord bytes
  let (w11, bytes) := takeWord bytes
  let (w12, bytes) := takeWord bytes
  let (w13, bytes) := takeWord bytes
  let (w14, bytes) := takeWord bytes
  let (w15, _) := takeWord bytes
  ⟨w0, w1, w2, w3, w4, w5, w6, w7, w8, w9, w10, w11, w12, w13, w14, w15⟩

/-- Two chains side by side are the message of an inner node. -/
def Block.ofChains (l r : Chain) : Block :=
  ⟨l.w0, l.w1, l.w2, l.w3, l.w4, l.w5, l.w6, l.w7, r.w0, r.w1, r.w2, r.w3, r.w4, r.w5, r.w6, r.w7⟩

/-- Compresses `blocks` full blocks of a chunk and leaves open the one after them.  `flags` marks
the first block of the chunk and no later one. -/
def chunkFrom : (blocks : Nat) → (counter : UInt64) → Chain → (flags : UInt32) → Bytes → Output
  | 0, counter, chain, flags, bytes =>
    ⟨chain, .ofBytes bytes, counter, bytes.length.toUInt32, flags ||| chunkEnd⟩
  | blocks + 1, counter, chain, flags, bytes =>
    let next := Output.compress ⟨chain, .ofBytes bytes, counter, 64, flags⟩ 0
    chunkFrom blocks counter next 0 (bytes.drop 64)

/-- A leaf of the tree: at most 1024 bytes. -/
def chunk (counter : UInt64) (bytes : Bytes) : Output :=
  chunkFrom ((bytes.length - 1) / 64) counter start chunkStart bytes

/-- The subtree over at most `2 ^ levels` chunks, the first of them numbered `counter`. -/
def subtree : (levels : Nat) → (counter : UInt64) → (length : Nat) → Bytes → Output
  | 0, counter, _, bytes => chunk counter bytes
  | levels + 1, counter, length, bytes =>
    let half := 1024 * Nat.pow 2 levels
    if length ≤ half then subtree levels counter length bytes
    else
      let l := (subtree levels counter half (bytes.take half)).compress 0
      let r := (subtree levels (counter + (Nat.pow 2 levels).toUInt64) (length - half)
        (bytes.drop half)).compress 0
      ⟨start, .ofChains l r, 0, 64, parent⟩

/-- The four bytes of a word, little end first. -/
def wordBytes (word : UInt32) : Bytes :=
  [word.toUInt8, (word >>> 8).toUInt8, (word >>> 16).toUInt8, (word >>> 24).toUInt8]

/-- The bytes of a chain. -/
def Chain.toBytes (c : Chain) : Bytes :=
  wordBytes c.w0 ++ wordBytes c.w1 ++ wordBytes c.w2 ++ wordBytes c.w3
    ++ wordBytes c.w4 ++ wordBytes c.w5 ++ wordBytes c.w6 ++ wordBytes c.w7

/-- The 32 bytes of the BLAKE3 hash. -/
def hash (bytes : Bytes) : Bytes :=
  ((subtree bytes.length.log2 0 bytes.length bytes).compress root).toBytes

theorem length_hash (bytes : Bytes) : (hash bytes).length = 32 := rfl

end PinnedStore.Blake3
