import Std.Data.ExtTreeSet
import PinnedStore.Text.Blank
import PinnedStore.Text.Hex
import PinnedStore.Digest.Blake3

/-!
# Digests

Every block, and with it every node, is named by the BLAKE3 hash of its bytes.  A digest is those 32
bytes; digests are ordered byte by byte, and that order is the one in which sets of them are listed.

* `Digest.of`: the name of a byte string.
* `Digest.ofBytes`, `Digest.parse`: reading a digest from bytes and from text.
* `Digests`: finite sets of digests, extensional and listed in ascending order.
-/

namespace PinnedStore

/-- The name of a block: thirty-two bytes. -/
structure Digest where
  /-- The bytes of the name. -/
  bytes : Bytes
  length_bytes : bytes.length = 32
  deriving DecidableEq

namespace Digest

/-- The name of a byte string: its BLAKE3 hash. -/
def of (data : Bytes) : Digest :=
  ⟨Blake3.hash data, Blake3.length_hash data⟩

@[ext] theorem ext {a b : Digest} (h : a.bytes = b.bytes) : a = b := by
  cases a; cases b; cases h; rfl

/-! ## Order -/

instance : Ord Digest := ⟨fun a b => compare a.bytes b.bytes⟩

theorem compare_def (a b : Digest) : compare a b = compare a.bytes b.bytes := rfl

instance : Std.TransOrd Digest where
  eq_swap {a b} := @Std.OrientedOrd.eq_swap Bytes _ _ a.bytes b.bytes
  isLE_trans {a b c} := @Std.TransOrd.isLE_trans Bytes _ _ a.bytes b.bytes c.bytes

instance : Std.LawfulEqOrd Digest where
  compare_self {a} := @Std.ReflOrd.compare_self Bytes _ _ a.bytes
  eq_of_compare {a b} h := ext (@Std.LawfulEqOrd.eq_of_compare Bytes _ _ a.bytes b.bytes h)

instance : LT Digest := ltOfOrd
instance : LE Digest := leOfOrd

/-! ## Text -/

/-- The 64 lower-case hexadecimal digits of a digest. -/
def toHex (d : Digest) : String :=
  Hex.encode d.bytes

/-- The digits of the first five bytes: enough to tell digests apart in a log line. -/
def short (d : Digest) : String :=
  Hex.encode (d.bytes.take 5)

instance : ToString Digest := ⟨toHex⟩

/-- Why something is not a digest. -/
inductive Error where
  /-- There are not 32 bytes, but this many. -/
  | length (found : Nat)
  /-- The text is not made of hexadecimal digits. -/
  | hex (cause : Hex.Error)
  deriving DecidableEq, Repr

/-- The words for a failure to read a digest. -/
def Error.message : Error → String
  | .length found => s!"invalid hash length: expected 32 bytes, got {found}"
  | .hex cause => s!"invalid hex hash: {cause.message}"

/-- Reads a digest from bytes of any number. -/
def ofBytes (bytes : Bytes) : Except Error Digest :=
  if h : bytes.length = 32 then .ok ⟨bytes, h⟩ else .error (.length bytes.length)

/-- Reads a digest from a text; white space at the ends and the case of the digits do not matter. -/
def parse (text : String) : Except Error Digest :=
  match Hex.decode (Bytes.ofText (Blank.trim text)) with
  | .ok bytes => ofBytes bytes
  | .error cause => .error (.hex cause)

@[simp] theorem ofBytes_bytes (d : Digest) : ofBytes d.bytes = .ok d := by
  simp [ofBytes, d.length_bytes]

end Digest

/-- A finite set of digests. -/
abbrev Digests := Std.ExtTreeSet Digest

theorem Digests.mem_ofList {ds : List Digest} {d : Digest} :
    d ∈ (Std.ExtTreeSet.ofList ds : Digests) ↔ d ∈ ds := by
  rw [Std.ExtTreeSet.mem_ofList, List.contains_iff_mem]

end PinnedStore
