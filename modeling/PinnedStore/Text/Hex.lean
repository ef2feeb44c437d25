import PinnedStore.Bytes

/-!
# Hexadecimal text

Bytes are shown as two lower-case hexadecimal digits each.  Reading takes either case and says where
a text goes wrong: an odd number of bytes is reported before any foreign symbol is, and a foreign
symbol is reported by the offset of its first byte in the UTF-8 form.
-/

namespace PinnedStore.Hex

/-- The lower-case digit of a value below sixteen. -/
def digit (value : Nat) : Char :=
  if value < 10 then Char.ofNat (48 + value) else Char.ofNat (87 + value)

/-- The two digits of a byte, the high one first. -/
def digits (byte : UInt8) : List Char :=
  [digit (byte.toNat / 16), digit (byte.toNat % 16)]

/-- The digits of a byte string. -/
def chars (bytes : Bytes) : List Char :=
  bytes.flatMap digits

/-- The text of a byte string. -/
def encode (bytes : Bytes) : String :=
  String.ofList (chars bytes)

/-- The value of the ASCII byte of a hexadecimal digit of either case. -/
def value? (symbol : UInt8) : Option UInt8 :=
  if 48 ≤ symbol ∧ symbol ≤ 57 then some (symbol - 48)
  else if 97 ≤ symbol ∧ symbol ≤ 102 then some (symbol - 87)
  else if 65 ≤ symbol ∧ symbol ≤ 70 then some (symbol - 55)
  else none

/-- Why a text is not the text of a byte string. -/
inductive Error where
  /-- The text has an odd number of bytes; the last one, at `offset`, has no partner. -/
  | length (offset : Nat)
  /-- The byte at `offset` is no digit. -/
  | symbol (offset : Nat)
  deriving DecidableEq, Repr

/-- The words for a failure to read. -/
def Error.message : Error → String
  | .length offset => s!"invalid length at {offset}"
  | .symbol offset => s!"invalid symbol at {offset}"

/-- Reads digits in pairs; `offset` counts the bytes read before. -/
def decodePairs (offset : Nat) : Bytes → Except Error Bytes
  | high :: low :: rest =>
    match value? high, value? low with
    | some h, some l => (decodePairs (offset + 2) rest).map ((16 * h + l) :: ·)
    | none, _ => .error (.symbol offset)
    | some _, none => .error (.symbol (offset + 1))
  | _ => .ok []

/-- Reads the UTF-8 form of a text as hexadecimal digits. -/
def decode (symbols : Bytes) : Except Error Bytes :=
  if symbols.length % 2 = 0 then decodePairs 0 symbols
  else .error (.length (symbols.length - 1))

end PinnedStore.Hex
