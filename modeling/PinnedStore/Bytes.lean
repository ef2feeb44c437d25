/-!
# Byte strings

Everything the store keeps is a finite sequence of bytes.  Sequences are lists, so that the laws of
the formats built on them are inductions, and the few places that want an array convert on the spot.

* `Bytes.ofText`, `Bytes.toText?`: a text and the bytes of its UTF-8 form.
* `Bytes.toText?_ofText`: reading back the bytes of a text gives the text.
-/

namespace PinnedStore

/-- A finite sequence of bytes. -/
abbrev Bytes := List UInt8

namespace Bytes

/-- The UTF-8 form of a text. -/
def ofText (text : String) : Bytes :=
  text.toByteArray.data.toList

/-- The text whose UTF-8 form these bytes are, if they are the form of any. -/
def toText? (bytes : Bytes) : Option String :=
  String.fromUTF8? ⟨bytes.toArray⟩

@[simp] theorem toText?_ofText (text : String) : toText? (ofText text) = some text := by
  have valid : ByteArray.IsValidUTF8 ⟨(ofText text).toArray⟩ := text.isValidUTF8
  simp only [toText?, String.fromUTF8?]
  rw [dif_pos valid]
  rfl

/-- The bytes from `offset` on, at most `limit` of them if there is a limit. -/
def window (offset : Nat) (limit : Option Nat) (bytes : Bytes) : Bytes :=
  match limit with
  | none => bytes.drop offset
  | some most => (bytes.drop offset).take most

end Bytes

end PinnedStore
