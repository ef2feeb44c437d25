import Std.Data.ExtTreeMap
import PinnedStore.Cbor.Record

/-!
# Records

Small values under text keys, and the file that keeps them.  The file begins with a signature, so
that no other file is mistaken for one; an empty file keeps no records.

* `Records`: the values.
* `Records.encode`, `Records.decode?`: the content of the file.
-/

namespace PinnedStore

/-- Small values under text keys. -/
abbrev Records := Std.ExtTreeMap String Bytes

namespace Records

/-- What a file of records begins with. -/
def signature : Bytes := Bytes.ofText "pinned records\n"

/-- A key and its value. -/
def encodeRecord (record : String × Bytes) : Bytes :=
  Cbor.head .array 2 ++ Cbor.text record.1 ++ Cbor.byteString record.2

/-- The content of a file of records. -/
def encode (records : Records) : Bytes :=
  signature ++ Cbor.array encodeRecord records.toList

/-- The records in a file, unless it is a file of another kind. -/
def decode? (content : Bytes) : Option Records :=
  if content.isEmpty then some ∅
  else if signature.isPrefixOf content then
    match Cbor.readArray (Cbor.readPair Cbor.readText Cbor.readBytes)
        (content.drop signature.length) with
    | .ok (records, []) => some (Std.ExtTreeMap.ofList records)
    | _ => none
  else none

end Records

end PinnedStore
