import PinnedStore.Disk.Basic
import PinnedStore.Pin.Basic
import PinnedStore.Toml.Document

/-!
# Repository configuration

A repository is a directory with a configuration file in it, which says where the blocks and the
records are and how pins are kept.  Paths in the file are seen from the repository.

Tables of the file that mean nothing to the library are passed over, and so are fields of its own
tables that it does not know.  A table can also be written as an array of its values, in the order
of its fields; then only as much of it is read as is needed, except in the table of the store, where
nothing may be left over.

* `Configuration.ofItems?`: the configuration that a document is about.
* `Configuration.load`: the configuration of a repository.
-/

namespace PinnedStore.Repository

/-- The name of the configuration file. -/
def configurationFile : List Char := "anchor.toml".toList

/-- The path of the configuration file of a repository. -/
def configurationPath (repository : List Char) : List Char :=
  Path.join repository configurationFile

/-- Where blocks are. -/
inductive StorePlace where
  /-- In memory, so that they are gone when the run ends. -/
  | memory
  /-- Below a directory. -/
  | directory (path : List Char)
  deriving DecidableEq

/-- What a repository is made of. -/
structure Configuration where
  store : StorePlace
  /-- The directory of the file that keeps the records. -/
  records : List Char
  pins : Pin.Settings
  deriving DecidableEq

namespace StorePlace

/-- Reads where blocks are. -/
def ofValue? : Toml.Value → Option StorePlace
  | .table _ fields =>
    match Toml.Items.text? fields "type", Toml.Items.text? fields "base_path" with
    | some "local", some path => some (.directory path.toList)
    | some "memory", _ => some .memory
    | _, _ => none
  | .array _ elements _ =>
    match elements.map Toml.Value.text? with
    | [some "local", some path] => some (.directory path.toList)
    | [some "memory"] => some .memory
    | _ => none
  | _ => none

/-- The place as seen from a directory. -/
def below (directory : List Char) : StorePlace → StorePlace
  | .memory => .memory
  | .directory path => .directory (Path.join directory path)

end StorePlace

/-! ## Settings of pins -/

/-- Reads a number up to `most`; what is not given is `default`. -/
def numberOr (default most : Nat) : Option Toml.Value → Option Nat
  | none => some default
  | some value => do
    let n ← value.integer?
    if 0 ≤ n ∧ n.toNat ≤ most then some n.toNat else none

/-- Reads the settings of pins from the values that are given for them. -/
def settingsOfFields? (loadTimeout fanout maxItems : Option Toml.Value) : Option Pin.Settings := do
  let default : Pin.Settings := {}
  let loadTimeout ← numberOr default.loadTimeout (UInt64.size - 1) loadTimeout
  let fanout ← numberOr default.fanout.toNat (UInt32.size - 1) fanout
  let maxItems ← numberOr default.maxItems (UInt64.size - 1) maxItems
  return ⟨loadTimeout, fanout.toUInt32, maxItems⟩

/-- Reads the settings of pins from the fields of their table. -/
def settingsOfItems? (fields : Toml.Items) : Option Pin.Settings :=
  settingsOfFields? (fields.get? "load_timeout_ms") (fields.get? "fanout") (fields.get? "max_items")

/-- Reads the settings of pins.  A date or time of day counts as a table of fields that mean
nothing. -/
def settingsOfValue? : Toml.Value → Option Pin.Settings
  | .table _ fields => settingsOfItems? fields
  | .array _ elements _ | .tables elements =>
    settingsOfFields? elements[0]? elements[1]? elements[2]?
  | .scalar .moment _ _ => settingsOfItems? []
  | _ => none

/-- Reads the directory of the records. -/
def recordsOfValue? : Toml.Value → Option (List Char)
  | .table _ fields => (Toml.Items.text? fields "path").map String.toList
  | .array _ elements _ => (elements.head?.bind Toml.Value.text?).map String.toList
  | _ => none

/-! ## Documents -/

/-- Whether a number can be read, an integer as one of 128 bits. -/
def isWide : Toml.Number → Bool
  | .integer n => -0x80000000000000000000000000000000 ≤ n && n < 0x100000000000000000000000000000000
  | .float => true
  | .void => false

/-- Whether a number can be read, an integer as one of 64 bits. -/
def isNarrow : Toml.Number → Bool
  | .integer n => -0x8000000000000000 ≤ n && n < 0x10000000000000000
  | .float => true
  | .void => false

/-- Whether the numbers in a value can be read.  Arrays that stand for the tables of records and of
pins are not read in full, and those of their numbers that are read have bounds of their own. -/
def isReadable (name : String) (value : Toml.Value) : Bool :=
  match name, value with
  | "store", _ => value.numbersAll isNarrow
  | "datastore", .array .. | "pinner", .array .. => true
  | _, _ => value.numbersAll isWide

/-- The table in a text. -/
def itemsOfText? (text : String) : Option Toml.Items := do
  return (← Toml.Document.read? text).items

/-- Reads the settings of pins from what stands in their table. -/
def settingsOfText? (text : String) : Option Pin.Settings := do
  let items ← itemsOfText? text
  guard (items.numbersAll isWide)
  settingsOfItems? items

namespace Configuration

/-- The configuration that a document is about, with its paths as they are written. -/
def ofItems? (items : Toml.Items) : Option Configuration := do
  guard (items.all fun (key, value) => isReadable key.name value)
  let store ← StorePlace.ofValue? (← items.get? "store")
  let records ← recordsOfValue? (← items.get? "datastore")
  let pins ← match items.get? "pinner" with
    | none => some {}
    | some value => settingsOfValue? value
  return ⟨store, records, pins⟩

/-- The configuration with its paths as seen from a directory. -/
def below (directory : List Char) (c : Configuration) : Configuration :=
  { c with store := c.store.below directory, records := Path.join directory c.records }

/-- The directories that a repository is made of. -/
def places (c : Configuration) : List (List Char) :=
  match c.store with
  | .memory => [c.records]
  | .directory path => [path, c.records]

/-- The configuration in a text. -/
def ofText? (text : String) : Option Configuration := do
  ofItems? (← itemsOfText? text)

end Configuration

/-- The text of a file. -/
def readText (disk : Disk) (path : List Char) : Except IoError String := do
  match Bytes.toText? (← disk.content path) with
  | some text => return text
  | none => throw .invalidText

/-- The configuration of a repository. -/
def Configuration.load (repository : List Char) (disk : Disk) : Except Failure Configuration :=
  let path := configurationPath repository
  match readText disk path with
  | .error e =>
    .error ((Failure.io e).within
      s!"failed to read {String.ofList path}; run `anchor init` first")
  | .ok text =>
    match ofText? text with
    | none => .error ((Failure.other "not a configuration").within
        s!"could not parse {String.ofList path}")
    | some c => .ok (c.below repository)

end PinnedStore.Repository
