import PinnedStore.PinSet.Codec
import PinnedStore.Text.Duration

/-!
# Pins

A pin says that a node must be kept: by itself, or with everything below it.  Nodes are also kept
for two reasons nobody asked for: they are part of the record in which the pins are stored, or they
lie below a pinned node.

* `Reason`: why a node is kept.
* `Mode`: the ways of being pinned, and of not being pinned.
* `Query`: which reasons a question is about.
* `Error`: why a pin is not set, removed or read.
* `Settings`: how the record is written and how long reading it may take.
-/

namespace PinnedStore.Pin

/-- The ways of being pinned, and of not being pinned. -/
inductive Mode where
  | recursive | direct | internal | indirect | notPinned
  deriving DecidableEq, Repr

namespace Mode

/-- The name of a mode. -/
def label : Mode → String
  | .recursive => "recursive"
  | .direct => "direct"
  | .internal => "internal"
  | .indirect => "indirect"
  | .notPinned => "not pinned"

/-- The mode of a name. -/
def ofLabel? (text : String) : Option Mode :=
  [recursive, direct, internal, indirect, notPinned].find? (·.label == text)

end Mode

/-- Why a node is kept. -/
inductive Reason where
  /-- It is pinned with everything below it. -/
  | recursive
  /-- It is pinned by itself. -/
  | direct
  /-- It is part of the pin record. -/
  | internal
  /-- It lies below this node, which is pinned with everything below it. -/
  | indirect (root : Digest)
  deriving DecidableEq

namespace Reason

/-- The mode of a reason. -/
def mode : Reason → Mode
  | .recursive => .recursive
  | .direct => .direct
  | .internal => .internal
  | .indirect _ => .indirect

/-- The words for a reason. -/
def message : Reason → String
  | .indirect root => s!"indirect through {root}"
  | reason => reason.mode.label

end Reason

/-- Which reasons a question is about. -/
inductive Query where
  | all | direct | recursive | internal | indirect
  deriving DecidableEq, Repr

namespace Query

/-- The name of a query. -/
def label : Query → String
  | .all => "all"
  | .direct => "direct"
  | .recursive => "recursive"
  | .internal => "internal"
  | .indirect => "indirect"

/-- Every query. -/
def every : List Query := [all, direct, recursive, internal, indirect]

/-- The query of a name. -/
def ofLabel? (text : String) : Option Query :=
  every.find? (·.label == text)

theorem ofLabel?_label (q : Query) : ofLabel? q.label = some q := by
  cases q <;> rfl

end Query

/-- What is wrong with the pin record. -/
inductive RecordFault where
  /-- The pointer to it is no digest. -/
  | malformedRoot (e : Digest.Error)
  /-- It could not be read within so many milliseconds. -/
  | timedOut (limit : Nat) (root : Digest)
  /-- Its root can not be read. -/
  | unreadableRoot (f : Failure)
  /-- Its set of recursive pins can not be read. -/
  | unreadableRecursive (e : PinSet.Error)
  /-- Its set of direct pins can not be read. -/
  | unreadableDirect (e : PinSet.Error)
  deriving DecidableEq

/-- The words for what is wrong with the pin record. -/
def RecordFault.message : RecordFault → String
  | .malformedRoot e => s!"malformed pin root: {e.message}"
  | .timedOut limit root => s!"timed out after {Duration.text limit} reading pin root {root}"
  | .unreadableRoot f => s!"cannot find pinning root object: {f.message}"
  | .unreadableRecursive e => s!"cannot load recursive pins: {e.message}"
  | .unreadableDirect e => s!"cannot load direct pins: {e.message}"

/-- Why a pin is not set, removed or read. -/
inductive Error where
  /-- It is not pinned. -/
  | notPinned
  /-- A direct pin was asked for, but it is pinned recursively. -/
  | alreadyRecursive (d : Digest)
  /-- A recursive pin is only removed where that is asked for. -/
  | recursive (d : Digest)
  /-- It is kept because of another pin. -/
  | indirect (d root : Digest)
  /-- It is part of the pin record. -/
  | internal (d : Digest)
  /-- A part of the pin record can not be pinned recursively. -/
  | recordNode (d : Digest)
  /-- The text is no query. -/
  | invalidQuery (text : String)
  /-- There is no pin record. -/
  | noRecord
  /-- The pin record can not be read. -/
  | corruptRecord (fault : RecordFault)
  /-- A node could not be read. -/
  | fetch (f : Failure)
  /-- A pin set could not be written. -/
  | set (e : PinSet.Error)
  /-- A node or the pointer could not be read or written. -/
  | store (f : Failure)
  deriving DecidableEq

namespace Error

/-- The words for an error, outermost first. -/
def chain : Error → List String
  | .notPinned => ["not pinned"]
  | .alreadyRecursive d => [s!"{d} already pinned recursively"]
  | .recursive d => [s!"{d} is pinned recursively"]
  | .indirect d root => [s!"{d} is pinned indirectly under {root}"]
  | .internal d => [s!"{d} is an internal pin and cannot be unpinned"]
  | .recordNode d => [s!"{d} belongs to the pin record and cannot be pinned recursively"]
  | .invalidQuery text =>
    [s!"invalid type '{text}', must be one of "
      ++ "\x7bdirect, indirect, recursive, internal, all\x7d"]
  | .noRecord => ["cannot load pin state: no pin root recorded"]
  | .corruptRecord fault => [s!"cannot load pin state: {fault.message}"]
  | .fetch f | .store f => f.chain
  | .set e => e.chain

/-- An error in one line. -/
def message (e : Error) : String := ": ".intercalate e.chain

/-- Whether an error only says that something is not pinned the way it was asked about. -/
def isConflict : Error → Bool
  | .alreadyRecursive _ | .recursive _ | .indirect .. | .internal _ | .recordNode _ => true
  | _ => false

end Error

namespace Query

/-- Reads a query. -/
def parse (text : String) : Except Error Query :=
  match ofLabel? text with
  | some q => .ok q
  | none => .error (.invalidQuery text)

end Query

/-- How the pin record is written and how long reading it may take. -/
structure Settings where
  /-- The milliseconds that reading the record may take. -/
  loadTimeout : Nat := 5000
  /-- The number of buckets that pin sets are split into. -/
  fanout : UInt32 := 256
  /-- The number of entries up to which a pin set is not split. -/
  maxItems : Nat := 8192
  deriving DecidableEq, Repr

/-- The codec of pin sets under these settings. -/
def Settings.codec (s : Settings) : Except PinSet.Codec.Invalid PinSet.Codec :=
  PinSet.Codec.make? s.fanout s.maxItems

end PinnedStore.Pin
