import PinnedStore.Log
import PinnedStore.Storage.ObjectStore
import PinnedStore.Storage.Records

/-!
# Worlds

Everything a program of this library can read or change: the object store, the records, the pin
state held in memory, and what has been said so far.  A world also holds how its storage is going to
behave, because every law about failures and crashes speaks about the same programs running in a
world whose storage fails, stops or lies.

* `Operation`: one call on the storage.
* `Verdict`, `Conduct`: what becomes of each call.  A call fails without effect, or the run ends
  with it, or it goes ahead.  The call's number in the run decides together with the call itself.
* `Lie`: storage that reports success and does something else.
* `Pins`: the pin state.
* `World`: all of it.
-/

namespace PinnedStore

/-- One call on the storage. -/
inductive Operation where
  | isThere (path : String)
  | put (path : String)
  | read (path : String)
  | size (path : String)
  | list
  | delete (path : String)
  | getRecord (key : String)
  | putRecord (key : String)
  | deleteRecord (key : String)
  deriving DecidableEq, Repr

/-- What becomes of a call. -/
inductive Verdict where
  /-- It is carried out. -/
  | proceed
  /-- It fails and has no effect. -/
  | fail (f : Failure)
  /-- It is never reached: the run ends before it. -/
  | halt

/-- A way in which storage reports success and does something else. -/
inductive Lie where
  /-- Everything is said to be there. -/
  | presence
  /-- Writes store nothing. -/
  | writes
  /-- Writes onto an object that is there store nothing. -/
  | overwrites
  /-- An object that is not there reads as no bytes. -/
  | absence
  /-- Reads ignore where they should start. -/
  | offsets
  /-- Reads ignore how much they should give at most. -/
  | limits
  /-- Sizes are one too large. -/
  | sizes
  /-- Nothing is listed. -/
  | listing
  /-- Listed paths have the other slash. -/
  | separators
  /-- Removals remove nothing. -/
  | removals
  /-- Every record reads as `stale`. -/
  | recordReads
  /-- Record writes store nothing. -/
  | recordWrites
  /-- Record writes onto a record that is there store nothing. -/
  | recordOverwrites
  /-- Record removals remove nothing. -/
  | recordRemovals
  deriving DecidableEq, Repr

/-- How the storage behaves. -/
structure Conduct where
  /-- What becomes of the call of this number. -/
  verdict : Nat → Operation → Verdict
  /-- The lies it tells. -/
  lies : List Lie
  /-- Whether it is so slow that no deadline is met. -/
  stalled : Bool

namespace Conduct

/-- Storage that does what it is asked to do. -/
def honest : Conduct := ⟨fun _ _ => .proceed, [], false⟩

/-- Whether a lie is told. -/
def tells (c : Conduct) (lie : Lie) : Bool := c.lies.contains lie

end Conduct

/-- The pin state held in memory. -/
structure Pins where
  /-- Nodes to be kept with everything below them. -/
  recursive : Digests
  /-- Nodes to be kept by themselves. -/
  direct : Digests
  /-- The nodes of the record that is in force, its root included. -/
  internal : Digests
  /-- The root of the record that is in force. -/
  root : Option Digest

/-- No pins and no record. -/
def Pins.none : Pins := ⟨∅, ∅, ∅, Option.none⟩

/-- What a program can read and change. -/
structure World where
  store : ObjectStore
  records : Records
  pins : Pins
  conduct : Conduct
  /-- The number of storage calls made so far. -/
  clock : Nat
  /-- What has been said so far, the newest first. -/
  journal : List Log.Notice

namespace World

/-- A world with this storage, no pins, and an empty journal. -/
def fresh (store : ObjectStore) (records : Records) : World :=
  ⟨store, records, .none, .honest, 0, []⟩

end World

end PinnedStore
