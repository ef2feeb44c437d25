import PinnedStore.Pin.Change
import PinnedStore.PinSet.Read
import PinnedStore.PinSet.Write

/-!
# The pin record

The pins are made durable as a record: a pin set of the direct pins, a pin set of the recursive
ones, and a root node that points at both.  A pointer outside the store names the root of the record
in force.

A flush writes a whole new record before it moves the pointer, and only then removes what the old
record alone was made of.  So at every moment the pointer names a complete record.  The nodes of the
record count as kept; they are the internal pins.

* `flush`: writes a new record and puts it in force.
* `load`: reads the record in force.
* `openRecord`: the same, but starts without pins where there is no record.
-/

namespace PinnedStore.Pin

open Program

/-- The key of the pointer. -/
def pointerKey : String := "/local/pins"

/-- The name of the link to the direct pins. -/
def directName : String := "direct"

/-- The name of the link to the recursive pins. -/
def recursiveName : String := "recursive"

/-- The root node of a record. -/
def rootNode (direct recursive : Digest) : Node :=
  (Node.empty.addLink directName direct).addLink recursiveName recursive

/-- The nodes of the old record that are of no use any more.  The empty node may be part of anything
and is never among them, and neither is a node that is pinned. -/
def stale (pins : Pins) (internal : Digests) : List Digest :=
  pins.internal.toList.filter fun d =>
    d ≠ Node.emptyDigest && d ∉ internal && d ∉ pins.direct && d ∉ pins.recursive

/-- Removes a node of the old record.  If that fails the node stays. -/
def removeStale (d : Digest) : Program Error Unit := do
  match ← attempt (Graph.remove d) with
  | .ok () => return ()
  | .error f => log (.staleKept d f)

/-- Writes one of the two sets. -/
def writeSet (codec : PinSet.Codec) (set : Digests) : Program Error (Digest × List Digest) :=
  mapError (fun e => .set e.cause) (codec.writeSet set.toList)

/-- Writes a new record, puts it in force, and removes what only the old one needed.  The answer is
the root of the new record. -/
def flush (codec : PinSet.Codec) : Program Error Digest := do
  let pins ← current
  let (direct, directNodes) ← writeSet codec pins.direct
  let (recursive, recursiveNodes) ← writeSet codec pins.recursive
  let root ← mapError .store (Graph.add (rootNode direct recursive))
  let internal := Std.ExtTreeSet.ofList (root :: directNodes ++ recursiveNodes)
  mapError .store (Storage.putRecord pointerKey root.bytes)
  let stale := stale pins internal
  forEach stale removeStale
  log (.recordFlushed root pins.direct.size pins.recursive.size internal.size stale.length)
  changePins fun pins => { pins with internal, root := some root }
  return root

/-- Runs a program that has to meet a deadline. -/
def beforeDeadline {ε α : Type} (late : ε) (p : Program ε α) : Program ε α := do
  if ← inspect fun w => w.conduct.stalled then fail late else p

/-- Reads the record with this root. -/
def readRecord (root : Digest) : Program Error Pins := do
  let node ← mapError (fun f => .corruptRecord (.unreadableRoot f)) (Graph.get root)
  let (recursive, recursiveNodes) ←
    mapError (fun e => .corruptRecord (.unreadableRecursive e.cause))
      (PinSet.readSet node recursiveName)
  let (direct, directNodes) ←
    mapError (fun e => .corruptRecord (.unreadableDirect e.cause)) (PinSet.readSet node directName)
  let internal := Std.ExtTreeSet.ofList (root :: recursiveNodes ++ directNodes)
  return ⟨recursive, direct, internal, some root⟩

/-- Takes the pins from the record in force, which has to be read within so many milliseconds. -/
def load (timeout : Nat) : Program Error Unit := do
  match ← mapError .store (Storage.getRecord pointerKey) with
  | none => fail .noRecord
  | some raw =>
    match Digest.ofBytes raw with
    | .error e => fail (.corruptRecord (.malformedRoot e))
    | .ok root =>
      let pins ← beforeDeadline (.corruptRecord (.timedOut timeout root)) (readRecord root)
      log (.recordLoaded root pins.recursive.size pins.direct.size pins.internal.size)
      changePins fun _ => pins

/-- Takes the pins from the record in force, or starts without pins if there is none. -/
def openRecord (timeout : Nat) : Program Error Unit := do
  match ← attempt (load timeout) with
  | .ok () => return ()
  | .error .noRecord =>
    log .startedEmpty
    changePins fun _ => .none
  | .error e => fail e

end PinnedStore.Pin
