import PinnedStore.Pin.Listing
import PinnedStore.Pin.Record
import PinnedStore.Pin.Verify

/-!
# Commands

What can be done in a repository.  Every command begins with the pins of the record in force, and a
command that changes pins ends with a new record; so all that one command leaves for the next is in
the storage.

* `Command`: what can be done.
* `Answer`, `Error`: what comes of it, and the words for that.
* `Command.run`: does it, with the pins as they are.
* `Command.perform`: reads the pins first.
-/

namespace PinnedStore.Repository

open Program

/-- What can be done in a repository. -/
inductive Command where
  /-- Store the content of a file as a node with links. -/
  | put (path : List Char) (links : List Link)
  /-- Give the data of a node. -/
  | get (d : Digest)
  /-- Give the links of a node. -/
  | links (d : Digest)
  /-- Set a pin. -/
  | pin (d : Digest) (recursive : Bool)
  /-- Remove a pin. -/
  | unpin (d : Digest) (recursive : Bool)
  /-- List pins. -/
  | list (q : Pin.Query)
  /-- Check that everything is there that the pins ask for. -/
  | verify
  /-- Remove everything that nobody needs, or say what that would be. -/
  | collect (dryRun : Bool)
  deriving DecidableEq

/-- What comes of a command, or of the setting up of a repository. -/
inductive Answer where
  | ready
  | stored (d : Digest)
  | data (bytes : Bytes)
  | links (links : List Link)
  | pinned (d : Digest) (recursive : Bool)
  | unpinned (d : Digest)
  | pins (pins : List (Digest × Pin.Mode))
  | verified
  | collected (report : Collect.Report)
  | collectible (report : Collect.Report)

namespace Answer

/-- Lines of text. -/
def lines (texts : List String) : Bytes :=
  Bytes.ofText (String.join (texts.map (· ++ "\n")))

/-- An answer as it is shown. -/
def bytes : Answer → Bytes
  | ready => []
  | stored d => lines [d.toHex]
  | data bytes => bytes
  | links ls => lines (ls.map fun l => s!"{l.target} {l.name}")
  | pinned d recursive => lines [s!"pinned {d} " ++ if recursive then "recursively" else "directly"]
  | unpinned d => lines [s!"unpinned {d}"]
  | pins ps => lines (ps.map fun (d, mode) => s!"{d} {mode.label}")
  | verified => lines ["all pins verified"]
  | collected report => lines [s!"deleted {report.deleted} blocks, kept {report.kept}"]
  | collectible report =>
    lines (s!"{report.candidates.length} of {report.total} blocks would be deleted"
      :: report.candidates.map Digest.toHex)

end Answer

/-- Why a command fails. -/
inductive Error where
  /-- A file, a block or a record could not be read or written. -/
  | storage (f : Failure)
  /-- A pin could not be set, removed or read. -/
  | pin (e : Pin.Error)
  /-- A link leads to a node that is not there. -/
  | dangling (l : Link)
  /-- So many problems were found with the pins. -/
  | unverified (problems : Nat)
  deriving DecidableEq

namespace Error

/-- The words for an error, outermost first. -/
def chain : Error → List String
  | storage f => f.chain
  | pin e => e.chain
  | dangling l => [s!"link '{l.name}' points at missing node {l.target}"]
  | unverified problems => [s!"{problems} pins failed verification"]

/-- An error in one line. -/
def message (e : Error) : String := ": ".intercalate e.chain

end Error

namespace Command

/-- Fails unless a link leads to a node that is there. -/
def requireTarget (l : Link) : Program Error Unit := do
  if ← mapError .storage (Graph.has l.target) then return () else fail (.dangling l)

/-- Stores a file as a node. -/
def store (content : Except IoError Bytes) (path : List Char) (links : List Link) :
    Program Error Digest := do
  let data ← ofExcept (content.mapError fun e =>
    .storage ((Failure.io e).within s!"failed to read {String.ofList path}"))
  forEach links requireTarget
  mapError .storage (Graph.add ⟨links, data⟩)

/-- Removes what nobody needs, and tells what could not be removed. -/
def collectAll (dryRun : Bool) : Program Error Collect.Report := do
  let retained ← mapError .pin Collect.retained
  let report ← mapError .storage (Collect.sweep retained dryRun)
  forEach report.errors fun (d, f) => say (.remark s!"failed to delete {d}: {f.message}")
  return report

/-- Writes the pins down. -/
def save (codec : PinSet.Codec) : Program Error Unit := do
  let _ ← mapError .pin (Pin.flush codec)

/-- Does what a command says, with the pins as they are. -/
def run (files : List Char → Except IoError Bytes) (codec : PinSet.Codec) :
    Command → Program Error Answer
  | .put path ls => do return .stored (← store (files path) path ls)
  | .get d => do return .data (← mapError .storage (Graph.get d)).data
  | .links d => do return .links (← mapError .storage (Graph.get d)).links
  | .pin d recursive => do
    mapError .pin (Pin.pin d recursive)
    save codec
    return .pinned d recursive
  | .unpin d recursive => do
    mapError .pin (Pin.unpin d recursive)
    save codec
    return .unpinned d
  | .list q => do return .pins (← mapError .pin (Pin.listing q))
  | .verify => do
    let problems ← mapError .storage Pin.verify
    if problems = 0 then return .verified else fail (.unverified problems)
  | .collect dryRun => do
    let report ← collectAll dryRun
    return if dryRun then .collectible report else .collected report

/-- Reads the pins and does what a command says. -/
def perform (files : List Char → Except IoError Bytes) (timeout : Nat) (codec : PinSet.Codec)
    (c : Command) : Program Error Answer := do
  mapError .pin (Pin.openRecord timeout)
  c.run files codec

end Command

end PinnedStore.Repository
