import PinnedStore.Storage.Directory

/-!
# Object stores

A store keeps byte strings under paths.  There are two kinds: objects held in memory, and objects in
a directory of a disk.  Both read a window of an object, list what they hold, and take the removal
of something absent as done; they differ in how they are laid out and in what they call a missing
object.
-/

namespace PinnedStore

/-- Byte strings under paths. -/
inductive ObjectStore where
  /-- Objects held in memory. -/
  | memory (objects : Std.ExtTreeMap String Bytes)
  /-- Objects in a directory. -/
  | directory (directory : Directory)

namespace ObjectStore

/-- An empty store in memory. -/
def inMemory : ObjectStore := .memory ∅

/-- What the store says about itself. -/
def features : ObjectStore → Features
  | .memory _ => ⟨true, UInt64.size - 1⟩
  | .directory _ => Directory.features

/-- No fewer than the objects in the store. -/
def bound : ObjectStore → Nat
  | .memory objects => objects.size
  | .directory d => d.disk.entries.size

/-- Whether there is an object at a path. -/
def isThere (path : String) : ObjectStore → Except Failure Bool
  | .memory objects => .ok (objects.contains path)
  | .directory d => d.isThere path

/-- Writes an object, in place of the one at its path. -/
def put (path : String) (content : Bytes) : ObjectStore → Except Failure Unit × ObjectStore
  | .memory objects => (.ok (), .memory (objects.insert path content))
  | .directory d =>
    let (result, d) := d.put path content
    (result, .directory d)

/-- Reads an object from `offset` on, at most `limit` bytes. -/
def read (path : String) (offset : Nat) (limit : Option Nat) : ObjectStore → Except Failure Bytes
  | .memory objects =>
    match objects[path]? with
    | some content => .ok (content.window offset limit)
    | none => .error .missing
  | .directory d => d.read path offset limit

/-- The size of an object. -/
def size (path : String) : ObjectStore → Except Failure Nat
  | .memory objects =>
    match objects[path]? with
    | some content => .ok content.length
    | none => .error .missing
  | .directory d => d.size path

/-- Removes an object; it does not matter whether it is there. -/
def delete (path : String) : ObjectStore → Except Failure ObjectStore
  | .memory objects => .ok (.memory (objects.erase path))
  | .directory d => (d.delete path).map .directory

/-- The paths of all objects. -/
def list : ObjectStore → List String
  | .memory objects => objects.keys
  | .directory d => d.list

end ObjectStore

end PinnedStore
