import PinnedStore.Disk.Basic
import PinnedStore.Storage.BlockPath

/-!
# Objects in a directory

A store that keeps every object as a file below one directory of a disk.  A write goes to a file
next to its target, with the ending `tmp`, which then takes the target's name; so an object never
has half a content.  Files with that ending are not listed.

A path must be relative and must not climb: with a name of two dots in it, between slashes of either
kind, it is refused before the disk is looked at.
-/

namespace PinnedStore

/-- A store below a directory of a disk. -/
structure Directory where
  /-- The path of the directory. -/
  base : List Char
  disk : Disk

namespace Directory

/-- The ending of files that are still being written. -/
def staging : List Char := "tmp".toList

/-- What the store says about itself: it is made for disks that do not tell cases apart, and it
likes small directories. -/
def features : Features := ⟨false, 1024⟩

/-- Whether a path might lead out of the directory. -/
def escapes (path : List Char) : Bool :=
  Path.isAbsolute path
    || ((path.map fun c => if c = '\\' then '/' else c).splitOn '/').contains ['.', '.']

/-- The path of an object on the disk. -/
def resolve (s : Directory) (path : String) : Except Failure (List Char) :=
  if escapes path.toList then
    .error (.other s!"store path '{path}' must be relative and stay inside the store")
  else .ok (Path.join s.base path.toList)

/-- Whether there is an object at a path. -/
def isThere (s : Directory) (path : String) : Except Failure Bool := do
  (s.disk.isThere (← s.resolve path)).mapError .io

/-- Writes an object.  The directories on the way are made first; they and the file next to the
target may be left behind by a failure. -/
def put (s : Directory) (path : String) (content : Bytes) : Except Failure Unit × Directory :=
  match s.resolve path with
  | .error f => (.error f, s)
  | .ok target =>
    let parent := (Path.parent? target).getD target
    match s.disk.makeDirectories parent with
    | (.error e, disk) =>
      (.error ((Failure.io e).within s!"creating {String.ofList parent}"), { s with disk })
    | (.ok (), disk) =>
      let beside := Path.withExtension target staging
      match disk.createFile beside content with
      | .error e => (.error (.io e), { s with disk })
      | .ok staged =>
        match staged.rename beside target with
        | .error e => (.error (.io e), { s with disk := staged })
        | .ok renamed => (.ok (), { s with disk := renamed })

/-- The size of what stands somewhere. -/
def sizeOf : Entry → Nat
  | .directory => Disk.directorySize
  | .file content => content.length

/-- Reads an object from `offset` on, at most `limit` bytes.  Where that is no byte at all, nothing
is read, so that not even a directory is in the way. -/
def read (s : Directory) (path : String) (offset : Nat) (limit : Option Nat) :
    Except Failure Bytes := do
  let entry ← (s.disk.stat (← s.resolve path)).mapError .io
  let available := sizeOf entry - offset
  let wanted := match limit with
    | none => available
    | some most => min most available
  if wanted = 0 then return []
  match entry with
  | .directory => throw (.io .isADirectory)
  | .file content => return content.window offset (some wanted)

/-- The size of an object. -/
def size (s : Directory) (path : String) : Except Failure Nat := do
  let entry ← (s.disk.stat (← s.resolve path)).mapError .io
  return sizeOf entry

/-- Removes an object; it does not matter whether it is there. -/
def delete (s : Directory) (path : String) : Except Failure Directory := do
  match s.disk.remove (← s.resolve path) with
  | .ok disk => return { s with disk }
  | .error e => if e.isNotFound then return s else throw (.io e)

/-- Whether a file is still being written, by its path. -/
def isStaging (path : List Char) : Bool :=
  Path.extension? path == some staging

/-- The paths of all objects.  A directory that was never made holds none. -/
def list (s : Directory) : List String :=
  match s.disk.locate s.base with
  | .error _ => []
  | .ok location =>
    match s.disk.entry? location with
    | none => []
    | some .directory =>
      ((s.disk.filesBelow location).map fun names => "/".intercalate names).filter
        fun path => !isStaging path.toList
    | some _ => if isStaging s.base then [] else [""]

end Directory

end PinnedStore
