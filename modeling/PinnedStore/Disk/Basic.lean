import Std.Data.ExtTreeMap
import PinnedStore.Disk.Path
import PinnedStore.Failure

/-!
# Disks

A tree of directories and files, as far as a store can tell one from another.  A disk maps locations
--- the names from the root down --- to what is there; the root is a directory that is always there.

Each operation reports what the operating system would report, and in that case leaves the disk as
it found it.  Operations take the text of a path and look every name on the way up: something that
is missing, that is no directory, or whose name is too long stops them.

* `Disk.stat`, `Disk.content`: what a path leads to.
* `Disk.makeDirectory`, `Disk.makeDirectories`: one directory, or all that are missing on the way.
* `Disk.createFile`, `Disk.rename`, `Disk.remove`: files.
* `Disk.filesBelow`: every file below a directory.
-/

namespace PinnedStore

/-- What stands at a location. -/
inductive Entry where
  | directory
  | file (content : Bytes)
  deriving DecidableEq

/-- Whether this is a directory. -/
def Entry.isDirectory : Entry → Bool
  | .directory => true
  | .file _ => false

/-- The names from the root down. -/
abbrev Location := List String

/-- A tree of directories and files. -/
structure Disk where
  /-- What stands at each location but the root. -/
  entries : Std.ExtTreeMap Location Entry
  /-- The directory that relative paths start from. -/
  current : Location

namespace Disk

/-- The disk with nothing on it. -/
def empty : Disk := ⟨∅, []⟩

/-- What stands at a location. -/
def entry? (disk : Disk) (location : Location) : Option Entry :=
  if location.isEmpty then some .directory else disk.entries[location]?

/-- Puts something at a location. -/
def set (disk : Disk) (location : Location) (entry : Entry) : Disk :=
  { disk with entries := disk.entries.insert location entry }

/-- Takes away what stands at a location. -/
def erase (disk : Disk) (location : Location) : Disk :=
  { disk with entries := disk.entries.erase location }

/-- The longest name a directory takes, in bytes. -/
def longestName : Nat := 255

/-- The longest path the operating system takes, in bytes. -/
def longestPath : Nat := 4095

/-- The size of a directory, as a file. -/
def directorySize : Nat := 4096

/-- A path the operating system does not even look at. -/
def check (path : List Char) : Except IoError Unit :=
  if path.contains '\x00' then .error .nulInPath
  else if path.isEmpty then .error .notFound
  else if (String.ofList path).utf8ByteSize > longestPath then .error .nameTooLong
  else .ok ()

/-- Fails unless a directory stands at the location. -/
def requireDirectory (disk : Disk) (location : Location) : Except IoError Unit :=
  match disk.entry? location with
  | none => .error .notFound
  | some .directory => .ok ()
  | some _ => .error .notADirectory

/-- Follows names from a location.  Whether anything stands at the end is left open. -/
def walk (disk : Disk) (location : Location) : List String → Except IoError Location
  | [] => .ok location
  | name :: rest => do
    disk.requireDirectory location
    if name = "." then disk.walk location rest
    else if name = ".." then disk.walk location.dropLast rest
    else if name.utf8ByteSize > longestName then throw .nameTooLong
    else disk.walk (location ++ [name]) rest

/-- Where a path starts. -/
def start (disk : Disk) (path : List Char) : Location :=
  if Path.isAbsolute path then [] else disk.current

/-- The location a path leads to. -/
def locate (disk : Disk) (path : List Char) : Except IoError Location := do
  check path
  disk.walk (disk.start path) (Path.names path ++ if Path.endsInSlash path then ["."] else [])

/-- What a path leads to. -/
def stat (disk : Disk) (path : List Char) : Except IoError Entry := do
  match disk.entry? (← disk.locate path) with
  | some entry => return entry
  | none => throw .notFound

/-- Whether a path leads to anything.  Only a clean "not there" is a no; other errors are passed
on. -/
def isThere (disk : Disk) (path : List Char) : Except IoError Bool :=
  match disk.stat path with
  | .ok _ => .ok true
  | .error e => if e.isNotFound then .ok false else .error e

/-- Whether a path leads to a directory. -/
def isDirectory (disk : Disk) (path : List Char) : Bool :=
  match disk.stat path with
  | .ok entry => entry.isDirectory
  | .error _ => false

/-- The content of the file at a path. -/
def content (disk : Disk) (path : List Char) : Except IoError Bytes := do
  match ← disk.stat path with
  | .directory => throw .isADirectory
  | .file content => return content

/-- The directory a path lies in and its last name, for operations that make or remove an entry.
The last name is `none` where the path ends in a dot name or names the root. -/
def locateParent (disk : Disk) (path : List Char) :
    Except IoError (Location × Option String) := do
  check path
  let names := Path.names path
  let parent ← disk.walk (disk.start path) names.dropLast
  disk.requireDirectory parent
  match names.getLast? with
  | none => return (parent, none)
  | some name =>
    if name = "." || name = ".." then return (parent, none)
    else if name.utf8ByteSize > longestName then throw .nameTooLong
    else return (parent, some name)

/-- Makes one directory. -/
def makeDirectory (disk : Disk) (path : List Char) : Except IoError Disk := do
  match ← disk.locateParent path with
  | (_, none) => throw .alreadyExists
  | (parent, some name) =>
    let location := parent ++ [name]
    if (disk.entry? location).isSome then throw .alreadyExists
    else return disk.set location .directory

/-- Makes a directory and those on the way to it; `fuel` bounds how far up to go.  Directories made
before a failure stay. -/
def makeDirectoriesFrom : (fuel : Nat) → Disk → List Char → Except IoError Unit × Disk
  | 0, disk, _ => (.error .notFound, disk)
  | fuel + 1, disk, path =>
    match Path.parent? path with
    | none => (.ok (), disk)
    | some parent =>
      match disk.makeDirectory path with
      | .ok made => (.ok (), made)
      | .error .notFound =>
        match makeDirectoriesFrom fuel disk parent with
        | (.error e, made) => (.error e, made)
        | (.ok (), made) =>
          match made.makeDirectory path with
          | .ok last => (.ok (), last)
          | .error e => if made.isDirectory path then (.ok (), made) else (.error e, made)
      | .error e => if disk.isDirectory path then (.ok (), disk) else (.error e, disk)

/-- Makes a directory and those on the way to it. -/
def makeDirectories (disk : Disk) (path : List Char) : Except IoError Unit × Disk :=
  makeDirectoriesFrom (path.length + 1) disk path

/-- Makes a file, or empties the one that is there, and writes its content. -/
def createFile (disk : Disk) (path : List Char) (content : Bytes) : Except IoError Disk := do
  match ← disk.locateParent path with
  | (_, none) => throw .isADirectory
  | (parent, some name) =>
    let location := parent ++ [name]
    if Path.endsInSlash path then throw .isADirectory
    match disk.entry? location with
    | some .directory => throw .isADirectory
    | _ => return disk.set location (.file content)

/-- Gives the file at one path the name of another, in place of a file that has that name. -/
def rename (disk : Disk) (source target : List Char) : Except IoError Disk := do
  match ← disk.locateParent source, ← disk.locateParent target with
  | (_, none), _ | _, (_, none) => throw .busy
  | (parent, some name), (parent', some name') =>
    let old := parent ++ [name]
    let new := parent' ++ [name']
    match disk.entry? old with
    | none => throw .notFound
    | some entry =>
      if Path.endsInSlash target then throw .notADirectory
      else if old = new then return disk
      else
        match disk.entry? new with
        | some .directory => throw .isADirectory
        | _ => return (disk.erase old).set new entry

/-- Removes a file. -/
def remove (disk : Disk) (path : List Char) : Except IoError Disk := do
  match ← disk.locateParent path with
  | (_, none) => throw .isADirectory
  | (parent, some name) =>
    let location := parent ++ [name]
    match disk.entry? location with
    | none => throw .notFound
    | some .directory => throw .isADirectory
    | some _ =>
      if Path.endsInSlash path then throw .notADirectory else return disk.erase location

/-- The files below a location, each by the names that lead to it from there. -/
def filesBelow (disk : Disk) (location : Location) : List Location :=
  disk.entries.toList.filterMap fun (place, entry) =>
    if location.isPrefixOf place && !entry.isDirectory then some (place.drop location.length)
    else none

end Disk

end PinnedStore
