import PinnedStore.Repository.Configuration
import PinnedStore.Repository.Ending

/-!
# Running a command in a repository

A run begins and ends with a disk.  In between the configuration says where the blocks and the
records are; the records are read into memory, the command is performed, and the records are written
back, whatever has become of the command.

* `openRecords`, `saveRecords`: the file that keeps the records.
* `run`: a run.
-/

namespace PinnedStore.Repository

/-- The name of the file that keeps the records. -/
def recordsFile : List Char := "datastore.redb".toList

/-- The path of the file that keeps the records, in their directory. -/
def recordsPath (directory : List Char) : List Char :=
  Path.join directory recordsFile

/-- The records in a file, which is none if the file is not there. -/
def readRecords (disk : Disk) (path : List Char) : Except Failure Records :=
  match disk.content path with
  | .error .notFound => .ok ∅
  | .error e => .error (.other s!"I/O error: {e.message}")
  | .ok content =>
    match Records.decode? content with
    | none => .error (.other "I/O error: invalid data")
    | some records => .ok records

/-- Writes the records into the file that keeps them. -/
def saveRecords (directory : List Char) (records : Records) (disk : Disk) : Disk :=
  match disk.createFile (recordsPath directory) records.encode with
  | .ok saved => saved
  | .error _ => disk

/-- Reads the records.  Their directory and their file are made unless they are there. -/
def openRecords (directory : List Char) (disk : Disk) : Except Failure Records × Disk :=
  match disk.makeDirectories directory with
  | (.error e, disk) => (.error (.io e), disk)
  | (.ok (), disk) =>
    match readRecords disk (recordsPath directory) with
    | .error f => (.error f, disk)
    | .ok records => (.ok records, saveRecords directory records disk)

/-- The store of a configuration. -/
def StorePlace.store (disk : Disk) : StorePlace → ObjectStore
  | .memory => .inMemory
  | .directory path => .directory ⟨path, disk⟩

/-- The disk that a store leaves behind; `disk` is the one it was made with. -/
def diskAfter (disk : Disk) : ObjectStore → Disk
  | .memory _ => disk
  | .directory d => d.disk

/-- Runs a command in a repository. -/
def run (repository : List Char) (c : Command) (disk : Disk) : Aftermath :=
  match Configuration.load repository disk with
  | .error f => ⟨disk, [], .failed (.storage f)⟩
  | .ok configuration =>
    match openRecords configuration.records disk with
    | (.error f, disk) => ⟨disk, [], .failed (.storage f)⟩
    | (.ok records, disk) =>
      match configuration.pins.codec with
      | .error e => ⟨disk, [], .unusable e⟩
      | .ok codec =>
        let (outcome, w) := c.perform disk.content configuration.pins.loadTimeout codec
          (World.fresh (configuration.store.store disk) records)
        let ending := match outcome with
          | .done a => .answered a
          | .failed e => .failed e
          | .halted => .stopped
        ⟨saveRecords configuration.records w.records (diskAfter disk w.store),
          w.journal.reverse, ending⟩

end PinnedStore.Repository
