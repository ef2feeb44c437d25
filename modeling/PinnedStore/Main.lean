import PinnedStore.CommandLine.Run
import PinnedStore.Disk.Change

/-!
# The program

The program copies those parts of the machine's disk that its command line is about, runs on the
copy, and carries the changes of the copy back.  Nothing is decided here.
-/

namespace PinnedStore

/-- What stands at a location of the machine's disk. -/
def readEntry? (location : Location) : IO (Option Entry) := do
  try
    let place ← IO.FS.realPath (Disk.pathOf location)
    if ← place.isDir then return some .directory
    return some (.file (← IO.FS.readBinFile place).data.toList)
  catch _ => return none

/-- Copies what stands at a location. -/
def copyEntry (disk : Disk) (location : Location) : IO Disk := do
  if location.isEmpty then return disk
  match ← readEntry? location with
  | some entry => return disk.set location entry
  | none => return disk

/-- Copies what stands below a location. -/
partial def copyBelow (disk : Disk) (location : Location) : IO Disk := do
  let disk ← copyEntry disk location
  match disk.entry? location with
  | some .directory =>
    let place ← IO.FS.realPath (Disk.pathOf location)
    (← place.readDir).foldlM (fun disk e => copyBelow disk (location ++ [e.fileName])) disk
  | _ => return disk

/-- Copies what stands on the way of a path and at its end, which is the answer as well. -/
def copyWay (disk : Disk) (path : List Char) : IO (Disk × Location) := do
  let mut disk := disk
  let mut location := disk.start path
  for name in Path.names path do
    if name = ".." then location := location.dropLast
    else if name ≠ "." then
      location := location ++ [name]
      disk ← copyEntry disk location
  return (disk, location)

/-- Copies what stands on the way of a path and below its end. -/
def copyPath (disk : Disk) (path : List Char) : IO Disk := do
  let (disk, location) ← copyWay disk path
  if location.isEmpty then return disk else copyBelow disk location

/-- Carries a change over to the machine's disk.  A file gets its name when it is complete. -/
def carryOver : Disk.Change → IO Unit
  | .makeDirectory location => IO.FS.createDir (Disk.pathOf location)
  | .remove location => IO.FS.removeFile (Disk.pathOf location)
  | .write location content => do
    let path := Disk.pathOf location
    IO.FS.writeBinFile (path ++ ".part") ⟨content.toArray⟩
    IO.FS.rename (path ++ ".part") path

end PinnedStore

open PinnedStore

/-- Runs the program. -/
def main (words : List String) : IO UInt32 := do
  let environment : CommandLine.Environment :=
    ⟨← IO.getEnv "HOME", ← IO.getEnv "XDG_DATA_HOME"⟩
  let here := (← IO.currentDir).toString.toList
  let (way, current) ← copyWay Disk.empty here
  let mut disk := { way with current }
  -- What the configuration names is known only when the repository is there.
  for _ in [0, 1] do
    disk ← (CommandLine.places environment words disk).foldlM copyPath disk
  let report := CommandLine.run environment words disk
  (Disk.changes disk report.disk).forM carryOver
  for line in report.remarks do
    IO.eprintln line
  let output ← IO.getStdout
  output.write ⟨report.output.toArray⟩
  output.flush
  return report.code
