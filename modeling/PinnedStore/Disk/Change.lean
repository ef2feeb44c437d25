import PinnedStore.Disk.Basic

/-!
# Changes of a disk

What has to be done to one disk to make it another one, for those who keep a copy of it elsewhere.
Directories come before what is in them, and a file that has another name now is removed and written
anew.
-/

namespace PinnedStore.Disk

/-- One thing to be done. -/
inductive Change where
  | makeDirectory (location : Location)
  | write (location : Location) (content : Bytes)
  | remove (location : Location)
  deriving DecidableEq

/-- The path of a location, from the root. -/
def pathOf (location : Location) : String :=
  String.join (location.map fun name => "/" ++ name)

/-- What has to be done so that an entry stands at a location. -/
def Change.toSet (location : Location) : Entry → Change
  | .directory => .makeDirectory location
  | .file content => .write location content

/-- What makes one disk another one. -/
def changes (before after : Disk) : List Change :=
  (before.entries.toList.filterMap fun (location, _) =>
    if location ∈ after.entries then none else some (.remove location))
  ++ after.entries.toList.filterMap fun (location, entry) =>
    if before.entries[location]? = some entry then none else some (.toSet location entry)

end PinnedStore.Disk
