import PinnedStore.Repository.Configuration
import PinnedStore.Repository.Ending
import PinnedStore.Text.Quoted
import PinnedStore.Toml.Edit

/-!
# Setting up a repository

A repository is set up by writing its configuration file.  Of a file that is there only the missing
tables are added; so setting up a repository again changes nothing.  The file is written next to its
place and then takes its name, so that it is never there in half.

* `essentials`: the tables that a configuration must have.
* `complete?`: a configuration with the tables that it lacked.
* `setUp`: sets up a repository.
-/

namespace PinnedStore.Repository

/-- The tables that a configuration must have, with what they say unless they are there. -/
def essentials : List Toml.Addition :=
  [⟨"store", [("type", "local"), ("base_path", "blocks")]⟩,
    ⟨"datastore", [("path", "datastore")]⟩]

/-- Whether a number can be read, an integer as one of 64 bits with a sign. -/
def isSigned : Toml.Number → Bool
  | .integer n => -0x8000000000000000 ≤ n && n < 0x8000000000000000
  | .float => true
  | .void => false

/-- The text of a configuration with the tables that it lacked, if all its numbers can be read. -/
def complete? (text : String) : Option String := do
  let document ← Toml.Document.read? text
  guard (document.items.numbersAll isSigned)
  let missing := essentials.filter fun a => (document.items.get? a.name).isNone
  return (document.adding missing).render

/-- The text of the configuration file, which is empty unless the file is there. -/
def currentText (disk : Disk) (path : List Char) : Except IoError String :=
  match disk.stat path with
  | .ok _ => readText disk path
  | .error _ => .ok ""

/-- Writes a file in place of the one that is there, by way of a file next to it.  That file is left
behind if its name can not be changed. -/
def replaceFile (disk : Disk) (path : List Char) (content : Bytes) : Except IoError Unit × Disk :=
  let beside := Path.withExtension path "tmp".toList
  match disk.createFile beside content with
  | .error e => (.error e, disk)
  | .ok staged =>
    match staged.rename beside path with
    | .error e => (.error e, staged)
    | .ok renamed => (.ok (), renamed)

/-- Sets up a repository. -/
def setUp (repository : List Char) (disk : Disk) : Aftermath :=
  let path := configurationPath repository
  match disk.makeDirectories repository with
  | (.error e, disk) =>
    ⟨disk, [], .failed (.storage ((Failure.io e).within
      s!"failed to create repository {String.ofList repository}"))⟩
  | (.ok (), disk) =>
    match currentText disk path with
    | .error e => ⟨disk, [], .failed (.storage (.io e))⟩
    | .ok before =>
      match complete? before with
      | none =>
        ⟨disk, [], .failed (.storage ((Failure.other "not a TOML document").within
          "could not parse repository config file"))⟩
      | some after =>
        let (result, disk) := replaceFile disk path (Bytes.ofText after)
        let ending := match result with
          | .ok () => .answered .ready
          | .error e => .failed (.storage (.io e))
        ⟨disk, [.event (.configurationWritten (Quoted.encodePath path))], ending⟩

end PinnedStore.Repository
