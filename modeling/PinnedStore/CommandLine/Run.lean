import PinnedStore.CommandLine.Help
import PinnedStore.Repository.Run
import PinnedStore.Repository.Setup

/-!
# Running the program

What the program does with a command line, as a function of the disk: what it shows on each of its
two outputs, the code it ends with, and the disk it leaves behind.

The second output has what is said on the way and, last, why the run failed: the outermost words of
the error, and what caused it below.
-/

namespace PinnedStore.CommandLine

/-- The directories that a user has. -/
structure Environment where
  /-- The directory of everything the user has. -/
  home : Option String
  /-- The directory that programs keep their data in, if it is not at its usual place. -/
  dataHome : Option String

/-- The directory that programs keep their data in.  A relative path is not taken for one. -/
def Environment.dataDirectory? (e : Environment) : Option (List Char) :=
  match e.dataHome.map String.toList with
  | some path => if Path.isAbsolute path then some path else usual?
  | none => usual?
where
  /-- The usual place below the user's directory. -/
  usual? : Option (List Char) :=
    e.home.bind fun home =>
      if home.isEmpty then none else some (Path.join home.toList ".local/share".toList)

/-- The repository of an invocation. -/
def repositoryOf? (e : Environment) (i : Invocation) : Option (List Char) :=
  match i.repository with
  | some path => some path
  | none => e.dataDirectory?.map fun path => Path.join path programName.toList

/-- How a run of the program ends. -/
structure Report where
  disk : Disk
  /-- The code that the program ends with. -/
  code : UInt32
  /-- What it shows on its first output. -/
  output : Bytes
  /-- The lines that it shows on its second output. -/
  remarks : List String

/-- The lines for a cause, which has a number if there are several. -/
def causeLines : (number : Nat) → List String → List String
  | _, [] => []
  | number, cause :: rest => s!"    {number}: {cause}" :: causeLines (number + 1) rest

/-- The lines for an error, from its words, the outermost first. -/
def errorLines : List String → List String
  | [] => []
  | [outer] => [s!"Error: {outer}"]
  | [outer, cause] => [s!"Error: {outer}", "", "Caused by:", s!"    {cause}"]
  | outer :: causes => s!"Error: {outer}" :: "" :: "Caused by:" :: causeLines 0 causes

namespace Report

/-- The report of a run that fails, from the words of the error. -/
def failed (disk : Disk) (said chain : List String) : Report :=
  ⟨disk, 1, [], said ++ errorLines chain⟩

/-- The report of a command line that is not carried out. -/
def refused (disk : Disk) (refusal : Refusal) : Report :=
  if refusal.isRequest then ⟨disk, 0, Bytes.ofText refusal.text, []⟩
  else ⟨disk, 2, [], [refusal.text]⟩

/-- The report of a task.  Events up to this rank are told. -/
def ofTask (rank : Nat) (a : Repository.Aftermath) : Report :=
  let said := a.journal.filterMap (Log.Notice.line? rank)
  match a.ending with
  | .answered answer => ⟨a.disk, 0, answer.bytes, said⟩
  | .failed e => failed a.disk said e.chain
  | .unusable e => ⟨a.disk, 101, [], said ++ [e.message]⟩
  | .stopped => failed a.disk said ["stopped"]

end Report

/-- Carries out a task. -/
def Task.run (repository : List Char) (disk : Disk) : Task → Repository.Aftermath
  | .setUp => Repository.setUp repository disk
  | .command c => Repository.run repository c disk

/-- The paths of the files that a task asks for. -/
def Task.places : Task → List (List Char)
  | .command (.put path _) => [path]
  | _ => []

/-- Runs the program; `words` is its command line, less its own name. -/
def run (e : Environment) (words : List String) (disk : Disk) : Report :=
  match Invocation.read words with
  | .error refusal => .refused disk refusal
  | .ok i =>
    match repositoryOf? e i with
    | none => .failed disk [] ["failed to determine data directory path"]
    | some repository => .ofTask i.rank (i.task.run repository disk)

/-- The paths of what a run of the program may look at, as far as the disk tells. -/
def places (e : Environment) (words : List String) (disk : Disk) : List (List Char) :=
  match Invocation.read words with
  | .error _ => []
  | .ok i =>
    match repositoryOf? e i with
    | none => []
    | some repository =>
      let inside := match Repository.Configuration.load repository disk with
        | .ok configuration => configuration.places
        | .error _ => []
      repository :: i.task.places ++ inside

end PinnedStore.CommandLine
