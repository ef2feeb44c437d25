import PinnedStore.CommandLine.Grammar
import PinnedStore.Node.LinkText
import PinnedStore.Repository.Command

/-!
# What the program can be asked to do

The grammar of the program's command line, and what a command line comes to: a task, the repository
to do it in, and how much is said meanwhile.

How much is said can be changed on every level.  Of all levels where an option for it is given, the
innermost one decides how often that option counts.
-/

namespace PinnedStore.CommandLine

open Repository (Command)

/-- What can be given on a command line. -/
inductive Setting where
  | repository (path : List Char)
  | louder
  | quieter
  | file (path : List Char)
  | link (l : Link)
  | digest (d : Digest)
  | recursive
  | query (q : Pin.Query)
  | dryRun
  deriving DecidableEq

/-- What is to be done. -/
inductive Task where
  /-- Set up the repository. -/
  | setUp
  /-- Do something in it. -/
  | command (c : Command)
  deriving DecidableEq

/-! ## Values -/

/-- Reads a path, which is any text but the empty one. -/
def readPath (setting : List Char → Setting) (text : String) : Except Fault Setting :=
  if text.isEmpty then .error .blank else .ok (setting text.toList)

/-- Reads a digest. -/
def readDigest (text : String) : Except Fault Setting :=
  match Digest.parse text with
  | .ok d => .ok (.digest d)
  | .error e => .error (.malformed e.message)

/-- Reads a link. -/
def readLink (text : String) : Except Fault Setting :=
  match Link.parse text with
  | .ok l => .ok (.link l)
  | .error e => .error (.malformed e.message)

/-- Reads a query. -/
def readQuery (text : String) : Except Fault Setting :=
  match Pin.Query.parse text with
  | .ok q => .ok (.query q)
  | .error e => .error (.malformed e.message)

/-! ## What the settings of a level come to -/

/-- The path among the settings. -/
def file? (given : List Setting) : Option (List Char) :=
  given.findSome? fun
    | .file path => some path
    | _ => none

/-- The digest among the settings. -/
def digest? (given : List Setting) : Option Digest :=
  given.findSome? fun
    | .digest d => some d
    | _ => none

/-- The links among the settings, in order. -/
def linksOf (given : List Setting) : List Link :=
  given.filterMap fun
    | .link l => some l
    | _ => none

/-- The query among the settings; without one it is about everything. -/
def queryOf (given : List Setting) : Pin.Query :=
  (given.findSome? fun
    | .query q => some q
    | _ => none).getD .all

/-- The repository among the settings. -/
def repository? (given : List Setting) : Option (List Char) :=
  given.findSome? fun
    | .repository path => some path
    | _ => none

/-! ## The grammar -/

/-- The options of every level. -/
def everywhere : List (Switch Setting) :=
  [⟨some 'v', "verbose", "Increase logging verbosity", .flag .louder, true, none⟩,
    ⟨some 'q', "quiet", "Decrease logging verbosity", .flag .quieter, true, some "verbose"⟩,
    ⟨some 'h', "help", "Print help", .help, false, none⟩]

/-- The place of a digest. -/
def digestOperand : Operand Setting := ⟨"HASH", readDigest⟩

/-- The option for everything below a node. -/
def recursiveSwitch : Switch Setting :=
  ⟨some 'r', "recursive", "", .flag .recursive, false, none⟩

/-- The commands on nodes. -/
def objectLevel : Level Setting Task :=
  .branch "Store and inspect DAG nodes" everywhere
    [("put", .leaf "Store a file's contents as a node and print its hash"
        (⟨some 'l', "link", "Link to an existing node, as NAME=HASH (repeatable)",
          .value "NAME=HASH" readLink, true, none⟩ :: everywhere)
        [⟨"PATH", readPath .file⟩]
        fun given => (file? given).map fun path => .command (.put path (linksOf given))),
      ("get", .leaf "Write a node's data to stdout" everywhere [digestOperand]
        fun given => (digest? given).map fun d => .command (.get d)),
      ("links", .leaf "List a node's links" everywhere [digestOperand]
        fun given => (digest? given).map fun d => .command (.links d))]

/-- The commands on pins. -/
def pinLevel : Level Setting Task :=
  .branch "Manage pins. Every change is flushed before the command returns" everywhere
    [("add", .leaf "Pin a node, and with -r everything reachable from it"
        (recursiveSwitch :: everywhere) [digestOperand]
        fun given => (digest? given).map fun d =>
          .command (.pin d (given.contains .recursive))),
      ("rm", .leaf "Remove a pin. Recursive pins need -r" (recursiveSwitch :: everywhere)
        [digestOperand]
        fun given => (digest? given).map fun d =>
          .command (.unpin d (given.contains .recursive))),
      ("ls", .leaf "List pinned hashes"
        (⟨some 't', "type", "One of all, direct, recursive, internal, indirect [default: all]",
          .value "KIND" readQuery, false, none⟩ :: everywhere) []
        fun given => some (.command (.list (queryOf given)))),
      ("verify", .leaf "Check that every pinned node is present in the store" everywhere []
        fun _ => some (.command .verify))]

/-- The whole grammar. -/
def grammar : Level Setting Task :=
  .branch "Command line interface for anchor block stores and their pins"
    (⟨some 'r', "repo",
        "Repository directory holding `anchor.toml`; defaults to the platform data directory",
        .value "PATH" (readPath .repository), false, none⟩
      :: everywhere ++ [⟨some 'V', "version", "Print version", .version, false, none⟩])
    [("init", .leaf "Create the repository config if it doesn't exist" everywhere []
        fun _ => some .setUp),
      ("object", objectLevel),
      ("pin", pinLevel),
      ("gc", .leaf
        ("Delete every block that is not pinned, directly, recursively or "
          ++ "as part of the pin record")
        (⟨none, "dry-run", "Only print which blocks would be deleted", .flag .dryRun, false, none⟩
          :: everywhere) []
        fun given => some (.command (.collect (given.contains .dryRun))))]

/-! ## Command lines -/

/-- What a command line comes to. -/
structure Invocation where
  task : Task
  /-- The repository that is named, if one is. -/
  repository : Option (List Char)
  /-- The rank of the least important events that are told. -/
  rank : Nat
  deriving DecidableEq

/-- How often a setting is given on the innermost level where it is given. -/
def countOf (setting : Setting) (levels : List (List Setting)) : Nat :=
  ((levels.map fun given => given.count setting).filter (· ≠ 0)).getLast?.getD 0

/-- The rank of the least important events that are told.  Unless options say otherwise these are
the events of the third rank. -/
def rankOf (levels : List (List Setting)) : Nat :=
  min 5 (3 + countOf .louder levels - countOf .quieter levels)

/-- Reads a command line, less the name of the program. -/
def Invocation.read (words : List String) : Except Refusal Invocation := do
  let reading ← grammar.read words
  return ⟨reading.command, repository? reading.levels.flatten, rankOf reading.levels⟩

end PinnedStore.CommandLine
