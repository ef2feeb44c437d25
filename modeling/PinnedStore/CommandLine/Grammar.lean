/-!
# Arguments of a command line

A command line is read word by word.  The words are options, which begin with a dash, values of
options, names of subcommands, and operands.  A subcommand has options and operands of its own, and
everything after its name belongs to it; so the grammar of a command line is a tree of levels.

What is read on a level is a list of settings, whatever these are, and a leaf of the tree says what
command its settings make.

## When a value is looked at

A value in a word of its own is not looked at before the next option or operand begins, or the level
ends.  So a word that has no place at all is reported before the value before it is, and what is
wrong inside a subcommand is reported before what is wrong before its name.

* `Switch`, `Operand`, `Level`: the grammar.
* `Refusal`: why a command line is not carried out.
* `State`: what has been read of a level.
* `Level.read`: reads a command line.
-/

namespace PinnedStore.CommandLine

/-- What is wrong with a value. -/
inductive Fault where
  /-- There must be something. -/
  | blank
  /-- It is not of the right form, for this reason. -/
  | malformed (reason : String)
  deriving DecidableEq, Repr

/-- Why a command line is not carried out.  Help and the version are asked for; the rest is an
error. -/
inductive Refusal where
  /-- Help is asked for with the level at the end of these names. -/
  | help (path : List String)
  | version
  /-- There is nothing on the level at the end of these names, which is not a command. -/
  | incomplete (path : List String)
  /-- There are only options on the level at the end of these names. -/
  | missingSubcommand (path : List String)
  | unknownSubcommand (word : String)
  | unknownArgument (word : String)
  /-- An option or operand has no value. -/
  | missingValue (name : String)
  /-- The value of an option or operand is not of the right form. -/
  | malformedValue (name value reason : String)
  /-- An option that takes no value has one. -/
  | needlessValue (name : String)
  /-- An option is given twice. -/
  | repeated (name : String)
  /-- Two options exclude one another. -/
  | clash (first second : String)
  /-- Operands are missing. -/
  | missingOperand (path : List String)
  deriving DecidableEq, Repr

/-- What an option does; `σ` is the type of settings. -/
inductive Effect (σ : Type) where
  | help
  | version
  /-- It is a setting by itself. -/
  | flag (setting : σ)
  /-- It takes a value, which makes it a setting. -/
  | value (label : String) (read : String → Except Fault σ)

/-- An option. -/
structure Switch (σ : Type) where
  short : Option Char
  long : String
  about : String
  effect : Effect σ
  /-- Whether it may be given more than once. -/
  repeatable : Bool
  /-- The long name of an option that it excludes. -/
  excludes : Option String

/-- Something that has to be given by its place. -/
structure Operand (σ : Type) where
  label : String
  read : String → Except Fault σ

/-- A level of a grammar; `κ` is the type of commands. -/
inductive Level (σ κ : Type) where
  /-- Subcommands with their names. -/
  | branch (about : String) (switches : List (Switch σ)) (children : List (String × Level σ κ))
  /-- A command, made of the settings on its level, unless some of them are missing. -/
  | leaf (about : String) (switches : List (Switch σ)) (operands : List (Operand σ))
      (build : List σ → Option κ)

variable {σ κ : Type}

/-! ## Looking things up -/

namespace Switch

/-- The long name with its dashes. -/
def name (s : Switch σ) : String := "--" ++ s.long

/-- Whether an option takes a value. -/
def takesValue (s : Switch σ) : Bool :=
  match s.effect with
  | .value .. => true
  | _ => false

end Switch

namespace Level

/-- What a level is for. -/
def about : Level σ κ → String
  | branch about .. | leaf about .. => about

/-- The options of a level. -/
def switches : Level σ κ → List (Switch σ)
  | branch _ switches _ | leaf _ switches .. => switches

/-- The operands of a level. -/
def operands : Level σ κ → List (Operand σ)
  | branch .. => []
  | leaf _ _ operands _ => operands

/-- Whether a level has subcommands. -/
def isBranch : Level σ κ → Bool
  | branch .. => true
  | leaf .. => false

/-- The subcommand of a name. -/
def child? (name : String) : Level σ κ → Option (Level σ κ)
  | branch _ _ children => children.lookup name
  | leaf .. => none

/-- The subcommand of every branch that gives help with the others. -/
def helpName : String := "help"

/-- Whether a word is the name of a subcommand. -/
def isSubcommand (level : Level σ κ) (word : String) : Bool :=
  (level.child? word).isSome || (level.isBranch && word = helpName)

/-- What help with a subcommand comes to; `path` names the level. -/
def helpWith (path : List String) (level : Level σ κ) : List String → Refusal
  | [] => .help path
  | word :: rest =>
    match level.child? word with
    | some child => helpWith (path ++ [word]) child rest
    | none =>
      if level.isSubcommand word then
        match rest with
        | [] => .help (path ++ [word])
        | next :: _ => .unknownSubcommand next
      else .unknownSubcommand word

end Level

/-! ## Reading a level -/

/-- What has been begun and not been looked at. -/
inductive Pending (σ : Type) where
  | nothing
  /-- An option that takes a value, and its value if that is there. -/
  | option (s : Switch σ) (value : Option String)
  | operand (o : Operand σ) (value : String)

/-- What has been read of a level. -/
structure State (σ : Type) where
  /-- The names of the level and those above it. -/
  path : List String
  /-- The settings, in order. -/
  given : List σ
  /-- The long names of the options. -/
  used : List String
  pending : Pending σ
  /-- The operands that are still to come. -/
  operands : List (Operand σ)
  /-- Whether all words that follow are operands. -/
  operandsOnly : Bool

namespace State

/-- Nothing has been read of a level. -/
def start (path : List String) (level : Level σ κ) : State σ :=
  ⟨path, [], [], .nothing, level.operands, false⟩

/-- Whether the next word is the value of an option. -/
def awaitsValue (s : State σ) : Bool :=
  match s.pending with
  | .option _ none => true
  | _ => false

/-- Adds the setting that a value makes. -/
def addValue (s : State σ) (name : String) (read : String → Except Fault σ) (value : String) :
    Except Refusal (State σ) :=
  match read value with
  | .ok setting => .ok { s with given := s.given ++ [setting] }
  | .error .blank => .error (.missingValue name)
  | .error (.malformed reason) => .error (.malformedValue name value reason)

/-- Notes that an option is there. -/
def use (s : State σ) (switch : Switch σ) : Except Refusal (State σ) :=
  if switch.long ∈ s.used && !switch.repeatable then .error (.repeated switch.name)
  else .ok { s with used := s.used ++ [switch.long] }

/-- Takes an option, with its value if it has one. -/
def take (s : State σ) (switch : Switch σ) (value : Option String) : Except Refusal (State σ) :=
  match switch.effect, value with
  | .help, _ => .error (.help s.path)
  | .version, _ => .error .version
  | .flag setting, _ => do
    let s ← s.use switch
    return { s with given := s.given ++ [setting] }
  | .value .., none => .error (.missingValue switch.name)
  | .value _ read, some value => do
    let s ← s.use switch
    s.addValue switch.name read value

/-- Looks at what has been begun. -/
def settle (s : State σ) : Except Refusal (State σ) :=
  let settled := { s with pending := .nothing }
  match s.pending with
  | .nothing => .ok settled
  | .option switch value => settled.take switch value
  | .operand o value => settled.addValue o.label o.read value

/-- Takes an option that has its value, or none, in the same word. -/
def takeWhole (s : State σ) (switch : Switch σ) (value : Option String) :
    Except Refusal (State σ) := do
  (← s.settle).take switch value

/-- Begins an option that has its value in the next word. -/
def begin (s : State σ) (switch : Switch σ) : Except Refusal (State σ) := do
  return { (← s.settle) with pending := .option switch none }

/-- Takes an option by its long name. -/
def long (s : State σ) (switches : List (Switch σ)) (name : String) (value : Option String) :
    Except Refusal (State σ) :=
  match switches.find? (·.long == name) with
  | none => .error (.unknownArgument ("--" ++ name))
  | some switch =>
    match switch.takesValue, value with
    | false, some _ => .error (.needlessValue switch.name)
    | true, none => s.begin switch
    | _, _ => s.takeWhole switch value

/-- Takes options by their short names, one character each.  The rest of the word after an option
that takes a value is that value, with or without an equals sign before it. -/
def shorts (s : State σ) (switches : List (Switch σ)) : List Char → Except Refusal (State σ)
  | [] => .ok s
  | c :: rest =>
    match switches.find? (·.short == some c) with
    | none => .error (.unknownArgument s!"-{c}")
    | some switch =>
      if switch.takesValue then
        match rest with
        | [] => s.begin switch
        | '=' :: value => s.takeWhole switch (some (String.ofList value))
        | value => s.takeWhole switch (some (String.ofList value))
      else do
        let s ← s.takeWhole switch none
        s.shorts switches rest

/-- Takes an operand. -/
def operand (s : State σ) (level : Level σ κ) (word : String) : Except Refusal (State σ) :=
  match s.operands with
  | o :: operands => do return { (← s.settle) with pending := .operand o word, operands }
  | [] =>
    if level.isBranch && !(s.operandsOnly && level.isSubcommand word) then
      .error (.unknownSubcommand word)
    else .error (.unknownArgument word)

/-- Takes a word that is not the name of a subcommand. -/
def word (s : State σ) (level : Level σ κ) (word : String) : Except Refusal (State σ) :=
  if s.operandsOnly then s.operand level word
  else
    match word.toList with
    | ['-', '-'] => .ok { s with operandsOnly := true }
    | '-' :: '-' :: chars =>
      let name := chars.takeWhile (· ≠ '=')
      let value := (chars.drop name.length).tail?.map String.ofList
      s.long level.switches (String.ofList name) value
    | '-' :: c :: chars => s.shorts level.switches (c :: chars)
    | _ =>
      match s.pending with
      | .option switch none => .ok { s with pending := .option switch (some word) }
      | _ => s.operand level word

/-- Fails if two of the options exclude one another. -/
def checkClashes (s : State σ) (switches : List (Switch σ)) : Except Refusal Unit :=
  let clash := switches.findSome? fun switch =>
    match switch.excludes with
    | some other =>
      if switch.long ∈ s.used && other ∈ s.used then some (switch.name, "--" ++ other) else none
    | none => none
  match clash with
  | some (first, second) => .error (.clash first second)
  | none => .ok ()

end State

/-! ## Reading a command line -/

/-- What a command line says. -/
structure Reading (σ κ : Type) where
  /-- The settings on each level, the outermost first. -/
  levels : List (List σ)
  command : κ

namespace Level

/-- Ends a level after the last word. -/
def finish (level : Level σ κ) (s : State σ) : Except Refusal (Reading σ κ) := do
  let s ← s.settle
  match level with
  | branch .. =>
    if s.used.isEmpty then throw (.incomplete s.path) else throw (.missingSubcommand s.path)
  | leaf _ switches _ build =>
    s.checkClashes switches
    match build s.given with
    | some command => return ⟨[s.given], command⟩
    | none => throw (.missingOperand s.path)

/-- Reads on from the middle of a level. -/
def readFrom (level : Level σ κ) (s : State σ) : List String → Except Refusal (Reading σ κ)
  | [] => level.finish s
  | word :: rest =>
    if !s.operandsOnly && !s.awaitsValue && level.isSubcommand word then
      match level.child? word with
      | none => .error (helpWith s.path level rest)
      | some child => do
        let below ← child.readFrom (.start (s.path ++ [word]) child) rest
        let s ← s.settle
        s.checkClashes level.switches
        return { below with levels := s.given :: below.levels }
    else do
      let s ← s.word level word
      level.readFrom s rest

/-- Reads a command line, less the name of the program. -/
def read (level : Level σ κ) (words : List String) : Except Refusal (Reading σ κ) :=
  level.readFrom (.start [] level) words

end Level

end PinnedStore.CommandLine
