import PinnedStore.CommandLine.Invocation

/-!
# Help and refusals

What is shown instead of carrying out a command line: help with a level of the grammar, the version,
or what is wrong with the command line.

Help is a page of rows in two columns, what can be given and what it is for, in three parts:
subcommands, operands, options.

* `Level.help`: the page of a level.
* `Refusal.text`: what is shown.
* `Refusal.isRequest`: whether that was asked for.
-/

namespace PinnedStore.CommandLine

/-- The name of the program. -/
def programName : String := "anchor"

/-- The name and version of what the program comes with. -/
def version : String := "anchor_cli 0.1.0"

/-- What the subcommand for help is for. -/
def helpAbout : String := "Print this message or the help of the given subcommand(s)"

/-! ## Rows -/

/-- A text with blanks behind it, up to a length. -/
def padded (width : Nat) (text : String) : String :=
  text ++ String.ofList (List.replicate (width - text.length) ' ')

/-- Rows of two columns. -/
def columns (rows : List (String × String)) : String :=
  let width := (rows.map fun row => row.1.length).foldl max 0
  "\n".intercalate (rows.map fun (left, right) => s!"  {padded width left}  {right}")

/-- A part of a page, unless there is nothing in it. -/
def part (title : String) (rows : List (String × String)) : List String :=
  if rows.isEmpty then [] else [s!"{title}:\n{columns rows}"]

/-- How an option is given. -/
def Switch.shown {σ : Type} (s : Switch σ) : String :=
  let short := match s.short with
    | some c => s!"-{c}, "
    | none => "    "
  let rest := match s.effect with
    | .value label _ => s!" <{label}>"
    | .flag _ => if s.repeatable then "..." else ""
    | _ => ""
  short ++ s.name ++ rest

/-- How an operand is shown. -/
def Operand.shown {σ : Type} (o : Operand σ) : String := s!"<{o.label}>"

/-! ## Pages -/

namespace Level

variable {σ κ : Type}

/-- The subcommands of a level, with what they are for. -/
def childRows : Level σ κ → List (String × String)
  | branch _ _ children =>
    children.map (fun (name, child) => (name, child.about)) ++ [(helpName, helpAbout)]
  | leaf .. => []

/-- How the commands of a level are given. -/
def usage (path : List String) (level : Level σ κ) : String :=
  let after := if level.isBranch then ["<COMMAND>"] else level.operands.map Operand.shown
  " ".intercalate (programName :: path ++ "[OPTIONS]" :: after)

/-- The page of a level. -/
def help (path : List String) (level : Level σ κ) : String :=
  let parts := part "Commands" level.childRows
    ++ part "Arguments" (level.operands.map fun o => (o.shown, ""))
    ++ part "Options" (level.switches.map fun s => (s.shown, s.about))
  "\n\n".intercalate (level.about :: s!"Usage: {level.usage path}" :: parts) ++ "\n"

/-- The page of the subcommand for help, below the level that is named by `path`. -/
def helpOnHelp (path : List String) : String :=
  let usage := " ".intercalate (programName :: path ++ [helpName, "[COMMAND]..."])
  "\n\n".intercalate (helpAbout :: s!"Usage: {usage}"
    :: part "Arguments" [("[COMMAND]...", "Print help for the subcommand(s)")]) ++ "\n"

/-- The page that is found by going down from a level; `above` names that level. -/
def helpAt (above : List String) (level : Level σ κ) : List String → String
  | [] => level.help above
  | name :: rest =>
    match level.child? name with
    | some child => child.helpAt (above ++ [name]) rest
    | none => helpOnHelp above

end Level

/-! ## Refusals -/

namespace Refusal

/-- Whether what is shown was asked for. -/
def isRequest : Refusal → Bool
  | help _ | version => true
  | _ => false

/-- What is wrong with a command line. -/
def fault : Refusal → String
  | help _ | version | incomplete _ => ""
  | missingSubcommand path =>
    let name := " ".intercalate (programName :: path)
    s!"'{name}' requires a subcommand but one was not provided"
  | unknownSubcommand word => s!"unrecognized subcommand '{word}'"
  | unknownArgument word => s!"unexpected argument '{word}' found"
  | missingValue name => s!"a value is required for '{name}' but none was supplied"
  | malformedValue name value reason => s!"invalid value '{value}' for '{name}': {reason}"
  | needlessValue name => s!"unexpected value for '{name}' found; no more were expected"
  | repeated name => s!"the argument '{name}' cannot be used multiple times"
  | clash first second => s!"the argument '{first}' cannot be used with '{second}'"
  | missingOperand _ => "the following required arguments were not provided"

/-- What is shown for a refusal. -/
def text : Refusal → String
  | help path | incomplete path => grammar.helpAt [] path
  | version => s!"{CommandLine.version}\n"
  | refusal => s!"error: {refusal.fault}\n\nFor more information, try '--help'.\n"

end Refusal

end PinnedStore.CommandLine
