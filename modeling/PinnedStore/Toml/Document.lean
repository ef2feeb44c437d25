import PinnedStore.Toml.Items

/-!
# TOML documents

A document is read statement by statement: each enters a table by its header, or puts a value under
a key of the table entered last.  What is read is one table, in which all the layout of the document
has its place, and the layout after the last statement.

* `readValue`: a value of any kind.
* `Statement`, `readStatement`: what a statement does.
* `Document.read?`: the document in a text, unless its statements contradict each other.
-/

namespace PinnedStore.Toml

/-- How many parts a dotted key may have, and how deep values may lie in each other. -/
def depthLimit : Nat := 80

/-! ## Keys -/

/-- The characters of keys without quotes. -/
def isBareKey (c : Char) : Bool :=
  c.isAlphanum || c = '_' || c = '-'

/-- Reads one part of a key. -/
def readPart : Reader Key := fun chars =>
  match chars with
  | '"' :: rest => do
    let (text, rest) ← readQuoted rest
    return ({ name := String.ofList text, spelling := taken chars rest }, rest)
  | '\'' :: rest => do
    let (text, rest) ← readLiteral rest
    return ({ name := String.ofList text, spelling := taken chars rest }, rest)
  | _ =>
    let name := chars.takeWhile isBareKey
    if name.isEmpty then none
    else some ({ name := String.ofList name, spelling := name }, chars.drop name.length)

/-- Reads the parts of a dotted key, up to `count` of them, with the blanks `before` the first. -/
def readParts : (count : Nat) → (before : List Char) → Reader (List Key)
  | 0, _, _ => none
  | count + 1, before, chars => do
    let (key, rest) ← readPart chars
    let (after, behind) := splitBlanks rest
    match behind with
    | '.' :: more =>
      let (next, more) := splitBlanks more
      let (keys, rest) ← readParts count next more
      return ({ key with inner := ⟨before, after⟩ } :: keys, rest)
    | _ => return ([{ key with inner := ⟨before, []⟩ }], rest)

/-- Reads a dotted key, from its first part to its last. -/
def readKey : Reader (List Key) :=
  readParts depthLimit []

/-- A dotted key in a margin, which its last part keeps. -/
def keyWithin (margin : Margin) : List Key → List Key
  | [] => []
  | [key] => [{ key with outer := margin }]
  | key :: keys => key :: keyWithin margin keys

/-! ## Values -/

/-- Reads the elements of an array up to its closing bracket, and what stands right before this.
Every element takes a character, so `fuel` of the number of characters is enough. -/
def readElements (readElement : Reader Value) : (fuel : Nat) → Reader (List Value × List Char)
  | 0, _ => none
  | fuel + 1, chars => do
    let (before, rest) ← readLayout chars
    match rest with
    | ']' :: rest => return (([], before), rest)
    | rest =>
      let (value, rest) ← readElement rest
      let (after, rest) ← readLayout rest
      let value := value.within ⟨before, after⟩
      match rest with
      | ']' :: rest => return (([value], []), rest)
      | ',' :: rest =>
        let ((values, ending), rest) ← readElements readElement fuel rest
        return ((value :: values, if values.isEmpty then ',' :: ending else ending), rest)
      | _ => none

/-- Reads the fields of a table up to its closing brace, after those it has, and the layout after a
comma that no field follows. -/
def readFields (readField : Reader Value) :
    (fuel : Nat) → (items : Items) → Reader (Items × List Char)
  | 0, _, _ => none
  | fuel + 1, items, chars => do
    let (before, rest) ← readLayout chars
    match rest with
    | '\x7d' :: rest => return ((items, before), rest)
    | rest =>
      let (keys, rest) ← readKey rest
      let (blanks, rest) ← readLayout rest
      let (gap, rest) ← readLayout (← expect '=' rest)
      let (value, rest) ← readField rest
      let (after, rest) ← readLayout rest
      let items ← items.define (value.within ⟨gap, after⟩) (keyWithin ⟨before, blanks⟩ keys)
      match rest with
      | '\x7d' :: rest => return ((items, []), rest)
      | ',' :: rest => readFields readField fuel items rest
      | _ => none

/-- Reads a value that holds no others. -/
def readPlain : Reader Value := fun chars => do
  let ((scalar, spelling), rest) ← readScalar chars
  return (.scalar scalar {} spelling, rest)

/-- Reads a value in which others may lie up to this depth. -/
def readValueWithin : (depth : Nat) → Reader Value
  | 0, chars => readPlain chars
  | depth + 1, chars =>
    match chars with
    | '[' :: rest => do
      let ((elements, ending), rest) ← readElements (readValueWithin depth) (rest.length + 1) rest
      return (.array {} elements ending, rest)
    | '\x7b' :: rest => do
      let ((items, opening), rest) ← readFields (readValueWithin depth) (rest.length + 1) [] rest
      return (.table (.braces {} opening) items, rest)
    | _ => readPlain chars

/-- Reads a value. -/
def readValue : Reader Value :=
  readValueWithin depthLimit

/-! ## Statements -/

/-- What a statement does. -/
inductive Statement where
  /-- It enters a table. -/
  | header (margin : Margin) (path : List Key)
  /-- It enters a new element of an array of tables. -/
  | nextHeader (margin : Margin) (path : List Key)
  /-- It puts a value under a key. -/
  | entry (path : List Key) (value : Value)

/-- Reads a dotted key with blanks around it. -/
def readPath : Reader (List Key) := fun chars => do
  let (before, rest) := splitBlanks chars
  let (keys, rest) ← readKey rest
  let (after, rest) := splitBlanks rest
  return (keyWithin ⟨before, after⟩ keys, rest)

/-- Reads a statement up to the end of its line, where `before` is the layout before it. -/
def readStatement (before : List Char) : Reader Statement
  | '[' :: '[' :: rest => do
    let (path, rest) ← readPath rest
    let (after, rest) ← readLineRest (← (expect ']' rest).bind (expect ']'))
    return (.nextHeader ⟨before, after⟩ path, rest)
  | '[' :: rest => do
    let (path, rest) ← readPath rest
    let (after, rest) ← readLineRest (← expect ']' rest)
    return (.header ⟨before, after⟩ path, rest)
  | chars => do
    let (keys, rest) ← readKey chars
    let (blanks, rest) := splitBlanks rest
    let (gap, rest) := splitBlanks (← expect '=' rest)
    let (value, rest) ← readValue rest
    let (after, rest) ← readLineRest rest
    return (.entry (keyWithin ⟨before, blanks⟩ keys) (value.within ⟨gap, after⟩), rest)

/-- Reads statements and the layout after the last of them.  Every statement takes a character. -/
def readStatements : (fuel : Nat) → List Char → Option (List Statement × List Char)
  | 0, _ => none
  | fuel + 1, chars => do
    let (before, rest) ← readLayout chars
    if rest.isEmpty then return ([], before)
    let (statement, rest) ← readStatement before rest
    if rest.isEmpty then return ([statement], [])
    let (statements, trailing) ← readStatements fuel (← dropLineEnd? rest)
    return (statement :: statements, trailing)

/-! ## Documents -/

/-- A table with its layout, and the layout behind it. -/
structure Document where
  items : Items
  trailing : List Char

namespace Document

/-- What has been read of a table. -/
structure State where
  items : Items := []
  /-- The path of the table entered last. -/
  current : List Key := []
  /-- The number of headers so far. -/
  headers : Nat := 0

/-- Does what a statement does. -/
def State.apply (s : State) : Statement → Option State
  | .header margin path => do
    let number := s.headers + 1
    return ⟨← s.items.enter (.header number margin) path, path, number⟩
  | .nextHeader margin path => do
    let number := s.headers + 1
    return ⟨← s.items.enterNext (.header number margin) path, path, number⟩
  | .entry path value => do
    return { s with items := ← s.items.within (Items.define value path) s.current }

/-- The document in a text.  A byte order mark in front does not count. -/
def read? (text : String) : Option Document := do
  let chars := match text.toList with
    | '\uFEFF' :: rest => rest
    | chars => chars
  let (statements, trailing) ← readStatements (chars.length + 1) chars
  let s ← statements.foldlM State.apply {}
  return ⟨s.items, trailing⟩

end Document

end PinnedStore.Toml
