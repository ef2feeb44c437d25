import PinnedStore.Toml.Document

/-!
# Writing a TOML document

A document is written section by section.  A section is a table with its own header, or the one
without any; it holds the values that stand in the table itself or under its dotted keys, so that
all keys with a common beginning come together.  Sections come in the order of their headers; a
table without a header of its own comes after the table that is visited before it, when each table
is visited before those in it.

* `Value.entries`: the lines that a value puts into its section.
* `Value.sections`: the sections of a table, in the order of the visit.
* `Document.render`: the text of a document.
-/

namespace PinnedStore.Toml

/-! ## Entries -/

/-- The text of a dotted key after its first part. -/
def laterKeysText (last : Key) : List Key → List Char
  | [] => last.outer.after
  | key :: keys =>
    last.inner.after ++ '.' :: key.inner.before ++ key.spelling ++ laterKeysText key keys

/-- The text of a dotted key. -/
def keysText (keys : List Key) : List Char :=
  match keys, keys.getLast? with
  | key :: later, some last => last.outer.before ++ key.spelling ++ laterKeysText key later
  | _, _ => []

/-- The text of a value under a dotted key. -/
def entryText (entry : List Key × List Char) : List Char :=
  keysText entry.1 ++ '=' :: entry.2

mutual

/-- What a value puts into the table in which it stands: texts, and the dotted keys under which they
stand as seen from the key of the value itself. -/
def Value.entries : Value → List (List Key × List Char)
  | .scalar _ margin spelling => [([], margin.around spelling)]
  | .array margin elements ending =>
    [([], margin.around ('[' :: [','].intercalate (elementsTexts elements) ++ ending ++ [']']))]
  | .table (.braces margin opening) items =>
    let texts := (itemsEntries items).map entryText
    [([], margin.around ('\x7b' :: opening ++ [','].intercalate texts ++ ['\x7d']))]
  | .table .dots items => itemsEntries items
  | .table _ _ | .tables _ => []

/-- The texts in a table, with their dotted keys. -/
def itemsEntries : List (Key × Value) → List (List Key × List Char)
  | [] => []
  | (key, value) :: rest =>
    value.entries.map (fun entry => (key :: entry.1, entry.2)) ++ itemsEntries rest

/-- The texts of elements. -/
def elementsTexts : List Value → List (List Char)
  | [] => []
  | value :: rest => value.entries.flatMap Prod.snd :: elementsTexts rest

end

/-! ## Sections -/

/-- A table with the path to it. -/
structure Section where
  path : List Key
  origin : Origin
  /-- Whether it is an element of an array of tables. -/
  isElement : Bool
  items : Items

mutual

/-- The sections of a value under a path, in the order of the visit. -/
def Value.sections (path : List Key) (isElement : Bool) : Value → List Section
  | .scalar .. | .array .. | .table (.braces ..) _ => []
  | .table .dots items => itemsSections path items
  | .table origin items => ⟨path, origin, isElement, items⟩ :: itemsSections path items
  | .tables elements => elementsSections path elements

/-- The sections of the values in a table. -/
def itemsSections (path : List Key) : List (Key × Value) → List Section
  | [] => []
  | (key, value) :: rest => value.sections (path ++ [key]) false ++ itemsSections path rest

/-- The sections of the elements of an array of tables. -/
def elementsSections (path : List Key) : List Value → List Section
  | [] => []
  | value :: rest => value.sections path true ++ elementsSections path rest

end

namespace Section

/-- Each section with the number of the last header up to it, which is at first `before`. -/
def numbered (before : Nat) : List Section → List (Nat × Section)
  | [] => []
  | s :: rest =>
    let number := match s.origin with
      | .header number _ => number
      | _ => before
    (number, s) :: numbered number rest

/-- The lines of a section under its header. -/
def lines (s : Section) : List (List Char) :=
  (itemsEntries s.items).map fun entry => entryText entry ++ ['\n']

/-- The line of the header.  A section without a layout of its own has a blank line before it,
unless it is the first thing in the document. -/
def headerLine (first : Bool) (s : Section) : List Char :=
  let margin : Margin := match s.origin with
    | .header _ margin => margin
    | _ => if first then {} else ⟨['\n'], []⟩
  let header := '[' :: keysText s.path ++ [']']
  margin.around (if s.isElement then '[' :: header ++ [']'] else header) ++ ['\n']

/-- The text of sections.  The one without a path has no header, and one that only lies on the way
of other headers is left out if there is nothing in it. -/
def renderAll (first : Bool) : List Section → List Char
  | [] => []
  | s :: rest =>
    if s.path.isEmpty then s.lines.flatten ++ renderAll (first && s.lines.isEmpty) rest
    else if s.origin = .passage ∧ s.lines.isEmpty then renderAll first rest
    else s.headerLine first ++ s.lines.flatten ++ renderAll false rest

end Section

/-- The text of a document. -/
def Document.render (d : Document) : String :=
  let sections := (Value.table (.header 0 {}) d.items).sections [] false
  let placed := (Section.numbered 0 sections).mergeSort fun s t => s.1 ≤ t.1
  String.ofList (Section.renderAll true (placed.map Prod.snd) ++ d.trailing)

end PinnedStore.Toml
