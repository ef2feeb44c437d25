import PinnedStore.Toml.Scalar

/-!
# Values of a TOML document

A document is a table: keys in the order in which they first appear, each with a value.  Tables come
about in different ways, and what may still be added to one depends on that way; so a table
remembers it.  Keys and values remember their layout and their spelling as well, so that a document
can be written again as it was.

* `Key`, `Value`, `Items`: the values.
* `Items.get?`, `Items.text?`: the value under a key, and the text that it is.
* `Value.text?`, `Value.integer?`: what a value is.
* `Value.numbersAll`: whether all numbers in a value have a property.
-/

namespace PinnedStore.Toml

/-- The layout on both sides of something. -/
structure Margin where
  before : List Char := []
  after : List Char := []
  deriving DecidableEq, Repr

/-- A text within a margin. -/
def Margin.around (margin : Margin) (text : List Char) : List Char :=
  margin.before ++ text ++ margin.after

/-- One part of a dotted key. -/
structure Key where
  name : String
  /-- As it is spelled, with its quotes. -/
  spelling : List Char
  /-- The layout between this part and the dots beside it. -/
  inner : Margin := {}
  /-- The layout around the dotted key that ends in this part. -/
  outer : Margin := {}
  deriving DecidableEq, Repr

/-- How a table came about. -/
inductive Origin where
  /-- It is written between braces, and closed.  The layout after the opening brace stands before
  that of the first key. -/
  | braces (margin : Margin) (opening : List Char)
  /-- It lies on the way of a dotted key. -/
  | dots
  /-- It lies on the way of a header. -/
  | passage
  /-- It has a header of its own, the one with this number. -/
  | header (number : Nat) (margin : Margin)
  /-- It was added to the document. -/
  | added
  deriving DecidableEq, Repr

/-- A value. -/
inductive Value where
  | scalar (scalar : Scalar) (margin : Margin) (spelling : List Char)
  /-- What stands before the closing bracket comes last: a comma, perhaps, and layout. -/
  | array (margin : Margin) (elements : List Value) (ending : List Char)
  | table (origin : Origin) (items : List (Key × Value))
  /-- Tables with the same header; each element is a table. -/
  | tables (elements : List Value)

/-- Keys and their values, in order. -/
abbrev Items := List (Key × Value)

/-- The value under a key. -/
def Items.get? (items : Items) (name : String) : Option Value :=
  (items.find? fun item => item.1.name = name).map Prod.snd

namespace Value

/-- A value in another margin.  Tables with headers have none. -/
def within (margin : Margin) : Value → Value
  | .scalar s _ spelling => .scalar s margin spelling
  | .array _ elements ending => .array margin elements ending
  | .table (.braces _ opening) items => .table (.braces margin opening) items
  | value => value

/-- The text that a value is. -/
def text? : Value → Option String
  | .scalar (.text s) _ _ => some s
  | _ => none

/-- The integer that a value is. -/
def integer? : Value → Option Int
  | .scalar (.number (.integer n)) _ _ => some n
  | _ => none

end Value

/-- The text under a key. -/
def Items.text? (items : Items) (name : String) : Option String :=
  (items.get? name).bind Value.text?

mutual

/-- Whether all numbers in a value have a property. -/
def Value.numbersAll (p : Number → Bool) : Value → Bool
  | .scalar (.number n) _ _ => p n
  | .scalar _ _ _ => true
  | .array _ elements _ | .tables elements => elementsNumbersAll p elements
  | .table _ items => itemsNumbersAll p items

/-- Whether all numbers in the items of a table have a property. -/
def itemsNumbersAll (p : Number → Bool) : List (Key × Value) → Bool
  | [] => true
  | (_, value) :: rest => value.numbersAll p && itemsNumbersAll p rest

/-- Whether all numbers in some values have a property. -/
def elementsNumbersAll (p : Number → Bool) : List Value → Bool
  | [] => true
  | value :: rest => value.numbersAll p && elementsNumbersAll p rest

end

/-- Whether all numbers in a table have a property. -/
def Items.numbersAll (p : Number → Bool) (items : Items) : Bool :=
  itemsNumbersAll p items

end PinnedStore.Toml
