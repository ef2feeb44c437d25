import PinnedStore.Toml.Value

/-!
# Filling the tables of a TOML document

Dotted keys and headers lead through tables, and make those that are missing.  A key that is there
already stays as it was first written.

* `Items.define`: adds a value under a dotted key.
* `Items.within`: changes the table at the end of the path of a header.
* `Items.enter`, `Items.enterNext`: enters a table by its header, or a new element of an array of
  tables.
-/

namespace PinnedStore.Toml

/-- Changes the last of some tables. -/
def changeLast (change : Items → Option Items) (elements : List Value) : Option (List Value) :=
  match elements.getLast? with
  | some (.table origin items) => do
    return elements.dropLast ++ [.table origin (← change items)]
  | _ => none

/-- Changes the table that a dotted key leads to, if `final`, or else through.  A dotted key leads
only to tables that came about in this way; it leads also through those on the way of headers and,
of an array of tables, through the last element. -/
def Value.changeThroughDots (change : Items → Option Items) (final : Bool) : Value → Option Value
  | .table .dots items => do return .table .dots (← change items)
  | .table .passage items =>
    if final then none else do return .table .passage (← change items)
  | .tables elements =>
    if final then none else do return .tables (← changeLast change elements)
  | _ => none

/-- Changes the table that a header leads through, which is any but one in braces; of an array of
tables it is the last element. -/
def Value.changeThroughHeader (change : Items → Option Items) : Value → Option Value
  | .table (.braces ..) _ => none
  | .table origin items => do return .table origin (← change items)
  | .tables elements => do return .tables (← changeLast change elements)
  | _ => none

namespace Items

/-- Puts another value under a key that is there. -/
def set (items : Items) (name : String) (value : Value) : Items :=
  items.map fun item => if item.1.name = name then (item.1, value) else item

/-- Takes a key away. -/
def without (items : Items) (name : String) : Items :=
  items.filter fun item => item.1.name ≠ name

/-- Adds a value under a dotted key, which must be new. -/
def define (value : Value) : List Key → Items → Option Items
  | [], _ => none
  | [key], items => if (items.get? key.name).isSome then none else some (items ++ [(key, value)])
  | key :: next :: path, items =>
    match items.get? key.name with
    | none => do return items ++ [(key, .table .dots (← define value (next :: path) []))]
    | some held => do
      return items.set key.name
        (← held.changeThroughDots (define value (next :: path)) path.isEmpty)

/-- Changes the table at the end of the path of a header, making the tables that are missing. -/
def within (change : Items → Option Items) : List Key → Items → Option Items
  | [], items => change items
  | key :: path, items =>
    match items.get? key.name with
    | none => do return items ++ [(key, .table .passage (← within change path []))]
    | some held => do
      return items.set key.name (← held.changeThroughHeader (within change path))

/-- Enters the table of a header.  A table that so far only lay on the way of other headers gets
this one as its own, and its place. -/
def enter (origin : Origin) (items : Items) (path : List Key) : Option Items :=
  match path.getLast? with
  | none => none
  | some key =>
    within (fun inner =>
      match inner.get? key.name with
      | none => some (inner ++ [(key, .table origin [])])
      | some (.table .passage held) => some (inner.without key.name ++ [(key, .table origin held)])
      | some _ => none) path.dropLast items

/-- Enters a new element of an array of tables. -/
def enterNext (origin : Origin) (items : Items) (path : List Key) : Option Items :=
  match path.getLast? with
  | none => none
  | some key =>
    within (fun inner =>
      match inner.get? key.name with
      | none => some (inner ++ [(key, .tables [.table origin []])])
      | some (.tables elements) =>
        some (inner.set key.name (.tables (elements ++ [.table origin []])))
      | some _ => none) path.dropLast items

end Items

end PinnedStore.Toml
