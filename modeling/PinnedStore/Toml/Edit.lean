import PinnedStore.Toml.Section

/-!
# Adding to a TOML document

Tables are added behind the last key of a document, so they are written behind the table that is
visited last.

* `Addition`: a table of texts to add.
* `Document.adding`: a document with tables added.
-/

namespace PinnedStore.Toml

/-- A table to add: its name, and texts under their keys. -/
structure Addition where
  name : String
  fields : List (String × String)

/-- A field of a table to add. -/
def Addition.field (name text : String) : Key × Value :=
  ({ name, spelling := name.toList, outer.after := [' '] },
    .scalar (.text text) { before := [' '] } ('"' :: text.toList ++ ['"']))

/-- A table to add. -/
def Addition.item (a : Addition) : Key × Value :=
  ({ name := a.name, spelling := a.name.toList },
    .table .added (a.fields.map fun (name, text) => Addition.field name text))

/-- A document with tables added. -/
def Document.adding (d : Document) (additions : List Addition) : Document :=
  { d with items := d.items ++ additions.map Addition.item }

end PinnedStore.Toml
