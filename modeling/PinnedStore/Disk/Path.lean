/-!
# Path texts

Paths of files are texts whose names are separated by slashes.  A name may be empty (two slashes in
a row, or one at the end) or a single dot, and such names do not count.  The functions here work on
the text of a path alone and never look at a disk.

* `join`: a path below another one.
* `parent?`, `fileName?`: the path without its last name, and that name.
* `withExtension`: the path with another ending after the last dot of its last name.
* `names`, `endsInSlash`: what an operating system makes of a path.
-/

namespace PinnedStore.Path

/-- Whether a path starts at the root. -/
def isAbsolute (path : List Char) : Bool := path.head? == some '/'

/-- The path `below`, seen from `base`; an absolute path stays what it is. -/
def join (base below : List Char) : List Char :=
  if isAbsolute below || base.isEmpty then below
  else if base.getLast? == some '/' then base ++ below
  else base ++ '/' :: below

/-- Drops the names that do not count from the end of a path, which is given backwards. -/
def dropIdle : List Char → List Char
  | '/' :: rest => dropIdle rest
  | '.' :: '/' :: rest => dropIdle rest
  | path => path

/-- The last name of a path and the text before it, both backwards; names that do not count are
dropped. -/
def splitLast (path : List Char) : List Char × List Char :=
  let backwards := dropIdle path.reverse
  (backwards.takeWhile (· ≠ '/'), backwards.dropWhile (· ≠ '/'))

/-- The path without its last name.  The root and the empty path have none to take away. -/
def parent? (path : List Char) : Option (List Char) :=
  let (name, before) := splitLast path
  if name.isEmpty then none
  else
    let kept := dropIdle before
    some (if kept.isEmpty && isAbsolute path then ['/'] else kept.reverse)

/-- The last name of a path, unless it stands for a directory on the way. -/
def fileName? (path : List Char) : Option (List Char) :=
  let name := (splitLast path).1.reverse
  if name.isEmpty || name == ['.'] || name == ['.', '.'] then none else some name

/-- A name up to its last dot, and what follows that dot.  A dot at the very start is not one that
ends a name. -/
def splitExtension (name : List Char) : List Char × Option (List Char) :=
  let backwards := name.reverse
  let ending := backwards.takeWhile (· ≠ '.')
  match backwards.drop ending.length with
  | [] | ['.'] => (name, none)
  | _ :: stem => (stem.reverse, some ending.reverse)

/-- What follows the last dot of the last name. -/
def extension? (path : List Char) : Option (List Char) :=
  (fileName? path).bind fun name => (splitExtension name).2

/-- Replaces the ending of the last name, and what follows that name, by `ending`; a path without a
last name stays what it is. -/
def setExtension (path ending : List Char) : List Char :=
  match fileName? path with
  | none => path
  | some name => (splitLast path).2.reverse ++ (splitExtension name).1 ++ '.' :: ending

/-- The path with another ending.  As many characters as the old ending has are first taken off the
end of the text, so that a last name of two dots and an ending is cut down to the directory
above. -/
def withExtension (path ending : List Char) : List Char :=
  match extension? path with
  | none => setExtension path ending
  | some old => setExtension (path.take (path.length - old.length)) ending

/-- The names in a path, without the empty ones. -/
def names (path : List Char) : List String :=
  ((path.splitOn '/').filter (!·.isEmpty)).map String.ofList

/-- Whether a path asks for a directory by ending in a slash. -/
def endsInSlash (path : List Char) : Bool := path.getLast? == some '/'

end PinnedStore.Path
