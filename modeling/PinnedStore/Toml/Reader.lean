/-!
# Readers and layout

A reader takes something off the front of the characters.  What stands between the things of a
document --- blanks, comments and line endings --- is its layout; readers keep it, with a line feed
for every line ending.

* `Reader`: readers.
* `readLineRest`: the layout up to the end of a line.
* `readLayout`: the layout up to the next thing.
-/

namespace PinnedStore.Toml

/-- Reads something off the front of the characters. -/
abbrev Reader (α : Type) := List Char → Option (α × List Char)

/-- The characters that a reader took off, if this is the rest that it left. -/
def taken (chars rest : List Char) : List Char :=
  chars.take (chars.length - rest.length)

/-- Drops a character that must be there. -/
def expect (c : Char) : List Char → Option (List Char)
  | [] => none
  | d :: rest => if d = c then some rest else none

/-- Characters that must not stand in a document as they are. -/
def isControl (c : Char) : Bool :=
  (c.toNat < 0x20 && c ≠ '\t') || c.toNat = 0x7F

/-- Drops a line ending, which is a line feed or a carriage return before one. -/
def dropLineEnd? : List Char → Option (List Char)
  | '\n' :: rest => some rest
  | '\r' :: '\n' :: rest => some rest
  | _ => none

/-- Splits blanks off. -/
def splitBlanks (chars : List Char) : List Char × List Char :=
  let blanks := chars.takeWhile fun c => c = ' ' || c = '\t'
  (blanks, chars.drop blanks.length)

/-- Reads layout, perhaps over the ends of lines; `inComment` says whether it begins inside a
comment. -/
def readLayoutFrom (overLines : Bool) : (inComment : Bool) → Reader (List Char)
  | _, [] => some ([], [])
  | _, '\n' :: rest =>
    if overLines then do
      let (layout, rest) ← readLayoutFrom overLines false rest
      return ('\n' :: layout, rest)
    else some ([], '\n' :: rest)
  | _, '\r' :: '\n' :: rest =>
    if overLines then do
      let (layout, rest) ← readLayoutFrom overLines false rest
      return ('\n' :: layout, rest)
    else some ([], '\r' :: '\n' :: rest)
  | inComment, c :: rest =>
    if inComment && isControl c then none
    else if inComment || c = ' ' || c = '\t' || c = '#' then do
      let (layout, rest) ← readLayoutFrom overLines (inComment || c = '#') rest
      return (c :: layout, rest)
    else some ([], c :: rest)

/-- Reads blanks, and a comment if there is one, up to the end of the line. -/
def readLineRest : Reader (List Char) :=
  readLayoutFrom false false

/-- Reads blanks, comments and line endings. -/
def readLayout : Reader (List Char) :=
  readLayoutFrom true false

end PinnedStore.Toml
