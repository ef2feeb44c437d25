import PinnedStore.Text.Glyph

/-!
# Quoted text

A text between double quotes, in one line, with nothing in it that can not be seen: quotes,
backslashes and the usual controls have escapes of two characters, and every other hidden character
is written by its number in hexadecimal digits.  In a text the extending characters are written so
as well, since they would change the look of what stands before them; in a path they stand as they
are.

* `Quoted.encode`: a text in quotes.
* `Quoted.encodePath`: a path in quotes.
-/

namespace PinnedStore.Quoted

/-- The escape of a character by its number. -/
def numbered (c : Char) : List Char :=
  '\\' :: 'u' :: '\x7b' :: Nat.toDigits 16 c.toNat ++ ['\x7d']

/-- How a character of a path is written. -/
def encodePathChar (c : Char) : List Char :=
  if c = '\x00' then ['\\', '0']
  else if c = '\t' then ['\\', 't']
  else if c = '\r' then ['\\', 'r']
  else if c = '\n' then ['\\', 'n']
  else if c = '"' then ['\\', '"']
  else if c = '\\' then ['\\', '\\']
  else if Glyph.isHidden c then numbered c
  else [c]

/-- How a character of a text is written. -/
def encodeChar (c : Char) : List Char :=
  if Glyph.isExtending c then numbered c else encodePathChar c

/-- A text in quotes. -/
def encode (text : String) : String :=
  String.ofList ('"' :: text.toList.flatMap encodeChar ++ ['"'])

/-- A path in quotes. -/
def encodePath (path : List Char) : String :=
  String.ofList ('"' :: path.flatMap encodePathChar ++ ['"'])

end PinnedStore.Quoted
