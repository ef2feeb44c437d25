import PinnedStore.Toml.Reader

/-!
# Strings of a TOML document

Strings stand between quotes, in one line or over several.  Between double quotes a backslash begins
an escape; between single quotes every character stands for itself.  Line endings inside a string
belong to it as they are, a carriage return included.

* `readQuoted`, `readLiteral`: strings in one line.
* `readLines`: strings over several lines.
* `readString`: strings of any kind.
-/

namespace PinnedStore.Toml

/-- The value of a hexadecimal digit. -/
def hexValue? (c : Char) : Option Nat :=
  if '0' ≤ c ∧ c ≤ '9' then some (c.toNat - 48)
  else if 'a' ≤ c ∧ c ≤ 'f' then some (c.toNat - 87)
  else if 'A' ≤ c ∧ c ≤ 'F' then some (c.toNat - 55)
  else none

/-! ## Strings in one line -/

/-- The character with the number that the next `count` hexadecimal digits make. -/
def readNumbered : (count : Nat) → (number : Nat) → Reader Char
  | 0, number, rest =>
    if number.isValidChar then some (Char.ofNat number, rest) else none
  | _ + 1, _, [] => none
  | count + 1, number, c :: rest => do
    readNumbered count (16 * number + (← hexValue? c)) rest

/-- Reads an escape, after its backslash. -/
def readEscape : Reader Char
  | 'b' :: rest => some ('\x08', rest)
  | 't' :: rest => some ('\t', rest)
  | 'n' :: rest => some ('\n', rest)
  | 'f' :: rest => some ('\x0C', rest)
  | 'r' :: rest => some ('\r', rest)
  | 'e' :: rest => some ('\x1B', rest)
  | '"' :: rest => some ('"', rest)
  | '\\' :: rest => some ('\\', rest)
  | 'x' :: rest => readNumbered 2 0 rest
  | 'u' :: rest => readNumbered 4 0 rest
  | 'U' :: rest => readNumbered 8 0 rest
  | _ => none

/-- Reads a string in double quotes, after the first one.  Every step takes a character off, so
`fuel` of the number of characters is enough. -/
def readQuotedFrom : (fuel : Nat) → Reader (List Char)
  | 0, _ => none
  | _ + 1, [] => none
  | _ + 1, '"' :: rest => some ([], rest)
  | fuel + 1, '\\' :: rest => do
    let (c, rest) ← readEscape rest
    let (text, rest) ← readQuotedFrom fuel rest
    return (c :: text, rest)
  | fuel + 1, c :: rest =>
    if isControl c then none
    else do
      let (text, rest) ← readQuotedFrom fuel rest
      return (c :: text, rest)

/-- Reads a string in double quotes, after the first one. -/
def readQuoted : Reader (List Char) := fun chars =>
  readQuotedFrom (chars.length + 1) chars

/-- Reads a string in single quotes, after the first one; there are no escapes in it. -/
def readLiteral : Reader (List Char)
  | [] => none
  | '\'' :: rest => some ([], rest)
  | c :: rest =>
    if isControl c then none
    else do
      let (text, rest) ← readLiteral rest
      return (c :: text, rest)

/-! ## Strings over several lines -/

/-- Ends a string over several lines at a run of quotes: three of them close it, and up to two
before these belong to it. -/
def closing? (quote : Char) (chars : List Char) : Option (List Char × List Char) :=
  let run := (chars.takeWhile (· = quote)).length
  if run < 3 then none
  else
    let kept := min run 5
    some (List.replicate (kept - 3) quote, chars.drop kept)

/-- Drops blanks and line endings. -/
def dropSpace : List Char → List Char
  | ' ' :: rest | '\t' :: rest | '\n' :: rest => dropSpace rest
  | '\r' :: '\n' :: rest => dropSpace rest
  | rest => rest

/-- The characters after a line that ends in a backslash, and after the blanks that follow it. -/
def dropLineFold? (chars : List Char) : Option (List Char) :=
  (dropLineEnd? (splitBlanks chars).2).map dropSpace

/-- Reads a string over several lines, after its opening quotes.  `escapes` says whether a backslash
begins an escape. -/
def readLinesFrom (quote : Char) (escapes : Bool) : (fuel : Nat) → Reader (List Char)
  | 0, _ => none
  | fuel + 1, chars =>
    match closing? quote chars with
    | some (text, rest) => some (text, rest)
    | none =>
      match chars with
      | [] => none
      | '\r' :: '\n' :: rest => do
        let (text, rest) ← readLinesFrom quote escapes fuel rest
        return ('\r' :: '\n' :: text, rest)
      | c :: rest =>
        if escapes && c = '\\' then
          match dropLineFold? rest with
          | some rest => readLinesFrom quote escapes fuel rest
          | none => do
            let (escaped, rest) ← readEscape rest
            let (text, rest) ← readLinesFrom quote escapes fuel rest
            return (escaped :: text, rest)
        else if isControl c && c ≠ '\n' then none
        else do
          let (text, rest) ← readLinesFrom quote escapes fuel rest
          return (c :: text, rest)

/-- Reads a string over several lines, after its opening quotes; a line ending right after them does
not belong to it. -/
def readLines (quote : Char) (escapes : Bool) : Reader (List Char) := fun chars =>
  readLinesFrom quote escapes (chars.length + 1) ((dropLineEnd? chars).getD chars)

/-- Reads a string that begins with a quote of any kind. -/
def readString : Reader String := fun chars => do
  let (text, rest) ← match chars with
    | '"' :: '"' :: '"' :: rest => readLines '"' true rest
    | '\'' :: '\'' :: '\'' :: rest => readLines '\'' false rest
    | '"' :: rest => readQuoted rest
    | '\'' :: rest => readLiteral rest
    | _ => none
  return (String.ofList text, rest)

end PinnedStore.Toml
