import PinnedStore.Toml.Quotation

/-!
# Numbers of a TOML document

A number is one word: an integer in base ten, or in another base after a sign for it, or a number
with decimals or an exponent.  Underscores may stand between digits.

Some words have the form of a number and no value: a base without digits, an exponent that leads
beyond the largest float, a letter after an underscore.  A document may hold them; whoever reads
such a number fails.

* `Number`: what a word stands for.
* `Number.ofWord?`: the number that a word is.
-/

namespace PinnedStore.Toml

/-- A number. -/
inductive Number where
  | integer (n : Int)
  /-- A number with decimals or an exponent. -/
  | float
  /-- The form of a number without a value. -/
  | void
  deriving DecidableEq, Repr

/-- Whether a character is a hexadecimal digit. -/
def isHexDigit (c : Char) : Bool := (hexValue? c).isSome

/-- The number that digits make, whatever stands between them. -/
def numberOf (base : Nat) (chars : List Char) : Nat :=
  (chars.filterMap hexValue?).foldl (fun n digit => base * n + digit) 0

/-- Whether there is a minus in front, and what follows the sign. -/
def splitSign : List Char → Bool × List Char
  | '+' :: rest => (false, rest)
  | '-' :: rest => (true, rest)
  | chars => (false, chars)

/-- A number with a sign. -/
def signed (negative : Bool) (n : Nat) : Int :=
  if negative then -n else n

/-- Splits digits off, and the underscores among them. -/
def splitDigits (chars : List Char) : List Char × List Char :=
  let digits := chars.takeWhile fun c => c.isDigit || c = '_'
  (digits, chars.drop digits.length)

/-- A word without its underscores, unless one of them does not stand between digits.  Between a
sign and the first digit one may stand as well. -/
def joined? (isDigit : Char → Bool) (word : List Char) : Option (List Char) :=
  let parts := word.splitOn '_'
  let closes (part : List Char) : Bool := part.length ≤ 1 || part.getLast?.any isDigit
  let opens (part : List Char) : Bool := part.head?.any isDigit
  if parts.tail.isEmpty || (word.head? ≠ some '_' && parts.dropLast.all closes && parts.tail.all opens)
  then some parts.flatten
  else none

namespace Number

/-- The number of a word after the sign for its base. -/
def inBase? (base : Nat) (isDigit : Char → Bool) (digits : List Char) : Option Number :=
  if digits.isEmpty then some .void
  else if (digits.splitOn '_').all fun part => !part.isEmpty && part.all isDigit then
    some (.integer (numberOf base digits))
  else none

/-- The number of a word without decimals and exponent.  What follows an underscore may be more than
digits; then there is no value. -/
def decimal? (word : List Char) : Option Number := do
  let (_, digits) := splitSign word
  let rest := digits.dropWhile Char.isDigit
  guard (rest.head? = some '_' ∨ (rest.isEmpty ∧ ¬digits.isEmpty))
  guard (digits.head? ≠ some '0' ∨ digits.length = 1)
  let (negative, digits) := splitSign (← joined? isHexDigit word)
  return if digits.all Char.isDigit then .integer (signed negative (numberOf 10 digits)) else .void

/-- The least number that is nearer to infinity than to the largest float. -/
def floatBound : Nat := Nat.pow 2 1024 - Nat.pow 2 970

/-- Whether a number times a power of ten leads beyond the largest float. -/
def isBeyondFloats (n : Nat) : (exponent : Int) → Bool
  | .ofNat up => n ≠ 0 && (309 ≤ up || floatBound ≤ n * Nat.pow 10 up)
  | .negSucc down => down < n.log2 && floatBound * Nat.pow 10 (down + 1) ≤ n

/-- Splits off the digits after a mark, of which there must be one. -/
def splitDigits? (chars : List Char) : Option (List Char × List Char) :=
  let (digits, rest) := splitDigits chars
  if digits.any Char.isDigit then some (digits, rest) else none

/-- The number of a word with decimals or an exponent. -/
def float? (word : List Char) : Option Number := do
  let (whole, rest) ← splitDigits? (splitSign word).2
  guard (whole.head? ≠ some '0' ∨ whole.countP Char.isDigit = 1)
  let (decimals, rest) ← match rest with
    | '.' :: rest => splitDigits? rest
    | rest => some ([], rest)
  let (exponent, rest) ← match rest with
    | 'e' :: rest | 'E' :: rest => do
      let (negative, rest) := splitSign rest
      let (digits, rest) ← splitDigits? rest
      some (signed negative (numberOf 10 digits), rest)
    | rest => some (0, rest)
  guard (rest.isEmpty ∧ (joined? Char.isDigit word).isSome)
  let shift : Nat := decimals.countP Char.isDigit
  return if isBeyondFloats (numberOf 10 (whole ++ decimals)) (exponent - shift) then .void else .float

/-- The number that a word is. -/
def ofWord? (word : List Char) : Option Number :=
  match word with
  | '0' :: 'x' :: digits => inBase? 16 isHexDigit digits
  | '0' :: 'o' :: digits => inBase? 8 (fun c => '0' ≤ c && c ≤ '7') digits
  | '0' :: 'b' :: digits => inBase? 2 (fun c => c = '0' || c = '1') digits
  | _ =>
    let (_, digits) := splitSign word
    if String.ofList digits = "inf" || String.ofList digits = "nan" then some .float
    else if digits.any fun c => c = '.' || c = 'e' || c = 'E' then float? word
    else decimal? word

end Number

end PinnedStore.Toml
