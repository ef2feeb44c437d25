import PinnedStore.Toml.Moment

/-!
# Scalars of a TOML document

Strings, and the words that stand for numbers, truth values, dates and times.

* `Scalar`: what they stand for.
* `readScalar`: reads one, and how it is spelled.
-/

namespace PinnedStore.Toml

/-- A value that holds no other values. -/
inductive Scalar where
  | text (s : String)
  | number (n : Number)
  | boolean (b : Bool)
  /-- A date, a time of day, or both. -/
  | moment
  deriving DecidableEq, Repr

/-- What a word stands for. -/
def Scalar.ofWord? (word : List Char) : Option Scalar :=
  if String.ofList word = "true" then some (.boolean true)
  else if String.ofList word = "false" then some (.boolean false)
  else
    match Number.ofWord? word with
    | some n => some (.number n)
    | none => if isMoment word then some .moment else none

/-- The characters of words. -/
def isWordChar (c : Char) : Bool :=
  c ∉ [' ', '\t', '\r', '\n', '#', ',', '=', '[', ']', '\x7b', '\x7d']

/-- Splits a word off.  A date and a time of day with a blank between them are one word. -/
def splitWord (chars : List Char) : List Char × List Char :=
  let word := chars.takeWhile isWordChar
  let rest := chars.drop word.length
  match dropDate? word, rest with
  | some [], ' ' :: c :: more =>
    if c.isDigit then
      let time := (c :: more).takeWhile isWordChar
      (word ++ ' ' :: time, (c :: more).drop time.length)
    else (word, rest)
  | _, _ => (word, rest)

/-- Reads a scalar and its spelling. -/
def readScalar : Reader (Scalar × List Char) := fun chars =>
  match chars with
  | '"' :: _ | '\'' :: _ => do
    let (text, rest) ← readString chars
    return ((.text text, taken chars rest), rest)
  | _ => do
    let (word, rest) := splitWord chars
    return ((← Scalar.ofWord? word, word), rest)

end PinnedStore.Toml
