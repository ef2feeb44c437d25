import PinnedStore.Toml.Number

/-!
# Dates and times of a TOML document

A date, a time of day, or both, perhaps with the distance from universal time.  Seconds may be left
out.

* `dropDate?`: drops a date.
* `isMoment`: whether a word is a date, a time of day, or both.
-/

namespace PinnedStore.Toml

/-- The number that `count` digits at the front make. -/
def readFixed (count : Nat) : Reader Nat := fun chars =>
  let digits := chars.take count
  if digits.length = count && digits.all Char.isDigit then
    some (numberOf 10 digits, chars.drop count)
  else none

/-- The number of days in a month. -/
def daysIn (year month : Nat) : Nat :=
  if month = 2 then
    if year % 4 = 0 && (year % 100 ≠ 0 || year % 400 = 0) then 29 else 28
  else if month = 4 || month = 6 || month = 9 || month = 11 then 30
  else 31

/-- Drops a date. -/
def dropDate? (chars : List Char) : Option (List Char) := do
  let (year, chars) ← readFixed 4 chars
  let (month, chars) ← readFixed 2 (← expect '-' chars)
  let (day, chars) ← readFixed 2 (← expect '-' chars)
  if 1 ≤ month ∧ month ≤ 12 ∧ 1 ≤ day ∧ day ≤ daysIn year month then some chars else none

/-- Drops the seconds of a time, if there are any. -/
def dropSeconds? (chars : List Char) : Option (List Char) := do
  match expect ':' chars with
  | none => return chars
  | some chars =>
    let (second, chars) ← readFixed 2 chars
    if 60 < second then none
    match expect '.' chars with
    | none => return chars
    | some chars =>
      if (chars.takeWhile Char.isDigit).isEmpty then none else return chars.dropWhile Char.isDigit

/-- Drops hours and minutes. -/
def dropClock? (chars : List Char) : Option (List Char) := do
  let (hour, chars) ← readFixed 2 chars
  let (minute, chars) ← readFixed 2 (← expect ':' chars)
  if hour ≤ 23 ∧ minute ≤ 59 then some chars else none

/-- Drops a time of day. -/
def dropTime? (chars : List Char) : Option (List Char) :=
  (dropClock? chars).bind dropSeconds?

/-- Drops the distance from universal time, if it is stated. -/
def dropZone? : List Char → Option (List Char)
  | 'Z' :: rest | 'z' :: rest => some rest
  | '+' :: rest | '-' :: rest => dropClock? rest
  | rest => some rest

/-- Whether a word is a date, a time of day, or both. -/
def isMoment (chars : List Char) : Bool :=
  match dropDate? chars with
  | some [] => true
  | some (c :: rest) =>
    (c = 'T' || c = 't' || c = ' ') && ((dropTime? rest).bind dropZone?) == some []
  | none => dropTime? chars == some []

end PinnedStore.Toml
