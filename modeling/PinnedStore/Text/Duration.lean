/-!
# Durations

A time span is written in the largest unit of which it holds at least one, with as many decimals as
it needs.  Spans are counted in milliseconds, so seconds take at most three decimals; no time at all
is written in the smallest unit.
-/

namespace PinnedStore.Duration

/-- Drops the zeros at the end of decimals. -/
def dropZeros (digits : List Char) : List Char :=
  (digits.reverse.dropWhile (· = '0')).reverse

/-- The three decimals of a number of thousandths. -/
def thousandths (n : Nat) : List Char :=
  (toString (1000 + n)).toList.drop 1

/-- The text of a span of milliseconds. -/
def text (milliseconds : Nat) : String :=
  if milliseconds = 0 then "0ns"
  else if milliseconds < 1000 then s!"{milliseconds}ms"
  else
    let decimals := dropZeros (thousandths (milliseconds % 1000))
    let seconds := toString (milliseconds / 1000)
    if decimals.isEmpty then s!"{seconds}s" else s!"{seconds}.{String.ofList decimals}s"

end PinnedStore.Duration
