import PinnedStore.Cbor.Basic

/-!
# Skipping an item

A reader that does not know an item passes over it, however deep it is nested.  While only arrays
and maps of stated length are open, two counts tell what is left: the items still to come (`items`)
and the breaks still to come (`breaks`).  An array or map without a length that lies inside others
moves both onto a stack of `Level`s, and from then on the top of the stack is what is being skipped.

The counts stop at `2 ^ 64 - 1`.  A break where none is due is passed over as an item of its own.
-/

namespace PinnedStore.Cbor

/-- An array or map that is being skipped. -/
inductive Level where
  /-- This many items are to come, not counting the next. -/
  | counted (items : Nat)
  /-- Items come up to a break. -/
  | open
  deriving DecidableEq, Repr

/-- What is left to skip. -/
structure Skipping where
  items : Nat
  breaks : Nat
  /-- Innermost first. -/
  levels : List Level
  deriving DecidableEq, Repr

namespace Skipping

/-- One item is to be skipped. -/
def one : Skipping := ⟨1, 0, []⟩

/-- Whether all of it has been skipped. -/
def isDone (s : Skipping) : Bool :=
  s.items == 0 && s.breaks == 0 && s.levels.isEmpty

/-- Whether the stack says what is left. -/
def usesLevels (s : Skipping) : Bool :=
  s.items == 0 && s.breaks == 0

/-- Numbers do not grow past 64 bits. -/
def cap (n : Nat) : Nat := min n (UInt64.size - 1)

/-- An array or map of `count` items has started. -/
def enter (s : Skipping) (count : Nat) : Skipping :=
  if s.usesLevels then { s with levels := .counted (cap count) :: s.levels }
  else { s with items := cap (s.items + count) }

/-- An array or map that ends with a break has started. -/
def enterOpen (s : Skipping) : Skipping :=
  if s.usesLevels then { s with levels := .open :: s.levels }
  else if s.items < 2 then { s with breaks := cap (s.breaks + 1) }
  else
    ⟨0, 0, .open :: .counted (s.items - 1) :: (List.replicate s.breaks .open ++ s.levels)⟩

/-- A break has been met. -/
def closeOpen (s : Skipping) : Skipping :=
  if s.usesLevels then
    match s.levels with
    | .open :: levels => { s with levels := levels }
    | _ => s
  else { s with breaks := s.breaks - 1 }

/-- An item has been passed; `none` if it was the last one. -/
def passed (s : Skipping) : Option Skipping :=
  if s.usesLevels then
    match s.levels.dropWhile (· == .counted 0) with
    | [] => none
    | .counted items :: levels => some { s with levels := .counted (items - 1) :: levels }
    | .open :: levels => some { s with levels := .open :: levels }
  else some { s with items := s.items - 1 }

end Skipping

/-- The parts of a string that is left open, up to its break; each part is a string of `kind` that
passes `check`. -/
def skipParts (part : Reader Unit) : (fuel : Nat) → Reader Unit
  | 0, _ => .error .endOfInput
  | _ + 1, [] => .error .endOfInput
  | fuel + 1, b :: rest =>
    if b = 0xFF then .ok ((), rest)
    else do
      let ((), bytes) ← part (b :: rest)
      skipParts part fuel bytes

/-- Passes over a string: one of stated length, or parts up to a break. -/
def skipString (part : Reader Unit) : Reader Unit
  | [] => .error .endOfInput
  | b :: rest =>
    if info b = 31 then skipParts part (rest.length + 1) rest else part (b :: rest)

/-- Passes over a byte string of stated length. -/
def skipBytes : Reader Unit := fun bytes => do
  let (_, rest) ← readBytes bytes
  return ((), rest)

/-- Passes over a text of stated length, which has to be UTF-8. -/
def skipText : Reader Unit := fun bytes => do
  let (_, rest) ← readText bytes
  return ((), rest)

/-- What the initial byte of an item does to what is left to skip, and whether the item is over.  A
tag is not an item of its own. -/
def skipItem (s : Skipping) (b : UInt8) (rest : Bytes) : Except Error (Option Skipping × Bytes) :=
  if b ≤ 0x1B then do
    let (_, rest) ← argument b rest
    return (s.passed, rest)
  else if 0x20 ≤ b ∧ b ≤ 0x3B then do
    let (_, rest) ← argument (b - 0x20) rest
    return (s.passed, rest)
  else if 0x40 ≤ b ∧ b ≤ 0x5F then do
    let ((), rest) ← skipString skipBytes (b :: rest)
    return (s.passed, rest)
  else if 0x60 ≤ b ∧ b ≤ 0x7F then do
    let ((), rest) ← skipString skipText (b :: rest)
    return (s.passed, rest)
  else if 0x80 ≤ b ∧ b ≤ 0x9F then do
    match ← openHead .array (b :: rest) with
    | (some count, rest) => return ((s.enter count).passed, rest)
    | (none, rest) => return (s.enterOpen.passed, rest)
  else if 0xA0 ≤ b ∧ b ≤ 0xBF then do
    match ← openHead .map (b :: rest) with
    | (some count, rest) => return ((s.enter (Skipping.cap (2 * count))).passed, rest)
    | (none, rest) => return (s.enterOpen.passed, rest)
  else if 0xC0 ≤ b ∧ b ≤ 0xDB then do
    let (_, rest) ← argument (info b) rest
    return (some s, rest)
  else if 0xE0 ≤ b ∧ b ≤ 0xFB then do
    let (_, rest) ← argument (info b) rest
    return (s.passed, rest)
  else if b = 0xFF then return (s.closeOpen.passed, rest)
  else throw .typeMismatch

/-- Skips until nothing is left.  Every item takes a byte, so `fuel` of one more than the bytes
there are is enough. -/
def skipAll : (fuel : Nat) → Skipping → Reader Unit
  | 0, _, _ => .error .endOfInput
  | fuel + 1, s, bytes =>
    if s.isDone then .ok ((), bytes)
    else
      match bytes with
      | [] => .error .endOfInput
      | b :: rest => do
        match ← skipItem s b rest with
        | (some s, rest) => skipAll fuel s rest
        | (none, rest) => return ((), rest)

/-- Passes over one item. -/
def skip : Reader Unit := fun bytes =>
  skipAll (bytes.length + 1) .one bytes

end PinnedStore.Cbor
