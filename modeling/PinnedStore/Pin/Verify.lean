import PinnedStore.Pin.Change

/-!
# Verifying pins

Whether everything is there that the pins ask for: the whole graph below each recursive pin, each
direct pin, and each node of the pin record.  Whatever is not is a problem; problems are told as
they are found, and do not end the search for more.
-/

namespace PinnedStore.Pin

open Program

/-- What is missing. -/
inductive Problem where
  /-- The graph below a recursive pin can not be read in full. -/
  | incomplete (root : Digest) (f : Failure)
  /-- A direct pin is not there. -/
  | missing (d : Digest)
  /-- A node of the pin record is not there. -/
  | missingRecord (d : Digest)
  deriving DecidableEq

/-- The words for a problem. -/
def Problem.message : Problem → String
  | .incomplete root f => s!"recursive pin {root} is incomplete: {f.message}"
  | .missing d => s!"direct pin {d} is missing"
  | .missingRecord d => s!"pin record node {d} is missing"

/-- Looks at the graph below a recursive pin. -/
def checkGraph (root : Digest) : Program Failure (Option Problem) := do
  match ← attempt (Graph.fetch root) with
  | .ok () => return none
  | .error f => return some (.incomplete root f)

/-- Looks for a node. -/
def checkPresence (problem : Digest → Problem) (d : Digest) : Program Failure (Option Problem) := do
  if ← Graph.has d then return none else return some (problem d)

/-- Checks each of some nodes and tells the problems.  The answer is how many there are. -/
def tell (check : Digest → Program Failure (Option Problem)) : List Digest → Program Failure Nat
  | [] => return 0
  | d :: rest => do
    match ← check d with
    | none => tell check rest
    | some problem =>
      say (.remark problem.message)
      return (← tell check rest) + 1

/-- Checks all pins.  The answer is the number of problems. -/
def verify : Program Failure Nat := do
  let pins ← current
  let graphs ← tell checkGraph pins.recursive.toList
  let direct ← tell (checkPresence .missing) pins.direct.toList
  let internal ← tell (checkPresence .missingRecord) pins.internal.toList
  return graphs + direct + internal

end PinnedStore.Pin
