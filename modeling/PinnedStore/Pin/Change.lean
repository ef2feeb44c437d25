import PinnedStore.Pin.Walk

/-!
# Setting, removing and asking about pins

A recursive pin needs the whole graph below its target, a direct pin only the target.  A recursive
pin takes the place of a direct one on the same target and not the other way round, so no target has
both.  Nothing is removed that is kept for another reason than its own pin.

An operation that fails leaves the pins as they were.

* `classify`: why a node is kept.
* `pin`, `pinNode`, `unpin`: the operations with all their checks.
* `insert`, `erase`: the operations without any.
-/

namespace PinnedStore.Pin

open Program

/-- The pins as they are. -/
def current {ε : Type} : Program ε Pins := inspect World.pins

/-- Changes the pins. -/
def changePins {ε : Type} (change : Pins → Pins) : Program ε Unit :=
  update fun w => { w with pins := change w.pins }

/-- Whether a query is about everything or about this. -/
def Query.covers (q part : Query) : Bool := q == .all || q == part

/-- Why a node is kept, as far as the query goes.  Reasons are tried in a fixed order: recursive,
direct, internal, indirect. -/
def classify (d : Digest) (q : Query) : Program Error (Option Reason) := do
  let pins ← current
  if q.covers .recursive && d ∈ pins.recursive then return some .recursive
  if q.covers .direct && d ∈ pins.direct then return some .direct
  if q.covers .internal && d ∈ pins.internal then return some .internal
  if q.covers .indirect then
    let root ← findRoot d pins.recursive.toList
    return root.map .indirect
  return none

/-- Pins a node with everything below it. -/
def pinRecursive (d : Digest) : Program Error Unit := do
  let pins ← current
  if d ∈ pins.recursive then return ()
  -- A later flush removes the nodes of this record, except for the empty node.
  if d ≠ Node.emptyDigest && d ∈ pins.internal then fail (.recordNode d)
  else
    mapError .fetch (Graph.fetch d)
    if d ∈ pins.direct then log (.upgraded d)
    changePins fun pins =>
      { pins with recursive := pins.recursive.insert d, direct := pins.direct.erase d }
    log (.pinned d true)

/-- Pins a node by itself. -/
def pinDirect (d : Digest) : Program Error Unit := do
  let pins ← current
  if d ∈ pins.recursive then fail (.alreadyRecursive d)
  else
    let _ ← fetchNode d
    changePins fun pins => { pins with direct := pins.direct.insert d }
    log (.pinned d false)

/-- Pins a node. -/
def pin (d : Digest) (recursive : Bool) : Program Error Unit :=
  if recursive then pinRecursive d else pinDirect d

/-- Stores a node and pins it. -/
def pinNode (node : Node) (recursive : Bool) : Program Error Digest := do
  let d ← mapError .store (Graph.add node)
  pin d recursive
  return d

/-- Removes a pin; a recursive one only if `recursive` is set. -/
def unpin (d : Digest) (recursive : Bool) : Program Error Unit := do
  match ← classify d .all with
  | none => fail .notPinned
  | some .recursive =>
    if recursive then
      changePins fun pins => { pins with recursive := pins.recursive.erase d }
      log (.unpinnedRecursive d)
    else fail (.recursive d)
  | some .direct =>
    changePins fun pins => { pins with direct := pins.direct.erase d }
    log (.unpinnedDirect d)
  | some .internal => fail (.internal d)
  | some (.indirect root) => fail (.indirect d root)

/-- Why a pin can not be changed without checks: there are no pins of this mode to change. -/
structure Unrecognized where
  mode : Mode

/-- The words for a mode without pins. -/
def Unrecognized.message (e : Unrecognized) : String :=
  s!"unrecognized pin mode: {e.mode.label}"

/-- Changes the pins of a mode, without any check. -/
def changeMode (mode : Mode) (change : Digests → Digests) : Program Unrecognized Unit :=
  match mode with
  | .recursive => changePins fun pins => { pins with recursive := change pins.recursive }
  | .direct => changePins fun pins => { pins with direct := change pins.direct }
  | mode => fail ⟨mode⟩

/-- Pins a node without any check. -/
def insert (d : Digest) (mode : Mode) : Program Unrecognized Unit :=
  changeMode mode fun pinned => pinned.insert d

/-- Removes a pin without any check. -/
def erase (d : Digest) (mode : Mode) : Program Unrecognized Unit :=
  changeMode mode fun pinned => pinned.erase d

end PinnedStore.Pin
