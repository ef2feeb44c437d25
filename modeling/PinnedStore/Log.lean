import PinnedStore.Failure

/-!
# Log lines

What the library has to say while it works.  Each kind of event has a level and the part of the
program it comes from, and is written as one line: level, origin, the message, and its fields.

A run also says things on its own behalf, to whoever watches it; such a `remark` is no log line, but
is kept in order with them in the run's journal.
-/

namespace PinnedStore

namespace Log

/-- How much an event matters. -/
inductive Level where
  | error | warn | info | debug | trace
  deriving DecidableEq, Repr

namespace Level

/-- How far a level is from the most important one. -/
def rank : Level → Nat
  | .error => 1
  | .warn => 2
  | .info => 3
  | .debug => 4
  | .trace => 5

/-- The name of a level in a log line. -/
def label : Level → String
  | .error => "ERROR"
  | .warn => "WARN"
  | .info => "INFO"
  | .debug => "DEBUG"
  | .trace => "TRACE"

end Level

/-- What can happen. -/
inductive Event where
  /-- A block to be written was there already. -/
  | blockPresent (d : Digest)
  /-- A pin set has been written. -/
  | setStored (entries nodes : Nat) (root : Digest)
  /-- The pin record has been read. -/
  | recordLoaded (root : Digest) (recursive direct internal : Nat)
  /-- There was no pin record to read. -/
  | startedEmpty
  /-- A direct pin becomes a recursive one. -/
  | upgraded (d : Digest)
  /-- A pin has been set. -/
  | pinned (d : Digest) (recursive : Bool)
  /-- A recursive pin has been removed. -/
  | unpinnedRecursive (d : Digest)
  /-- A direct pin has been removed. -/
  | unpinnedDirect (d : Digest)
  /-- A node of an old record is still there. -/
  | staleKept (d : Digest) (f : Failure)
  /-- The pin record has been written. -/
  | recordFlushed (root : Digest) (direct recursive nodes removed : Nat)
  /-- It is known what has to be kept. -/
  | retainedCollected (count : Nat)
  /-- A block that nothing needs is still there. -/
  | blockKept (d : Digest) (f : Failure)
  /-- The configuration file is about to be written; the path is quoted. -/
  | configurationWritten (path : String)

namespace Event

/-- The level of an event. -/
def level : Event → Level
  | blockPresent _ => .trace
  | setStored .. | upgraded _ | pinned .. | unpinnedRecursive _ | unpinnedDirect _
  | retainedCollected _ => .debug
  | recordLoaded .. | startedEmpty | recordFlushed .. | configurationWritten _ => .info
  | staleKept .. | blockKept .. => .warn

/-- The part of the program an event comes from. -/
def origin : Event → String
  | blockPresent _ => "anchor_core::block"
  | setStored .. => "anchor_pin::set"
  | retainedCollected _ | blockKept .. => "anchor_pin::gc"
  | configurationWritten _ => "anchor::init_config"
  | _ => "anchor_pin::pinner"

/-- The message of an event, with its fields. -/
def message : Event → String
  | blockPresent d => s!"block already stored hash={d}"
  | setStored entries nodes root =>
    s!"stored pin set entries={entries} nodes={nodes} root={root.short}"
  | recordLoaded root recursive direct internal =>
    s!"loaded pin state root={root.short} recursive={recursive} direct={direct} internal={internal}"
  | startedEmpty => "no pin state recorded, starting empty"
  | upgraded d => s!"upgrading direct pin to recursive target={d}"
  | pinned d recursive => s!"pinned target={d} recursive={recursive}"
  | unpinnedRecursive d => s!"unpinned recursive target={d}"
  | unpinnedDirect d => s!"unpinned direct target={d}"
  | staleKept d f => s!"failed to remove stale pin node: {f.message} hash={d.short}"
  | recordFlushed root direct recursive nodes removed =>
    s!"flushed pin state root={root.short} direct={direct} recursive={recursive} nodes={nodes} removed={removed}"
  | retainedCollected count => s!"collected retained set retained={count}"
  | blockKept d f => s!"failed to delete block: {f.message} hash={d.short}"
  | configurationWritten path => s!"writing to config file {path}"

/-- The line of an event. -/
def line (e : Event) : String :=
  s!"{e.level.label} {e.origin}: {e.message}"

end Event

/-- One thing said during a run. -/
inductive Notice where
  /-- A log event. -/
  | event (e : Event)
  /-- Something the run says on its own behalf. -/
  | remark (text : String)

/-- The line of a notice, if events of this rank are shown. -/
def Notice.line? (rank : Nat) : Notice → Option String
  | .event e => if e.level.rank ≤ rank then some e.line else none
  | .remark text => some text

end Log

end PinnedStore
