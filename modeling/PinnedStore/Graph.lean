import PinnedStore.Blocks

/-!
# Graphs of nodes

Nodes are kept as blocks.  A node and everything its links lead to, and so on, is the graph below
it.

* `Graph.get`, `Graph.add`, `Graph.remove`, `Graph.has`: single nodes.
* `Graph.closure`: everything that can be reached from some nodes, each node read once.
* `Graph.fetch`: makes sure that the whole graph below a node can be read.

## Why the walk ends

A walk keeps the nodes it has read and a stack of those it has yet to look at.  Every step drops
what has been read already off the top of the stack and reads the node it finds there, so a step
that does not end the walk reads a node for the first time.  Each of these is an object of its own
in the store.  So a walk that could make one step more than there are objects has made all the steps
it can, whatever the links say; cycles, which honest digests rule out, would do no harm either.
-/

namespace PinnedStore.Graph

open Program

/-- Reads a node. -/
def get (d : Digest) : Program Failure Node := do
  let data ← Blocks.get d
  match Node.decode data with
  | .ok node => return node
  | .error e => fail (.of (.undecodable d e))

/-- Stores a node; the answer is its name. -/
def add (node : Node) : Program Failure Digest :=
  Blocks.put node.encode

/-- Removes a node; it does not matter whether it is there. -/
def remove (d : Digest) : Program Failure Unit := do
  match ← attempt (Blocks.remove d) with
  | .ok () => return ()
  | .error f => if f.isNotFound then return () else fail f

/-- Whether a node is there. -/
def has (d : Digest) : Program Failure Bool :=
  Blocks.has d

/-- No fewer than the nodes that can be read. -/
def bound {ε : Type} : Program ε Nat :=
  inspect fun w => w.store.bound

/-- Reads on from the nodes on the stack until there is nothing new.  The links of a node are looked
at from the last to the first. -/
def closureFrom {ε : Type} (read : Digest → Program ε Node) :
    (fuel : Nat) → (seen : Digests) → (stack : List Digest) → Program ε Digests
  | 0, _, _ => halt
  | fuel + 1, seen, stack =>
    match stack.dropWhile (· ∈ seen) with
    | [] => return seen
    | d :: rest => do
      let node ← read d
      closureFrom read fuel (seen.insert d) (node.targets.reverse ++ rest)

/-- The nodes that can be reached from `roots`, which are themselves among them.  The roots are
looked at from the last to the first. -/
def closure {ε : Type} (read : Digest → Program ε Node) (roots : List Digest) :
    Program ε Digests := do
  closureFrom read ((← bound) + 1) ∅ roots.reverse

/-- Makes sure that every node that can be reached from a node can be read. -/
def fetch (root : Digest) : Program Failure Unit := do
  let _ ← closure (fun d => mapError
    (fun f => f.within s!"fetching graph of {root}: node {d} unavailable") (get d)) [root]

end PinnedStore.Graph
