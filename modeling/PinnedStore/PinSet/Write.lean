import PinnedStore.Graph
import PinnedStore.PinSet.Codec

/-!
# Writing pin sets

The tree of a pin set is written from the leaves up, bucket by bucket, with a list of work still to
be done and a list of nodes that are done.  Entries that have to be split are replaced by the
buckets they are split into, followed by the order to join these buckets once they are written.

An empty bucket is the empty node, wherever it stands in the tree; that node is stored once, before
it is first used.

* `Frame`, `Progress`: what is still to be done, and what is done.
* `Codec.run`: does the work.
* `Codec.write`: writes entries; the answer is the top node and every node of the tree.
* `Codec.writeSet`: writes digests that are not counted yet.
-/

namespace PinnedStore.PinSet

open Program

/-- A piece of work. -/
inductive Frame where
  /-- Write entries as a tree whose top is at this level. -/
  | build (entries : List Entry) (level : Nat)
  /-- Join the buckets that were written last under a node at this level. -/
  | join (level : Nat)

/-- What has been done. -/
structure Progress where
  /-- The tops of the trees that are written and not yet joined, the newest first. -/
  results : List Digest
  /-- Every node written, the newest first. -/
  recorded : List Digest
  /-- Whether the empty node is stored. -/
  emptyStored : Bool

namespace Progress

/-- Nothing has been done. -/
def start : Progress := ⟨[], [], false⟩

/-- A node has been written. -/
def push (p : Progress) (d : Digest) : Progress :=
  { p with results := d :: p.results, recorded := d :: p.recorded }

end Progress

namespace Codec

variable (codec : Codec)

/-- No fewer than the steps that a piece of work takes. -/
def weight : Frame → Nat
  | .build _ level => Nat.pow (codec.fanout.toNat + 2) (deepest + 1 - level)
  | .join _ => 1

/-- No fewer than the steps that pieces of work take. -/
def totalWeight : List Frame → Nat
  | [] => 0
  | frame :: rest => codec.weight frame + totalWeight rest

/-- The work that splitting makes. -/
def split (level : Nat) (entries : List Entry) : List Frame :=
  (codec.buckets level entries).map fun bucket => .build bucket (level + 1)

theorem weight_pos (frame : Frame) : 0 < codec.weight frame := by
  cases frame with
  | build entries level => exact Nat.pow_pos (by omega)
  | join level => exact Nat.one_pos

@[simp] theorem totalWeight_cons (frame : Frame) (rest : List Frame) :
    codec.totalWeight (frame :: rest) = codec.weight frame + codec.totalWeight rest :=
  rfl

@[simp] theorem totalWeight_append (first second : List Frame) :
    codec.totalWeight (first ++ second) = codec.totalWeight first + codec.totalWeight second := by
  induction first with
  | nil => simp [totalWeight]
  | cons frame rest ih => simp [ih, Nat.add_assoc]

theorem totalWeight_split (level : Nat) (entries : List Entry) :
    codec.totalWeight (codec.split level entries)
      = codec.fanout.toNat * Nat.pow (codec.fanout.toNat + 2) (deepest - level) := by
  have same : ∀ buckets : List (List Entry),
      codec.totalWeight (buckets.map fun bucket => .build bucket (level + 1))
        = buckets.length * Nat.pow (codec.fanout.toNat + 2) (deepest - level) := by
    intro buckets
    induction buckets with
    | nil => simp [totalWeight]
    | cons bucket rest ih =>
      rw [List.map_cons, totalWeight_cons, ih, List.length_cons, Nat.add_mul, Nat.one_mul,
        Nat.add_comm]
      simp [weight, Nat.add_sub_add_right]
  rw [split, same, length_buckets]

/-- Splitting makes less work than there was. -/
theorem totalWeight_split_lt {level : Nat} {entries : List Entry}
    (deep : codec.isLeaf level entries = false) :
    codec.totalWeight (codec.split level entries ++ [.join level])
      < codec.weight (.build entries level) := by
  have below : level < deepest := by
    simp only [isLeaf, Bool.or_eq_false_iff, decide_eq_false_iff_not] at deep
    omega
  rw [totalWeight_append, totalWeight_split, weight,
    show deepest + 1 - level = (deepest - level) + 1 by omega]
  have positive : 0 < Nat.pow (codec.fanout.toNat + 2) (deepest - level) :=
    Nat.pow_pos (by omega)
  have grown : Nat.pow (codec.fanout.toNat + 2) (deepest - level + 1)
      = Nat.pow (codec.fanout.toNat + 2) (deepest - level) * (codec.fanout.toNat + 2) := rfl
  simp only [totalWeight, weight, grown]
  rw [Nat.mul_add, Nat.mul_comm]
  omega

/-- Stores a node of the tree. -/
def store (p : Progress) (node : Node) : Program (Interrupted Error) Progress := do
  let d ← mapError (fun f => ⟨.storage f, p.recorded.reverse⟩) (Graph.add node)
  return p.push d

/-- Writes an empty bucket. -/
def storeEmpty (p : Progress) : Program (Interrupted Error) Progress := do
  if p.emptyStored then return p.push Node.emptyDigest
  let _ ← mapError (fun f => ⟨.storage f, p.recorded.reverse⟩) (Graph.add .empty)
  return { p.push Node.emptyDigest with emptyStored := true }

/-- Does all the work there is. -/
def run (p : Progress) : List Frame → Program (Interrupted Error) Progress
  | [] => return p
  | .build [] _ :: rest => do
    let p ← storeEmpty p
    run p rest
  | .build (e :: entries) level :: rest =>
    if _deep : codec.isLeaf level (e :: entries) then do
      let p ← store p (leaf level (e :: entries))
      run p rest
    else run p (codec.split level (e :: entries) ++ .join level :: rest)
  | .join level :: rest =>
    let count := codec.fanout.toNat
    if p.results.length < count then halt
    else do
      let buckets := (p.results.take count).reverse
      let p ← store { p with results := p.results.drop count } (branch codec.fanout level buckets)
      run p rest
termination_by frames => codec.totalWeight frames
decreasing_by
  · rw [totalWeight_cons]; have := codec.weight_pos (.build [] ‹_›); omega
  · rw [totalWeight_cons]; have := codec.weight_pos (.build (e :: entries) level); omega
  · have less := codec.totalWeight_split_lt (eq_false_of_ne_true ‹_›)
    rw [totalWeight_cons, totalWeight_append, totalWeight_cons]
    rw [totalWeight_append] at less
    simp only [totalWeight] at less ⊢
    omega
  · rw [totalWeight_cons]; have := codec.weight_pos (.join level); omega

/-- Writes entries as a pin set.  The answer is the top node and every node of the set, in the order
in which they were written and as often as they are used. -/
def write (entries : List Entry) : Program (Interrupted Error) (Digest × List Digest) := do
  let merged := (Multiset.ofEntries entries).toList
  let p ← codec.run .start [.build merged 0]
  match p.results with
  | [] => halt
  | top :: _ =>
    log (.setStored merged.length (p.recorded.filter (· ≠ Node.emptyDigest)).length top)
    return (top, p.recorded.reverse)

/-- Writes digests as a pin set that counts each of them. -/
def writeSet (ds : List Digest) : Program (Interrupted Error) (Digest × List Digest) :=
  codec.write (ds.map fun d => (d, 1))

end Codec

end PinnedStore.PinSet
