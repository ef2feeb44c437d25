import Mathlib.Data.List.Lex
import PinnedStore.PinSet.Read
import PinnedStore.Proofs.Graph.Reach

/-!
# The tree that a pin set unfolds to

Several links may lead to the same node.  Reading goes through the nodes of a pin set as if this
were a tree all the same: a node stands in it at every place to which a path of bucket numbers leads
from the top.  Nothing is below the empty node, a leaf, or a node that is not as it should be.

Places come in the lexicographic order of their paths: each of them before those below it, and
whatever is below one bucket before the next bucket.  A list of all places down to some depth is
made by a recursion on the depth; it is in order, and has just the places in it that are not deeper.

In a store in which no node lies below itself the nodes on the way down a path are all different,
and can all be read.  So a path is no longer than there are objects in the store.

* `WellFormed`, `Intact`: a node is as it should be.
* `shapeAt`, `bucketsAt`, `entriesAt`: what the node of a name is.
* `nodeAt`: the node at the end of a path.
* `visits`, `Lists`: the places in their order.
* `length_le_bound_of_nodeAt`: how long paths are.
-/

namespace PinnedStore.PinSet

variable {node? : Digest → Option Node} {n : Node} {d x top : Digest} {path : List Nat}

/-! ## Single nodes -/

/-- A node of a stored pin set is as it should be.  It is empty, or it has a header of the known
version, and then a leaf has a count for each link, and any other node a link for each bucket and no
counts. -/
def WellFormed (n : Node) : Prop :=
  n.isEmpty = true ∨ ∃ h, Header.decode n.data = .ok h ∧ h.version = 1 ∧
    if h.fanout = 0 then h.counts.length = n.links.length
    else n.links.length = h.fanout.toNat ∧ h.counts = []

/-- The node of a name can be read and is as it should be, or it is the empty node, which is known
by its name. -/
def Intact (node? : Digest → Option Node) (d : Digest) : Prop :=
  d = Node.emptyDigest ∨ ∃ n, node? d = some n ∧ WellFormed n

/-- The shape of the node of a name, if it can be read and is as it should be. -/
def shapeAt (node? : Digest → Option Node) (d : Digest) : Option Shape :=
  if d = Node.emptyDigest then some .hollow else (node? d).bind fun n => (shape n).toOption

/-- The buckets of a branch. -/
def bucketsAt (node? : Digest → Option Node) (d : Digest) : List Digest :=
  match shapeAt node? d with
  | some (.branch buckets) => buckets
  | _ => []

/-- The entries of a leaf. -/
def entriesAt (node? : Digest → Option Node) (d : Digest) : List Entry :=
  match shapeAt node? d with
  | some (.leaf entries) => entries
  | _ => []

theorem wellFormed_iff : WellFormed n ↔ ∃ kind, shape n = .ok kind := by
  have known : version = 1 := rfl
  unfold WellFormed shape
  by_cases isEmpty : n.isEmpty = true
  · simp [isEmpty]
  rcases read : Header.decode n.data with e | h
  · simp [isEmpty]
  · by_cases old : h.version = 1
    · by_cases isLeaf : h.fanout = 0
      · by_cases even : h.counts.length = n.links.length <;>
          simp [isEmpty, old, known, isLeaf, even, Node.targets]
      · by_cases even : n.links.length = h.fanout.toNat ∧ h.counts = [] <;>
          simp [isEmpty, old, known, isLeaf, even, Node.targets]
    · simp [isEmpty, old, known]

/-- The buckets of a branch are what it links to. -/
theorem targets_of_branch {buckets : List Digest} (h : shape n = .ok (.branch buckets)) :
    buckets = n.targets := by
  unfold shape at h
  split at h
  · cases h
  split at h
  · cases h
  dsimp only at h
  split at h
  · cases h
  split at h
  · split at h <;> cases h
  · split at h
    · cases h
      rfl
    · cases h

theorem shapeAt_of_node? (named : d ≠ Node.emptyDigest) (there : node? d = some n) :
    shapeAt node? d = (shape n).toOption := by
  rw [shapeAt, if_neg named, there, Option.bind_some]

theorem of_mem_bucketsAt {t : Digest} (h : t ∈ bucketsAt node? d) :
    ∃ n, node? d = some n ∧ t ∈ n.targets := by
  unfold bucketsAt at h
  split at h
  · next buckets kind =>
    unfold shapeAt at kind
    split at kind
    · cases kind
    · obtain ⟨n, there, kind⟩ := Option.bind_eq_some_iff.mp kind
      refine ⟨n, there, ?_⟩
      rcases read : shape n with damage | found
      · rw [read] at kind
        cases kind
      · rw [read] at kind
        cases kind
        exact targets_of_branch read ▸ h
  · cases h

/-! ## Places -/

/-- The node to which a path of bucket numbers leads. -/
def nodeAt (node? : Digest → Option Node) : Digest → List Nat → Option Digest
  | d, [] => some d
  | d, i :: path => (bucketsAt node? d)[i]?.bind fun t => nodeAt node? t path

/-- The places that are not deeper than this, each with its path, in order. -/
def visits (node? : Digest → Option Node) : (depth : Nat) → Digest → List (List Nat × Digest)
  | 0, _ => []
  | depth + 1, d => ([], d) :: (bucketsAt node? d).zipIdx.flatMap fun (t, i) =>
      (visits node? depth t).map fun (path, x) => (i :: path, x)

theorem mem_visits {depth : Nat} :
    (path, x) ∈ visits node? depth d ↔ path.length < depth ∧ nodeAt node? d path = some x := by
  induction depth generalizing d path with
  | zero => simp [visits]
  | succ depth ih =>
    rw [visits, List.mem_cons, List.mem_flatMap]
    cases path with
    | nil => simp [nodeAt, eq_comm]
    | cons i path =>
      rw [nodeAt, Option.bind_eq_some_iff, List.length_cons, Nat.add_lt_add_iff_right]
      constructor
      · rintro (same | ⟨⟨t, j⟩, isBucket, inside⟩)
        · cases same
        · obtain ⟨⟨path', x'⟩, inside, same⟩ := List.mem_map.mp inside
          cases same
          obtain ⟨short, leads⟩ := ih.mp inside
          exact ⟨short, t, List.mem_zipIdx_iff_getElem?.mp isBucket, leads⟩
      · rintro ⟨short, t, isBucket, leads⟩
        refine Or.inr ⟨(t, i), List.mem_zipIdx_iff_getElem?.mpr isBucket, ?_⟩
        exact List.mem_map.mpr ⟨(path, x), ih.mpr ⟨short, leads⟩, rfl⟩

theorem pairwise_visits (depth : Nat) (d : Digest) :
    (visits node? depth d).Pairwise fun a b => a.1 < b.1 := by
  induction depth generalizing d with
  | zero => exact .nil
  | succ depth ih =>
    have numbered : (bucketsAt node? d).zipIdx.Pairwise fun a b => a.2 < b.2 := by
      rw [← List.pairwise_map (f := Prod.snd), List.zipIdx_map_snd]
      exact List.pairwise_lt_range' 1
    rw [visits]
    refine List.pairwise_cons.mpr ⟨fun place below => ?_, List.pairwise_flatMap.mpr ⟨?_, ?_⟩⟩
    · obtain ⟨⟨t, i⟩, -, inside⟩ := List.mem_flatMap.mp below
      obtain ⟨⟨path, x⟩, -, rfl⟩ := List.mem_map.mp inside
      exact List.nil_lt_cons i path
    · rintro ⟨t, i⟩ -
      refine List.pairwise_map.mpr ((ih t).imp fun earlier => ?_)
      exact List.cons_lt_cons_iff.mpr (Or.inr ⟨rfl, earlier⟩)
    · refine numbered.imp fun {a b} earlier first inside second inside' => ?_
      obtain ⟨⟨path, x⟩, -, rfl⟩ := List.mem_map.mp inside
      obtain ⟨⟨path', x'⟩, -, rfl⟩ := List.mem_map.mp inside'
      exact List.cons_lt_cons_iff.mpr (Or.inl earlier)

/-- The names of the places, in order. -/
theorem map_snd_visits (depth : Nat) (d : Digest) : (visits node? (depth + 1) d).map Prod.snd
    = d :: (bucketsAt node? d).flatMap fun t => (visits node? depth t).map Prod.snd := by
  rw [visits, List.map_cons, List.map_flatMap]
  refine congrArg _ ?_
  conv_rhs => rw [← List.zipIdx_map_fst 0 (bucketsAt node? d), List.flatMap_map]
  refine congrArg (List.flatMap · _) (funext fun place => ?_)
  rw [List.map_map]
  rfl

/-- These are the places whose paths are among those, in order. -/
structure Lists (node? : Digest → Option Node) (top : Digest) (among : List Nat → Prop)
    (places : List (List Nat × Digest)) : Prop where
  inOrder : places.Pairwise fun a b => a.1 < b.1
  isPlace : ∀ path d, (path, d) ∈ places ↔ nodeAt node? top path = some d ∧ among path

/-- The places up to one of them. -/
theorem Lists.upTo {early late : List (List Nat × Digest)} {place : List Nat × Digest}
    (lists : Lists node? top (fun _ => True) (early ++ place :: late)) :
    Lists node? top (· ≤ place.1) (early ++ [place]) := by
  have split : early ++ place :: late = (early ++ [place]) ++ late := by simp
  have inOrder := lists.inOrder
  rw [split] at inOrder
  obtain ⟨first, -, before⟩ := List.pairwise_append.mp inOrder
  refine ⟨first, fun path d => ?_⟩
  have isPlace := lists.isPlace path d
  rw [split, List.mem_append, and_true] at isPlace
  rw [← isPlace]
  constructor
  · intro inside
    refine ⟨Or.inl inside, ?_⟩
    rcases List.mem_append.mp inside with earlier | same
    · exact le_of_lt ((List.pairwise_append.mp first).2.2 _ earlier _ List.mem_cons_self)
    · cases List.mem_singleton.mp same
      exact le_refl _
  · rintro ⟨inside | later, bounded⟩
    · exact inside
    · exact absurd (before place (List.mem_append_right _ List.mem_cons_self) _ later)
        (not_lt.mpr bounded)

/-! ## Depth -/

/-- The nodes on the way down a path. -/
theorem exists_trail (acyclic : Acyclic node?) (leads : nodeAt node? d path = some x) :
    ∃ trail : List Digest, trail.length = path.length ∧ trail.Nodup ∧
      ∀ y ∈ trail, Reaches node? d y ∧ ∃ n, node? y = some n := by
  induction path generalizing d with
  | nil => exact ⟨[], rfl, List.nodup_nil, nofun⟩
  | cons i path ih =>
    obtain ⟨t, isBucket, leads⟩ := Option.bind_eq_some_iff.mp leads
    obtain ⟨n, there, link⟩ := of_mem_bucketsAt (List.mem_of_getElem? isBucket)
    obtain ⟨trail, long, nodup, onTheWay⟩ := ih leads
    refine ⟨d :: trail, by rw [List.length_cons, List.length_cons, long],
      List.nodup_cons.mpr ⟨fun again => ?_, nodup⟩, fun y inside => ?_⟩
    · exact acyclic d ((onTheWay d again).1.below_of_link there link)
    · rcases List.mem_cons.mp inside with rfl | inside
      · exact ⟨.refl y, n, there⟩
      · obtain ⟨reached, readable⟩ := onTheWay y inside
        exact ⟨.step there link reached, readable⟩

/-- No path is longer than there are objects in the store. -/
theorem length_le_bound_of_nodeAt {s : ObjectStore} (acyclic : Acyclic s.node?)
    (leads : nodeAt s.node? d path = some x) : path.length ≤ s.bound := by
  obtain ⟨trail, long, nodup, onTheWay⟩ := exists_trail acyclic leads
  rw [← long]
  exact Graph.length_le_bound nodup fun y inside => (onTheWay y inside).2

theorem lists_visits {s : ObjectStore} (acyclic : Acyclic s.node?) (top : Digest) :
    Lists s.node? top (fun _ => True) (visits s.node? (s.bound + 1) top) := by
  refine ⟨pairwise_visits _ top, fun path d => ?_⟩
  rw [mem_visits, and_true, and_iff_right_iff_imp]
  exact fun leads => Nat.lt_succ_of_le (length_le_bound_of_nodeAt acyclic leads)

end PinnedStore.PinSet
