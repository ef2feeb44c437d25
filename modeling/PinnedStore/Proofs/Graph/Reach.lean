import PinnedStore.Proofs.Storage.Calls

/-!
# What lies below a node

Links lead from a node to its targets, and a node lies below another one if a chain of links leads
there.  The links may lead round in circles, but no more nodes can be read than there are objects in
the store.

* `Reaches`: a chain of links leads from one node to another.
* `Below`, `reaches_iff`: a chain of at least one link does.
* `Acyclic`: no node lies below itself.
* `Fetchable`: everything below a node can be read.
* `Graph.length_le_bound`, `Graph.size_le_bound`: how many nodes can be read.
* `ObjectStore.ofNodes`: a store made of given nodes.
-/

namespace PinnedStore

open Program

variable {node? node?' : Digest → Option Node} {d d' r : Digest}

/-- A chain of links leads from one node to another. -/
inductive Reaches (node? : Digest → Option Node) : Digest → Digest → Prop
  | refl (d : Digest) : Reaches node? d d
  | step {d target d' : Digest} {n : Node} (there : node? d = some n) (link : target ∈ n.targets)
    (later : Reaches node? target d') : Reaches node? d d'

theorem Reaches.trans {d'' : Digest} (h : Reaches node? d d') (h' : Reaches node? d' d'') :
    Reaches node? d d'' := by
  induction h with
  | refl => exact h'
  | step there link _ ih => exact .step there link (ih h')

/-- A set that is closed under links has everything in it that lies below its elements. -/
theorem Reaches.mem_of_closed {set : Digests} (h : Reaches node? d d')
    (closed : ∀ x ∈ set, ∀ n, node? x = some n → ∀ t ∈ n.targets, t ∈ set) (inside : d ∈ set) :
    d' ∈ set := by
  induction h with
  | refl => exact inside
  | step there link _ ih => exact ih (closed _ inside _ there _ link)

/-- A chain of at least one link leads from one node to another. -/
def Below (node? : Digest → Option Node) (r d : Digest) : Prop :=
  ∃ x n, Reaches node? r x ∧ node? x = some n ∧ d ∈ n.targets

/-- What can be reached from a target of a node lies below the node. -/
theorem Reaches.below_of_link {t : Digest} {n : Node} (h : Reaches node? t d)
    (there : node? r = some n)
    (link : t ∈ n.targets) : Below node? r d := by
  induction h generalizing r n with
  | refl => exact ⟨r, n, .refl r, there, link⟩
  | step there' link' _ ih =>
    obtain ⟨x, m, reached, readable, last⟩ := ih there' link'
    exact ⟨x, m, .step there link reached, readable, last⟩

/-- What can be reached from a node lies below it, but for the node itself. -/
theorem reaches_iff : Reaches node? r d ↔ d = r ∨ Below node? r d := by
  constructor
  · intro reached
    cases reached with
    | refl => exact Or.inl rfl
    | step there link later => exact Or.inr (later.below_of_link there link)
  · rintro (rfl | ⟨x, n, reached, there, link⟩)
    · exact .refl d
    · exact reached.trans (.step there link (.refl d))

/-- No node lies below itself. -/
def Acyclic (node? : Digest → Option Node) : Prop := ∀ d, ¬ Below node? d d

/-- Where links lead down, none of them leads back. -/
theorem acyclic_of_rank (rank : Digest → Nat)
    (down : ∀ d n, node? d = some n → ∀ t ∈ n.targets, rank t < rank d) : Acyclic node? := by
  have falls : ∀ {a b}, Reaches node? a b → rank b ≤ rank a := by
    intro a b reached
    induction reached with
    | refl => exact Nat.le_refl _
    | step there link _ ih => exact ih.trans (down _ _ there _ link).le
  rintro d ⟨x, n, reached, there, link⟩
  have lower := down x n there d link
  have higher := falls reached
  omega

/-- Everything below a node can be read. -/
def Fetchable (node? : Digest → Option Node) (r : Digest) : Prop :=
  ∀ d, Reaches node? r d → ∃ n, node? d = some n

/-- What lies below a node stays below it as long as no node on the way is lost. -/
theorem Reaches.mono (h : Reaches node? d d')
    (kept : ∀ x, Reaches node? d x → ∀ n, node? x = some n → node?' x = some n) :
    Reaches node?' d d' := by
  induction h with
  | refl => exact .refl _
  | step there link _ ih =>
    exact .step (kept _ (.refl _) _ there) link
      (ih fun x reached => kept x (.step there link reached))

/-- A graph that can be read can still be read as long as no node of it is lost, and nothing else
lies below its root. -/
theorem Fetchable.mono (fetchable : Fetchable node? r)
    (kept : ∀ x, Reaches node? r x → ∀ n, node? x = some n → node?' x = some n) :
    Fetchable node?' r ∧ ∀ d, Reaches node?' r d → Reaches node? r d := by
  have back : ∀ {a d}, Reaches node?' a d → Reaches node? r a → Reaches node? r d := by
    intro a d h reached
    induction h with
    | refl => exact reached
    | step there link _ ih =>
      obtain ⟨n, readable⟩ := fetchable _ reached
      cases (kept _ reached n readable).symm.trans there
      exact ih (reached.trans (.step readable link (.refl _)))
  refine ⟨fun d h => ?_, fun d h => back h (.refl _)⟩
  obtain ⟨n, readable⟩ := fetchable d (back h (.refl _))
  exact ⟨n, kept d (back h (.refl _)) n readable⟩

/-- What lies below a node lies below it among other nodes too, if everything below it can be read
there and nothing is read differently. -/
theorem Fetchable.reaches (fetchable : Fetchable node?' r)
    (agree : ∀ x n n', node? x = some n → node?' x = some n' → n = n') (h : Reaches node? r d) :
    Reaches node?' r d := by
  induction h with
  | refl => exact .refl _
  | step there link _ ih =>
    obtain ⟨n', there'⟩ := fetchable _ (.refl _)
    obtain rfl := agree _ _ _ there there'
    exact .step there' link (ih fun x reached => fetchable x (.step there' link reached))

/-! ## Readable nodes -/

namespace Graph

theorem mem_insert {ds : Digests} {x : Digest} : x ∈ ds.insert d ↔ x = d ∨ x ∈ ds := by
  rw [Std.ExtTreeSet.mem_insert, Std.compare_eq_iff_eq, eq_comm]

/-- There are no more nodes to read than the store has objects. -/
theorem length_le_bound {s : ObjectStore} {ds : List Digest} (nodup : ds.Nodup)
    (readable : ∀ d ∈ ds, ∃ n, s.node? d = some n) : ds.length ≤ s.bound := by
  refine ObjectStore.length_le_bound nodup fun d h => ?_
  obtain ⟨n, there⟩ := readable d h
  obtain ⟨data, found, -⟩ := node?_eq_some.mp there
  rw [ObjectStore.held_of_block? found]
  exact Option.some_ne_none data

theorem nodup_toList (ds : Digests) : ds.toList.Nodup :=
  ds.distinct_toList.imp fun apart same => apart (Std.compare_eq_iff_eq.mpr same)

theorem size_le_bound {s : ObjectStore} {ds : Digests}
    (readable : ∀ d ∈ ds, ∃ n, s.node? d = some n) :
    ds.size ≤ s.bound := by
  rw [← Std.ExtTreeSet.length_toList]
  exact length_le_bound (nodup_toList ds) fun d h => readable d (Std.ExtTreeSet.mem_toList.mp h)

end Graph

/-! ## Given nodes -/

/-- A store in memory with these nodes under these names, whatever their digests are. -/
def ObjectStore.ofNodes (nodes : List (Digest × Node)) : ObjectStore :=
  .memory (Std.ExtTreeMap.ofList (nodes.map fun (d, n) =>
    (BlockPath.write ObjectStore.inMemory.features d, n.encode)))

/-- Nothing else can be read there. -/
theorem ObjectStore.mem_of_node?_ofNodes {nodes : List (Digest × Node)} {n : Node}
    (there : (ofNodes nodes).node? d = some n) : d ∈ nodes.map Prod.fst := by
  obtain ⟨data, found, -⟩ := Graph.node?_eq_some.mp there
  have held := held_of_block? found
  rw [ofNodes, ObjectStore.held] at held
  by_contra outside
  rw [Std.ExtTreeMap.getElem?_ofList_of_contains_eq_false] at held
  · cases held
  · rw [List.map_map, ← Bool.not_eq_true, List.contains_iff_mem, List.mem_map]
    rintro ⟨⟨d', m⟩, inside, same⟩
    cases BlockPath.write_injective _ same
    exact outside (List.mem_map.mpr ⟨_, inside, rfl⟩)

end PinnedStore
