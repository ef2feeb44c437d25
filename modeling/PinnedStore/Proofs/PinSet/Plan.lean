import PinnedStore.PinSet.Write
import PinnedStore.Proofs.Storage.Storing

/-!
# What a codec writes

The tree of a pin set follows from its entries and the codec alone.  Here it is given by recursion
over the levels that are left, without a store and without a list of work; then the machine that
does the work is shown to write just these nodes, the buckets of a node before the node itself.

* `merged`: the entries of a pin set, sorted and with one count for each digest.
* `Codec.topNode`, `Codec.nodes`: the top of a tree, and all its nodes in the order of writing.
* `Codec.writeTree`: the work on one tree, by recursion.
* `Codec.run_build`: the machine does this work, and then the rest.
* `Codec.stores_write`: writing stores just the nodes of the tree, and reports them.
-/

namespace PinnedStore.PinSet

open Program

/-- The entries of a pin set: each digest that counts, with the sum of its counts. -/
def merged (entries : List Entry) : List Entry := (Multiset.ofEntries entries).toList

/-- A pin set has no more entries than have been counted. -/
theorem length_merged_le (entries : List Entry) : (merged entries).length ≤ entries.length := by
  have grown : ∀ m : Multiset, (m.addAll entries).size ≤ m.size + entries.length := by
    induction entries with
    | nil => exact fun m => Nat.le_refl _
    | cons e rest ih =>
      intro m
      have step : (m.add e).size ≤ m.size + 1 := by
        rw [Multiset.add]
        split
        · omega
        · exact Std.ExtTreeMap.size_insert_le
      have := ih (m.add e)
      rw [List.length_cons]
      change ((m.add e).addAll rest).size ≤ _
      omega
  rw [merged, Std.ExtTreeMap.length_toList]
  have := grown ∅
  rw [Std.ExtTreeMap.size_empty] at this
  change (Multiset.addAll ∅ entries).size ≤ _
  omega

namespace Codec

variable (codec : Codec)

/-- The top of the tree of some entries, with so many levels left below it. -/
def topNode : (left : Nat) → List Entry → Node
  | _, [] => .empty
  | 0, entries => leaf deepest entries
  | left + 1, entries =>
    if codec.isLeaf (deepest - (left + 1)) entries then leaf (deepest - (left + 1)) entries
    else branch codec.fanout (deepest - (left + 1))
      ((codec.buckets (deepest - (left + 1)) entries).map fun bucket =>
        (topNode left bucket).digest)

/-- The nodes of the tree of some entries, in the order in which they are written. -/
def nodes : (left : Nat) → List Entry → List Node
  | _, [] => [.empty]
  | 0, entries => [leaf deepest entries]
  | left + 1, entries =>
    if codec.isLeaf (deepest - (left + 1)) entries then [leaf (deepest - (left + 1)) entries]
    else (codec.buckets (deepest - (left + 1)) entries).flatMap (nodes left)
      ++ [codec.topNode (left + 1) entries]

/-- The nodes of the pin set of some entries. -/
def written (entries : List Entry) : List Node :=
  codec.nodes deepest (Multiset.ofEntries entries).toList

/-- The top of the pin set of some entries. -/
def top (entries : List Entry) : Digest :=
  (codec.topNode deepest (Multiset.ofEntries entries).toList).digest

/-- Joins the buckets that were written last. -/
def join (level : Nat) (p : Progress) : Program (Interrupted Error) Progress :=
  if p.results.length < codec.fanout.toNat then halt
  else
    store { p with results := p.results.drop codec.fanout.toNat }
      (branch codec.fanout level (p.results.take codec.fanout.toNat).reverse)

/-- Writes the tree of some entries. -/
def writeTree : (left : Nat) → Progress → List Entry → Program (Interrupted Error) Progress
  | _, p, [] => storeEmpty p
  | 0, p, entries => store p (leaf deepest entries)
  | left + 1, p, entries =>
    if codec.isLeaf (deepest - (left + 1)) entries then
      store p (leaf (deepest - (left + 1)) entries)
    else do
      let p ← (codec.buckets (deepest - (left + 1)) entries).foldlM (writeTree left) p
      codec.join (deepest - (left + 1)) p

@[simp] theorem topNode_nil (left : Nat) : codec.topNode left [] = .empty := by
  cases left <;> rfl

@[simp] theorem nodes_nil (left : Nat) : codec.nodes left [] = [.empty] := by
  cases left <;> rfl

theorem writeTree_nil (left : Nat) (p : Progress) : codec.writeTree left p [] = storeEmpty p := by
  cases left <;> rfl

section Leaf

variable {codec} {left : Nat} {entries : List Entry} (nonempty : entries ≠ [])
  (isLeaf : codec.isLeaf (deepest - left) entries = true)

include nonempty isLeaf

theorem topNode_leaf : codec.topNode left entries = leaf (deepest - left) entries := by
  obtain ⟨e, more, rfl⟩ := List.exists_cons_of_ne_nil nonempty
  cases left with
  | zero => rfl
  | succ left => rw [topNode, if_pos isLeaf]; nofun

theorem nodes_leaf : codec.nodes left entries = [leaf (deepest - left) entries] := by
  obtain ⟨e, more, rfl⟩ := List.exists_cons_of_ne_nil nonempty
  cases left with
  | zero => rfl
  | succ left => rw [nodes, if_pos isLeaf]; nofun

theorem writeTree_leaf (p : Progress) :
    codec.writeTree left p entries = store p (leaf (deepest - left) entries) := by
  obtain ⟨e, more, rfl⟩ := List.exists_cons_of_ne_nil nonempty
  cases left with
  | zero => rfl
  | succ left => rw [writeTree, if_pos isLeaf]; nofun

end Leaf

section Branch

variable {codec} {left : Nat} {entries : List Entry}
  (deep : ¬ codec.isLeaf (deepest - (left + 1)) entries = true)

include deep

theorem ne_nil_of_deep : entries ≠ [] := by
  rintro rfl
  exact deep (by simp [isLeaf])

theorem topNode_branch : codec.topNode (left + 1) entries
    = branch codec.fanout (deepest - (left + 1)) ((codec.buckets (deepest - (left + 1)) entries).map
      fun bucket => (codec.topNode left bucket).digest) := by
  obtain ⟨e, more, rfl⟩ := List.exists_cons_of_ne_nil (ne_nil_of_deep deep)
  rw [topNode, if_neg deep]
  nofun

theorem nodes_branch : codec.nodes (left + 1) entries
    = (codec.buckets (deepest - (left + 1)) entries).flatMap (codec.nodes left)
      ++ [codec.topNode (left + 1) entries] := by
  obtain ⟨e, more, rfl⟩ := List.exists_cons_of_ne_nil (ne_nil_of_deep deep)
  rw [nodes, if_neg deep]
  nofun

theorem writeTree_branch (p : Progress) : codec.writeTree (left + 1) p entries
    = (codec.buckets (deepest - (left + 1)) entries).foldlM (codec.writeTree left) p
      >>= codec.join (deepest - (left + 1)) := by
  obtain ⟨e, more, rfl⟩ := List.exists_cons_of_ne_nil (ne_nil_of_deep deep)
  rw [writeTree, if_neg deep]
  nofun

end Branch

/-- What holds of empty buckets and of leaves, and of a node whenever it holds of its buckets, holds
of every tree. -/
theorem tree_induction {motive : Nat → List Entry → Prop} (empty : ∀ left, motive left [])
    (leaf : ∀ left entries, entries ≠ [] → codec.isLeaf (deepest - left) entries = true →
      motive left entries)
    (branch : ∀ left entries, ¬ codec.isLeaf (deepest - (left + 1)) entries = true →
      (∀ bucket ∈ codec.buckets (deepest - (left + 1)) entries, motive left bucket) →
      motive (left + 1) entries) (left : Nat) (entries : List Entry) : motive left entries := by
  induction left generalizing entries with
  | zero =>
    by_cases none : entries = []
    · exact none ▸ empty 0
    · exact leaf 0 entries none (by simp [isLeaf])
  | succ left ih =>
    by_cases none : entries = []
    · exact none ▸ empty (left + 1)
    · by_cases isLeaf : codec.isLeaf (deepest - (left + 1)) entries = true
      · exact leaf _ entries none isLeaf
      · exact branch left entries isLeaf fun bucket _ => ih bucket

/-! ## The machine -/

theorem run_join (p : Progress) (level : Nat) (rest : List Frame) :
    codec.run p (.join level :: rest) = codec.join level p >>= fun p => codec.run p rest := by
  rw [run, join]
  split
  · rfl
  · rfl

theorem run_split (left : Nat)
    (build : ∀ p entries rest, codec.run p (.build entries (deepest - left) :: rest)
      = codec.writeTree left p entries >>= fun p => codec.run p rest)
    (buckets : List (List Entry)) (p : Progress) (rest : List Frame) :
    codec.run p (buckets.map (fun bucket => .build bucket (deepest - left)) ++ rest)
      = buckets.foldlM (codec.writeTree left) p >>= fun p => codec.run p rest := by
  induction buckets generalizing p with
  | nil => rfl
  | cons bucket more ih =>
    rw [List.map_cons, List.cons_append, build, List.foldlM_cons, LawfulMonad.bind_assoc]
    exact congrArg _ (funext fun p => ih p)

/-- The machine writes the tree of some entries, and then does the rest. -/
theorem run_build {left : Nat} (within : left ≤ deepest) (p : Progress) (entries : List Entry)
    (rest : List Frame) :
    codec.run p (.build entries (deepest - left) :: rest)
      = codec.writeTree left p entries >>= fun p => codec.run p rest := by
  induction left generalizing p entries rest with
  | zero =>
    cases entries with
    | nil => rw [run, writeTree_nil]
    | cons e more =>
      have isLeaf : codec.isLeaf (deepest - 0) (e :: more) = true := by simp [Codec.isLeaf]
      rw [run, dif_pos isLeaf, writeTree_leaf (List.cons_ne_nil e more) isLeaf]
  | succ left ih =>
    cases entries with
    | nil => rw [run, writeTree_nil]
    | cons e more =>
      by_cases isLeaf : codec.isLeaf (deepest - (left + 1)) (e :: more) = true
      · rw [run, dif_pos isLeaf, writeTree_leaf (List.cons_ne_nil e more) isLeaf]
      · have below : deepest - (left + 1) + 1 = deepest - left := by omega
        rw [run, dif_neg isLeaf, writeTree_branch isLeaf, split, below,
          codec.run_split left (ih (by omega)), LawfulMonad.bind_assoc]
        exact congrArg _ (funext fun p => codec.run_join p _ _)

end Codec

/-! ## The nodes to be stored -/

/-- A node to be stored, and the names that are reported before it. -/
structure Addition where
  before : List Digest
  node : Node

/-- Stores the node; a failure comes with the names reported before. -/
def Addition.perform (a : Addition) : Program (Interrupted Error) Unit := do
  let _ ← mapError (fun f => ⟨.storage f, a.before⟩) (Graph.add a.node)
  return ()

/-- What has to be stored so that these nodes can be reported: each of them, but the empty node only
if it is not stored yet. -/
def additions (emptyStored : Bool) (before : List Digest) : List Node → List Addition
  | [] => []
  | n :: rest =>
    if n = .empty ∧ emptyStored = true then additions emptyStored (before ++ [n.digest]) rest
    else ⟨before, n⟩ :: additions (emptyStored || decide (n = .empty)) (before ++ [n.digest]) rest

section Additions

variable {emptyStored : Bool} {before : List Digest} {n : Node} {rest : List Node}

theorem additions_cons_stored (already : n = .empty ∧ emptyStored = true) :
    additions emptyStored before (n :: rest)
      = additions emptyStored (before ++ [n.digest]) rest := by
  rw [additions, if_pos already]

theorem additions_cons_new (new : ¬ (n = .empty ∧ emptyStored = true)) :
    additions emptyStored before (n :: rest)
      = ⟨before, n⟩
        :: additions (emptyStored || decide (n = .empty)) (before ++ [n.digest]) rest := by
  rw [additions, if_neg new]

theorem additions_append (emptyStored : Bool) (before : List Digest) (ns ns' : List Node) :
    additions emptyStored before (ns ++ ns') = additions emptyStored before ns
      ++ additions (emptyStored || decide (.empty ∈ ns)) (before ++ ns.map Node.digest) ns' := by
  induction ns generalizing emptyStored before with
  | nil => simp [additions]
  | cons n rest ih =>
    rw [List.cons_append, List.map_cons]
    by_cases already : n = .empty ∧ emptyStored = true
    · rw [additions_cons_stored already, additions_cons_stored already, ih, already.2]
      simp
    · rw [additions_cons_new already, additions_cons_new already, ih]
      simp [Bool.or_assoc, eq_comm]

/-- A node is stored if it is to be reported, apart from the empty node where that is stored
already. -/
theorem mem_additions {ns : List Node} :
    n ∈ (additions emptyStored before ns).map Addition.node
      ↔ n ∈ ns ∧ ¬ (n = .empty ∧ emptyStored = true) := by
  induction ns generalizing emptyStored before with
  | nil => simp [additions]
  | cons m rest ih =>
    by_cases already : m = .empty ∧ emptyStored = true
    · rw [additions_cons_stored already, ih, List.mem_cons]
      obtain ⟨rfl, stored⟩ := already
      tauto
    · rw [additions_cons_new already, List.map_cons, List.mem_cons, ih, List.mem_cons]
      by_cases same : n = m
      · simpa [same] using already
      · by_cases empty : m = .empty
        · subst empty
          simp [same]
        · simp [same, empty]

/-- The empty node is stored once at most. -/
theorem count_empty_additions (emptyStored : Bool) (before : List Digest) (ns : List Node) :
    ((additions emptyStored before ns).map Addition.node).count .empty ≤ 1 := by
  induction ns generalizing emptyStored before with
  | nil => exact Nat.zero_le 1
  | cons n rest ih =>
    by_cases already : n = .empty ∧ emptyStored = true
    · rw [additions_cons_stored already]
      exact ih _ _
    · rw [additions_cons_new already, List.map_cons]
      by_cases empty : n = .empty
      · have stored : Node.empty ∉ (additions (emptyStored || decide (n = .empty))
            (before ++ [n.digest]) rest).map Addition.node := by
          rw [mem_additions]
          simp [empty]
        rw [show (Addition.mk before n).node = .empty from empty, List.count_cons_self,
          List.count_eq_zero.mpr stored]
      · rw [List.count_cons_of_ne empty]
        exact ih _ _

end Additions

/-- What has been done once these nodes are stored and reported, and these tops are waiting. -/
def Progress.gain (p : Progress) (tops : List Digest) (ns : List Node) : Progress where
  results := tops.reverse ++ p.results
  recorded := (ns.map Node.digest).reverse ++ p.recorded
  emptyStored := p.emptyStored || decide (.empty ∈ ns)

/-- Stores nodes and reports them, and leaves these tops waiting. -/
def storeNodes (p : Progress) (tops : List Digest) (ns : List Node) :
    Program (Interrupted Error) Progress := do
  forEach (additions p.emptyStored p.recorded.reverse ns) Addition.perform
  return p.gain tops ns

variable {p : Progress}

/-- Where a program has only one answer, what comes after it can be told that answer. -/
theorem bind_of_answer {ε α β : Type} {work : Program ε α} {a : α}
    (answer : ∀ {w b w'}, work w = (.done b, w') → b = a) (next : α → Program ε β) :
    work >>= next = work >>= fun _ => next a := by
  funext w
  rw [bind_apply, bind_apply]
  rcases run : work w with ⟨b | e | _, w'⟩
  · rw [answer run]
  · rfl
  · rfl

theorem forEach_append {α : Type} {ε : Type} (early late : List α) (body : α → Program ε Unit) :
    forEach (early ++ late) body = forEach early body >>= fun _ => forEach late body := by
  induction early with
  | nil => rfl
  | cons a rest ih =>
    have first : ∀ l : List α, forEach (a :: l) body = body a >>= fun _ => forEach l body :=
      fun _ => rfl
    rw [List.cons_append, first, first, ih, LawfulMonad.bind_assoc]

/-- Storing some nodes and then others is storing them all.  In between, tops may be taken off. -/
theorem storeNodes_bind {tops tops' tops'' results : List Digest} {ns ns' : List Node}
    {next : Progress → Program (Interrupted Error) Progress}
    (run : next (p.gain tops ns) = storeNodes { p.gain tops ns with results } tops' ns')
    (same : tops'.reverse ++ results = tops''.reverse ++ p.results) :
    storeNodes p tops ns >>= next = storeNodes p tops'' (ns ++ ns') := by
  have gained : ({ p.gain tops ns with results } : Progress).gain tops' ns'
      = p.gain tops'' (ns ++ ns') := by
    simp [Progress.gain, same, Bool.or_assoc]
  have before : (p.gain tops ns).recorded.reverse = p.recorded.reverse ++ ns.map Node.digest := by
    simp [Progress.gain]
  rw [storeNodes, LawfulMonad.bind_assoc, pure_bind, run, storeNodes, storeNodes, additions_append,
    forEach_append, LawfulMonad.bind_assoc, gained, before]
  rfl

theorem storeNodes_nil (p : Progress) : storeNodes p [] [] = pure p := by
  have same : p.gain [] [] = p := by simp [Progress.gain]
  rw [storeNodes, same]
  rfl

namespace Codec

theorem perform_bind {α : Type} (a : Addition) (next : Digest → Program (Interrupted Error) α) :
    (forEach [a] Addition.perform >>= fun _ => next a.node.digest)
      = mapError (fun f => ⟨.storage f, a.before⟩) (Graph.add a.node) >>= next := by
  have once : forEach [a] Addition.perform = a.perform >>= fun _ => pure () := rfl
  rw [once, Addition.perform, bind_of_answer (Stores.add a.node).mapError.answer next]
  simp only [LawfulMonad.bind_assoc, pure_bind]

theorem store_eq {n : Node} (named : n ≠ .empty) (p : Progress) :
    store p n = storeNodes p [n.digest] [n] := by
  have gained : p.gain [n.digest] [n] = p.push n.digest := by
    simp [Progress.gain, Progress.push, Ne.symm named]
  rw [storeNodes, gained, additions_cons_new fun already => named already.1]
  exact (perform_bind ⟨p.recorded.reverse, n⟩ fun d => pure (p.push d)).symm

theorem storeEmpty_eq (p : Progress) : storeEmpty p = storeNodes p [Node.emptyDigest] [.empty] := by
  have gained : p.gain [Node.emptyDigest] [.empty]
      = { p.push Node.emptyDigest with emptyStored := true } := by
    simp [Progress.gain, Progress.push, Node.emptyDigest]
  rw [storeEmpty, storeNodes, gained]
  by_cases already : p.emptyStored = true
  · rw [if_pos already, additions_cons_stored ⟨rfl, already⟩, ← already]
    rfl
  · rw [if_neg already, additions_cons_new fun stored => already stored.2]
    exact (perform_bind ⟨p.recorded.reverse, .empty⟩ fun _ =>
      pure { p.push Node.emptyDigest with emptyStored := true }).symm

/-- The work on trees one after the other. -/
theorem foldlM_eq {body : Progress → List Entry → Program (Interrupted Error) Progress}
    {plan : List Entry → List Node} {root : List Entry → Digest} (buckets : List (List Entry))
    (each : ∀ bucket ∈ buckets, ∀ p, body p bucket = storeNodes p [root bucket] (plan bucket))
    (p : Progress) :
    buckets.foldlM body p = storeNodes p (buckets.map root) (buckets.flatMap plan) := by
  induction buckets generalizing p with
  | nil => exact (storeNodes_nil p).symm
  | cons bucket rest ih =>
    rw [List.foldlM_cons, each bucket List.mem_cons_self]
    refine storeNodes_bind (ih (fun b h => each b (List.mem_cons_of_mem _ h)) _) ?_
    simp

variable (codec : Codec)

/-- Joining as many tops as there are buckets. -/
theorem storeNodes_join {tops : List Digest} (counted : tops.length = codec.fanout.toNat)
    (p : Progress) (ns : List Node) (level : Nat) :
    storeNodes p tops ns >>= codec.join level
      = storeNodes p [(branch codec.fanout level tops).digest]
        (ns ++ [branch codec.fanout level tops]) := by
  have named : branch codec.fanout level tops ≠ .empty := by
    intro same
    have several := codec.two_le_fanout
    rw [← counted, List.map_eq_nil_iff.mp (congrArg Node.links same), List.length_nil] at several
    exact absurd several (by decide)
  have reversed : tops.reverse.length = codec.fanout.toNat := by rw [List.length_reverse, counted]
  have long : ¬ (p.gain tops ns).results.length < codec.fanout.toNat := by
    rw [Progress.gain, List.length_append, reversed]
    omega
  have joined : codec.join level (p.gain tops ns)
      = storeNodes { p.gain tops ns with results := p.results }
        [(branch codec.fanout level tops).digest] [branch codec.fanout level tops] := by
    rw [join, if_neg long, ← store_eq named]
    simp only [Progress.gain]
    rw [List.take_left' reversed, List.drop_left' reversed, List.reverse_reverse]
  exact storeNodes_bind joined rfl

/-- The work on a tree is storing its nodes. -/
theorem writeTree_eq (left : Nat) (entries : List Entry) (p : Progress) :
    codec.writeTree left p entries
      = storeNodes p [(codec.topNode left entries).digest] (codec.nodes left entries) := by
  induction left, entries using codec.tree_induction generalizing p with
  | empty left =>
    rw [writeTree_nil, topNode_nil, nodes_nil]
    exact storeEmpty_eq p
  | leaf left entries nonempty isLeaf =>
    have named : leaf (deepest - left) entries ≠ .empty := fun same =>
      nonempty (List.map_eq_nil_iff.mp (congrArg Node.links same))
    rw [writeTree_leaf nonempty isLeaf, topNode_leaf nonempty isLeaf, nodes_leaf nonempty isLeaf]
    exact store_eq named p
  | branch left entries deep ih =>
    rw [writeTree_branch deep, nodes_branch deep, topNode_branch deep, foldlM_eq _ ih]
    refine codec.storeNodes_join ?_ p _ _
    rw [List.length_map, length_buckets]

/-- The machine leaves one top waiting, that of the pin set. -/
theorem run_eq (entries : List Entry) :
    codec.run .start [.build (Multiset.ofEntries entries).toList 0]
      = storeNodes .start [codec.top entries] (codec.written entries) := by
  rw [show 0 = deepest - deepest from rfl, codec.run_build (Nat.le_refl _), writeTree_eq]
  have last : (fun p => codec.run p [])
      = (pure : Progress → Program (Interrupted Error) Progress) :=
    funext fun p => by rw [Codec.run]
  rw [last, bind_pure]
  rfl

/-- Writing a pin set is storing its nodes one after the other. -/
theorem write_eq (entries : List Entry) :
    codec.write entries = do
      forEach (additions false [] (codec.written entries)) Addition.perform
      log (.setStored (Multiset.ofEntries entries).toList.length
        (((codec.written entries).map Node.digest).filter (· ≠ Node.emptyDigest)).length
        (codec.top entries))
      return (codec.top entries, (codec.written entries).map Node.digest) := by
  have reported : (Progress.start.gain [codec.top entries] (codec.written entries)).recorded
      = ((codec.written entries).map Node.digest).reverse := List.append_nil _
  rw [write, run_eq, storeNodes, LawfulMonad.bind_assoc]
  simp only [pure_bind, reported, List.reverse_reverse, List.filter_reverse, List.length_reverse]
  rfl

theorem stores_additions (as : List Addition) :
    Stores (as.map fun a => a.node.encode) () (forEach as Addition.perform) := by
  induction as with
  | nil => exact .pure ()
  | cons a rest ih =>
    have first : Stores ([a.node.encode] ++ []) () a.perform :=
      (Stores.add a.node).mapError.bind (.pure _)
    exact first.bind ih

/-- Writing a pin set stores its nodes, and reports them and its top. -/
theorem stores_write (codec : Codec) (entries : List Entry) :
    ∃ bs, (∀ data, data ∈ bs ↔ ∃ n ∈ codec.written entries, n.encode = data) ∧
      Stores bs (codec.top entries, (codec.written entries).map Node.digest)
        (codec.write entries) := by
  refine ⟨((additions false [] (codec.written entries)).map Addition.node).map Node.encode,
    fun data => ?_, ?_⟩
  · rw [List.mem_map]
    simp [mem_additions]
  · rw [write_eq, List.map_map, ← List.append_nil (List.map _ _)]
    refine (stores_additions _).bind ?_
    rw [← List.append_nil []]
    exact (Stores.log _).bind (.pure _)

/-- Writing a pin set into a store of known blocks leaves all its nodes readable. -/
theorem ensures_write {known : Set Bytes} {w : World} (distinct : Distinct known) (codec : Codec)
    {entries : List Entry} (isKnown : ∀ n ∈ codec.written entries, n.encode ∈ known)
    (sound : w.Sound known) :
    Ensures known World.Grows w (codec.write entries) fun answer w' =>
      answer = (codec.top entries, (codec.written entries).map Node.digest) ∧
        ∀ n ∈ codec.written entries, w'.store.block? n.digest = some n.encode := by
  obtain ⟨bs, members, stores⟩ := codec.stores_write entries
  have areKnown : ∀ data ∈ bs, data ∈ known := by
    intro data inside
    obtain ⟨n, isNode, rfl⟩ := (members data).mp inside
    exact isKnown n isNode
  refine (stores.ensures distinct areKnown sound).mono fun answer w' _ _ ⟨same, readable⟩ => ?_
  exact ⟨same, fun n inside => readable _ ((members _).mpr ⟨n, inside, rfl⟩)⟩

end Codec

end PinnedStore.PinSet
