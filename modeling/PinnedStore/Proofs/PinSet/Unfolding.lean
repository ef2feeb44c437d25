import PinnedStore.Proofs.PinSet.Counts
import PinnedStore.Proofs.PinSet.Decodes
import PinnedStore.Proofs.PinSet.Places
import PinnedStore.Sample

/-!
# Reading what nobody has written

A store may hold anything, and so may the node that is taken for the top of a pin set.  As long as
no node lies below itself, reading comes to an end all the same, and what it gives is settled by the
tree that the top unfolds to: every place is visited once, in order, up to the first that can not be
read or is not as it should be.

The argument takes the recursion apart from the rest.  Reading a tree is visiting its places one
after another, and visiting is a loop over a list that knows nothing of trees.  What the loop does
follows by induction over the list; that the list is long enough, and so that the bound on the depth
is not reached, follows from the lengths of paths.

Counts are added up visit by visit.  An entry of a leaf that several links lead to counts several
times.

* `visit`, `readTree_eq`: reading a tree is visiting its places.
* `Blames`: what an error says about a node.
* `Visited`, `visited_foldlM`: how visiting ends.
* `ReadEnds`, `readEnds_read`: how reading ends.
* `read_unfolds`: when reading gives an answer, which it gives, and which error it gives otherwise.
-/

namespace PinnedStore.PinSet

open Program

variable {w v : World} {r : Reading} {d top : Digest} {fuel : Nat}

/-! ## Visiting -/

/-- Reads the node at one place. -/
def visit (r : Reading) (d : Digest) : Program (Interrupted Error) Reading := do
  let r := { r with recorded := d :: r.recorded }
  if d = Node.emptyDigest then return r
  let node ← mapError (fun f => ⟨.storage f, r.recorded.reverse⟩) (Graph.get d)
  match shape node with
  | .error damage => fail ⟨.corrupt d damage, r.recorded.reverse⟩
  | .ok (.leaf entries) => return { r with set := r.set.addAll entries }
  | .ok _ => return r

theorem onlyReads_visit (r : Reading) (d : Digest) : OnlyReads (visit r d) := by
  refine .ite (fun _ => .pure _) fun _ => (Graph.onlyReads_get d).mapError.bind fun n => ?_
  rcases shape n with damage | (_ | entries | buckets)
  · exact .fail _
  · exact .pure _
  · exact .pure _
  · exact .pure _

/-- Reading a tree is visiting its top and then reading the trees of its buckets. -/
theorem readTree_succ (truthful : v.conduct.lies = []) : readTree (fuel + 1) r d v =
    (visit r d >>= fun r' => (bucketsAt v.store.node? d).foldlM (readTree fuel) r') v := by
  rw [readTree, visit, bind_apply]
  by_cases isEmpty : d = Node.emptyDigest
  · simp [isEmpty, bucketsAt, shapeAt]
  rw [if_neg isEmpty, if_neg isEmpty, bind_apply, bind_apply]
  rcases got : mapError (fun f => (⟨.storage f, (d :: r.recorded).reverse⟩ : Interrupted Error))
    (Graph.get d) v with ⟨n | e | _, between⟩
  · obtain ⟨-, there⟩ := Graph.get_done truthful (done_of_mapError got)
    have shaped := shapeAt_of_node? isEmpty there
    rcases kind : shape n with damage | (_ | entries | buckets)
    all_goals
      rw [kind] at shaped
      simp [bucketsAt, shaped, kind, Except.toOption]
  · rfl
  · rfl

/-- Reading trees one after another, if reading each of them is visiting its places. -/
theorem foldlM_readTree_eq {names : Digest → List Digest} {buckets : List Digest}
    (each : ∀ t ∈ buckets, ∀ r v, World.Untouched w v →
      readTree fuel r t v = (names t).foldlM visit r v)
    (moved : World.Untouched w v) :
    buckets.foldlM (readTree fuel) r v = (buckets.flatMap names).foldlM visit r v := by
  induction buckets generalizing r v with
  | nil => rfl
  | cons t rest ih =>
    have reads : World.Untouched v ((names t).foldlM visit r v).2 :=
      KeepsTo.foldlM (fun r d _ => onlyReads_visit r d) r v
    rw [List.foldlM_cons, List.flatMap_cons, List.foldlM_append, bind_apply, bind_apply,
      each t List.mem_cons_self r v moved]
    rcases run : (names t).foldlM visit r v with ⟨r' | e | _, between⟩
    · rw [run] at reads
      exact ih (fun t h => each t (List.mem_cons_of_mem _ h)) (IsTrans.trans _ _ _ moved reads)
    · rfl
    · rfl

/-- Reading a tree is visiting its places, if none of them is too deep. -/
theorem readTree_eq (truthful : w.conduct.lies = []) (moved : World.Untouched w v)
    (shallow : ∀ path x, nodeAt w.store.node? d path = some x → path.length < fuel) :
    readTree fuel r d v = ((visits w.store.node? fuel d).map Prod.snd).foldlM visit r v := by
  induction fuel generalizing r d v with
  | zero => exact absurd (shallow [] d rfl) (Nat.not_lt_zero _)
  | succ fuel ih =>
    have reads := onlyReads_visit r d v
    rw [readTree_succ (moved.truthful truthful), map_snd_visits, List.foldlM_cons, bind_apply,
      bind_apply, ← moved.store]
    rcases run : visit r d v with ⟨r' | e | _, between⟩
    · rw [run] at reads
      refine foldlM_readTree_eq (fun t isBucket r v moved => ih moved fun path x leads => ?_)
        (IsTrans.trans _ _ _ moved reads)
      obtain ⟨i, isBucket⟩ := List.mem_iff_getElem?.mp isBucket
      have deeper := shallow (i :: path) x (by rw [nodeAt, isBucket, Option.bind_some, leads])
      rw [List.length_cons] at deeper
      omega
    · rfl
    · rfl

/-! ## How visiting ends -/

/-- What an error says about a node, which is not the empty one. -/
inductive Blames (w : World) (d : Digest) : Error → Prop
  /-- It could not be read. -/
  | unreadable {f : Failure} (named : d ≠ Node.emptyDigest) (denied : Graph.Denies w d f) :
    Blames w d (.storage f)
  /-- It is not as it should be. -/
  | damaged {n : Node} {damage : Damage} (named : d ≠ Node.emptyDigest)
    (there : w.store.node? d = some n) (kind : shape n = .error damage) :
    Blames w d (.corrupt d damage)

/-- Where storage is honest, no node is blamed without reason. -/
theorem Blames.not_intact {cause : Error} (blamed : Blames w d cause)
    (honest : w.conduct = .honest) :
    ¬ Intact w.store.node? d := by
  rintro (isEmpty | ⟨n, readable, wellFormed⟩)
  · cases blamed with
    | unreadable named | damaged named => exact named isEmpty
  · cases blamed with
    | unreadable _ denied => cases (denied.absent honest).symm.trans readable
    | damaged _ there kind =>
      cases there.symm.trans readable
      obtain ⟨found, isShape⟩ := wellFormed_iff.mp wellFormed
      cases kind.symm.trans isShape

/-- A visit finds what is there, or it is the node's fault or the storage's. -/
theorem visit_cases (truthful : w.conduct.lies = []) (moved : World.Untouched w v) (r : Reading)
    (d : Digest) :
    (Intact w.store.node? d ∧ (visit r d v).1 = .done (r.after [d] (entriesAt w.store.node? d))) ∨
      (∃ cause, Blames w d cause ∧
        (visit r d v).1 = .failed ⟨cause, r.recorded.reverse ++ [d]⟩) ∨
      (w.conduct.Stops ∧ (visit r d v).1 = .halted) := by
  have recorded : (d :: r.recorded).reverse = r.recorded.reverse ++ [d] := List.reverse_cons
  rw [visit]
  by_cases isEmpty : d = Node.emptyDigest
  · refine Or.inl ⟨Or.inl isEmpty, ?_⟩
    simp [isEmpty, entriesAt, shapeAt, Reading.after, Multiset.addAll]
  rw [if_neg isEmpty, bind_apply, mapError, ← recorded]
  rcases got : Graph.get d v with ⟨n | f | _, between⟩
  · obtain ⟨-, there⟩ := Graph.get_done (moved.truthful truthful) got
    rw [← moved.store] at there
    have shaped := shapeAt_of_node? isEmpty there
    rcases kind : shape n with damage | found
    · exact Or.inr (Or.inl ⟨_, .damaged isEmpty there kind, by simp [kind]⟩)
    · refine Or.inl ⟨Or.inr ⟨n, there, wellFormed_iff.mpr ⟨found, kind⟩⟩, ?_⟩
      rw [kind] at shaped
      cases found <;>
        simp [entriesAt, shaped, kind, Except.toOption, Reading.after, Multiset.addAll]
  · exact Or.inr (Or.inl ⟨_, .unreadable isEmpty ⟨v, moved, by rw [got]⟩, rfl⟩)
  · exact Or.inr (Or.inr ⟨moved.conduct ▸ Graph.get_halted (moved.truthful truthful) got, rfl⟩)

/-- How visiting places one after another ends: with all of them, at the first that is to blame, or
at a stop. -/
inductive Visited (w : World) (r : Reading) (ds : List Digest) :
    Outcome (Interrupted Error) Reading → Prop
  | all (intact : ∀ d ∈ ds, Intact w.store.node? d) :
    Visited w r ds (.done (r.after ds (ds.flatMap (entriesAt w.store.node?))))
  | bad {early late : List Digest} {d : Digest} {cause : Error} (split : ds = early ++ d :: late)
    (intact : ∀ x ∈ early, Intact w.store.node? x) (blamed : Blames w d cause) :
    Visited w r ds (.failed ⟨cause, r.recorded.reverse ++ (early ++ [d])⟩)
  | stopped (stops : w.conduct.Stops) : Visited w r ds .halted

theorem Visited.cons {rest : List Digest} {outcome : Outcome (Interrupted Error) Reading}
    (first : Intact w.store.node? d)
    (later : Visited w (r.after [d] (entriesAt w.store.node? d)) rest outcome) :
    Visited w r (d :: rest) outcome := by
  cases later with
  | all intact =>
    rw [r.after_append]
    exact .all (List.forall_mem_cons.mpr ⟨first, intact⟩)
  | @bad early late bad cause split intact blamed =>
    have recorded : (r.after [d] (entriesAt w.store.node? d)).recorded.reverse ++ (early ++ [bad])
        = r.recorded.reverse ++ (d :: early ++ [bad]) := by
      simp [Reading.after]
    rw [recorded, split]
    exact .bad (List.cons_append ..).symm (List.forall_mem_cons.mpr ⟨first, intact⟩) blamed
  | stopped stops => exact .stopped stops

theorem visited_foldlM (truthful : w.conduct.lies = []) (moved : World.Untouched w v)
    (ds : List Digest) (r : Reading) : Visited w r ds (ds.foldlM visit r v).1 := by
  induction ds generalizing r v with
  | nil => exact .all nofun
  | cons d rest ih =>
    have reads := onlyReads_visit r d v
    have cases := visit_cases truthful moved r d
    rw [List.foldlM_cons, bind_apply]
    rcases run : visit r d v with ⟨outcome, between⟩
    rw [run] at reads cases
    rcases cases with ⟨intact, same⟩ | ⟨cause, blamed, same⟩ | ⟨stops, same⟩
    all_goals
      obtain rfl : outcome = _ := same
    · exact .cons intact (ih (IsTrans.trans _ _ _ moved reads) _)
    · exact .bad (List.nil_append _).symm nofun blamed
    · exact .stopped stops

/-! ## How reading ends -/

/-- How reading a pin set ends, told by the places of the tree that its top unfolds to. -/
inductive ReadEnds (w : World) (top : Digest) :
    Outcome (Interrupted Error) (Multiset × List Digest) → Prop
  | all {places : List (List Nat × Digest)}
    (lists : Lists w.store.node? top (fun _ => True) places)
    (intact : ∀ place ∈ places, Intact w.store.node? place.2) :
    ReadEnds w top
      (.done (Multiset.ofEntries (places.flatMap fun place => entriesAt w.store.node? place.2),
      places.map Prod.snd))
  | bad {early : List (List Nat × Digest)} {path : List Nat} {d : Digest} {cause : Error}
    (lists : Lists w.store.node? top (· ≤ path) (early ++ [(path, d)]))
    (intact : ∀ place ∈ early, Intact w.store.node? place.2) (blamed : Blames w d cause) :
    ReadEnds w top (.failed ⟨cause, (early ++ [(path, d)]).map Prod.snd⟩)
  | stopped (stops : w.conduct.Stops) : ReadEnds w top .halted

theorem readEnds_read (truthful : w.conduct.lies = []) (acyclic : Acyclic w.store.node?)
    (top : Digest) :
    ReadEnds w top (read top w).1 := by
  have lists := lists_visits acyclic top
  have tree := readTree_eq (r := ⟨∅, []⟩) truthful (refl w) (fun path x leads =>
    Nat.lt_succ_of_le (length_le_bound_of_nodeAt (s := w.store) (d := top) acyclic leads))
  have inspected : (Graph.bound : Program (Interrupted Error) Nat) w
      = (.done w.store.bound, w) := rfl
  have visited := visited_foldlM truthful (refl w)
    ((visits w.store.node? (w.store.bound + 1) top).map Prod.snd) ⟨∅, []⟩
  rw [read, bind_of_done inspected, bind_apply, tree]
  generalize visits w.store.node? (w.store.bound + 1) top = places at lists visited
  rcases run : (places.map Prod.snd).foldlM visit ⟨∅, []⟩ w with ⟨outcome, between⟩
  rw [run] at visited
  cases visited with
  | all intact =>
    have answer := ReadEnds.all lists fun place inside => intact _ (List.mem_map_of_mem inside)
    simpa [Reading.after, Multiset.ofEntries, List.flatMap_map] using answer
  | @bad early late bad cause split intact blamed =>
    obtain ⟨early, later, rfl, rfl, tail⟩ := List.map_eq_append_iff.mp split
    obtain ⟨⟨path, d⟩, late, rfl, rfl, rfl⟩ := List.map_eq_cons_iff.mp tail
    have answer :=
      ReadEnds.bad lists.upTo (fun place inside => intact _ (List.mem_map_of_mem inside)) blamed
    simpa using answer
  | stopped stops => exact .stopped stops

/-- Reading any store in which no node lies below itself ends, unless the storage stops it, and
where the storage is honest it gives an answer if and only if every place of the tree is as it
should be.  The answer has met the names of all places in their order, and has the sums of the
counts that the leaves give at all these places, cut off at the largest count.  Otherwise the error
blames the first place that is not as it should be, and that is the last one met. -/
theorem read_unfolds (truthful : w.conduct.lies = []) (acyclic : Acyclic w.store.node?) (top : Digest) :
    (¬ w.conduct.Stops → (read top w).1 ≠ .halted) ∧
    (w.conduct = .honest → ((∃ answer, (read top w).1 = .done answer) ↔
      ∀ path d, nodeAt w.store.node? top path = some d → Intact w.store.node? d)) ∧
    (∀ set met, (read top w).1 = .done (set, met) →
      ∃ places, Lists w.store.node? top (fun _ => True) places ∧
        (∀ place ∈ places, Intact w.store.node? place.2) ∧ met = places.map Prod.snd ∧
        ∀ d, set[d]? =
          let found := places.flatMap fun place => entriesAt w.store.node? place.2
          if total d found = 0 then none else some (cutOff (total d found)).toUInt64) ∧
    (∀ cause met, (read top w).1 = .failed ⟨cause, met⟩ →
      ∃ path d places, nodeAt w.store.node? top path = some d ∧ Blames w d cause ∧
        (w.conduct = .honest → ¬ Intact w.store.node? d) ∧
        (∀ path' d', path' < path → nodeAt w.store.node? top path' = some d' →
          Intact w.store.node? d') ∧
        Lists w.store.node? top (· ≤ path) places ∧ met = places.map Prod.snd ∧
        met.getLast? = some d) := by
  have ends := readEnds_read truthful acyclic top
  generalize (read top w).1 = outcome at ends
  cases ends with
  | @all places lists intact =>
    refine ⟨fun _ => nofun, fun _ => ⟨fun _ path d leads => ?_, fun _ => ⟨_, rfl⟩⟩, ?_, nofun⟩
    · exact intact (path, d) ((lists.isPlace path d).mpr ⟨leads, trivial⟩)
    · rintro _ _ ⟨⟩
      exact ⟨places, lists, intact, rfl, fun d => Multiset.getElem?_ofEntries ..⟩
  | @bad early path d cause lists intact blamed =>
    have isPlace := (lists.isPlace path d).mp (List.mem_append_right _ List.mem_cons_self)
    refine ⟨fun _ => nofun, fun honest => ⟨nofun, fun all => ?_⟩, nofun, ?_⟩
    · exact absurd (all path d isPlace.1) (blamed.not_intact honest)
    · rintro _ _ ⟨⟩
      refine ⟨path, d, _, isPlace.1, blamed, blamed.not_intact,
        fun path' d' less leads => ?_, lists,
        rfl, by simp⟩
      have inside := (lists.isPlace path' d').mpr ⟨leads, le_of_lt less⟩
      rcases List.mem_append.mp inside with earlier | same
      · exact intact _ earlier
      · cases List.mem_singleton.mp same
        exact absurd less (lt_irrefl _)
  | stopped stops =>
    refine ⟨fun not => absurd stops not, fun honest => ?_, nofun, nofun⟩
    rw [honest] at stops
    exact absurd stops Conduct.not_stops_honest

/-! ### Shared buckets -/

/-- A branch with three buckets, two of which are the same leaf, and the third an empty node that
goes by another name. -/
def sharedNodes : List (Digest × Node) :=
  let link (byte : UInt8) : Link := .unnamed (Sample.repeated byte)
  [(Sample.repeated 1, ⟨[link 2, link 2, link 3], Header.encode ⟨1, 3, 9, []⟩⟩),
    (Sample.repeated 2, ⟨[link 7, link 8], Header.encode ⟨1, 0, 5, [0xffffffffffffffff, 4]⟩⟩),
    (Sample.repeated 3, .empty)]

def sharedWorld : World := World.fresh (.ofNodes sharedNodes) ∅

theorem acyclic_sharedWorld : Acyclic sharedWorld.store.node? := by
  let rank (d : Digest) : Nat :=
    if d = Sample.repeated 1 then 2 else if d = Sample.repeated 2 then 1 else 0
  have down : ∀ d ∈ sharedNodes.map Prod.fst, ∀ n ∈ sharedWorld.store.node? d, ∀ t ∈ n.targets,
      rank t < rank d := by
    decide +kernel
  refine acyclic_of_rank rank fun d n there => ?_
  exact down d (ObjectStore.mem_of_node?_ofNodes there) n there

theorem isDone_read_sharedWorld : (read (Sample.repeated 1) sharedWorld).1.isDone = true := by
  decide +kernel

/-- A leaf that two links lead to is counted twice. -/
theorem read_unfolds_sharedWorld : ∃ set met places,
    (read (Sample.repeated 1) sharedWorld).1 = .done (set, met) ∧
    Lists sharedWorld.store.node? (Sample.repeated 1) (fun _ => True) places ∧
    met = places.map Prod.snd ∧
    ∀ d, set[d]? =
      let found := places.flatMap fun place => entriesAt sharedWorld.store.node? place.2
      if total d found = 0 then none else some (cutOff (total d found)).toUInt64 := by
  obtain ⟨⟨set, met⟩, w', run⟩ := exists_done isDone_read_sharedWorld
  have answer : (read (Sample.repeated 1) sharedWorld).1 = .done (set, met) := by rw [run]
  obtain ⟨-, -, answers, -⟩ :=
    read_unfolds (w := sharedWorld) rfl acyclic_sharedWorld (Sample.repeated 1)
  obtain ⟨places, lists, -, names, counts⟩ := answers set met answer
  exact ⟨set, met, places, answer, lists, names, counts⟩

end PinnedStore.PinSet
