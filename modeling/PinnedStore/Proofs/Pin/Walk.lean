import PinnedStore.Pin.Change
import PinnedStore.Proofs.Graph.Reach

/-!
# What a search below a node finds

A search looks for a node among the links of another one, and then among the links of what these
lead to.  It never looks at the node it starts from as something to be found; so what it decides is
not whether the one node can be reached from the other, but whether it can be reached by at least
one link.

Whoever searches keeps the links that have been met, so that none of them is put on the stack twice.
All but the start of the search have been met, and every node that has been met lies below the
start.  What has been met and does not wait on the stack has been read.  So the search ends,
whatever the links say: it can make no more steps than there are objects in the store, and one more
for the start.

A search in which a node can not be read gives no answer, even if it would have been found
elsewhere.  Below several roots the search goes on to the next root only after the last one has been
searched through.

* `Pin.Searched`: what is so at every step of a search.
* `Pin.Search`, `Pin.search_hasChild`: how a search ends.
* `Pin.RootSearch`, `Pin.search_findRoot`: how a search below several roots ends.
* `Pin.findRoot_honest`, `Pin.classify_honest`: what is found, where everything below can be read.
-/

namespace PinnedStore

open Program

variable {node? : Digest → Option Node} {r d : Digest}

namespace Pin

variable {w : World} {root child : Digest} {seen : Digests} {stack : List Digest}

/-! ## Nothing is changed -/

theorem onlyReads_hasChildFrom (child : Digest) (fuel : Nat) (seen : Digests)
    (stack : List Digest) :
    OnlyReads (hasChildFrom child fuel seen stack) := by
  induction fuel generalizing seen stack with
  | zero => exact .halt
  | succ fuel ih =>
    cases stack with
    | nil => exact .pure _
    | cons d rest =>
      refine (Graph.onlyReads_get d).mapError.bind fun n => ?_
      exact .ite (fun _ => .pure _) fun _ => ih _ _

theorem onlyReads_hasChild (root child : Digest) : OnlyReads (hasChild root child) :=
  (KeepsTo.inspect _).bind fun _ => onlyReads_hasChildFrom _ _ _ _

theorem onlyReads_findRoot (d : Digest) (roots : List Digest) : OnlyReads (findRoot d roots) := by
  induction roots with
  | nil => exact .pure _
  | cons root rest ih =>
    exact (onlyReads_hasChild _ _).bind fun _ => .ite (fun _ => .pure _) fun _ => ih

theorem onlyReads_classify (d : Digest) (q : Query) : OnlyReads (classify d q) := by
  refine (KeepsTo.inspect _).bind fun pins => .ite (fun _ => .pure _) fun _ =>
    .ite (fun _ => .pure _)
    fun _ => .ite (fun _ => .pure _) fun _ => .ite (fun _ => ?_) fun _ => .pure _
  exact (onlyReads_findRoot _ _).bind fun _ => .pure _

/-! ## Meeting links -/

/-- Links that are met have been seen from then on. -/
theorem mem_seen_foldl_meet (links : List Digest) (seen : Digests) (stack : List Digest)
    (x : Digest) : x ∈ (links.foldl meet (seen, stack)).1 ↔ x ∈ seen ∨ x ∈ links := by
  induction links generalizing seen stack with
  | nil => simp
  | cons link rest ih =>
    rw [List.foldl_cons, meet, List.mem_cons]
    by_cases met : link ∈ seen
    · rw [if_pos met, ih]
      constructor
      · tauto
      · rintro (before | rfl | later)
        · exact Or.inl before
        · exact Or.inl met
        · exact Or.inr later
    · rw [if_neg met, ih, Graph.mem_insert]
      tauto

/-- Links that are met wait on the stack if they had not been seen. -/
theorem mem_stack_foldl_meet (links : List Digest) (seen : Digests) (stack : List Digest)
    (x : Digest) :
    x ∈ (links.foldl meet (seen, stack)).2 ↔ x ∈ stack ∨ (x ∈ links ∧ x ∉ seen) := by
  induction links generalizing seen stack with
  | nil => simp
  | cons link rest ih =>
    rw [List.foldl_cons, meet, List.mem_cons]
    by_cases met : link ∈ seen
    · rw [if_pos met, ih]
      constructor
      · tauto
      · rintro (waits | ⟨rfl | later, unseen⟩)
        · exact Or.inl waits
        · exact absurd met unseen
        · exact Or.inr ⟨later, unseen⟩
    · rw [if_neg met, ih, Graph.mem_insert, List.mem_cons]
      constructor
      · rintro ((rfl | waits) | ⟨later, unseen⟩)
        · exact Or.inr ⟨Or.inl rfl, met⟩
        · exact Or.inl waits
        · exact Or.inr ⟨Or.inr later, fun before => unseen (Or.inr before)⟩
      · tauto

/-- The stack grows by as many links as had not been seen. -/
theorem length_foldl_meet (links : List Digest) (seen : Digests) (stack : List Digest) :
    (links.foldl meet (seen, stack)).2.length + seen.size
      = stack.length + (links.foldl meet (seen, stack)).1.size := by
  induction links generalizing seen stack with
  | nil => rfl
  | cons link rest ih =>
    rw [List.foldl_cons, meet]
    by_cases met : link ∈ seen
    · rw [if_pos met]
      exact ih seen stack
    · have larger : (seen.insert link).size = seen.size + 1 := by
        simp [Std.ExtTreeSet.size_insert, met]
      have count := ih (seen.insert link) (link :: stack)
      rw [if_neg met]
      rw [larger, List.length_cons] at count
      dsimp only
      omega

/-! ## Searching -/

/-- At every step of a search, what has been met lies below the root and waits to be searched, or
has been searched; then the child was not among its links, and all of these have been met. -/
structure Searched (node? : Digest → Option Node) (root child : Digest) (seen : Digests)
    (stack : List Digest) : Prop where
  waits : ∀ x ∈ stack, Reaches node? root x
  met : ∀ x ∈ seen, Reaches node? root x
  searched : ∀ x, x = root ∨ x ∈ seen →
    x ∈ stack ∨ ∃ n, node? x = some n ∧ child ∉ n.targets ∧ ∀ t ∈ n.targets, t ∈ seen

namespace Searched

theorem start : Searched node? root child ∅ [root] where
  waits x h := by
    rw [List.mem_singleton.mp h]
    exact .refl root
  met x h := absurd h Std.ExtTreeSet.not_mem_empty
  searched x h := by
    rcases h with rfl | none
    · exact Or.inl (List.mem_singleton.mpr rfl)
    · exact absurd none Std.ExtTreeSet.not_mem_empty

/-- A node whose links do not lead to the child is searched, and its links are met. -/
theorem step {n : Node} (searched : Searched node? root child seen (d :: stack))
    (there : node? d = some n) (not : child ∉ n.targets) :
    Searched node? root child (n.targets.reverse.foldl meet (seen, stack)).1
      (n.targets.reverse.foldl meet (seen, stack)).2 := by
  have inSeen := mem_seen_foldl_meet n.targets.reverse seen stack
  have inStack := mem_stack_foldl_meet n.targets.reverse seen stack
  have below : ∀ t ∈ n.targets, Reaches node? root t := fun t link =>
    (searched.waits d List.mem_cons_self).trans (.step there link (.refl t))
  constructor
  · intro x h
    rcases (inStack x).mp h with waits | ⟨link, -⟩
    · exact searched.waits x (List.mem_cons_of_mem d waits)
    · exact below x (List.mem_reverse.mp link)
  · intro x h
    rcases (inSeen x).mp h with before | link
    · exact searched.met x before
    · exact below x (List.mem_reverse.mp link)
  · intro x h
    have known : (x = root ∨ x ∈ seen) ∨ x ∈ n.targets := by
      rcases h with isRoot | h
      · exact Or.inl (Or.inl isRoot)
      · rcases (inSeen x).mp h with before | link
        · exact Or.inl (Or.inr before)
        · exact Or.inr (List.mem_reverse.mp link)
    by_cases before : x = root ∨ x ∈ seen
    · rcases searched.searched x before with waits | ⟨m, readable, without, targets⟩
      · rcases List.mem_cons.mp waits with rfl | waits
        · refine Or.inr ⟨n, there, not, fun t link => ?_⟩
          exact (inSeen t).mpr (Or.inr (List.mem_reverse.mpr link))
        · exact Or.inl ((inStack x).mpr (Or.inl waits))
      · refine Or.inr ⟨m, readable, without, fun t link => ?_⟩
        exact (inSeen t).mpr (Or.inl (targets t link))
    · have link : x ∈ n.targets := known.resolve_left before
      refine Or.inl ((inStack x).mpr (Or.inr ⟨List.mem_reverse.mpr link, ?_⟩))
      exact fun unseen => before (Or.inr unseen)

/-- If nothing waits any more, then the child does not lie below the root. -/
theorem not_below (searched : Searched node? root child seen []) : ¬ Below node? root child := by
  rintro ⟨x, n, reached, there, link⟩
  -- Nothing waits, so what has been met is closed under links.
  have met : ∀ {a b}, Reaches node? a b → a = root ∨ a ∈ seen → b = root ∨ b ∈ seen := by
    intro a b reached
    induction reached with
    | refl => exact id
    | step there link _ ih =>
      intro before
      obtain waits | ⟨m, readable, -, targets⟩ := searched.searched _ before
      · cases waits
      · cases readable.symm.trans there
        exact ih (Or.inr (targets _ link))
  obtain waits | ⟨m, readable, without, -⟩ := searched.searched x (met reached (Or.inl rfl))
  · cases waits
  · cases readable.symm.trans there
    exact without link

end Searched

/-- What has been met and does not wait has been read, and so is an object of its own in the
store. -/
theorem Searched.size_le {s : ObjectStore} (searched : Searched s.node? root child seen stack) :
    seen.size ≤ stack.length + s.bound := by
  have nodup := Graph.nodup_toList seen
  have waiting : (seen.toList.filter (· ∈ stack)).length ≤ stack.length :=
    (List.subperm_of_subset (nodup.filter _)
      fun x h => by simpa using (List.mem_filter.mp h).2).length_le
  have read : (seen.toList.filter fun x => !decide (x ∈ stack)).length ≤ s.bound := by
    refine Graph.length_le_bound (nodup.filter _) fun x h => ?_
    obtain ⟨met, gone⟩ := List.mem_filter.mp h
    have inSeen := Std.ExtTreeSet.mem_toList.mp met
    rcases searched.searched x (Or.inr inSeen) with waits | ⟨n, there, -⟩
    · simp [waits] at gone
    · exact ⟨n, there⟩
  rw [← Std.ExtTreeSet.length_toList, List.length_eq_length_filter_add (· ∈ stack)]
  omega

/-- How a search for a node below another one ends. -/
inductive Search (w : World) (root child : Digest) : Outcome Error Bool → Prop
  | found (below : Below w.store.node? root child) : Search w root child (.done true)
  | absent (apart : ¬ Below w.store.node? root child) : Search w root child (.done false)
  | stuck {x : Digest} {f : Failure} (reached : Reaches w.store.node? root x)
    (denied : Graph.Denies w x f) : Search w root child (.failed (.fetch f))
  | stopped (stops : w.conduct.Stops) : Search w root child .halted

/-- A search ends before its fuel is used up. -/
theorem search_hasChildFrom {v : World} {fuel : Nat} (truthful : w.conduct.lies = [])
    (moved : World.Untouched w v) (searched : Searched w.store.node? root child seen stack)
    (enough : stack.length + w.store.bound + 1 ≤ fuel + seen.size) :
    Search w root child (hasChildFrom child fuel seen stack v).1 := by
  -- Every step takes one node off the stack for good, and no more nodes can be met than there are
  -- objects.
  induction fuel generalizing v seen stack with
  | zero =>
    have few := searched.size_le
    omega
  | succ fuel ih =>
    cases stack with
    | nil => exact .absent searched.not_below
    | cons d rest =>
      have reached := searched.waits d List.mem_cons_self
      have truthful' := moved.truthful truthful
      rw [hasChildFrom, bind_apply, fetchNode, mapError]
      rcases got : Graph.get d v with ⟨n | f | _, between⟩
      · obtain ⟨moved', there⟩ := Graph.get_done truthful' got
        rw [← moved.store] at there
        dsimp only
        by_cases link : child ∈ n.targets
        · rw [if_pos link]
          exact .found ⟨d, n, reached, there, link⟩
        · rw [if_neg link]
          have count := length_foldl_meet n.targets.reverse seen rest
          refine ih (IsTrans.trans _ _ _ moved moved') (searched.step there link) ?_
          rw [List.length_cons] at enough
          omega
      · exact .stuck reached ⟨v, moved, by rw [got]⟩
      · exact .stopped (moved.conduct ▸ Graph.get_halted truthful' got)

theorem search_hasChild {v : World} (truthful : w.conduct.lies = []) (moved : World.Untouched w v)
    (root child : Digest) : Search w root child (hasChild root child v).1 := by
  have inspected : (Graph.bound : Program Error Nat) v = (.done w.store.bound, v) := by
    rw [moved.store]
    rfl
  rw [hasChild, bind_of_done inspected]
  refine search_hasChildFrom truthful moved .start ?_
  rw [List.length_singleton, Std.ExtTreeSet.size_empty]
  omega

/-- How a search for the first of some roots with a node below it ends. -/
inductive RootSearch (w : World) (d : Digest) (roots : List Digest) :
    Outcome Error (Option Digest) → Prop
  | found {early late : List Digest} {r : Digest} (split : roots = early ++ r :: late)
    (apart : ∀ r' ∈ early, ¬ Below w.store.node? r' d) (below : Below w.store.node? r d) :
    RootSearch w d roots (.done (some r))
  | absent (apart : ∀ r ∈ roots, ¬ Below w.store.node? r d) : RootSearch w d roots (.done none)
  | stuck {r x : Digest} {f : Failure} (isRoot : r ∈ roots) (reached : Reaches w.store.node? r x)
    (denied : Graph.Denies w x f) : RootSearch w d roots (.failed (.fetch f))
  | stopped (stops : w.conduct.Stops) : RootSearch w d roots .halted

/-- A root without the node below it is passed over. -/
theorem RootSearch.cons {roots : List Digest} {outcome : Outcome Error (Option Digest)}
    (apart : ¬ Below w.store.node? r d) (search : RootSearch w d roots outcome) :
    RootSearch w d (r :: roots) outcome := by
  cases search with
  | found split others below =>
    rw [split]
    exact .found (List.cons_append ..).symm (List.forall_mem_cons.mpr ⟨apart, others⟩) below
  | absent others => exact .absent (List.forall_mem_cons.mpr ⟨apart, others⟩)
  | stuck isRoot reached denied => exact .stuck (List.mem_cons_of_mem _ isRoot) reached denied
  | stopped stops => exact .stopped stops

theorem search_findRoot {v : World} (truthful : w.conduct.lies = []) (moved : World.Untouched w v)
    (d : Digest) (roots : List Digest) : RootSearch w d roots (findRoot d roots v).1 := by
  induction roots generalizing v with
  | nil => exact .absent fun r h => absurd h List.not_mem_nil
  | cons root rest ih =>
    have search := search_hasChild truthful moved root d
    have reads := onlyReads_hasChild root d v
    rw [findRoot, bind_apply]
    rcases run : hasChild root d v with ⟨outcome, between⟩
    rw [run] at search reads
    cases search with
    | found below =>
      exact .found (List.nil_append _).symm (fun r h => absurd h List.not_mem_nil) below
    | absent apart => exact .cons apart (ih (IsTrans.trans _ _ _ moved reads))
    | stuck reached denied => exact .stuck List.mem_cons_self reached denied
    | stopped stops => exact .stopped stops

/-- Whether a node lies below one of some roots that can be read with everything below them. -/
theorem findRoot_honest {roots : List Digest} (honest : w.conduct = .honest)
    (fetchable : ∀ r ∈ roots, Fetchable w.store.node? r) :
    ∃ found w', findRoot d roots w = (.done found, w') ∧
      (found ≠ none ↔ ∃ r ∈ roots, Below w.store.node? r d) := by
  have truthful := World.truthful_of_honest honest
  have search := search_findRoot truthful (refl w) d roots
  rcases run : findRoot d roots w with ⟨outcome, w'⟩
  rw [run] at search
  cases search with
  | found split _ below =>
    have inside : ∃ r ∈ roots, Below w.store.node? r d := ⟨_, by simp [split], below⟩
    exact ⟨_, w', rfl, fun _ => inside, fun _ => Option.some_ne_none _⟩
  | absent apart =>
    refine ⟨none, w', rfl, fun h => absurd rfl h, ?_⟩
    rintro ⟨r, isRoot, below⟩
    exact absurd below (apart r isRoot)
  | stuck isRoot reached denied =>
    obtain ⟨n, there⟩ := fetchable _ isRoot _ reached
    cases (denied.absent honest).symm.trans there
  | stopped stops =>
    rw [honest] at stops
    exact absurd stops Conduct.not_stops_honest

/-! ## Reasons -/

/-- Reasons that need no search are tried first. -/
theorem classify_all (d : Digest) (w : World) : classify d .all w =
    (if d ∈ w.pins.recursive then pure (some .recursive)
      else if d ∈ w.pins.direct then pure (some .direct)
      else if d ∈ w.pins.internal then pure (some .internal)
      else findRoot d w.pins.recursive.toList >>= fun root => pure (root.map .indirect)) w := by
  have inspected : (current : Program Error Pins) w = (.done w.pins, w) := rfl
  have all : ∀ part, Query.covers .all part = true := fun _ => rfl
  rw [classify, bind_of_done inspected]
  simp only [all, Bool.true_and, decide_eq_true_eq, if_true]

/-- A question about indirect pins looks at the recursive ones only. -/
theorem classify_indirect_eq (d : Digest) (w : World) : classify d .indirect w =
    (findRoot d w.pins.recursive.toList >>= fun root => pure (root.map .indirect)) w :=
  rfl

/-- A node is kept for some reason if and only if it has a pin, is a node of the record, or lies
below a recursive pin. -/
theorem classify_honest (honest : w.conduct = .honest)
    (fetchable : ∀ r ∈ w.pins.recursive, Fetchable w.store.node? r) (d : Digest) :
    ∃ reason w', classify d .all w = (.done reason, w') ∧
      (reason ≠ none ↔ (∃ r ∈ w.pins.recursive, Reaches w.store.node? r d) ∨ d ∈ w.pins.direct ∨
        d ∈ w.pins.internal) := by
  rw [classify_all]
  by_cases isRecursive : d ∈ w.pins.recursive
  · rw [if_pos isRecursive]
    exact ⟨_, w, rfl, fun _ => Or.inl ⟨d, isRecursive, .refl d⟩, nofun⟩
  rw [if_neg isRecursive]
  by_cases isDirect : d ∈ w.pins.direct
  · rw [if_pos isDirect]
    exact ⟨_, w, rfl, fun _ => Or.inr (Or.inl isDirect), nofun⟩
  rw [if_neg isDirect]
  by_cases isInternal : d ∈ w.pins.internal
  · rw [if_pos isInternal]
    exact ⟨_, w, rfl, fun _ => Or.inr (Or.inr isInternal), nofun⟩
  rw [if_neg isInternal]
  obtain ⟨found, w', run, finds⟩ := findRoot_honest (d := d) honest
    fun r h => fetchable r (Std.ExtTreeSet.mem_toList.mp h)
  have reason : found.map Reason.indirect ≠ none ↔ found ≠ none := by simp
  rw [bind_of_done run]
  refine ⟨found.map .indirect, w', rfl, reason.trans (finds.trans ?_)⟩
  simp only [Std.ExtTreeSet.mem_toList, isDirect, isInternal, or_false]
  -- Here the node is no pin itself, and so reaching it is the same as it lying below.
  refine exists_congr fun r => and_congr_right fun isPin => ?_
  rw [reaches_iff, or_iff_right]
  rintro rfl
  exact isRecursive isPin

end Pin

end PinnedStore
