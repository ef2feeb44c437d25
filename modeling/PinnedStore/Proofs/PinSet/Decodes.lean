import PinnedStore.PinSet.Read
import PinnedStore.Proofs.Storage.Calls

/-!
# What a stored pin set stands for

Which nodes reading meets, and which entries it adds up, follows from what the nodes say.  The
relation `Decodes` describes this for a stack of trees still to be read: it gives the names met, in
order, and the entries found.  It has at most one answer, and its answer depends on the nodes met
alone.

Reading finds out this relation, and where there is an answer reading never stops short of it: a
tree that has an answer is finite, so down a path no node comes twice, and the bound on the depth,
one more than there are objects in the store, is not reached.

* `Decodes`: the names met and the entries found.
* `Decodes.unique`, `Decodes.congr`: there is one answer, and it depends on the nodes met.
* `decodes_of_readTree`, `decodes_of_read`: an answer that reading gives is right.
* `answersIff_readTree`: reading gives the answer if the nodes are there, and none if one is missing.
-/

namespace PinnedStore.PinSet

open Program

/-- Reading trees one after the other meets these names and finds these entries. -/
inductive Decodes (node? : Digest → Option Node) :
    (stack : List Digest) → (met : List Digest) → (found : List Entry) → Prop
  | done : Decodes node? [] [] []
  | empty {rest met : List Digest} {found : List Entry} (later : Decodes node? rest met found) :
    Decodes node? (Node.emptyDigest :: rest) (Node.emptyDigest :: met) found
  | hollow {d : Digest} {n : Node} {rest met : List Digest} {found : List Entry}
    (named : d ≠ Node.emptyDigest) (there : node? d = some n) (kind : shape n = .ok .hollow)
    (later : Decodes node? rest met found) : Decodes node? (d :: rest) (d :: met) found
  | leaf {d : Digest} {n : Node} {rest met : List Digest} {entries found : List Entry}
    (named : d ≠ Node.emptyDigest) (there : node? d = some n) (kind : shape n = .ok (.leaf entries))
    (later : Decodes node? rest met found) : Decodes node? (d :: rest) (d :: met) (entries ++ found)
  | branch {d : Digest} {n : Node} {buckets rest met : List Digest} {found : List Entry}
    (named : d ≠ Node.emptyDigest) (there : node? d = some n)
    (kind : shape n = .ok (.branch buckets)) (later : Decodes node? (buckets ++ rest) met found) :
    Decodes node? (d :: rest) (d :: met) found

namespace Decodes

variable {node? node?' : Digest → Option Node} {stack stack' met met' : List Digest}
  {found found' : List Entry}

/-- There is at most one answer. -/
theorem unique (h : Decodes node? stack met found) (h' : Decodes node? stack met' found') :
    met = met' ∧ found = found' := by
  induction h generalizing met' found' with
  | done => cases h'; exact ⟨rfl, rfl⟩
  | empty later ih =>
    cases h' with
    | empty later' =>
      obtain ⟨rfl, rfl⟩ := ih later'
      exact ⟨rfl, rfl⟩
    | hollow named | leaf named | branch named => exact absurd rfl named
  | hollow named there kind later ih =>
    cases h' with
    | empty => exact absurd rfl named
    | hollow _ there' kind' later' =>
      obtain ⟨rfl, rfl⟩ := ih later'
      exact ⟨rfl, rfl⟩
    | leaf _ there' kind' | branch _ there' kind' =>
      cases there.symm.trans there'
      cases kind.symm.trans kind'
  | leaf named there kind later ih =>
    cases h' with
    | empty => exact absurd rfl named
    | leaf _ there' kind' later' =>
      cases there.symm.trans there'
      cases kind.symm.trans kind'
      obtain ⟨rfl, rfl⟩ := ih later'
      exact ⟨rfl, rfl⟩
    | hollow _ there' kind' | branch _ there' kind' =>
      cases there.symm.trans there'
      cases kind.symm.trans kind'
  | branch named there kind later ih =>
    cases h' with
    | empty => exact absurd rfl named
    | branch _ there' kind' later' =>
      cases there.symm.trans there'
      cases kind.symm.trans kind'
      obtain ⟨rfl, rfl⟩ := ih later'
      exact ⟨rfl, rfl⟩
    | hollow _ there' kind' | leaf _ there' kind' =>
      cases there.symm.trans there'
      cases kind.symm.trans kind'

theorem append (h : Decodes node? stack met found) (h' : Decodes node? stack' met' found') :
    Decodes node? (stack ++ stack') (met ++ met') (found ++ found') := by
  induction h with
  | done => exact h'
  | empty later ih => exact .empty ih
  | hollow named there kind later ih => exact .hollow named there kind ih
  | leaf named there kind later ih =>
    rw [List.append_assoc]
    exact .leaf named there kind ih
  | branch named there kind later ih =>
    rw [List.append_assoc] at ih
    exact .branch named there kind ih

/-- The trees of a stack have answers of their own. -/
theorem split (h : Decodes node? (stack ++ stack') met found) :
    ∃ met₁ met₂ found₁ found₂, Decodes node? stack met₁ found₁ ∧ Decodes node? stack' met₂ found₂ ∧
      met = met₁ ++ met₂ ∧ found = found₁ ++ found₂ := by
  generalize whole : stack ++ stack' = both at h
  induction h generalizing stack with
  | done =>
    obtain ⟨rfl, rfl⟩ := List.append_eq_nil_iff.mp whole
    exact ⟨[], [], [], [], .done, .done, rfl, rfl⟩
  | @empty rest met found later ih =>
    cases stack with
    | nil =>
      obtain rfl : stack' = _ := whole
      exact ⟨[], _, [], _, .done, .empty later, rfl, rfl⟩
    | cons d more =>
      obtain ⟨rfl, rfl⟩ := List.cons.inj whole
      obtain ⟨met₁, met₂, found₁, found₂, first, second, rfl, rfl⟩ := ih rfl
      exact ⟨_ :: met₁, met₂, found₁, found₂, .empty first, second, rfl, rfl⟩
  | @hollow d n rest met found named there kind later ih =>
    cases stack with
    | nil =>
      obtain rfl : stack' = _ := whole
      exact ⟨[], _, [], _, .done, .hollow named there kind later, rfl, rfl⟩
    | cons d more =>
      obtain ⟨rfl, rfl⟩ := List.cons.inj whole
      obtain ⟨met₁, met₂, found₁, found₂, first, second, rfl, rfl⟩ := ih rfl
      exact ⟨_ :: met₁, met₂, found₁, found₂, .hollow named there kind first, second, rfl, rfl⟩
  | @leaf d n rest met entries found named there kind later ih =>
    cases stack with
    | nil =>
      obtain rfl : stack' = _ := whole
      exact ⟨[], _, [], _, .done, .leaf named there kind later, rfl, rfl⟩
    | cons d more =>
      obtain ⟨rfl, rfl⟩ := List.cons.inj whole
      obtain ⟨met₁, met₂, found₁, found₂, first, second, rfl, rfl⟩ := ih rfl
      exact ⟨_ :: met₁, met₂, entries ++ found₁, found₂, .leaf named there kind first, second, rfl,
        (List.append_assoc ..).symm⟩
  | @branch d n buckets rest met found named there kind later ih =>
    cases stack with
    | nil =>
      obtain rfl : stack' = _ := whole
      exact ⟨[], _, [], _, .done, .branch named there kind later, rfl, rfl⟩
    | cons d more =>
      obtain ⟨rfl, rfl⟩ := List.cons.inj whole
      obtain ⟨met₁, met₂, found₁, found₂, first, second, rfl, rfl⟩ :=
        ih (List.append_assoc ..)
      exact ⟨_ :: met₁, met₂, found₁, found₂, .branch named there kind first, second, rfl, rfl⟩

/-- The answer depends on the nodes met alone, and not on the empty node. -/
theorem congr (h : Decodes node? stack met found)
    (same : ∀ d ∈ met, d ≠ Node.emptyDigest → ∀ n, node? d = some n → node?' d = some n) :
    Decodes node?' stack met found := by
  induction h with
  | done => exact .done
  | empty later ih => exact .empty (ih fun d h => same d (List.mem_cons_of_mem _ h))
  | hollow named there kind later ih =>
    exact .hollow named (same _ List.mem_cons_self named _ there) kind
      (ih fun d h => same d (List.mem_cons_of_mem _ h))
  | leaf named there kind later ih =>
    exact .leaf named (same _ List.mem_cons_self named _ there) kind
      (ih fun d h => same d (List.mem_cons_of_mem _ h))
  | branch named there kind later ih =>
    exact .branch named (same _ List.mem_cons_self named _ there) kind
      (ih fun d h => same d (List.mem_cons_of_mem _ h))

/-- Every name met is that of the empty node or of a node that can be read. -/
theorem readable (h : Decodes node? stack met found) {d : Digest} (isMet : d ∈ met) :
    d = Node.emptyDigest ∨ ∃ n, node? d = some n := by
  induction h with
  | done => cases isMet
  | empty later ih =>
    rcases List.mem_cons.mp isMet with rfl | isMet
    · exact Or.inl rfl
    · exact ih isMet
  | hollow named there kind later ih | leaf named there kind later ih
  | branch named there kind later ih =>
    rcases List.mem_cons.mp isMet with rfl | isMet
    · exact Or.inr ⟨_, there⟩
    · exact ih isMet

end Decodes

/-! ## What reading gives is right -/

variable {w w' : World} {r r' : Reading} {d : Digest}

theorem onlyReads_readTree (fuel : Nat) (r : Reading) (d : Digest) :
    OnlyReads (readTree fuel r d) := by
  induction fuel generalizing r d with
  | zero => exact .halt
  | succ fuel ih =>
    unfold readTree
    refine .ite (fun _ => .pure _) fun _ => ?_
    refine (Graph.onlyReads_get d).mapError.bind fun n => ?_
    rcases shape n with damage | (_ | entries | buckets)
    · exact .fail _
    · exact .pure _
    · exact .pure _
    · exact .foldlM (fun r d _ => ih r d) _

theorem onlyReads_read (top : Digest) : OnlyReads (read top) :=
  (KeepsTo.inspect _).bind fun _ => (onlyReads_readTree _ _ _).bind fun _ => .pure _

/-- The answer of a reading that found these entries and met these names. -/
def Reading.after (r : Reading) (met : List Digest) (found : List Entry) : Reading :=
  ⟨r.set.addAll found, met.reverse ++ r.recorded⟩

theorem Reading.after_append (r : Reading) (met met' : List Digest) (found found' : List Entry) :
    (r.after met found).after met' found' = r.after (met ++ met') (found ++ found') := by
  simp [after, Multiset.addAll, List.foldl_append]

/-- Reading trees one after the other, if each tree is read rightly. -/
theorem decodes_of_foldlM {body : Reading → Digest → Program (Interrupted Error) Reading}
    {buckets : List Digest}
    (reads : ∀ r d, OnlyReads (body r d))
    (each : ∀ {r r' d w w'}, w.conduct.lies = [] → body r d w = (.done r', w') →
      ∃ met found, Decodes w.store.node? [d] met found ∧ r' = r.after met found)
    (truthful : w.conduct.lies = []) (h : buckets.foldlM body r w = (.done r', w')) :
    ∃ met found, Decodes w.store.node? buckets met found ∧ r' = r.after met found := by
  induction buckets generalizing r w with
  | nil => cases h; exact ⟨[], [], .done, rfl⟩
  | cons d rest ih =>
    rw [List.foldlM_cons] at h
    obtain ⟨r₁, w₁, first, later⟩ := done_of_bind h
    have moved := (reads r d).leaves first
    obtain ⟨met, found, decodes, rfl⟩ := each truthful first
    obtain ⟨met', found', decodes', rfl⟩ := ih (moved.truthful truthful) later
    rw [← moved.store] at decodes'
    exact ⟨met ++ met', found ++ found', decodes.append decodes', r.after_append ..⟩

/-- An answer that reading gives is right. -/
theorem decodes_of_readTree {fuel : Nat} (truthful : w.conduct.lies = [])
    (h : readTree fuel r d w = (.done r', w')) :
    ∃ met found, Decodes w.store.node? [d] met found ∧ r' = r.after met found := by
  induction fuel generalizing r r' d w w' with
  | zero => cases h
  | succ fuel ih =>
    unfold readTree at h
    split at h
    · next isEmpty =>
      cases h
      subst isEmpty
      exact ⟨_, _, .empty .done, rfl⟩
    · next named =>
      obtain ⟨n, between, got, h⟩ := done_of_bind h
      obtain ⟨moved, there⟩ := Graph.get_done truthful (done_of_mapError got)
      rcases kind : shape n with damage | (_ | entries | buckets)
      · rw [kind] at h; cases h
      · rw [kind] at h
        cases h
        exact ⟨_, _, .hollow named there kind .done, rfl⟩
      · rw [kind] at h
        cases h
        refine ⟨_, _, .leaf named there kind .done, ?_⟩
        rw [List.append_nil]
        rfl
      · rw [kind] at h
        obtain ⟨met, found, decodes, rfl⟩ := decodes_of_foldlM (onlyReads_readTree fuel)
          (fun truthful h => ih truthful h) (moved.truthful truthful) h
        rw [← moved.store] at decodes
        refine ⟨d :: met, found, .branch named there kind (by rwa [List.append_nil]), ?_⟩
        simp [Reading.after]

theorem decodes_of_read {top : Digest} {set : Multiset} {met : List Digest}
    (truthful : w.conduct.lies = []) (h : read top w = (.done (set, met), w')) :
    ∃ found, Decodes w.store.node? [top] met found ∧ set = Multiset.ofEntries found := by
  obtain ⟨_, _, bound, h⟩ := done_of_bind h
  cases bound
  obtain ⟨r, between, tree, h⟩ := done_of_bind h
  cases h
  obtain ⟨met, found, decodes, rfl⟩ := decodes_of_readTree truthful tree
  refine ⟨found, ?_, rfl⟩
  simpa [Reading.after] using decodes

/-! ## Reading gives the answer -/

/-- Everything met can be read, apart from the empty node, which is known by its name. -/
def Present (s : ObjectStore) (met : List Digest) : Prop :=
  ∀ d ∈ met, d ≠ Node.emptyDigest → ∃ n, s.node? d = some n

variable {node? : Digest → Option Node} {s s' : ObjectStore} {met met' : List Digest}
  {found : List Entry}

theorem present_append : Present s (met ++ met') ↔ Present s met ∧ Present s met' :=
  List.forall_mem_append

theorem present_cons (named : d ≠ Node.emptyDigest) :
    Present s (d :: met) ↔ (∃ n, s.node? d = some n) ∧ Present s met := by
  unfold Present
  rw [List.forall_mem_cons]
  exact and_congr_left fun _ => ⟨fun h => h named, fun h _ => h⟩

theorem present_singleton (named : d ≠ Node.emptyDigest) :
    Present s [d] ↔ ∃ n, s.node? d = some n := by
  rw [present_cons named]
  exact and_iff_left fun _ h => absurd h List.not_mem_nil

/-- What stands for something is there. -/
theorem Decodes.present {stack : List Digest} (h : Decodes s.node? stack met found) :
    Present s met :=
  fun _ isMet named => (h.readable isMet).resolve_left named

/-- Nodes above a tree: they are different, they are in the store, and their own trees are
larger. -/
structure Above (node? : Digest → Option Node) (s : ObjectStore) (met ancestors : List Digest) :
    Prop where
  nodup : ancestors.Nodup
  held : ∀ a ∈ ancestors, s.held a ≠ none
  larger : ∀ a ∈ ancestors, ∃ met' found', Decodes node? [a] met' found' ∧
    met.length < met'.length

variable {ancestors : List Digest}

theorem Above.length_le (above : Above node? s met ancestors) : ancestors.length ≤ s.bound :=
  ObjectStore.length_le_bound above.nodup above.held

theorem Above.mono (above : Above node? s met ancestors) (shorter : met'.length ≤ met.length) :
    Above node? s met' ancestors := by
  refine ⟨above.nodup, above.held, fun a h => ?_⟩
  obtain ⟨met'', found'', decodes, long⟩ := above.larger a h
  exact ⟨met'', found'', decodes, by omega⟩

/-- A node whose tree has an answer is not among those above it, and so can be put with them. -/
theorem Above.cons {n : Node} (above : Above node? s (d :: met) ancestors)
    (there : s.node? d = some n) (decodes : Decodes node? [d] (d :: met) found) :
    Above node? s met (d :: ancestors) := by
  obtain ⟨data, readable, -⟩ := Graph.node?_eq_some.mp there
  have fresh : d ∉ ancestors := by
    intro h
    obtain ⟨met', found', decodes', long⟩ := above.larger d h
    obtain ⟨rfl, -⟩ := decodes.unique decodes'
    omega
  refine ⟨List.nodup_cons.mpr ⟨fresh, above.nodup⟩, fun a h => ?_, fun a h => ?_⟩
  · rcases List.mem_cons.mp h with rfl | h
    · rw [ObjectStore.held_of_block? readable]
      nofun
    · exact above.held a h
  · rcases List.mem_cons.mp h with rfl | h
    · exact ⟨_, _, decodes, by rw [List.length_cons]; omega⟩
    · obtain ⟨met', found', decodes', long⟩ := above.larger a h
      rw [List.length_cons] at long
      exact ⟨met', found', decodes', by omega⟩

/-- A store that may lack some nodes of a tree, but has no others in their place. -/
def Lacks (node? : Digest → Option Node) (s : ObjectStore) : Prop :=
  ∀ d n, s.node? d = some n → node? d = some n

theorem answersIff_get {n : Node} (f : Failure → Interrupted Error) (honest : w.conduct = .honest)
    (lacks : Lacks node? w.store) (there : node? d = some n) :
    AnswersIff w (∃ n, w.store.node? d = some n) n (mapError f (Graph.get d)) :=
  (Graph.answersIff_get honest fun _ h => Option.some.inj ((lacks d _ h).symm.trans there)).mapError

/-- Reading trees one after the other gives the answer, if reading each of them does. -/
theorem answersIff_foldlM {body : Reading → Digest → Program (Interrupted Error) Reading}
    {buckets : List Digest} (honest : w.conduct = .honest)
    (each : ∀ {r d met found w'}, w'.store = w.store → w'.conduct = .honest →
      Decodes node? [d] met found → Above node? w.store met ancestors →
      AnswersIff w' (Present w.store met) (r.after met found) (body r d))
    (decodes : Decodes node? buckets met found) (above : Above node? w.store met ancestors) :
    AnswersIff w (Present w.store met) (r.after met found) (buckets.foldlM body r) := by
  suffices all : ∀ w', w'.store = w.store → w'.conduct = .honest →
      AnswersIff w' (Present w.store met) (r.after met found) (buckets.foldlM body r) from
    all w rfl honest
  induction buckets generalizing r met found with
  | nil =>
    cases decodes
    exact fun w' _ _ => .pure fun _ h => absurd h List.not_mem_nil
  | cons d rest ih =>
    intro w' same honest'
    rw [← List.singleton_append] at decodes
    obtain ⟨met₁, met₂, found₁, found₂, first, later, rfl, rfl⟩ := decodes.split
    rw [List.foldlM_cons, ← r.after_append]
    refine .congr present_append.symm (.bind (each same honest' first (above.mono (by simp))) ?_)
    intro _ w'' moved
    exact ih later (above.mono (by simp)) w'' (moved.store.symm.trans same)
      (moved.conduct.trans honest')

/-- Where some nodes of a tree may be missing, reading the tree gives the answer if all of them are
there, and fails otherwise: the bound on the depth is not reached. -/
theorem answersIff_readTree {fuel : Nat} (honest : w.conduct = .honest)
    (lacks : Lacks node? w.store)
    (decodes : Decodes node? [d] met found) (above : Above node? w.store met ancestors)
    (enough : w.store.bound + 1 ≤ fuel + ancestors.length) :
    AnswersIff w (Present w.store met) (r.after met found) (readTree fuel r d) := by
  induction fuel generalizing r d met found w ancestors with
  | zero =>
    have := above.length_le
    omega
  | succ fuel ih =>
    unfold readTree
    have tree := decodes
    cases decodes with
    | empty later =>
      cases later
      rw [if_pos rfl]
      refine .pure fun d isMet named => ?_
      exact absurd (List.mem_singleton.mp isMet) named
    | hollow named there kind later =>
      cases later
      rw [if_neg named]
      refine .congr (by rw [present_singleton named, and_true])
        ((answersIff_get _ honest lacks there).bind fun _ w' _ => ?_)
      rw [kind]
      exact .pure trivial
    | leaf named there kind later =>
      cases later
      rw [if_neg named]
      refine .congr (by rw [present_singleton named, and_true])
        ((answersIff_get _ honest lacks there).bind fun _ w' _ => ?_)
      rw [kind, List.append_nil]
      exact .pure trivial
    | @branch _ n buckets _ met _ named there kind later =>
      rw [List.append_nil] at later
      rw [if_neg named]
      refine .congr (present_cons named).symm
        ((answersIff_get _ honest lacks there).bind fun readable w' moved => ?_)
      obtain ⟨n', there'⟩ := readable
      have higher : Above node? w'.store met (d :: ancestors) :=
        moved.store ▸ above.cons there' tree
      have answer : r.after (d :: met) found
          = Reading.after { r with recorded := d :: r.recorded } met found := by
        simp [Reading.after]
      have honest' : w'.conduct = .honest := moved.conduct.trans honest
      rw [kind, answer, moved.store]
      refine answersIff_foldlM honest' (fun {r d' met' found' w''} same honest decodes above => ?_)
        later higher
      rw [← same] at above ⊢
      refine ih honest ?_ decodes above ?_
      · rw [same, ← moved.store]
        exact lacks
      · rw [same, ← moved.store, List.length_cons]
        omega

end PinnedStore.PinSet
