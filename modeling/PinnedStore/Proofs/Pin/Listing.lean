import PinnedStore.Proofs.Collect
import PinnedStore.Proofs.Pin.Apart

/-!
# Listings and questions agree

A listing finds the indirect pins by one walk from all recursive pins at once, and takes away from
what it has met the nodes that have a pin of their own.  A question about a single node searches
below one recursive pin after the other, and only for what lies strictly below it.

What the walk meets and the search passes over are the recursive pins themselves, each as far as it
lies below no recursive pin; and these have a pin of their own.  So the two agree on every graph: if
one pin lies below another one, if a direct pin lies below a recursive one, and if two pins have
nodes in common, which are met once.

A node with a pin of its own may lie below a recursive pin all the same.  Then a question about
indirect pins alone gives the recursive pin as the reason, and the listing names the node by its own
pin only.

* `Pin.indirect_honest`: the nodes that are listed as indirect pins.
* `Pin.listing_indirect_of_done`, `Pin.listing_all_of_done`: the listings they are part of.
* `Pin.nodup_labels`: a listing names no node twice, if no node is pinned in both ways.
* `Pin.listing_agrees`: the listings in terms of questions.
-/

namespace PinnedStore.Pin

open Program

variable {w v : World} {ds : List Digest} {d : Digest}

/-! ## What is listed -/

/-- A set of digests is listed in their order. -/
theorem ascending_toList (ds : Digests) : ds.toList.Pairwise (· < ·) :=
  ds.ordered_toList

theorem nodup_of_ascending (ascending : ds.Pairwise (· < ·)) : ds.Nodup := by
  refine ascending.imp ?_
  rintro a _ less rfl
  have strict : compare a a = .lt := less
  cases strict.symm.trans Std.ReflOrd.compare_self

/-- Where everything below the recursive pins can be read, the nodes that lie below one of them and
have no pin of their own are found, in their order. -/
theorem indirect_honest (honest : w.conduct = .honest)
    (fetchable : ∀ r ∈ w.pins.recursive, Fetchable w.store.node? r) :
    ∃ ds v, indirect w = (.done ds, v) ∧ ds.Pairwise (· < ·) ∧ ∀ d, d ∈ ds ↔
      (∃ r ∈ w.pins.recursive, Below w.store.node? r d) ∧ d ∉ w.pins.recursive ∧
        d ∉ w.pins.direct := by
  have truthful := World.truthful_of_honest honest
  have inspected : (current : Program Error Pins) w = (.done w.pins, w) := rfl
  obtain ⟨found, v, closed⟩ := Graph.closure_honest honest (fun _ => Error.fetch)
    fun r h => fetchable r (Std.ExtTreeSet.mem_toList.mp h)
  obtain ⟨-, members, -⟩ := Graph.mem_closure truthful closed
  have reached : Collect.reachable w.pins.recursive.toList w = (.done found, v) := closed
  refine ⟨_, v, by rw [indirect, bind_of_done inspected, bind_of_done reached]; rfl,
    (ascending_toList found).filter _, fun d => ?_⟩
  rw [List.mem_filter, Std.ExtTreeSet.mem_toList, members, Bool.and_eq_true, decide_eq_true_eq,
    decide_eq_true_eq]
  refine and_congr_left fun ⟨notRecursive, _⟩ => ?_
  simp only [Std.ExtTreeSet.mem_toList]
  -- The node is no recursive pin, and so reaching it is the same as it lying below.
  refine exists_congr fun r => and_congr_right fun isPin => ?_
  rw [reaches_iff, or_iff_right]
  rintro rfl
  exact notRecursive isPin

/-- If the indirect pins are found, then everything below the recursive pins can be read. -/
theorem fetchable_of_indirect (truthful : w.conduct.lies = [])
    (found : indirect w = (.done ds, v)) :
    ∀ r ∈ w.pins.recursive, Fetchable w.store.node? r := by
  obtain ⟨pins, between, inspected, found⟩ := done_of_bind found
  cases inspected
  obtain ⟨below, between', closed, -⟩ := done_of_bind found
  obtain ⟨-, members, readable⟩ := Graph.mem_closure truthful closed
  intro r isPin d reached
  exact readable d ((members d).mpr ⟨r, Std.ExtTreeSet.mem_toList.mpr isPin, reached⟩)

/-- A listing of indirect pins is of nothing else. -/
theorem listing_indirect_of_done (found : indirect w = (.done ds, v)) :
    listing .indirect w = (.done (labelled .indirect ds), v) := by
  have inspected : (current : Program Error Pins) w = (.done w.pins, w) := rfl
  rw [listing, bind_of_done inspected]
  exact (bind_of_done found).trans rfl

/-- A listing of all pins is of the recursive ones, the direct ones, and the indirect ones. -/
theorem listing_all_of_done (found : indirect w = (.done ds, v)) :
    listing .all w = (.done (labelled .recursive w.pins.recursive.toList
      ++ labelled .direct w.pins.direct.toList ++ labelled .indirect ds), v) := by
  have inspected : (current : Program Error Pins) w = (.done w.pins, w) := rfl
  rw [listing, bind_of_done inspected]
  refine (bind_of_done found).trans ?_
  show (Outcome.done (labelled .recursive w.pins.recursive.toList
    ++ labelled .direct w.pins.direct.toList ++ [] ++ labelled .indirect ds), v) = _
  rw [List.append_nil]

theorem map_fst_labelled (mode : Mode) (ds : List Digest) :
    (labelled mode ds).map Prod.fst = ds := by
  rw [labelled, List.map_map]
  exact List.map_id ds

/-- Where no node is pinned in both ways, a listing of all pins names no node twice. -/
theorem nodup_labels (apart : w.pins.Apart) (ascending : ds.Pairwise (· < ·))
    (unpinned : ∀ d ∈ ds, d ∉ w.pins.recursive ∧ d ∉ w.pins.direct) :
    ((labelled .recursive w.pins.recursive.toList ++ labelled .direct w.pins.direct.toList
      ++ labelled .indirect ds).map Prod.fst).Nodup := by
  simp only [List.map_append, map_fst_labelled]
  refine List.nodup_append.mpr
    ⟨List.nodup_append.mpr ⟨Graph.nodup_toList _, Graph.nodup_toList _, ?_⟩,
    nodup_of_ascending ascending, ?_⟩
  · rintro d isRecursive _ isDirect rfl
    exact apart d (Std.ExtTreeSet.mem_toList.mp isDirect) (Std.ExtTreeSet.mem_toList.mp isRecursive)
  · rintro d isPin _ isIndirect rfl
    obtain ⟨notRecursive, notDirect⟩ := unpinned d isIndirect
    rcases List.mem_append.mp isPin with isRecursive | isDirect
    · exact notRecursive (Std.ExtTreeSet.mem_toList.mp isRecursive)
    · exact notDirect (Std.ExtTreeSet.mem_toList.mp isDirect)

/-! ## Questions -/

/-- Where everything below the recursive pins can be read, a question about indirect pins gives an
answer, and it gives a reason just for the nodes below a recursive pin. -/
theorem classify_indirect_honest (honest : w.conduct = .honest)
    (fetchable : ∀ r ∈ w.pins.recursive, Fetchable w.store.node? r) (d : Digest) :
    ∃ reason v, classify d .indirect w = (.done reason, v) ∧
      (reason ≠ none ↔ ∃ r ∈ w.pins.recursive, Below w.store.node? r d) := by
  obtain ⟨found, v, run, finds⟩ := findRoot_honest (d := d) honest
    fun r h => fetchable r (Std.ExtTreeSet.mem_toList.mp h)
  simp only [Std.ExtTreeSet.mem_toList] at finds
  refine ⟨found.map .indirect, v, ?_, ?_⟩
  · rw [classify_indirect_eq, bind_of_done run]
    rfl
  · rw [← finds]
    cases found <;> simp

/-- Where no node is pinned in both ways and everything below the recursive pins can be read, every
question about indirect pins gives an answer, and a listing of the indirect pins is, in ascending
order, of just those nodes for which there is a reason and which have no pin of their own.  A
listing of all pins is of the recursive pins, the direct ones, and these; it names no node twice. -/
theorem listing_agrees (honest : w.conduct = .honest) (apart : w.pins.Apart)
    (fetchable : ∀ r ∈ w.pins.recursive, Fetchable w.store.node? r) :
    ∃ ds : List Digest, ds.Pairwise (· < ·) ∧
      (∀ d, ∃ reason v, classify d .indirect w = (.done reason, v) ∧
        (d ∈ ds ↔ reason ≠ none ∧ d ∉ w.pins.recursive ∧ d ∉ w.pins.direct)) ∧
      (∃ v, listing .indirect w = (.done (labelled .indirect ds), v)) ∧
      ∃ pins v, listing .all w = (.done pins, v) ∧
        pins = labelled .recursive w.pins.recursive.toList ++ labelled .direct w.pins.direct.toList
          ++ labelled .indirect ds ∧
        (pins.map Prod.fst).Nodup := by
  obtain ⟨ds, v, found, ascending, members⟩ := indirect_honest honest fetchable
  refine ⟨ds, ascending, fun d => ?_, ⟨v, listing_indirect_of_done found⟩, _, v,
    listing_all_of_done found, rfl, nodup_labels apart ascending fun d h => ((members d).mp h).2⟩
  obtain ⟨reason, v', answered, decides⟩ := classify_indirect_honest honest fetchable d
  exact ⟨reason, v', answered, (members d).trans (and_congr_left' decides.symm)⟩

/-! ### Pins below pins -/

/-- A chain of four nodes.  The first two are pinned with everything below them, the third by
itself. -/
def nestedWorld : World :=
  let node (targets : List UInt8) : Node :=
    ⟨targets.map fun t => .unnamed (Sample.repeated t), []⟩
  { World.fresh (.ofNodes [(Sample.repeated 1, node [2]), (Sample.repeated 2, node [3]),
      (Sample.repeated 3, node [4]), (Sample.repeated 4, node [])]) ∅ with
    pins := ⟨{Sample.repeated 1, Sample.repeated 2}, {Sample.repeated 3}, ∅, none⟩ }

theorem indirect_nestedWorld :
    (indirect nestedWorld).1.value? = some [Sample.repeated 4] := by
  decide +kernel

theorem apart_nestedWorld : nestedWorld.pins.Apart := by
  intro d isDirect
  rw [← Std.ExtTreeSet.mem_toList] at isDirect ⊢
  revert d
  decide +kernel

/-- The fourth node is listed as an indirect pin.  It is the only node that lies below a recursive
pin and has no pin of its own, while the second and the third also lie below a recursive pin. -/
theorem listing_agrees_nestedWorld : nestedWorld.pins.Apart ∧
    (∀ r ∈ nestedWorld.pins.recursive, Fetchable nestedWorld.store.node? r) ∧
    (∃ v, listing .indirect nestedWorld = (.done [(Sample.repeated 4, .indirect)], v)) ∧
    ∀ d, ∃ reason v, classify d .indirect nestedWorld = (.done reason, v) ∧
      (d = Sample.repeated 4 ↔
        reason ≠ none ∧ d ∉ nestedWorld.pins.recursive ∧ d ∉ nestedWorld.pins.direct) := by
  have found := done_of_value? indirect_nestedWorld
  have fetchable := fetchable_of_indirect rfl found
  obtain ⟨ds, -, members, ⟨v, listed⟩, -⟩ := listing_agrees rfl apart_nestedWorld fetchable
  have same := congrArg Prod.fst (listed.symm.trans (listing_indirect_of_done found))
  have named := congrArg (List.map Prod.fst) (Outcome.done.inj same)
  rw [map_fst_labelled, map_fst_labelled] at named
  rw [named] at members listed
  refine ⟨apart_nestedWorld, fetchable, ⟨v, listed⟩, fun d => ?_⟩
  simpa only [List.mem_singleton] using members d

end PinnedStore.Pin
