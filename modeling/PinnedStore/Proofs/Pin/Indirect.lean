import PinnedStore.Proofs.Pin.Walk
import PinnedStore.Sample

/-!
# The root that keeps a node

A question about indirect pins alone is answered by a search below one recursive pin after the
other, in the order of their bytes.  It ends at the first of them that the node lies below, and
passes over a pin only after everything below that pin has been read.  So the answer names the least
of all the pins that keep the node, and there is no answer only if none of them does.

The links may lead round in circles, and then a pin may keep itself.

* `Pin.mem_early_of_lt`: what comes before a digest in a list of digests.
* `Pin.classify_indirect`: how a question about indirect pins ends.
-/

namespace PinnedStore.Pin

open Program

variable {w : World} {r r' : Digest}

/-- Digests are listed in their order. -/
theorem mem_early_of_lt {ds : Digests} {early late : List Digest}
    (split : ds.toList = early ++ r :: late)
    (inside : r' ∈ ds) (less : r' < r) : r' ∈ early := by
  have ordered := ds.ordered_toList
  rw [split] at ordered
  have later := (List.pairwise_cons.mp (List.pairwise_append.mp ordered).2.1).1
  rw [← Std.ExtTreeSet.mem_toList, split] at inside
  rcases List.mem_append.mp inside with before | after
  · exact before
  have below : compare r' r = .lt := less
  rcases List.mem_cons.mp after with rfl | after
  · cases below.symm.trans Std.compare_self
  · exact absurd (later r' after) (Std.OrientedCmp.not_lt_of_lt below)

/-- A question about indirect pins changes nothing, and it ends unless the storage stops it.  If it
finds a reason, then that names the least recursive pin below which the node lies; if it finds none,
the node lies below no recursive pin.  It fails only because of a node that can be reached from a
recursive pin and can not be read. -/
theorem classify_indirect (truthful : w.conduct.lies = []) (d : Digest) :
    World.Untouched w (classify d .indirect w).2 ∧
    (¬ w.conduct.Stops → (classify d .indirect w).1 ≠ .halted) ∧
    (∀ reason, (classify d .indirect w).1 = .done (some reason) →
      ∃ r ∈ w.pins.recursive, reason = .indirect r ∧ Below w.store.node? r d ∧
        ∀ r' ∈ w.pins.recursive, r' < r → ¬ Below w.store.node? r' d) ∧
    ((classify d .indirect w).1 = .done none →
      ∀ r ∈ w.pins.recursive, ¬ Below w.store.node? r d) ∧
    (∀ e, (classify d .indirect w).1 = .failed e →
      ∃ r ∈ w.pins.recursive, ∃ x f, Reaches w.store.node? r x ∧ e = .fetch f ∧ Graph.Denies w x f ∧
        (w.conduct = .honest → w.store.node? x = none)) := by
  have search := search_findRoot truthful (refl w) d w.pins.recursive.toList
  refine ⟨onlyReads_classify d .indirect w, ?_⟩
  rw [classify_indirect_eq, bind_apply]
  rcases run : findRoot d w.pins.recursive.toList w with ⟨outcome, between⟩
  rw [run] at search
  cases search with
  | @found early late r split apart below =>
    have inside : r ∈ w.pins.recursive := by
      rw [← Std.ExtTreeSet.mem_toList, split]
      exact List.mem_append_right _ List.mem_cons_self
    refine ⟨fun _ => nofun, ?_, nofun, nofun⟩
    rintro _ ⟨⟩
    exact ⟨r, inside, rfl, below, fun r' isPin less => apart r' (mem_early_of_lt split isPin less)⟩
  | absent apart =>
    refine ⟨fun _ => nofun, nofun, fun _ r isPin => ?_, nofun⟩
    exact apart r (Std.ExtTreeSet.mem_toList.mpr isPin)
  | @stuck r x f isRoot reached denied =>
    refine ⟨fun _ => nofun, nofun, nofun, ?_⟩
    rintro _ ⟨⟩
    exact ⟨r, Std.ExtTreeSet.mem_toList.mp isRoot, x, f, reached, rfl, denied, denied.absent⟩
  | stopped stops => exact ⟨fun not => absurd stops not, nofun, nofun, nofun⟩

/-! ### Links in a circle -/

/-- Two nodes in a circle, and a node that leads into it, with the last and one of the others
pinned. -/
def ringWorld : World :=
  let node (target : UInt8) : Node := ⟨[.unnamed (Sample.repeated target)], []⟩
  { World.fresh (.ofNodes [(Sample.repeated 1, node 2), (Sample.repeated 2, node 1),
      (Sample.repeated 3, node 1)]) ∅ with
    pins := ⟨{Sample.repeated 1, Sample.repeated 3}, ∅, ∅, none⟩ }

theorem truthful_ringWorld : ringWorld.conduct.lies = [] := rfl

theorem answer_ringWorld : (classify (Sample.repeated 1) .indirect ringWorld).1
    = .done (some (.indirect (Sample.repeated 1))) := by
  decide +kernel

/-- A pin in a circle keeps itself, although a larger pin keeps it too. -/
theorem classify_indirect_ringWorld : (classify (Sample.repeated 1) .indirect ringWorld).1
      = .done (some (.indirect (Sample.repeated 1))) ∧
    Below ringWorld.store.node? (Sample.repeated 1) (Sample.repeated 1) := by
  obtain ⟨-, -, finds, -⟩ := classify_indirect truthful_ringWorld (Sample.repeated 1)
  obtain ⟨r, -, same, below, -⟩ := finds _ answer_ringWorld
  cases same
  exact ⟨answer_ringWorld, below⟩

end PinnedStore.Pin
