import PinnedStore.Pin.Listing
import PinnedStore.Pin.Verify
import PinnedStore.Proofs.Graph.Closure
import PinnedStore.Proofs.Storage.Listing

/-!
# What a collection keeps

A collection removes no block that is part of the pin record, that has a pin of its own, or that
lies below a recursive pin; nothing at all is removed unless all of these are known.  Listing and
verifying pins read the same nodes and remove nothing.

* `Collect.retained_done`: what is kept.
* `Collect.does_sweep`: nothing else is removed.
-/

namespace PinnedStore

open Program

variable {known : Set Bytes} {w w' : World}

namespace Collect

theorem does_reachable (roots : List Digest) : Does known World.Untouched (reachable roots) :=
  (Graph.onlyReads_closure (fun d => (Graph.onlyReads_get d).mapError) roots).does

theorem does_retained : Does known World.Untouched retained :=
  (Does.inspect _).bind fun _ => (does_reachable _).bind fun _ => (does_log _).bind fun _ => .pure _

/-- Finding out what must be kept changes nothing.  If there is an answer, then everything below the
recursive pins can be read; and what is kept is that, the direct pins, and the nodes of the
record. -/
theorem retained_done {kept : Digests} (truthful : w.conduct.lies = [])
    (h : retained w = (.done kept, w')) :
    World.Untouched w w' ∧ (∀ r ∈ w.pins.recursive, Fetchable w.store.node? r) ∧
      ∀ d, d ∈ kept ↔ (∃ r ∈ w.pins.recursive, Reaches w.store.node? r d) ∨ d ∈ w.pins.direct ∨
        d ∈ w.pins.internal := by
  obtain ⟨pins, between, inspected, h⟩ := done_of_bind h
  cases inspected
  obtain ⟨below, between', closed, h⟩ := done_of_bind h
  obtain ⟨moved, members, readable⟩ := Graph.mem_closure truthful closed
  simp only [Std.ExtTreeSet.mem_toList] at members
  cases h
  refine ⟨⟨moved.store, moved.records, moved.pins, moved.conduct⟩, fun r isPin d reached => ?_,
    fun d => ?_⟩
  · exact readable d ((members d).mpr ⟨r, isPin, reached⟩)
  · rw [Std.ExtTreeSet.mem_insertMany_list, Std.ExtTreeSet.mem_insertMany_list,
      List.contains_iff_mem, List.contains_iff_mem, Std.ExtTreeSet.mem_toList,
      Std.ExtTreeSet.mem_toList, members, or_assoc]

section Moves

variable {change : ObjectStore → ObjectStore → Prop} [IsPreorder ObjectStore change]

/-- Removing blocks keeps what removing each of them keeps. -/
theorem does_removeAll {ds : List Digest}
    (each : ∀ d ∈ ds, Does known (World.Moves change) (Blocks.remove d)) :
    Does known (World.Moves change) (removeAll ds) := by
  induction ds with
  | nil => exact .pure _
  | cons d rest ih =>
    have ih := ih fun x h => each x (List.mem_cons_of_mem _ h)
    refine (each d List.mem_cons_self).attempt.bind fun result => ?_
    cases result with
    | ok _ => exact ih
    | error f => exact (does_log _).bind fun _ => ih.bind fun _ => .pure _

/-- A sweep keeps what removing each block keeps that is not to be kept. -/
theorem does_sweep_of_remove {kept : Digests} (dryRun : Bool)
    (each : ∀ d, d ∉ kept → Does known (World.Moves change) (Blocks.remove d)) :
    Does known (World.Moves change) (sweep kept dryRun) := by
  refine Blocks.does_list.moves.bind fun blocks => ?_
  cases dryRun with
  | true => exact (Does.pure _).bind fun _ => .pure _
  | false =>
    refine (does_removeAll fun d h => each d ?_).bind fun _ => .pure _
    simpa using (List.mem_filter.mp h).2

end Moves

/-- A sweep removes nothing that is to be kept. -/
theorem does_sweep (kept : Digests) (dryRun : Bool) :
    Does known (World.Sheds (· ∉ kept)) (sweep kept dryRun) :=
  does_sweep_of_remove dryRun fun d outside =>
    (Blocks.does_remove d).mono fun _ _ sheds => sheds.mono fun _ same => same ▸ outside

end Collect

namespace Pin

theorem does_listing (q : Query) : Does known World.Untouched (listing q) := by
  have below : Does known World.Untouched indirect :=
    (Does.inspect _).bind fun _ => (Collect.does_reachable _).bind fun _ => .pure _
  refine (Does.inspect _).bind fun pins => .ite (fun _ => ?_) fun _ => ?_
  · exact below.bind fun _ => .pure _
  · exact (Does.pure _).bind fun _ => .pure _

theorem does_tell {check : Digest → Program Failure (Option Problem)}
    (does : ∀ d, Does known World.Untouched (check d)) (ds : List Digest) :
    Does known World.Untouched (tell check ds) := by
  induction ds with
  | nil => exact .pure _
  | cons d rest ih =>
    refine (does d).bind fun problem => ?_
    cases problem with
    | none => exact ih
    | some problem => exact (does_say _).bind fun _ => ih.bind fun _ => .pure _

theorem does_verify : Does known World.Untouched verify := by
  have graphs : ∀ d, Does known World.Untouched (checkGraph d) := by
    intro d
    refine (Graph.does_fetch d).attempt.bind fun result => ?_
    cases result with
    | ok _ => exact .pure _
    | error _ => exact .pure _
  have presence : ∀ problem d, Does known World.Untouched (checkPresence problem d) :=
    fun _ d => (Graph.does_has d).bind fun _ => .ite (fun _ => .pure _) fun _ => .pure _
  exact (Does.inspect _).bind fun _ => (does_tell graphs _).bind fun _ =>
    (does_tell (presence _) _).bind fun _ => (does_tell (presence _) _).bind fun _ => .pure _

end Pin

end PinnedStore
