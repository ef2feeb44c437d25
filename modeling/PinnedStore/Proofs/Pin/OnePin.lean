import PinnedStore.Proofs.Pin.Change
import PinnedStore.Sample

/-!
# One pin or nothing

Setting or removing a pin either changes the one pin that it was asked to change, or it changes
nothing.  An operation may give up at many points: because of what is pinned already, because of a
node that can not be read, or because of another reason for which the node is kept.  All of these
come before the first change, and the change itself is a single step.

Storing a node comes before pinning it; so a failure to pin it may leave the node behind, but no
pin.

Setting a pin on a node that has none is undone by removing it again.  The removal can not fail
then: a node that is pinned is known to be pinned before anything else is looked at.

* `Pin.erase_insert`, `Pin.erase_of_notMem`: sets of digests in which an element comes and goes.
* `Pin.changes_of_pinNode`: storing and pinning a node that ends without an answer.
* `Pin.pin_iff`: when a pin can be set.
* `Pin.pin_unpin`: removing a pin that has just been set.
* `Pin.unpin_iff`: when a pin can be removed.
* `Pin.one_pin_or_nothing`: what setting and removing a pin changes.
-/

namespace PinnedStore.Pin

open Program

variable {w w' : World} {d : Digest}

theorem erase_of_notMem {ds : Digests} (absent : d ∉ ds) : ds.erase d = ds := by
  refine Std.ExtTreeSet.ext_mem fun x => ?_
  rw [Std.ExtTreeSet.mem_erase, Ne, Std.compare_eq_iff_eq]
  refine and_iff_right_of_imp ?_
  rintro inside rfl
  exact absent inside

theorem erase_insert {ds : Digests} (absent : d ∉ ds) : (ds.insert d).erase d = ds := by
  refine Std.ExtTreeSet.ext_mem fun x => ?_
  rw [Std.ExtTreeSet.mem_erase, Ne, Std.compare_eq_iff_eq, Graph.mem_insert]
  constructor
  · rintro ⟨apart, rfl | inside⟩
    · exact absurd rfl apart
    · exact inside
  · intro inside
    refine ⟨?_, Or.inr inside⟩
    rintro rfl
    exact absent inside

/-- Storing and pinning a node changes no pins unless it gives an answer. -/
theorem changes_of_pinNode {node : Node} {recursive : Bool}
    (not : ∀ d w', pinNode node recursive w ≠ (.done d, w')) :
    World.Changes w (pinNode node recursive w).2 := by
  have stored := Blocks.keepsTo_put node.encode w
  rw [pinNode, bind_apply, mapError] at not ⊢
  rcases run : Graph.add node w with ⟨d | f | _, between⟩
  · have added : World.Changes w between := (Blocks.keepsTo_put node.encode).leaves run
    rw [run] at not
    dsimp only at not ⊢
    have failed : ∀ a w', pin d recursive between ≠ (.done a, w') := by
      intro a w' pinned
      exact not d w' (bind_of_done pinned)
    have untouched := allOrNothing_pin d recursive between failed
    rw [bind_apply]
    rcases pinned : pin d recursive between with ⟨_ | e | _, w'⟩
    · exact absurd pinned (failed () w')
    all_goals
      rw [pinned] at untouched
      exact IsTrans.trans _ _ _ added untouched.moves
  · exact (Blocks.keepsTo_put node.encode).leaves run
  · exact (Blocks.keepsTo_put node.encode).leaves run

/-- Where storage is honest, setting a recursive pin fails only on what can not be read with
everything below it and on nodes of the record other than the empty one, and setting a direct pin
only on what can not be read and what has a recursive pin. -/
theorem pin_iff (honest : w.conduct = .honest) {recursive : Bool} :
    (∃ w', pin d recursive w = (.done (), w')) ↔
      if recursive then d ∈ w.pins.recursive ∨
        (Fetchable w.store.node? d ∧ (d ∈ w.pins.internal → d = Node.emptyDigest))
      else d ∉ w.pins.recursive ∧ ∃ n, w.store.node? d = some n := by
  have truthful := World.truthful_of_honest honest
  have inspected : (current : Program Error Pins) w = (.done w.pins, w) := rfl
  cases recursive with
  | true =>
    by_cases isRecursive : d ∈ w.pins.recursive
    · exact iff_of_true ⟨w, pinRecursive_again isRecursive⟩ (Or.inl isRecursive)
    constructor
    · rintro ⟨w', run⟩
      obtain ⟨fetchable, free, -⟩ := pinRecursive_done truthful isRecursive run
      exact Or.inr ⟨fetchable, free⟩
    · rintro (isRecursive' | ⟨fetchable, free⟩)
      · exact absurd isRecursive' isRecursive
      have notRecord : ¬ (d ≠ Node.emptyDigest && d ∈ w.pins.internal) = true := by
        simpa using fun named inside => named (free inside)
      obtain ⟨between, fetched⟩ := (Graph.fetch_iff honest).mpr fetchable
      rw [pin, if_pos rfl, pinRecursive, bind_of_done inspected, if_neg isRecursive,
        if_neg notRecord,
        bind_of_done (mapError_of_done fetched)]
      dsimp only
      split <;> exact ⟨_, rfl⟩
  | false =>
    constructor
    · rintro ⟨w', run⟩
      obtain ⟨there, free, -⟩ := pinDirect_done truthful run
      exact ⟨free, there⟩
    · rintro ⟨free, n, there⟩
      rw [pin, if_neg Bool.false_ne_true, pinDirect, bind_of_done inspected, if_neg free, fetchNode,
        bind_of_done (mapError_of_done (Graph.get_honest honest there))]
      exact ⟨_, rfl⟩

/-- A pin that has been set on a node without any can be removed, and then everything is as it
was. -/
theorem pin_unpin (truthful : w.conduct.lies = []) {recursive : Bool} (fresh : d ∉ w.pins.recursive)
    (notDirect : d ∉ w.pins.direct) (h : pin d recursive w = (.done (), w')) :
    ∃ w'', unpin d true w' = (.done (), w'') ∧ World.Repins w w'' ∧ w''.pins = w.pins := by
  cases recursive with
  | true =>
    obtain ⟨-, -, repins, pins⟩ := pinRecursive_done truthful fresh h
    have isRecursive : d ∈ w'.pins.recursive := by
      rw [pins]
      exact Graph.mem_insert.mpr (Or.inl rfl)
    obtain ⟨w'', run⟩ : ∃ w'', unpin d true w' = (.done (), w'') :=
      ⟨_, (unpin_of_recursive isRecursive true).trans rfl⟩
    rcases unpin_done run with ⟨-, -, repins', pins'⟩ | ⟨-, free, -⟩
    · refine ⟨w'', run, IsTrans.trans _ _ _ repins repins', ?_⟩
      rw [pins', pins, erase_insert fresh, erase_of_notMem notDirect]
    · exact absurd isRecursive free
  | false =>
    obtain ⟨-, -, repins, pins⟩ := pinDirect_done truthful h
    have isDirect : d ∈ w'.pins.direct := by
      rw [pins]
      exact Graph.mem_insert.mpr (Or.inl rfl)
    have free : d ∉ w'.pins.recursive := by
      rw [pins]
      exact fresh
    obtain ⟨w'', run⟩ : ∃ w'', unpin d true w' = (.done (), w'') :=
      ⟨_, (unpin_of_direct free isDirect true).trans rfl⟩
    rcases unpin_done run with ⟨isRecursive, -⟩ | ⟨-, -, repins', pins'⟩
    · exact absurd isRecursive free
    · refine ⟨w'', run, IsTrans.trans _ _ _ repins repins', ?_⟩
      rw [pins', pins, erase_insert notDirect]

/-- A pin that is removed is there, and the recursive one is removed where that is asked for. -/
theorem unpin_iff {recursive : Bool} : (∃ w', unpin d recursive w = (.done (), w')) ↔
    (d ∈ w.pins.recursive ∧ recursive = true) ∨ (d ∈ w.pins.direct ∧ d ∉ w.pins.recursive) := by
  constructor
  · rintro ⟨w', run⟩
    rcases unpin_done run with ⟨isRecursive, asked, -⟩ | ⟨isDirect, free, -⟩
    · exact Or.inl ⟨isRecursive, asked⟩
    · exact Or.inr ⟨isDirect, free⟩
  · rintro (⟨isRecursive, rfl⟩ | ⟨isDirect, free⟩)
    · exact ⟨_, (unpin_of_recursive isRecursive true).trans rfl⟩
    · exact ⟨_, (unpin_of_direct free isDirect recursive).trans rfl⟩

/-- Setting, removing, or storing and setting a pin changes no pins unless it gives an answer.  A
pin that is set is set on what can be read, and a recursive one on no node of the record but the
empty one; then nothing else has changed, but that a recursive pin has taken the place of a direct
one.  A pin can be removed if and only if it is there, and the recursive one only where that is
asked for; then nothing else has changed.  Removing a pin that has just been set on a node without
any brings back what was there. -/
theorem one_pin_or_nothing (truthful : w.conduct.lies = []) (d : Digest) :
    (∀ recursive, (∀ w', pin d recursive w ≠ (.done (), w')) →
      World.Untouched w (pin d recursive w).2) ∧
    (∀ recursive, (∀ w', unpin d recursive w ≠ (.done (), w')) →
      World.Untouched w (unpin d recursive w).2) ∧
    (∀ node recursive, (∀ d w', pinNode node recursive w ≠ (.done d, w')) →
      (pinNode node recursive w).2.pins = w.pins) ∧
    (∀ w', pin d true w = (.done (), w') → d ∉ w.pins.recursive →
      Fetchable w.store.node? d ∧ (d ∈ w.pins.internal → d = Node.emptyDigest) ∧
        World.Repins w w' ∧ w'.pins = { w.pins with
          recursive := w.pins.recursive.insert d, direct := w.pins.direct.erase d }) ∧
    (∀ w', pin d false w = (.done (), w') →
      (∃ n, w.store.node? d = some n) ∧ d ∉ w.pins.recursive ∧
        World.Repins w w' ∧ w'.pins = { w.pins with direct := w.pins.direct.insert d }) ∧
    (∀ recursive, (∃ w', unpin d recursive w = (.done (), w')) ↔
      (d ∈ w.pins.recursive ∧ recursive = true) ∨ (d ∈ w.pins.direct ∧ d ∉ w.pins.recursive)) ∧
    (∀ recursive w', unpin d recursive w = (.done (), w') →
      World.Repins w w' ∧ w'.pins = if d ∈ w.pins.recursive
        then { w.pins with recursive := w.pins.recursive.erase d }
        else { w.pins with direct := w.pins.direct.erase d }) ∧
    (∀ recursive w', d ∉ w.pins.recursive → d ∉ w.pins.direct → pin d recursive w = (.done (), w') →
      ∃ w'', unpin d true w' = (.done (), w'') ∧ World.Repins w w'' ∧ w''.pins = w.pins) := by
  refine ⟨fun recursive not => allOrNothing_pin d recursive w fun _ => not,
    fun recursive not => allOrNothing_unpin d recursive w fun _ => not,
    fun node recursive not => (changes_of_pinNode not).pins,
    fun w' run fresh => pinRecursive_done truthful fresh run,
    fun w' run => pinDirect_done truthful run,
    fun recursive => unpin_iff, fun recursive w' run => ?_,
    fun recursive w' fresh notDirect run => pin_unpin truthful fresh notDirect run⟩
  rcases unpin_done run with ⟨isRecursive, -, repins, pins⟩ | ⟨-, free, repins, pins⟩
  · rw [if_pos isRecursive]
    exact ⟨repins, pins⟩
  · rw [if_neg free]
    exact ⟨repins, pins⟩

/-! ### A pin that comes and goes -/

/-- Two nodes, the first of which leads to the second, which is pinned by itself. -/
def pairWorld : World :=
  { World.fresh (.ofNodes [(Sample.repeated 1, ⟨[.unnamed (Sample.repeated 2)], []⟩),
      (Sample.repeated 2, .empty)]) ∅ with
    pins := ⟨∅, {Sample.repeated 2}, ∅, none⟩ }

theorem isDone_pin_pairWorld : (pin (Sample.repeated 1) true pairWorld).1.isDone = true := by
  decide +kernel

/-- A recursive pin that is set and removed again. -/
theorem one_pin_or_nothing_pairWorld : ∃ w' w'',
    pin (Sample.repeated 1) true pairWorld = (.done (), w') ∧
    Sample.repeated 1 ∈ w'.pins.recursive ∧
    unpin (Sample.repeated 1) true w' = (.done (), w'') ∧ w''.pins = pairWorld.pins := by
  obtain ⟨_, w', run⟩ := exists_done isDone_pin_pairWorld
  have truthful : pairWorld.conduct.lies = [] := rfl
  have fresh : Sample.repeated 1 ∉ pairWorld.pins.recursive := by decide
  have notDirect : Sample.repeated 1 ∉ pairWorld.pins.direct := by decide
  obtain ⟨-, -, -, setRecursive, -, -, -, comesAndGoes⟩ :=
    one_pin_or_nothing truthful (Sample.repeated 1)
  obtain ⟨-, -, -, pins⟩ := setRecursive w' run fresh
  obtain ⟨w'', removed, -, same⟩ := comesAndGoes true w' fresh notDirect run
  refine ⟨w', w'', run, ?_, removed, same⟩
  rw [pins]
  exact Graph.mem_insert.mpr (Or.inl rfl)

end PinnedStore.Pin
