import PinnedStore.Proofs.Graph.Closure
import PinnedStore.Proofs.Pin.Walk

/-!
# What setting and removing a pin does

Setting or removing a pin reads nodes and changes the pins held in memory, by one at most; the
storage and the nodes of the record are left as they are.  What is pinned by it can be read at that
moment, and what is pinned recursively can be read with everything below it.

* `World.Repins`: nothing but the pins that were asked for has changed.
* `Pin.Edits`: what setting or removing a pin makes of the pins.
* `Pin.pinRecursive_done`, `Pin.pinDirect_done`, `Pin.unpin_done`: what an answer says.
* `Pin.allOrNothing_pin`, `Pin.allOrNothing_unpin`: if there is none, nothing has changed.
* `Pin.edits_pin`, `Pin.edits_unpin`: setting and removing a pin, whatever becomes of it.
* `Pin.Steps`, `Pin.Edits.steps`: what has been pinned can be read.
-/

namespace PinnedStore

open Program

/-- Nothing has changed but the pins that were asked for. -/
structure World.Repins (w w' : World) : Prop where
  store : w'.store = w.store
  records : w'.records = w.records
  conduct : w'.conduct = w.conduct
  internal : w'.pins.internal = w.pins.internal

namespace World.Repins

variable {w w' : World}

instance : IsPreorder World World.Repins where
  refl _ := ⟨rfl, rfl, rfl, rfl⟩
  trans _ _ _ first second := ⟨second.store.trans first.store, second.records.trans first.records,
    second.conduct.trans first.conduct, second.internal.trans first.internal⟩

theorem of_untouched (h : Untouched w w') : Repins w w' :=
  ⟨h.store.symm, h.records, h.conduct, by rw [h.pins]⟩

theorem sound {known : Set Bytes} (h : Repins w w') (sound : w.Sound known) : w'.Sound known := by
  constructor
  · rw [h.conduct]
    exact sound.truthful
  · rw [h.store]
    exact sound.addressed
  · rw [h.store]
    exact sound.blocks

end World.Repins

namespace Pin

variable {known : Set Bytes} {w w' : World} {node? : Digest → Option Node} {pins pins' : Pins}
  {d : Digest}

/-! ## What becomes of the pins -/

/-- What setting or removing a pin makes of the pins.  A recursive pin takes the place of a direct
one, and a direct pin is only set where there is no recursive one.  What is pinned can be read, and
if it is pinned recursively then so can everything below it. -/
inductive Edits (node? : Digest → Option Node) (pins : Pins) : Pins → Prop
  | same : Edits node? pins pins
  | setRecursive {d : Digest} (fetchable : Fetchable node? d) :
    Edits node? pins
      { pins with recursive := pins.recursive.insert d, direct := pins.direct.erase d }
  | setDirect {d : Digest} {n : Node} (free : d ∉ pins.recursive) (there : node? d = some n) :
    Edits node? pins { pins with direct := pins.direct.insert d }
  | removeRecursive (d : Digest) :
    Edits node? pins { pins with recursive := pins.recursive.erase d }
  | removeDirect (d : Digest) :
    Edits node? pins { pins with direct := pins.direct.erase d }

theorem Edits.internal (edits : Edits node? pins pins') : pins'.internal = pins.internal := by
  cases edits <;> rfl

/-! ## Runs that give an answer -/

/-- A change of the pins that is logged, after a run that has changed nothing. -/
theorem changePins_log_done {before : World} {change : Pins → Pins} {e : Log.Event}
    (untouched : World.Untouched before w)
    (internal : (change before.pins).internal = before.pins.internal)
    (h : (changePins change >>= fun _ => log e : Program Error Unit) w = (.done (), w')) :
    World.Repins before w' ∧ w'.pins = change before.pins := by
  cases h
  refine ⟨⟨untouched.store.symm, untouched.records, untouched.conduct, ?_⟩,
    congrArg change untouched.pins⟩
  exact (congrArg (fun pins => (change pins).internal) untouched.pins).trans internal

/-- What is pinned with everything below it can be read with everything below it, and is no node of
the record but for the empty node. -/
theorem pinRecursive_done (truthful : w.conduct.lies = []) (fresh : d ∉ w.pins.recursive)
    (h : pinRecursive d w = (.done (), w')) :
    Fetchable w.store.node? d ∧ (d ∈ w.pins.internal → d = Node.emptyDigest) ∧ World.Repins w w' ∧
      w'.pins = { w.pins with
        recursive := w.pins.recursive.insert d, direct := w.pins.direct.erase d } := by
  obtain ⟨_, _, inspected, h⟩ := done_of_bind h
  cases inspected
  rw [if_neg fresh] at h
  split at h
  · cases h
  next free =>
    obtain ⟨_, between, fetched, h⟩ := done_of_bind h
    have untouched := (Graph.onlyReads_fetch d).mapError.leaves fetched
    have fetchable := Graph.fetchable_of_fetch truthful (done_of_mapError fetched)
    refine ⟨fetchable, fun inside => ?_, ?_⟩
    · by_contra named
      simp [named, inside] at free
    dsimp only at h
    split at h
    · obtain ⟨_, logged, noted, h⟩ := done_of_bind h
      have same := (onlyReads_log _).leaves noted
      exact changePins_log_done (IsTrans.trans _ _ _ untouched same) rfl h
    · exact changePins_log_done untouched rfl h

/-- What is pinned by itself can be read, and is not pinned with everything below it. -/
theorem pinDirect_done (truthful : w.conduct.lies = []) (h : pinDirect d w = (.done (), w')) :
    (∃ n, w.store.node? d = some n) ∧ d ∉ w.pins.recursive ∧ World.Repins w w' ∧
      w'.pins = { w.pins with direct := w.pins.direct.insert d } := by
  obtain ⟨_, _, inspected, h⟩ := done_of_bind h
  cases inspected
  split at h
  · cases h
  next free =>
    obtain ⟨n, between, fetched, h⟩ := done_of_bind h
    obtain ⟨untouched, there⟩ := Graph.get_done truthful (done_of_mapError fetched)
    exact ⟨⟨n, there⟩, free, changePins_log_done untouched rfl h⟩

theorem pinRecursive_again (h : d ∈ w.pins.recursive) : pinRecursive d w = (.done (), w) := by
  have inspected : (current : Program Error Pins) w = (.done w.pins, w) := rfl
  rw [pinRecursive, bind_of_done inspected, if_pos h]
  rfl

/-- A recursive pin is removed where that is asked for. -/
theorem unpin_of_recursive (isRecursive : d ∈ w.pins.recursive) (recursive : Bool) :
    unpin d recursive w = if recursive then
        (changePins (fun pins => { pins with recursive := pins.recursive.erase d }) >>=
          fun _ => log (.unpinnedRecursive d)) w
      else (.failed (.recursive d), w) := by
  have classified : classify d .all w = (.done (some .recursive), w) := by
    rw [classify_all, if_pos isRecursive, pure_apply]
  rw [unpin, bind_of_done classified]
  cases recursive <;> rfl

/-- A direct pin is removed unless there is a recursive one. -/
theorem unpin_of_direct (free : d ∉ w.pins.recursive) (isDirect : d ∈ w.pins.direct)
    (recursive : Bool) : unpin d recursive w =
      (changePins (fun pins => { pins with direct := pins.direct.erase d }) >>=
        fun _ => log (.unpinnedDirect d)) w := by
  have classified : classify d .all w = (.done (some .direct), w) := by
    rw [classify_all, if_neg free, if_pos isDirect, pure_apply]
  rw [unpin, bind_of_done classified]

/-- There is nothing else to remove. -/
theorem unpin_ne_done (free : d ∉ w.pins.recursive) (notDirect : d ∉ w.pins.direct)
    (recursive : Bool) : unpin d recursive w ≠ (.done (), w') := by
  intro h
  obtain ⟨reason, between, classified, h⟩ := done_of_bind h
  rw [classify_all, if_neg free, if_neg notDirect] at classified
  split at classified
  · cases classified
    cases h
  · obtain ⟨root, _, -, answered⟩ := done_of_bind classified
    cases answered
    cases root with
    | none => cases h
    | some root => cases h

theorem unpin_done {recursive : Bool} (h : unpin d recursive w = (.done (), w')) :
    (d ∈ w.pins.recursive ∧ recursive = true ∧ World.Repins w w' ∧
        w'.pins = { w.pins with recursive := w.pins.recursive.erase d }) ∨
      (d ∈ w.pins.direct ∧ d ∉ w.pins.recursive ∧ World.Repins w w' ∧
        w'.pins = { w.pins with direct := w.pins.direct.erase d }) := by
  by_cases isRecursive : d ∈ w.pins.recursive
  · rw [unpin_of_recursive isRecursive] at h
    cases recursive with
    | true => exact Or.inl ⟨isRecursive, rfl, changePins_log_done (refl w) rfl h⟩
    | false => cases h
  · by_cases isDirect : d ∈ w.pins.direct
    · rw [unpin_of_direct isRecursive isDirect] at h
      exact Or.inr ⟨isDirect, isRecursive, changePins_log_done (refl w) rfl h⟩
    · exact absurd h (unpin_ne_done isRecursive isDirect recursive)

/-! ## Runs that give no answer -/

theorem allOrNothing_changePins_log (change : Pins → Pins) (e : Log.Event) :
    AllOrNothing (changePins change >>= fun _ => log e : Program Error Unit) :=
  .of_done fun _ => ⟨_, _, rfl⟩

theorem allOrNothing_pin (d : Digest) (recursive : Bool) : AllOrNothing (pin d recursive) := by
  cases recursive with
  | true =>
    refine .bind (.inspect _) fun pins => ?_
    split
    · exact .of_onlyReads (.pure _)
    split
    · exact .of_onlyReads (.fail _)
    refine .bind (Graph.onlyReads_fetch d).mapError fun _ => ?_
    dsimp only
    split
    · exact .bind (onlyReads_log _) fun _ => allOrNothing_changePins_log _ _
    · exact allOrNothing_changePins_log _ _
  | false =>
    refine .bind (.inspect _) fun pins => ?_
    split
    · exact .of_onlyReads (.fail _)
    · exact .bind (Graph.onlyReads_get d).mapError fun _ => allOrNothing_changePins_log _ _

theorem allOrNothing_unpin (d : Digest) (recursive : Bool) : AllOrNothing (unpin d recursive) := by
  refine .bind (onlyReads_classify d .all) fun reason => ?_
  rcases reason with _ | ⟨_ | _ | _ | root⟩
  · exact .of_onlyReads (.fail _)
  · cases recursive with
    | true => exact allOrNothing_changePins_log _ _
    | false => exact .of_onlyReads (.fail _)
  · exact allOrNothing_changePins_log _ _
  · exact .of_onlyReads (.fail _)
  · exact .of_onlyReads (.fail _)

/-! ## Any run -/

/-- Whatever becomes of a program, the pins are as an answer of it would leave them, or as they
were. -/
theorem ensures_edits {p : Program Error Unit} (allOrNothing : AllOrNothing p)
    (sound : w.Sound known)
    (edits : ∀ {w'}, p w = (.done (), w') → World.Repins w w' ∧
      Edits w.store.node? w.pins w'.pins) :
    Ensures known World.Repins w p fun _ w' => Edits w.store.node? w.pins w'.pins := by
  have repins : World.Repins w (p w).2 := by
    by_cases done : ∃ w', p w = (.done (), w')
    · obtain ⟨w', run⟩ := done
      rw [run]
      exact (edits run).1
    · exact .of_untouched (allOrNothing w fun _ w' run => done ⟨w', run⟩)
  exact ⟨repins, repins.sound sound, fun h => (edits h).2⟩

/-- Setting a pin. -/
theorem edits_pin (d : Digest) (recursive : Bool) (sound : w.Sound known) :
    Ensures known World.Repins w (pin d recursive) fun _ w' =>
      Edits w.store.node? w.pins w'.pins := by
  refine ensures_edits (allOrNothing_pin d recursive) sound fun {w'} h => ?_
  cases recursive with
  | true =>
    by_cases already : d ∈ w.pins.recursive
    · cases (pinRecursive_again already).symm.trans h
      exact ⟨refl w, .same⟩
    · obtain ⟨fetchable, -, repins, pins⟩ := pinRecursive_done sound.truthful already h
      exact ⟨repins, pins ▸ .setRecursive fetchable⟩
  | false =>
    obtain ⟨⟨n, there⟩, free, repins, pins⟩ := pinDirect_done sound.truthful h
    exact ⟨repins, pins ▸ .setDirect free there⟩

/-- Removing a pin. -/
theorem edits_unpin (d : Digest) (recursive : Bool) (sound : w.Sound known) :
    Ensures known World.Repins w (unpin d recursive) fun _ w' =>
      Edits w.store.node? w.pins w'.pins := by
  refine ensures_edits (allOrNothing_unpin d recursive) sound fun {w'} h => ?_
  rcases unpin_done h with ⟨-, -, repins, pins⟩ | ⟨-, -, repins, pins⟩
  · exact ⟨repins, pins ▸ .removeRecursive d⟩
  · exact ⟨repins, pins ▸ .removeDirect d⟩

/-- Whatever becomes of the change of a pin, the pins are as it makes them, or as they were. -/
theorem edits_always {p : Program Error Unit}
    (ensures : Ensures known World.Repins w p fun _ w' => Edits w.store.node? w.pins w'.pins)
    (allOrNothing : AllOrNothing p) : Edits w.store.node? w.pins (p w).2.pins := by
  by_cases done : ∃ w', p w = (.done (), w')
  · obtain ⟨w', run⟩ := done
    rw [run]
    exact ensures.promise run
  · rw [(allOrNothing w fun _ w' run => done ⟨w', run⟩).pins]
    exact .same

/-- What is left by storing a node and pinning it: the node may have been stored, and then a pin may
have been set. -/
theorem pinNode_leaves (node : Node) (recursive : Bool) (w : World) :
    (pinNode node recursive w).2 = (Graph.add node w).2 ∨
      ∃ d, (pinNode node recursive w).2 = (pin d recursive (Graph.add node w).2).2 := by
  rw [pinNode, bind_apply, mapError]
  rcases Graph.add node w with ⟨d | f | _, between⟩
  · refine Or.inr ⟨d, ?_⟩
    dsimp only
    rw [bind_apply]
    rcases pin d recursive between with ⟨_ | e | _, w'⟩ <;> rfl
  · exact Or.inl rfl
  · exact Or.inl rfl

/-! ## What has been pinned can be read -/

/-- What has been pinned can be read, and if it has been pinned recursively then so can everything
below it. -/
structure Steps (node? : Digest → Option Node) (pins pins' : Pins) : Prop where
  readable : ∀ d ∈ pins'.direct, d ∈ pins.direct ∨ ∃ n, node? d = some n
  fetchable : ∀ r ∈ pins'.recursive, r ∈ pins.recursive ∨ Fetchable node? r

theorem Edits.steps (edits : Edits node? pins pins') : Steps node? pins pins' := by
  have readable : ∀ d ∈ pins.direct, d ∈ pins.direct ∨ ∃ n, node? d = some n := fun _ h => .inl h
  have fetchable : ∀ r ∈ pins.recursive, r ∈ pins.recursive ∨ Fetchable node? r := fun _ h => .inl h
  cases edits with
  | same => exact ⟨readable, fetchable⟩
  | setRecursive isFetchable =>
    refine ⟨fun x h => Or.inl (Std.ExtTreeSet.mem_of_mem_erase h), fun r h => ?_⟩
    rcases Graph.mem_insert.mp h with rfl | before
    · exact Or.inr isFetchable
    · exact Or.inl before
  | setDirect _ there =>
    refine ⟨fun x h => ?_, fetchable⟩
    rcases Graph.mem_insert.mp h with rfl | before
    · exact Or.inr ⟨_, there⟩
    · exact Or.inl before
  | removeRecursive d => exact ⟨readable, fun r h => Or.inl (Std.ExtTreeSet.mem_of_mem_erase h)⟩
  | removeDirect d => exact ⟨fun x h => Or.inl (Std.ExtTreeSet.mem_of_mem_erase h), fetchable⟩

theorem ensures_pin (d : Digest) (recursive : Bool) (sound : w.Sound known) :
    Ensures known World.Repins w (pin d recursive) fun _ w' =>
      Steps w.store.node? w.pins w'.pins :=
  (edits_pin d recursive sound).mono fun _ _ _ _ => Edits.steps

theorem ensures_unpin (d : Digest) (recursive : Bool) (sound : w.Sound known) :
    Ensures known World.Repins w (unpin d recursive) fun _ w' =>
      Steps w.store.node? w.pins w'.pins :=
  (edits_unpin d recursive sound).mono fun _ _ _ _ => Edits.steps

end Pin

end PinnedStore
