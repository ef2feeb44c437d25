import PinnedStore.Proofs.Repository.Turn

/-!
# Whether recursive pins are retained

A recursive pin asks for everything below a node to be kept.  Blocks are removed by a collection and
by a flush.  A collection looks at what lies below the recursive pins before it removes anything.  A
flush removes the nodes of the record that it has replaced, and spares the empty node, the nodes of
the new record and the pins themselves; it does not look at what lies below them.  But any node that
is stored can be linked to, and so can the nodes of a record.

So whether all that is pinned recursively can be read throughout a run comes down to the flushes in
it: it can if and only if none of them removes a node that lies below one of the recursive pins it
writes down.

* `State.Retains`: everything below the recursive pins can be fetched.
* `Turn.Severs`: the flush of a command removes a node below a recursive pin.
* `State.Settled`: what is known about a state as long as that has not happened.
* `State.retains_iff`: the one comes down to the other, over whole runs.
* `LinkingRun`: a run in which a pinned node links to the record that is replaced.
-/

namespace PinnedStore.Repository

open Program Pin

/-- The pins can be read, and so can everything below those that are recursive. -/
def State.Retains (s : State) : Prop :=
  ∀ timeout, ∃ w, openRecord timeout s.world = (.done (), w) ∧
    ∀ r ∈ w.pins.recursive, ∃ w', Graph.fetch r w = (.done (), w')

/-- A command goes through that writes pins down, and a node of the old record that lies below a
recursive pin is stale then. -/
def Turn.Severs (t : Turn) (s : State) : Prop :=
  ∃ pins, t.flushes s = some pins ∧ (∃ answer w, t.outcome s = (.done answer, w)) ∧
    ∃ d ∈ stale pins (recorded t.codec pins).internal, ∃ r ∈ pins.recursive,
      Reaches s.store.node? r d

/-! ## What a flush removes -/

section

variable {known : Set Bytes} {w w' : World} {codec : PinSet.Codec} {r d root : Digest}

/-- A graph that has no stale node in it can still be read after a flush. -/
theorem fetchable_of_committed (committed : Committed codec w w')
    (fetchable : Fetchable w.store.node? r)
    (spared : ∀ d, Reaches w.store.node? r d → d ∉ stale w.pins (recorded codec w.pins).internal) :
    Fetchable w'.store.node? r :=
  (fetchable.mono fun d reached _ => Graph.node?_mono fun _ =>
    committed.block? (spared d reached)).1

/-- A graph that has a stale node in it can not be read any more after a flush. -/
theorem not_fetchable_of_stale (distinct : Distinct known)
    (isKnown : recordBlocks codec w.pins ⊆ known) (sound : w.Sound known)
    (honest : w.conduct = .honest) (flushed : flush codec w = (.done root, w'))
    (fetchable : Fetchable w.store.node? r) (reached : Reaches w.store.node? r d)
    (isStale : d ∈ stale w.pins (recorded codec w.pins).internal) :
    ¬ Fetchable w'.store.node? r := by
  intro still
  obtain ⟨sound', ⟨committed, -⟩ | ⟨-, -, not⟩⟩ := flush_cases distinct isKnown sound
  · rw [flushed] at sound'
    obtain ⟨root', w'', flushed', gone⟩ := flush_honest distinct isKnown sound honest committed
    cases flushed.symm.trans flushed'
    have agree : ∀ x n n', w.store.node? x = some n → w'.store.node? x = some n' → n = n' := by
      intro x n n' before after
      obtain ⟨data, there, decoded⟩ := Graph.node?_eq_some.mp before
      obtain ⟨data', there', decoded'⟩ := Graph.node?_eq_some.mp after
      obtain rfl : data = data' := distinct (sound.mem_known there) (sound'.mem_known there')
        ((sound.digest_of_block? there).trans (sound'.digest_of_block? there').symm)
      exact Except.ok.inj (decoded.symm.trans decoded')
    obtain ⟨n, before⟩ := fetchable d reached
    obtain ⟨n', after⟩ := still d (still.reaches agree reached)
    obtain ⟨data, there, -⟩ := Graph.node?_eq_some.mp before
    obtain ⟨data', there', -⟩ := Graph.node?_eq_some.mp after
    exact absurd (gone d isStale data there) (by rw [ObjectStore.held_of_block? there']; nofun)
  · exact absurd flushed (not root w')

end

/-! ## What a state is like -/

/-- The store holds known blocks, each under its digest; these are the pins on record, and everything
below the recursive ones can be read. -/
structure State.Settled (known : Set Bytes) (s : State) (pins : Pins) : Prop where
  addressed : s.store.ContentAddressed
  blocks : s.store.blocks ⊆ known
  inForce : InForce s.store s.records pins
  fetchable : ∀ r ∈ pins.recursive, Fetchable s.store.node? r

variable {known : Set Bytes} {s : State} {pins : Pins} {w w' : World} {t : Turn}
  {change : Program Pin.Error Unit}

namespace State

theorem opens (addressed : s.store.ContentAddressed) (blocks : s.store.blocks ⊆ known)
    (inForce : InForce s.store s.records pins) (timeout : Nat) :
    ∃ w, openRecord timeout s.world = (.done (), w) ∧ w.pins = pins ∧ w.store = s.store ∧
      w.records = s.records ∧ w.conduct = .honest ∧ w.Sound known := by
  obtain ⟨w, opened, taken, store, records, honest⟩ :=
    openRecord_honest (w := s.world) timeout rfl inForce
  exact ⟨w, opened, taken, store, records, honest, by rw [honest]; rfl, store ▸ addressed,
    store ▸ blocks⟩

/-- Where the pins on record are these, retaining them means that everything below the recursive
ones can be read. -/
theorem retains_iff_fetchable (addressed : s.store.ContentAddressed)
    (inForce : InForce s.store s.records pins) :
    s.Retains ↔ ∀ r ∈ pins.recursive, Fetchable s.store.node? r := by
  have opens := opens addressed Set.Subset.rfl inForce
  constructor
  · intro retains r isPin
    obtain ⟨w, opened, fetched⟩ := retains 0
    obtain ⟨w₁, opened₁, taken, store, -, -, sound⟩ := opens 0
    cases opened.symm.trans opened₁
    obtain ⟨w', run⟩ := fetched r (taken ▸ isPin)
    rw [← store]
    exact Graph.fetchable_of_fetch sound.truthful run
  · intro fetchable timeout
    obtain ⟨w, opened, taken, store, -, honest, -⟩ := opens timeout
    refine ⟨w, opened, fun r isPin => (Graph.fetch_iff honest).mpr ?_⟩
    rw [store]
    exact fetchable r (taken ▸ isPin)

namespace Settled

theorem retains (settled : s.Settled known pins) : s.Retains :=
  (retains_iff_fetchable settled.addressed settled.inForce).mpr settled.fetchable

/-- As long as nothing is lost that is needed, the state is as before. -/
theorem keeps (settled : s.Settled known pins) (sound : w.Sound known)
    (records : w.records = s.records)
    (kept : ObjectStore.Keeps (pins.Needs s.store.node?) s.store w.store) :
    State.Settled known ⟨w.store, w.records⟩ pins where
  addressed := sound.addressed
  blocks := sound.blocks
  inForce := by
    rw [records]
    exact settled.inForce.keeps fun d inside => kept d (Or.inl inside)
  fetchable r isPin := ((settled.fetchable r isPin).mono fun d reached _ =>
    Graph.node?_mono (kept d (Or.inr ⟨r, isPin, reached⟩))).1

/-! ## One command -/

/-- A command that neither sets nor removes a pin. -/
theorem after_plain (settled : s.Settled known pins) (distinct : Distinct known)
    (plain : t.command.change? = none) (isKnown : ∀ data ∈ t.written s, data ∈ known) :
    (t.after s).Settled known pins ∧ ¬ t.Severs s := by
  have none : t.flushes s = none := by simp only [Turn.flushes, plain]
  obtain ⟨w, opened, taken, store, records, -, sound⟩ :=
    opens settled.addressed settled.blocks settled.inForce t.timeout
  rw [Turn.written, none] at isKnown
  have ran := Command.ensures_run t.files t.codec distinct isKnown plain sound
  rw [taken, store] at ran
  constructor
  · rw [Turn.after, Turn.outcome_eq opened]
    have kept := ran.moved.store.mono fun d isNeeded => Or.inl isNeeded
    exact settled.keeps ran.sound (ran.moved.records.trans records) (store ▸ kept)
  · rintro ⟨pins, flushed, -⟩
    cases none.symm.trans flushed

/-- A command that sets or removes a pin, if its flush is reached. -/
theorem after_flush (settled : s.Settled known pins) (distinct : Distinct known)
    (few : Pin.Countable w.pins) (isKnown : recordBlocks t.codec w.pins ⊆ known)
    (sound : w.Sound known) (honest : w.conduct = .honest) (store : w.store = s.store)
    (records : w.records = s.records) (steps : Steps s.store.node? pins w.pins)
    (flushes : t.flushes s = some w.pins) (ran : (t.outcome s).2 = (flush t.codec w).2)
    (answers : (∃ answer w', t.outcome s = (.done answer, w')) ↔
      ∃ root w', flush t.codec w = (.done root, w')) :
    (¬ t.Severs s → ∃ pins', (t.after s).Settled known pins') ∧
      (t.Severs s → ¬ (t.after s).Retains) := by
  have fetchable : ∀ r ∈ w.pins.recursive, Fetchable s.store.node? r := fun r isPin =>
    (steps.fetchable r isPin).elim (settled.fetchable r) id
  rw [Turn.after, ran]
  obtain ⟨sound', ⟨committed, done, -⟩ | ⟨-, grows, not⟩⟩ := flush_cases distinct isKnown sound
  · obtain ⟨root, w', flushed, -⟩ := flush_honest distinct isKnown sound honest committed
    have answered := answers.mpr ⟨root, w', flushed⟩
    have inForce := InForce.record done.pointer (done.record distinct isKnown few)
    rw [← store] at fetchable
    constructor
    · intro spared
      refine ⟨recorded t.codec w.pins, sound'.addressed, sound'.blocks, inForce, fun r isPin => ?_⟩
      refine fetchable_of_committed done (fetchable r isPin) fun d reached isStale => ?_
      exact spared ⟨w.pins, flushes, answered, d, isStale, r, isPin, store ▸ reached⟩
    · rintro ⟨pins', flushes', -, d, isStale, r, isPin, reached⟩ retains
      cases flushes.symm.trans flushes'
      have still := (@retains_iff_fetchable ⟨_, _⟩ _ sound'.addressed inForce).mp retains r isPin
      rw [flushed] at still
      exact not_fetchable_of_stale distinct isKnown sound honest flushed (fetchable r isPin)
        (store ▸ reached) isStale still
  · constructor
    · intro _
      have still : ObjectStore.Keeps (pins.Needs s.store.node?) s.store (flush t.codec w).2.store :=
        store ▸ grows.store.keeps
      exact ⟨pins, settled.keeps sound' (grows.records.trans records) still⟩
    · rintro ⟨_, _, answered, _⟩
      obtain ⟨root, w', flushed⟩ := answers.mp answered
      exact absurd flushed (not root w')

/-- A command that sets or removes a pin. -/
theorem after_change (settled : s.Settled known pins) (distinct : Distinct known)
    (few : ∀ pins', t.flushes s = some pins' → Pin.Countable pins')
    (changes : t.command.change? = some change) (isKnown : ∀ data ∈ t.written s, data ∈ known) :
    (¬ t.Severs s → ∃ pins', (t.after s).Settled known pins') ∧
      (t.Severs s → ¬ (t.after s).Retains) := by
  obtain ⟨w, opened, taken, store, records, honest, sound⟩ :=
    opens settled.addressed settled.blocks settled.inForce t.timeout
  have ⟨repins, sound', steps⟩ := Command.ensures_change changes sound
  rw [store, taken] at steps
  rcases changed : change w with ⟨_ | e | _, w'⟩
  · rw [changed] at repins sound'
    have flushes := Turn.flushes_of_done opened changes changed
    obtain ⟨ran, answers⟩ := Turn.outcome_of_done opened changes changed
    rw [Turn.written, flushes] at isKnown
    exact settled.after_flush distinct (few _ flushes) isKnown sound' (repins.conduct.trans honest)
      (repins.store.trans store) (repins.records.trans records) (steps changed) flushes ran answers
  all_goals
    obtain ⟨ran, none⟩ := Turn.outcome_of_not_done opened changes fun w' done =>
      nomatch changed.symm.trans done
    rw [changed] at repins sound' ran
    constructor
    · intro _
      rw [Turn.after, ran]
      refine ⟨pins, settled.keeps sound' (repins.records.trans records) ?_⟩
      rw [show w'.store = s.store from repins.store.trans store]
      exact refl s.store
    · rintro ⟨pins, flushed, -⟩
      cases none.symm.trans flushed

/-- One command keeps everything as it should be if and only if it removes nothing below a recursive
pin. -/
theorem after (settled : s.Settled known pins) (distinct : Distinct known)
    (few : ∀ pins', t.flushes s = some pins' → Pin.Countable pins')
    (isKnown : ∀ data ∈ t.written s, data ∈ known) :
    (¬ t.Severs s → ∃ pins', (t.after s).Settled known pins') ∧
      (t.Severs s → ¬ (t.after s).Retains) := by
  rcases changes : t.command.change? with _ | change
  · obtain ⟨settled', spares⟩ := settled.after_plain distinct changes isKnown
    exact ⟨fun _ => ⟨pins, settled'⟩, fun severs => absurd severs spares⟩
  · exact settled.after_change distinct few changes isKnown

/-! ## Runs -/

theorem forall_states {turns : List Turn} {P : List Turn → Prop} :
    (∀ early, early <+: t :: turns → P early) ↔
      P [] ∧ ∀ early, early <+: turns → P (t :: early) := by
  refine ⟨fun all => ⟨all [] List.nil_prefix, fun early h => all (t :: early) ?_⟩, ?_⟩
  · exact List.cons_prefix_cons.mpr ⟨rfl, h⟩
  · rintro ⟨first, later⟩ early h
    rcases early with _ | ⟨t₀, early⟩
    · exact first
    · obtain ⟨rfl, before⟩ := List.cons_prefix_cons.mp h
      exact later early before

theorem retains_run_iff {turns : List Turn} (settled : s.Settled known pins)
    (distinct : Distinct known)
    (few : ∀ early t, early ++ [t] <+: turns → ∀ pins, t.flushes (s.run early) = some pins →
      Pin.Countable pins)
    (isKnown : ∀ data ∈ s.written turns, data ∈ known) :
    (∀ early, early <+: turns → (s.run early).Retains) ↔
      ∀ early t, early ++ [t] <+: turns → ¬ t.Severs (s.run early) := by
  induction turns generalizing s pins with
  | nil =>
    refine ⟨fun _ early t h => ?_, fun _ early h => ?_⟩
    · cases early <;> cases List.prefix_nil.mp h
    · cases List.prefix_nil.mp h
      exact settled.retains
  | cons t rest ih =>
    obtain ⟨fewNow, fewLater⟩ := forall_steps.mp few
    obtain ⟨spared, severed⟩ := settled.after distinct fewNow fun data h =>
      isKnown data (List.mem_append_left _ h)
    rw [forall_states, forall_steps]
    by_cases severs : t.Severs s
    · constructor
      · rintro ⟨-, later⟩
        exact absurd (later [] List.nil_prefix) (severed severs)
      · rintro ⟨first, -⟩
        exact absurd severs first
    · obtain ⟨pins', settled'⟩ := spared severs
      have both := ih settled' fewLater fun data h => isKnown data (List.mem_append_right _ h)
      constructor
      · rintro ⟨-, later⟩
        exact ⟨severs, both.mp later⟩
      · rintro ⟨-, later⟩
        exact ⟨settled.retains, both.mpr later⟩

end Settled

/-- Throughout a run from a repository without a record, everything below the recursive pins can be
fetched if and only if no command of the run removes a node below one of them with the record it
replaces. -/
theorem retains_iff {start : State} {turns : List Turn} (addressed : start.store.ContentAddressed)
    (unset : pointer? start.records = none)
    (few : ∀ early t, early ++ [t] <+: turns → ∀ pins, t.flushes (start.run early) = some pins →
      Pin.Countable pins)
    (distinct : Distinct (start.store.blocks ∪ { data | data ∈ start.written turns })) :
    (∀ early, early <+: turns → (start.run early).Retains) ↔
      ∀ early t, early ++ [t] <+: turns → ¬ t.Severs (start.run early) := by
  have settled : start.Settled (start.store.blocks ∪ { data | data ∈ start.written turns }) .none :=
    ⟨addressed, Set.subset_union_left, .unset unset,
      fun r isPin => absurd isPin Std.ExtTreeSet.not_mem_empty⟩
  exact settled.retains_run_iff distinct few fun data h => Or.inr h

end State

/-! ## A run that loses a pinned node -/

namespace LinkingRun

/-- The codec of the settings by default. -/
def codec : PinSet.Codec := ⟨256, 8192, PinSet.Codec.standardSpread, by decide, by decide⟩

/-- One direct pin. -/
def firstPins : Pins := ⟨∅, {Node.emptyDigest}, ∅, none⟩

/-- A node that links to the root of the record of that pin. -/
def linking : Node := ⟨[.unnamed (recordRoot codec firstPins).digest], []⟩

/-- The direct pin, and a recursive one on the node that links to the record. -/
def laterPins : Pins := ⟨{linking.digest}, {Node.emptyDigest}, ∅, none⟩

/-- A command where all files are empty. -/
def turn (c : Command) : Turn := ⟨fun _ => .ok [], 5000, codec, c⟩

/-- Nodes are stored and pinned, the second of them one that links to the record of the first
pin. -/
def turns : List Turn :=
  [turn (.put [] []), turn (.pin Node.emptyDigest false), turn (.put [] linking.links),
    turn (.pin linking.digest true)]

/-- A repository in which nothing has been kept yet. -/
def start : State := ⟨.inMemory, ∅⟩

/-- The nodes of the run: those that are stored, and those of the two records. -/
def nodes : List Node :=
  Node.empty :: linking :: (recordNodes codec firstPins ++ recordNodes codec laterPins)

/-- Whether everything that is pinned recursively can be fetched. -/
def fetches (s : State) : Bool :=
  match openRecord 0 s.world with
  | (.done _, w) => w.pins.recursive.toList.all fun r => (Graph.fetch r w).1.isDone
  | _ => false

theorem fetches_of_retains (retains : s.Retains) : fetches s = true := by
  obtain ⟨w, opened, fetched⟩ := retains 0
  rw [fetches, opened]
  refine List.all_eq_true.mpr fun r isPin => ?_
  obtain ⟨w', run⟩ := fetched r (Std.ExtTreeSet.mem_toList.mp isPin)
  rw [run]
  rfl

/-- What becomes of the run.  No command writes down more than one pin of either kind. -/
theorem run_turns :
    fetches (start.run turns) = false ∧
      (∀ data ∈ start.written turns, data ∈ nodes.map Node.encode) ∧
      ∀ n < turns.length, ∀ pins ∈ turns[n]?.bind fun t => t.flushes (start.run (turns.take n)),
        pins.direct.size ≤ 1 ∧ pins.recursive.size ≤ 1 := by
  decide +kernel

theorem distinct_turns :
    Distinct (start.store.blocks ∪ { data | data ∈ start.written turns }) := by
  rw [show start.store.blocks = ∅ from ObjectStore.blocks_inMemory, Set.empty_union]
  exact distinct_of_pairwise run_turns.2.1 (by decide +kernel)

/-- A run at the end of which a recursive pin is not retained. -/
theorem not_retains :
    start.store.ContentAddressed ∧ pointer? start.records = none ∧
      Distinct (start.store.blocks ∪ { data | data ∈ start.written turns }) ∧
      ¬ (start.run turns).Retains := by
  refine ⟨ObjectStore.contentAddressed_inMemory, Std.ExtTreeMap.getElem?_empty, distinct_turns, ?_⟩
  intro retains
  exact absurd (fetches_of_retains retains) (by rw [run_turns.1]; nofun)

/-- Some command of the run removes a node below a recursive pin. -/
theorem exists_severs :
    ∃ early t, early ++ [t] <+: turns ∧ t.Severs (start.run early) := by
  by_contra spared
  have retains := (State.retains_iff ObjectStore.contentAddressed_inMemory
    Std.ExtTreeMap.getElem?_empty
    (countable_of_take (fun early (t : Turn) => t.flushes (start.run early)) run_turns.2.2)
    distinct_turns).mpr fun early t before severs => spared ⟨early, t, before, severs⟩
  exact absurd (fetches_of_retains (retains turns List.prefix_rfl)) (by rw [run_turns.1]; nofun)

end LinkingRun

end PinnedStore.Repository
