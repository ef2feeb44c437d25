import PinnedStore.Proofs.Pin.Change
import PinnedStore.Proofs.Pin.InForce
import PinnedStore.Proofs.Pin.Retry

/-!
# What old records leave behind

Every flush writes a new record, and the old one is of no use any more.  Its nodes are removed,
apart from those that the new record is made of as well, from the empty node, and from those that
are pinned themselves.  This is no more than what the pinner takes the old record to consist of.  So
it matters that this is what the record does consist of, also after the pinner has been opened anew
and has read the record: a node that was left out of the count, in writing or in reading, would stay
for ever.

Here a pinner is followed from the time that the storage is empty, while a caller adds nodes of its
own.  Throughout, the pinner counts just the nodes of the record that is in force, and every block
is one of these or has another reason to be there.

* `Request`, `run`: what is asked of a pinner, and what is left when all of it has been done.
* `Wanted`: the reasons for a block to be there besides the record in force.
* `Accounted`: every block is a node of the record in force, or has another reason to be there.
* `Accounted.perform`, `Accounted.run`: one request keeps it so, and so do any number.
* `no_leftovers`: what is there after a flush.
-/

namespace PinnedStore.Pin

open Program PinSet ObjectStore

/-! ## Requests -/

/-- What a caller can do with a store of nodes and its pinner. -/
inductive Request where
  /-- Store a node of its own. -/
  | add (node : Node)
  | pin (d : Digest) (recursive : Bool)
  | pinNode (node : Node) (recursive : Bool)
  | unpin (d : Digest) (recursive : Bool)
  | flush (codec : Codec)
  /-- Open the pinner anew from the record in force. -/
  | load (timeout : Nat)
  /-- The same, but start without pins where there is no record. -/
  | reopen (timeout : Nat)

namespace Request

/-- What a request leaves, whether or not it could be fulfilled. -/
def perform (w : World) : Request → World
  | .add node => (Graph.add node w).2
  | .pin d recursive => (Pin.pin d recursive w).2
  | .pinNode node recursive => (Pin.pinNode node recursive w).2
  | .unpin d recursive => (Pin.unpin d recursive w).2
  | .flush codec => (Pin.flush codec w).2
  | .load timeout => (Pin.load timeout w).2
  | .reopen timeout => (Pin.openRecord timeout w).2

/-- The node that a caller stores. -/
def node? : Request → Option Node
  | .add node | .pinNode node _ => some node
  | _ => none

/-- The blocks that a request writes, and the empty node wherever pins are written down. -/
def written (w : World) : Request → List Bytes
  | .add node | .pinNode node _ => [node.encode]
  | .flush codec => Node.empty.encode :: (recordNodes codec w.pins).map Node.encode
  | _ => []

end Request

/-- What requests leave one after the other. -/
def run (w : World) (requests : List Request) : World := requests.foldl Request.perform w

/-- The blocks that requests write one after the other. -/
def written : World → List Request → List Bytes
  | _, [] => []
  | w, r :: rest => r.written w ++ written (r.perform w) rest

variable {known : Set Bytes} {start w w' : World} {requests early : List Request} {r : Request}
  {d : Digest}

theorem run_concat (w : World) (requests : List Request) (r : Request) :
    run w (requests ++ [r]) = r.perform (run w requests) := by
  rw [run, List.foldl_append]
  rfl

theorem written_append (w : World) (early late : List Request) :
    written w (early ++ late) = written w early ++ written (run w early) late := by
  induction early generalizing w with
  | nil => rfl
  | cons r rest ih =>
    rw [List.cons_append, written, written, ih, List.append_assoc]
    rfl

/-- A run in which there is never more than one pin of either kind. -/
theorem countable_of_take {n : Nat} (all : requests.length < n)
    (few : ∀ k < n, (run start (requests.take k)).pins.direct.size ≤ 1 ∧
      (run start (requests.take k)).pins.recursive.size ≤ 1) :
    ∀ early, early <+: requests → Countable (run start early).pins := by
  intro early before
  obtain ⟨direct, recursive⟩ := few early.length (Nat.lt_of_le_of_lt before.length_le all)
  rw [← List.prefix_iff_eq_take.mp before] at direct recursive
  have one : 1 < uncountable := by decide
  exact ⟨Nat.lt_of_le_of_lt direct one, Nat.lt_of_le_of_lt recursive one⟩

/-- What has been written up to some point, and with the request that comes then. -/
theorem mem_written_before (before : early ++ [r] <+: requests) {data : Bytes}
    (h : data ∈ written start early ∨ data ∈ r.written (run start early)) :
    data ∈ written start requests := by
  obtain ⟨rest, rfl⟩ := before
  rw [List.append_assoc, written_append]
  refine List.mem_append.mpr (h.imp_right fun now => ?_)
  exact List.mem_append_left _ now

/-! ## Reasons to be there -/

/-- The nodes that a caller has stored. -/
def added (requests : List Request) : List Digest :=
  (requests.filterMap Request.node?).map Node.digest

/-- A node that was pinned when pins were written down. -/
def PinnedAtFlush (start : World) (requests : List Request) (d : Digest) : Prop :=
  ∃ early codec, early ++ [.flush codec] <+: requests ∧
    (d ∈ (run start early).pins.direct ∨ d ∈ (run start early).pins.recursive)

/-- A node that may be there whatever the record in force: it has been stored by a caller, it is the
empty node, or it was pinned when pins were written down. -/
def Wanted (start : World) (requests : List Request) (d : Digest) : Prop :=
  d ∈ added requests ∨ d = Node.emptyDigest ∨ PinnedAtFlush start requests d

theorem added_concat (requests : List Request) (r : Request) :
    added (requests ++ [r]) = added requests ++ added [r] := by
  rw [added, List.filterMap_append, List.map_append, ← added, ← added]

theorem Wanted.concat (wanted : Wanted start requests d) (r : Request) :
    Wanted start (requests ++ [r]) d := by
  refine wanted.imp (fun isAdded => ?_) (Or.imp_right fun pinned => ?_)
  · rw [added_concat]
    exact List.mem_append_left _ isAdded
  · obtain ⟨early, codec, before, isPinned⟩ := pinned
    exact ⟨early, codec, before.trans (List.prefix_append _ _), isPinned⟩

theorem wanted_of_node {node : Node} (stores : r.node? = some node) :
    Wanted start (requests ++ [r]) node.digest := by
  refine Or.inl ?_
  rw [added_concat, added, added, List.filterMap_cons_some stores]
  exact List.mem_append_right _ List.mem_cons_self

/-! ## Every block is accounted for -/

/-- Every block is a node of the record in force or is wanted for another reason, and the pinner
knows the nodes of the record. -/
structure Accounted (known : Set Bytes) (wanted : Digest → Prop) (w : World) : Prop where
  honest : w.conduct = .honest
  regular : w.store.Regular
  usable : w.store.Usable
  blocks : w.store.blocks ⊆ known
  onRecord : ∃ pins, InForce w.store w.records pins ∧ pins.internal = w.pins.internal
  held : ∀ {d data}, w.store.held d = some data → wanted d ∨ d ∈ w.pins.internal

namespace Accounted

variable {wanted wanted' : Digest → Prop}

theorem truthful (accounted : Accounted known wanted w) : w.conduct.lies = [] :=
  World.truthful_of_honest accounted.honest

theorem sound (accounted : Accounted known wanted w) : w.Sound known :=
  ⟨accounted.truthful, accounted.regular.addressed, accounted.blocks⟩

theorem mono (accounted : Accounted known wanted w) (weaker : ∀ d, wanted d → wanted' d) :
    Accounted known wanted' w :=
  { accounted with held := fun there => (accounted.held there).imp_left (weaker _) }

theorem untouched (accounted : Accounted known wanted w) (moved : World.Untouched w w') :
    Accounted known wanted w' := by
  obtain ⟨store, records, pins, conduct⟩ := moved
  refine ⟨conduct.trans accounted.honest, ?_, ?_, ?_, ?_, ?_⟩
  · exact store ▸ accounted.regular
  · exact store ▸ accounted.usable
  · exact store ▸ accounted.blocks
  · rw [← store, records, pins]
    exact accounted.onRecord
  · rw [← store, pins]
    exact accounted.held

/-- Where pins have been changed and the storage has not. -/
theorem repins (accounted : Accounted known wanted w) (repins : World.Repins w w') :
    Accounted known wanted w' := by
  obtain ⟨pins, inForce, internal⟩ := accounted.onRecord
  have store := repins.store
  refine ⟨repins.conduct.trans accounted.honest, ?_, ?_, ?_, ⟨pins, ?_,
    internal.trans repins.internal.symm⟩, fun {d data} there => ?_⟩
  · exact store ▸ accounted.regular
  · exact store ▸ accounted.usable
  · exact store ▸ accounted.blocks
  · rw [store, repins.records]
    exact inForce
  · rw [repins.internal]
    exact accounted.held (store ▸ there)

/-- Where the pins on record have been read. -/
theorem reads (accounted : Accounted known wanted w) (store : w'.store = w.store)
    (records : w'.records = w.records) (honest : w'.conduct = .honest)
    (found : InForce w.store w.records w'.pins) : Accounted known wanted w' := by
  obtain ⟨pins, inForce, internal⟩ := accounted.onRecord
  cases inForce.unique found
  refine ⟨honest, store ▸ accounted.regular, store ▸ accounted.usable, store ▸ accounted.blocks,
    ⟨w'.pins, ?_, rfl⟩, fun {d data} there => ?_⟩
  · rw [store, records]
    exact found
  · rw [internal]
    exact accounted.held (store ▸ there)

/-- Where blocks have been stored. -/
theorem gains (accounted : Accounted known wanted w) {bs : List Bytes}
    (part : w'.store = (keepAll bs w.store).2) (moved : World.Changes w w')
    (distinct : Distinct known) (isKnown : ∀ data ∈ bs, data ∈ known)
    (areWanted : ∀ data ∈ bs, wanted (Digest.of data)) : Accounted known wanted w' := by
  have gains : ObjectStore.Gains { data | data ∈ bs } w.store w'.store :=
    part ▸ gains_keepAll bs w.store
  have regular : w'.store.Regular :=
    part ▸ keepAll_induction (fun regular kept => regular.keep kept) accounted.regular bs
  have usable : w'.store.Usable := by
    obtain ⟨s, kept, usable⟩ := accounted.usable.keepAll bs
    rw [part, kept]
    exact usable
  have grows : ObjectStore.Grows w.store w'.store ∧ w'.store.blocks ⊆ known := by
    rcases kept : keepAll bs w.store with ⟨result, s⟩
    obtain ⟨grows, -, blocks, -⟩ :=
      keepAll_spec distinct isKnown accounted.regular.addressed accounted.blocks kept
    rw [part, kept]
    exact ⟨grows, blocks⟩
  obtain ⟨pins, inForce, internal⟩ := accounted.onRecord
  refine ⟨moved.conduct.trans accounted.honest, regular, usable, grows.2, ⟨pins, ?_, ?_⟩,
    fun {d data} there => ?_⟩
  · rw [moved.records]
    exact inForce.keeps fun d _ _ => grows.1.block?
  · rw [moved.pins]
    exact internal
  · rw [moved.pins]
    rcases gains.held d with same | ⟨content, inside, rfl, -⟩
    · exact accounted.held (same ▸ there)
    · exact Or.inl (areWanted content inside)

/-- A flush goes through, and what it leaves of the old record is wanted for another reason. -/
theorem flush (accounted : Accounted known wanted w) (distinct : Distinct known)
    (few : Countable w.pins) {codec : Codec} (isKnown : recordBlocks codec w.pins ⊆ known)
    (isWanted : ∀ d, d = Node.emptyDigest ∨ d ∈ w.pins.direct ∨ d ∈ w.pins.recursive → wanted d) :
    ∃ root w', Pin.flush codec w = (.done root, w') ∧ Accounted known wanted w' := by
  obtain ⟨bs, members, stores⟩ := stores_storeRecord codec w.pins
  obtain ⟨s, kept, usable⟩ := accounted.usable.keepAll bs
  obtain ⟨w', run, pins, -, store⟩ := flush_through stores accounted.honest kept
  have regular : s.Regular := by
    have regular := keepAll_induction (fun regular kept => regular.keep kept) accounted.regular bs
    rwa [kept] at regular
  have gains : ObjectStore.Gains { data | data ∈ bs } w.store s := by
    have gains := gains_keepAll bs w.store
    rwa [kept] at gains
  obtain ⟨committed, -, -⟩ := committed_of_flush distinct isKnown accounted.sound run
  obtain ⟨sound, -⟩ := flush_cases distinct isKnown accounted.sound
  rw [run] at sound
  obtain ⟨-, -, -, conduct, -⟩ := flush_done stores accounted.truthful run
  refine ⟨_, w', run, conduct.trans accounted.honest, ?_, ?_, sound.blocks,
    ⟨recorded codec w.pins, .record committed.pointer (committed.record distinct isKnown few), ?_⟩,
    fun {d data} there => ?_⟩
  · exact store ▸ dropAll_induction ObjectStore.Regular.delete regular _
  · exact store ▸ dropAll_induction ObjectStore.Usable.delete usable _
  · rw [pins]
  obtain ⟨notStale, before⟩ := held_of_dropAll regular (store ▸ there)
  rw [pins]
  rcases gains.held d with same | ⟨content, inside, rfl, -⟩
  · rcases accounted.held (same.symm.trans before) with isWanted' | old
    · exact Or.inl isWanted'
    · exact (spared_of_not_stale old notStale).symm.imp_left (isWanted d)
  · obtain ⟨n, isNode, rfl⟩ := (members content).mp inside
    exact Or.inr (mem_internal_recorded isNode)

theorem load (accounted : Accounted known wanted w) (timeout : Nat) :
    Accounted known wanted (Pin.load timeout w).2 := by
  obtain ⟨pins, inForce, -⟩ := accounted.onRecord
  cases inForce with
  | unset unset =>
    rw [load_without_record timeout accounted.honest unset]
    exact accounted.untouched w.untouched_ticked
  | record pointed record =>
    obtain ⟨w', run, taken, store, records, honest⟩ :=
      load_honest timeout accounted.honest pointed record
    rw [run]
    exact accounted.reads store records honest (taken ▸ .record pointed record)

theorem reopen (accounted : Accounted known wanted w) (timeout : Nat) :
    Accounted known wanted (openRecord timeout w).2 := by
  obtain ⟨pins, inForce, -⟩ := accounted.onRecord
  obtain ⟨w', run, taken, store, records, honest⟩ :=
    openRecord_honest timeout accounted.honest inForce
  rw [run]
  exact accounted.reads store records honest (taken ▸ inForce)

/-- A caller stores a node. -/
theorem add (accounted : Accounted known wanted w) (distinct : Distinct known) {node : Node}
    (isKnown : node.encode ∈ known) (isWanted : wanted node.digest) :
    Accounted known wanted (Graph.add node w).2 := by
  have stored := (Stores.add node).run accounted.truthful
  obtain ⟨early, isEarly, part⟩ := stored.part
  have only : ∀ data ∈ early, data = node.encode := fun data inside =>
    List.mem_singleton.mp (isEarly.subset inside)
  refine accounted.gains part stored.moved distinct (fun data inside => ?_) fun data inside => ?_
  · rw [only data inside]
    exact isKnown
  · rw [only data inside]
    exact isWanted

/-- A caller stores a node and pins it. -/
theorem pinNode (accounted : Accounted known wanted w) (distinct : Distinct known) {node : Node}
    (isKnown : node.encode ∈ known) (isWanted : wanted node.digest) (recursive : Bool) :
    Accounted known wanted (Pin.pinNode node recursive w).2 := by
  have added := accounted.add distinct isKnown isWanted
  rcases pinNode_leaves node recursive w with same | ⟨d, same⟩
  · exact same ▸ added
  · exact same ▸ added.repins (edits_pin d recursive added.sound).moved

/-- One request. -/
theorem perform (accounted : Accounted known (Wanted start requests) (run start requests))
    (distinct : Distinct known) (few : Countable (run start requests).pins) (r : Request)
    (isKnown : ∀ data ∈ r.written (run start requests), data ∈ known) :
    Accounted known (Wanted start (requests ++ [r])) (run start (requests ++ [r])) := by
  have accounted := accounted.mono fun d wanted => wanted.concat r
  rw [run_concat]
  cases r with
  | add node => exact accounted.add distinct (isKnown _ List.mem_cons_self) (wanted_of_node rfl)
  | pin d recursive => exact accounted.repins (edits_pin d recursive accounted.sound).moved
  | pinNode node recursive =>
    exact accounted.pinNode distinct (isKnown _ List.mem_cons_self) (wanted_of_node rfl) recursive
  | unpin d recursive => exact accounted.repins (edits_unpin d recursive accounted.sound).moved
  | flush codec =>
    obtain ⟨root, w', flushed, accounted'⟩ := accounted.flush distinct few isKnown fun d reason =>
      Or.inr (reason.imp_right fun pinned => ⟨requests, codec, List.prefix_rfl, pinned⟩)
    rw [Request.perform, flushed]
    exact accounted'
  | load timeout => exact accounted.load timeout
  | reopen timeout => exact accounted.reopen timeout

/-- Where nothing has been stored yet, nothing is left behind. -/
theorem nil (vacant : start.store.Vacant) (honest : start.conduct = .honest)
    (unset : pointer? start.records = none) (new : start.pins = .none) :
    Accounted known (Wanted start []) (run start []) := by
  have nothing : ∀ {d data}, start.store.held d ≠ some data := by
    intro d data there
    cases (vacant.held d).symm.trans there
  have internal : start.pins.internal = ∅ := by
    rw [new]
    rfl
  refine ⟨honest, vacant.regular, vacant.usable, ?_, ⟨.none, .unset unset, internal.symm⟩,
    fun there => absurd there nothing⟩
  rintro data ⟨d, there⟩
  exact absurd there nothing

/-- Any number of requests. -/
theorem run (first : Accounted known (Wanted start []) (run start [])) (distinct : Distinct known)
    (few : ∀ early, early <+: requests → Countable (Pin.run start early).pins)
    (isKnown : ∀ data ∈ written start requests, data ∈ known) :
    Accounted known (Wanted start requests) (Pin.run start requests) := by
  induction requests using List.reverseRecOn with
  | nil => exact first
  | append_singleton early r ih =>
    have isKnown' : ∀ data, data ∈ written start early ∨ data ∈ r.written (Pin.run start early) →
        data ∈ known := fun data h => isKnown data (mem_written_before List.prefix_rfl h)
    have isPrefix : early <+: early ++ [r] := List.prefix_append _ _
    have before := ih (fun first isFirst => few first (isFirst.trans isPrefix)) fun data h =>
      isKnown' data (Or.inl h)
    exact before.perform distinct (few early isPrefix) r fun data h => isKnown' data (Or.inr h)

end Accounted

/-! ## After a flush -/

/-- In a run that begins with empty storage and a new pinner, with storage that works and in which
nothing is in the way, every flush goes through.  A block that is in the store after it has been
stored by a caller, or is a node of the record that the flush has written, or is the empty node, or
was pinned at this flush or at an earlier one. -/
theorem no_leftovers {start : World} {requests : List Request} (vacant : start.store.Vacant)
    (honest : start.conduct = .honest) (unset : pointer? start.records = none)
    (new : start.pins = .none)
    (few : ∀ early, early <+: requests → Countable (run start early).pins)
    (distinct : Distinct { data | data ∈ written start requests }) :
    ∀ early codec, early ++ [.flush codec] <+: requests →
      (∃ root, flush codec (run start early) = (.done root, run start (early ++ [.flush codec]))) ∧
      ∀ d data, (run start (early ++ [.flush codec])).store.held d = some data →
        d ∈ added early ∨ d ∈ (run start (early ++ [.flush codec])).pins.internal ∨
          d = Node.emptyDigest ∨ PinnedAtFlush start (early ++ [.flush codec]) d := by
  intro early codec before
  have isPrefix : early <+: requests := (List.prefix_append early _).trans before
  have isKnown : ∀ data, data ∈ written start early ∨
      data ∈ Request.written (run start early) (.flush codec) → data ∈ written start requests :=
    fun data h => mem_written_before before h
  have accounted : Accounted { data | data ∈ written start requests } (Wanted start early)
      (run start early) :=
    (Accounted.nil vacant honest unset new).run distinct
      (fun first isFirst => few first (isFirst.trans isPrefix))
      fun data h => isKnown data (Or.inl h)
  have after := accounted.perform distinct (few early isPrefix) (.flush codec) fun data h =>
    isKnown data (Or.inr h)
  refine ⟨?_, fun d data there => ?_⟩
  · obtain ⟨root, w', flushed⟩ := flush_of_usable codec accounted.honest accounted.usable
    refine ⟨root, ?_⟩
    rw [run_concat, Request.perform, flushed]
  · rcases after.held there with (isAdded | isEmpty | pinned) | internal
    · rw [added_concat] at isAdded
      exact Or.inl ((List.mem_append.mp isAdded).resolve_right List.not_mem_nil)
    · exact Or.inr (Or.inr (Or.inl isEmpty))
    · exact Or.inr (Or.inr (Or.inr pinned))
    · exact Or.inr (Or.inl internal)

/-! ### A pin that is written down, and removed later -/

/-- Nothing has been stored yet. -/
def newWorld : World := World.fresh .inMemory ∅

/-- A node without links. -/
def lone : Node := ⟨[], [0]⟩

/-- The node is stored and pinned, and its pin is written down and read back before it is
removed. -/
def pinAndUnpin : List Request :=
  [.pinNode lone true, .flush narrow, .reopen 5000, .unpin lone.digest true]

/-- It is written down that the pin is removed. -/
def unpinned : List Request := pinAndUnpin ++ [.flush narrow]

/-- There is one pin at most.  No two blocks of the run have the same digest. -/
theorem run_unpinned :
    (∀ n < 6, (run newWorld (unpinned.take n)).pins.direct.size ≤ 1 ∧
      (run newWorld (unpinned.take n)).pins.recursive.size ≤ 1) ∧
      (written newWorld unpinned).Pairwise fun a b => Digest.of a = Digest.of b → a = b := by
  decide +kernel

theorem distinct_unpinned : Distinct { data | data ∈ written newWorld unpinned } :=
  distinct_of_pairwise (fun _ h => h) run_unpinned.2

/-- What is left once it has been written down that the pin is removed. -/
theorem no_leftovers_pinAndUnpin :
    (∃ root, flush narrow (run newWorld pinAndUnpin)
      = (.done root, run newWorld (pinAndUnpin ++ [.flush narrow]))) ∧
    ∀ d data, (run newWorld (pinAndUnpin ++ [.flush narrow])).store.held d = some data →
      d ∈ added pinAndUnpin ∨
        d ∈ (run newWorld (pinAndUnpin ++ [.flush narrow])).pins.internal ∨
        d = Node.emptyDigest ∨ PinnedAtFlush newWorld (pinAndUnpin ++ [.flush narrow]) d :=
  no_leftovers (show ObjectStore.Vacant (.memory ∅) from rfl) rfl Std.ExtTreeMap.getElem?_empty rfl
    (countable_of_take (by decide) run_unpinned.1) distinct_unpinned pinAndUnpin narrow
    List.prefix_rfl

end PinnedStore.Pin
