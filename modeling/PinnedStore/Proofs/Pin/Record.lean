import PinnedStore.Pin.Record
import PinnedStore.Proofs.PinSet.RoundTrip

/-!
# What a pin record stands for

A root node, the pin sets it points at, and the pins they make: this is a matter of the nodes alone,
as it is for a single pin set.  Loading finds out just that for the root that the pointer names.

* `Pin.Record`: the nodes below a root stand for pins.
* `Pin.Record.unique`, `Pin.Record.congr`: for no others, and only the nodes of the record matter.
* `World.SameStorage`, `Pin.does_load`: loading changes nothing but the pins in memory.
* `Pin.Finds`: what loading finds in a store and records.
* `Pin.finds_of_record`, `Pin.record_of_finds`: loading finds pins just where the pointer names a
  record of them.
-/

namespace PinnedStore

namespace PinSet

/-- Each of these digests, once. -/
def onceEach (ds : Digests) : List Entry := ds.toList.map fun d => (d, 1)

theorem length_onceEach (ds : Digests) : (onceEach ds).length = ds.size := by
  rw [onceEach, List.length_map, Std.ExtTreeSet.length_toList]

theorem Multiset.mem_digests {m : Multiset} {d : Digest} : d ∈ m.digests ↔ d ∈ m := by
  rw [digests, Digests.mem_ofList, Std.ExtTreeMap.mem_keys]

theorem Multiset.mem_ofEntries {entries : List Entry} {d : Digest} :
    d ∈ ofEntries entries ↔ total d entries ≠ 0 := by
  rw [Std.ExtTreeMap.mem_iff_isSome_getElem?, getElem?_ofEntries]
  by_cases none : total d entries = 0 <;> simp [none]

theorem total_onceEach_ne_zero {ds : Digests} {d : Digest} :
    total d (onceEach ds) ≠ 0 ↔ d ∈ ds := by
  have counted : ∀ l : List Digest, total d (l.map fun d => (d, 1)) ≠ 0 ↔ d ∈ l := by
    intro l
    induction l with
    | nil => simp
    | cons d' rest ih =>
      rw [List.map_cons, total_cons, List.mem_cons, ← ih]
      by_cases same : d' = d
      · simp [same]
      · simp [same, Ne.symm same]
  rw [onceEach, counted, Std.ExtTreeSet.mem_toList]

/-- A set of digests that are counted once each is the set of digests that count. -/
theorem digests_onceEach (ds : Digests) : (Multiset.ofEntries (onceEach ds)).digests = ds := by
  refine Std.ExtTreeSet.ext_mem fun d => ?_
  rw [Multiset.mem_digests, Multiset.mem_ofEntries, total_onceEach_ne_zero]

end PinSet

open Program PinSet

/-- Nothing has changed but the pins in memory. -/
structure World.SameStorage (w w' : World) : Prop where
  store : w'.store = w.store
  records : w'.records = w.records
  conduct : w'.conduct = w.conduct

namespace World.SameStorage

variable {w w' : World}

instance : IsPreorder World World.SameStorage where
  refl _ := ⟨rfl, rfl, rfl⟩
  trans _ _ _ first second := ⟨second.store.trans first.store, second.records.trans first.records,
    second.conduct.trans first.conduct⟩

theorem of_untouched (h : Untouched w w') : SameStorage w w' :=
  ⟨h.store.symm, h.records, h.conduct⟩

end World.SameStorage

namespace Pin

variable {known : Set Bytes} {w w' v v' : World} {node? node?' : Digest → Option Node}
  {root root' : Digest} {pins pins' : Pins} {timeout : Nat}

/-- A pin set that a node points at stands for these digests. -/
def Holds (node? : Digest → Option Node) (holder : Node) (name : String) (met : List Digest)
    (ds : Digests) : Prop :=
  ∃ top found, holder.link? name = some top ∧ Decodes node? [top] met found ∧
    ds = (Multiset.ofEntries found).digests

/-- The nodes below a root stand for pins. -/
inductive Record (node? : Digest → Option Node) (root : Digest) : Pins → Prop
  | intro {holder : Node} {met met' : List Digest} {direct recursive : Digests}
    (there : node? root = some holder) (holds : Holds node? holder recursiveName met recursive)
    (holds' : Holds node? holder directName met' direct) :
    Record node? root
      ⟨recursive, direct, Std.ExtTreeSet.ofList (root :: met ++ met'), some root⟩

theorem Holds.unique {holder : Node} {name : String} {met met' : List Digest} {ds ds' : Digests}
    (h : Holds node? holder name met ds) (h' : Holds node? holder name met' ds') :
    met = met' ∧ ds = ds' := by
  obtain ⟨top, found, link, decodes, rfl⟩ := h
  obtain ⟨top', found', link', decodes', rfl⟩ := h'
  cases link.symm.trans link'
  obtain ⟨rfl, rfl⟩ := decodes.unique decodes'
  exact ⟨rfl, rfl⟩

theorem Record.unique (h : Record node? root pins) (h' : Record node? root pins') :
    pins = pins' := by
  obtain ⟨there, recursive, direct⟩ := h
  obtain ⟨there', recursive', direct'⟩ := h'
  cases there.symm.trans there'
  obtain ⟨rfl, rfl⟩ := recursive.unique recursive'
  obtain ⟨rfl, rfl⟩ := direct.unique direct'
  rfl

theorem mem_internal {root d : Digest} {met met' : List Digest} :
    d ∈ (Std.ExtTreeSet.ofList (root :: met ++ met') : Digests) ↔
      d = root ∨ d ∈ met ∨ d ∈ met' := by
  rw [Digests.mem_ofList, List.cons_append, List.mem_cons, List.mem_append]

/-- A record depends on its own nodes alone. -/
theorem Record.congr (h : Record node? root pins)
    (same : ∀ d ∈ pins.internal, ∀ n, node? d = some n → node?' d = some n) :
    Record node?' root pins := by
  obtain ⟨there, ⟨top, found, link, decodes, rfl⟩, ⟨top', found', link', decodes', rfl⟩⟩ := h
  have early := fun d h => same d (mem_internal.mpr (Or.inr (Or.inl h)))
  have late := fun d h => same d (mem_internal.mpr (Or.inr (Or.inr h)))
  exact .intro (same _ (mem_internal.mpr (Or.inl rfl)) _ there)
    ⟨top, found, link, decodes.congr fun d h _ => early d h, rfl⟩
    ⟨top', found', link', decodes'.congr fun d h _ => late d h, rfl⟩

theorem Record.root_mem (h : Record node? root pins) : root ∈ pins.internal := by
  cases h
  exact mem_internal.mpr (Or.inl rfl)

/-! ## Reading a record -/

theorem answersIff_readSet {holder : Node} {name : String} {met : List Digest} {ds : Digests}
    (honest : v.conduct = .honest) (lacks : Lacks node? v.store)
    (holds : Holds node? holder name met ds) :
    AnswersIff v (Present v.store met) (ds, met) (readSet holder name) := by
  obtain ⟨top, found, link, decodes, rfl⟩ := holds
  have linked : readLink holder name = read top := by rw [readLink, link]
  have counted := answersIff_read honest lacks decodes
  rw [← linked] at counted
  exact .congr (and_true _).to_iff (counted.bind fun _ _ _ => .pure trivial)

/-- The root of a record can be read, and so can the nodes of the record, apart from the empty
node. -/
structure Complete (s : ObjectStore) (root : Digest) (pins : Pins) : Prop where
  root : ∃ n, s.node? root = some n
  nodes : ∀ d ∈ pins.internal, d ≠ Node.emptyDigest → ∃ n, s.node? d = some n

theorem complete_iff {s : ObjectStore} {met met' : List Digest} {direct recursive : Digests} :
    Complete s root
        ⟨recursive, direct, Std.ExtTreeSet.ofList (root :: met ++ met'), some root⟩
      ↔ (∃ n, s.node? root = some n) ∧ Present s met ∧ Present s met' := by
  constructor
  · rintro ⟨there, nodes⟩
    refine ⟨there, fun d isMet => nodes d ?_, fun d isMet => nodes d ?_⟩
    · exact mem_internal.mpr (Or.inr (Or.inl isMet))
    · exact mem_internal.mpr (Or.inr (Or.inr isMet))
  · rintro ⟨there, early, late⟩
    refine ⟨there, fun d inside named => ?_⟩
    rcases mem_internal.mp inside with rfl | isMet | isMet
    · exact there
    · exact early d isMet named
    · exact late d isMet named

theorem Record.complete {s : ObjectStore} (record : Record s.node? root pins) :
    Complete s root pins := by
  obtain ⟨there, ⟨_, _, _, decodes, _⟩, ⟨_, _, _, decodes', _⟩⟩ := record
  exact complete_iff.mpr ⟨⟨_, there⟩, decodes.present, decodes'.present⟩

/-- Where some nodes of a record may be missing, reading it gives the pins if none is, and fails
otherwise. -/
theorem answersIff_readRecord (honest : v.conduct = .honest) (lacks : Lacks node? v.store)
    (record : Record node? root pins) :
    AnswersIff v (Complete v.store root pins) pins (readRecord root) := by
  cases record with
  | @intro holder met met' direct recursive there holds holds' =>
    have only : ∀ n, v.store.node? root = some n → n = holder := fun n h =>
      Option.some.inj ((lacks root n h).symm.trans there)
    refine .congr complete_iff.symm ((Graph.answersIff_get honest only).mapError.bind
      fun _ v₁ moved₁ => ?_)
    have honest₁ : v₁.conduct = .honest := moved₁.conduct.trans honest
    have lacks₁ : Lacks node? v₁.store := moved₁.store ▸ lacks
    rw [moved₁.store]
    refine (answersIff_readSet honest₁ lacks₁ holds).mapError.bind fun _ v₂ moved₂ => ?_
    have honest₂ : v₂.conduct = .honest := moved₂.conduct.trans honest₁
    have lacks₂ : Lacks node? v₂.store := moved₂.store ▸ lacks₁
    rw [moved₂.store]
    exact .congr (and_true _).to_iff
      ((answersIff_readSet honest₂ lacks₂ holds').mapError.bind fun _ _ _ => .pure trivial)

theorem onlyReads_readSet (holder : Node) (name : String) : OnlyReads (readSet holder name) := by
  refine KeepsTo.bind ?_ fun _ => .pure _
  unfold readLink
  cases holder.link? name with
  | some top => exact onlyReads_read top
  | none => exact .fail _

theorem holds_of_readSet {holder : Node} {name : String} {met : List Digest} {ds : Digests}
    (truthful : w.conduct.lies = []) (h : readSet holder name w = (.done (ds, met), w')) :
    Holds w.store.node? holder name met ds := by
  obtain ⟨⟨set, met'⟩, between, linked, h⟩ := done_of_bind h
  cases h
  unfold readLink at linked
  rcases link : holder.link? name with _ | top
  · rw [link] at linked
    cases linked
  · rw [link] at linked
    obtain ⟨found, decodes, rfl⟩ := decodes_of_read truthful linked
    exact ⟨top, found, link, decodes, rfl⟩

theorem record_of_readRecord (truthful : w.conduct.lies = [])
    (h : readRecord root w = (.done pins, w')) :
    Record w.store.node? root pins := by
  obtain ⟨holder, w₁, got, h⟩ := done_of_bind h
  obtain ⟨moved₁, there⟩ := Graph.get_done truthful (done_of_mapError got)
  have truthful₁ := moved₁.truthful truthful
  obtain ⟨⟨recursive, met⟩, w₂, run₂, h⟩ := done_of_bind h
  have moved₂ := (onlyReads_readSet holder recursiveName).leaves (done_of_mapError run₂)
  obtain ⟨⟨direct, met'⟩, w₃, run₃, h⟩ := done_of_bind h
  have holds := holds_of_readSet truthful₁ (done_of_mapError run₂)
  have holds' := holds_of_readSet (moved₂.truthful truthful₁) (done_of_mapError run₃)
  rw [← moved₁.store] at holds
  rw [← moved₂.store, ← moved₁.store] at holds'
  cases h
  exact .intro there holds holds'

theorem onlyReads_readRecord (root : Digest) : OnlyReads (readRecord root) :=
  (Graph.onlyReads_get root).mapError.bind fun holder =>
    (onlyReads_readSet holder recursiveName).mapError.bind fun _ =>
      (onlyReads_readSet holder directName).mapError.bind fun _ => .pure _

/-- A record that can not be read is a fault, and not the lack of a record. -/
theorem corrupt_of_readRecord {e : Error} (h : readRecord root w = (.failed e, w')) :
    ∃ fault, e = .corruptRecord fault := by
  rcases failed_of_bind h with h | ⟨_, _, -, h⟩
  · obtain ⟨f, rfl⟩ := failed_of_mapError h
    exact ⟨_, rfl⟩
  · rcases failed_of_bind h with h | ⟨_, _, -, h⟩
    · obtain ⟨f, rfl⟩ := failed_of_mapError h
      exact ⟨_, rfl⟩
    · rcases failed_of_bind h with h | ⟨_, _, -, h⟩
      · obtain ⟨f, rfl⟩ := failed_of_mapError h
        exact ⟨_, rfl⟩
      · cases h

/-! ## Loading -/

/-- What the pointer names. -/
def pointer? (records : Records) : Option Bytes := records[pointerKey]?

/-- What loading finds, where storage is honest: pins, or that there is no record. -/
def Finds (store : ObjectStore) (records : Records) (found : Option Pins) : Prop :=
  ∀ (timeout : Nat) (v : World), v.store = store → v.records = records → v.conduct = .honest →
    match found with
    | some pins => ∃ v', load timeout v = (.done (), v') ∧ v'.pins = pins
    | none => ∃ v', load timeout v = (.failed .noRecord, v')

theorem getRecord_honest (honest : v.conduct = .honest) (key : String) :
    (mapError Error.store (Storage.getRecord key)) v = (.done v.records[key]?, v.ticked) := by
  have truthful := World.truthful_of_honest honest
  refine mapError_of_done ?_
  rw [Storage.getRecord_eq truthful, bind_of_done (Storage.call_honest honest _), inspect_apply,
    World.records_ticked]

theorem getRecord_done {key : String} {value : Option Bytes} (truthful : v.conduct.lies = [])
    (h : mapError Error.store (Storage.getRecord key) v = (.done value, v')) :
    value = v.records[key]? ∧ v' = v.ticked := by
  have got := done_of_mapError h
  rw [Storage.getRecord_eq truthful] at got
  obtain ⟨_, between, called, inspected⟩ := done_of_bind got
  rw [Storage.call_done called, inspect_apply] at inspected
  cases inspected
  exact ⟨rfl, rfl⟩

theorem onlyReads_getRecord (key : String) :
    OnlyReads (mapError Error.store (Storage.getRecord key)) := by
  refine KeepsTo.mapError ((Storage.onlyReads_call _).bind fun _ =>
    (KeepsTo.inspect _).bind fun _ => ?_)
  exact .ite (fun _ => .pure _) fun _ => .inspect _

theorem onlyReads_beforeDeadline {ε α : Type} {late : ε} {p : Program ε α} (reads : OnlyReads p) :
    OnlyReads (beforeDeadline late p) :=
  (KeepsTo.inspect _).bind fun _ => .ite (fun _ => .fail _) fun _ => reads

/-- Loading changes nothing but the pins in memory. -/
theorem does_load (timeout : Nat) : Does known World.SameStorage (load timeout) := by
  have same : ∀ {ε α : Type} {p : Program ε α}, OnlyReads p → Does known World.SameStorage p :=
    fun reads => reads.does.mono fun _ _ => World.SameStorage.of_untouched
  refine (same (onlyReads_getRecord _)).bind fun raw => ?_
  rcases raw with _ | raw
  · exact .fail _
  dsimp only
  cases Digest.ofBytes raw with
  | error e => exact .fail _
  | ok root =>
    have reads := onlyReads_readRecord root
    refine (same (onlyReads_beforeDeadline reads)).bind fun pins =>
      (same (onlyReads_log _)).bind fun _ => ?_
    exact fun w sound => ⟨⟨rfl, rfl, rfl⟩, sound.truthful, sound.addressed, sound.blocks⟩

/-- Where some nodes of the record that the pointer names may be missing, loading takes the pins of
the record if none is, and otherwise says that the record is corrupt. -/
theorem load_cases (timeout : Nat) (honest : v.conduct = .honest)
    (pointed : pointer? v.records = some root.bytes) (lacks : Lacks node? v.store)
    (record : Record node? root pins) :
    (Complete v.store root pins ∧ ∃ v', load timeout v = (.done (), v') ∧ v'.pins = pins ∧
        v'.store = v.store ∧ v'.records = v.records ∧ v'.conduct = .honest) ∨
      (¬ Complete v.store root pins ∧
        ∃ fault v', load timeout v = (.failed (.corruptRecord fault), v')) := by
  have prompt : (inspect fun w => w.conduct.stalled : Program Error Bool) v.ticked
      = (.done false, v.ticked) := by
    rw [inspect_apply, World.conduct_ticked, honest]
    rfl
  have inTime : beforeDeadline (.corruptRecord (.timedOut timeout root)) (readRecord root) v.ticked
      = readRecord root v.ticked := by
    rw [beforeDeadline, bind_of_done prompt]
    rfl
  have run : load timeout v = (beforeDeadline (.corruptRecord (.timedOut timeout root))
      (readRecord root) >>= fun pins => do
        log (.recordLoaded root pins.recursive.size pins.direct.size pins.internal.size)
        changePins fun _ => pins) v.ticked := by
    rw [load, bind_of_done (getRecord_honest honest _),
      show v.records[pointerKey]? = _ from pointed]
    simp only [Digest.ofBytes_bytes]
  have ticked : v.ticked.conduct = .honest := honest
  obtain ⟨v', moved, ⟨complete, done⟩ | ⟨not, e, failed⟩⟩ :=
    answersIff_readRecord ticked lacks record
  · refine Or.inl ⟨complete, ?_⟩
    rw [run, bind_of_done (inTime.trans done)]
    exact ⟨_, rfl, rfl, moved.store.symm, moved.records, moved.conduct.trans honest⟩
  · obtain ⟨fault, rfl⟩ := corrupt_of_readRecord failed
    refine Or.inr ⟨not, fault, v', ?_⟩
    rw [run, bind_apply, inTime, failed]

/-- Loading takes the pins of the record that the pointer names. -/
theorem load_honest (timeout : Nat) (honest : v.conduct = .honest)
    (pointed : pointer? v.records = some root.bytes) (record : Record v.store.node? root pins) :
    ∃ v', load timeout v = (.done (), v') ∧ v'.pins = pins ∧ v'.store = v.store ∧
      v'.records = v.records ∧ v'.conduct = .honest := by
  rcases load_cases timeout honest pointed (fun _ _ h => h) record with ⟨-, loaded⟩ | ⟨not, -⟩
  · exact loaded
  · exact absurd record.complete not

theorem load_without_record (timeout : Nat) (honest : v.conduct = .honest)
    (unset : pointer? v.records = none) : load timeout v = (.failed .noRecord, v.ticked) := by
  rw [load, bind_of_done (getRecord_honest honest _), show v.records[pointerKey]? = _ from unset]
  rfl

/-- Loading finds the pins of the record that the pointer names. -/
theorem finds_of_record {store : ObjectStore} {records : Records}
    (pointed : pointer? records = some root.bytes) (record : Record store.node? root pins) :
    Finds store records (some pins) := by
  rintro timeout v rfl rfl honest
  obtain ⟨v', run, taken, -⟩ := load_honest timeout honest pointed record
  exact ⟨v', run, taken⟩

theorem finds_none {store : ObjectStore} {records : Records} (unset : pointer? records = none) :
    Finds store records none := by
  rintro timeout v rfl rfl honest
  exact ⟨_, load_without_record timeout honest unset⟩

/-- Where loading finds pins, the pointer names a record of them. -/
theorem record_of_load (sound : w.Sound known) (h : load timeout w = (.done (), w')) :
    ∃ root, pointer? w.records = some root.bytes ∧ Record w.store.node? root w'.pins := by
  obtain ⟨value, between, got, h⟩ := done_of_bind h
  obtain ⟨rfl, rfl⟩ := getRecord_done sound.truthful got
  rcases pointed : w.records[pointerKey]? with _ | raw
  · rw [pointed] at h
    cases h
  · rw [pointed] at h
    dsimp only at h
    rcases named : Digest.ofBytes raw with e | root
    · rw [named] at h
      cases h
    · rw [named] at h
      have raw_eq : raw = root.bytes := by
        unfold Digest.ofBytes at named
        split at named
        · cases named; rfl
        · cases named
      obtain ⟨pins, between, run, h⟩ := done_of_bind h
      obtain ⟨stalled, same, prompt, run⟩ := done_of_bind run
      cases prompt
      split at run
      · cases run
      · have record := record_of_readRecord (w := w.ticked) sound.truthful run
        obtain ⟨_, _, logged, changed⟩ := done_of_bind h
        cases logged
        cases changed
        exact ⟨root, by rw [pointer?, pointed, raw_eq], record⟩

/-- Where loading finds no record, the pointer names none. -/
theorem pointer_of_load (truthful : w.conduct.lies = [])
    (h : load timeout w = (.failed .noRecord, w')) : pointer? w.records = none := by
  rcases failed_of_bind h with h | ⟨value, between, got, h⟩
  · obtain ⟨f, same⟩ := failed_of_mapError h
    cases same
  obtain ⟨rfl, rfl⟩ := getRecord_done truthful got
  rcases pointed : w.records[pointerKey]? with _ | raw
  · exact pointed
  · rw [pointed] at h
    dsimp only at h
    rcases named : Digest.ofBytes raw with e | root <;> rw [named] at h
    · cases h
    · rcases failed_of_bind h with h | ⟨_, _, -, h⟩
      · obtain ⟨_, _, -, h⟩ | h := (failed_of_bind h).symm
        · split at h
          · cases h
          · obtain ⟨fault, same⟩ := corrupt_of_readRecord h
            cases same
        · cases h
      · rcases failed_of_bind h with h | ⟨_, _, -, h⟩ <;> cases h

/-- Where loading finds pins in a content-addressed store, the pointer names a record of them. -/
theorem record_of_finds {store : ObjectStore} {records : Records}
    (addressed : store.ContentAddressed) (found : Finds store records (some pins)) :
    ∃ root, pointer? records = some root.bytes ∧ Record store.node? root pins := by
  obtain ⟨v', run, rfl⟩ := found 0 (World.fresh store records) rfl rfl rfl
  have sound : (World.fresh store records).Sound store.blocks := ⟨rfl, addressed, Set.Subset.rfl⟩
  exact record_of_load sound run

theorem pointer_of_finds {store : ObjectStore} {records : Records}
    (found : Finds store records none) : pointer? records = none := by
  obtain ⟨v', run⟩ := found 0 (World.fresh store records) rfl rfl rfl
  exact pointer_of_load rfl run

end Pin

end PinnedStore
