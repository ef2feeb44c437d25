import PinnedStore.Proofs.Repository.Turn

/-!
# Runs with failures and crashes

A command may fail at any of its calls, and it may be cut off before any of them; the next one
begins with what it has left.  What becomes of each call is decided by the conduct of the storage,
and every command of a run may meet with another one.  So the states that such runs lead to are all
states in which a repository can be found, those in the middle of a command among them.

Whatever happens, the pointer names a complete record.  A flush does not move it before the new
record is stored, and it spares the new record and the direct pins when it cleans up.  A collection
spares both, since it begins with the pins that are on record and knows all of them.  Nothing else
removes a block.

* `Repository.Attempt`: a command, with the conduct of the storage while it runs.
* `State.attempt`: the state that a run leaves.
* `State.Intact`: the record in force is complete, and all direct pins are there.
* `Intact.attempt`: one command, wherever it stops, keeps it so.
* `State.pins_survive`: the pins can be loaded throughout a run.
-/

namespace PinnedStore.Repository

open Program Pin

/-! ## Commands that may stop -/

/-- A command, with the conduct of the storage while it runs. -/
structure Attempt extends Turn where
  conduct : Conduct

/-- The world that a command begins in where the storage behaves in this way. -/
def State.worldUnder (s : State) (conduct : Conduct) : World := { s.world with conduct }

namespace Attempt

variable (a : Attempt) (s : State)

/-- What becomes of a command. -/
def outcome : Outcome Error Answer × World :=
  a.command.perform a.files a.timeout a.codec (s.worldUnder a.conduct)

/-- What a command leaves for the next one. -/
def after : State := ⟨(a.outcome s).2.store, (a.outcome s).2.records⟩

/-- The pins that a command begins to write down, if it comes to that. -/
def flushes : Option Pins :=
  match a.command.change? with
  | none => none
  | some change =>
    match (openRecord a.timeout >>= fun _ => change) (s.worldUnder a.conduct) with
    | (.done _, w) => some w.pins
    | _ => none

/-- The blocks that a command would write if it were not cut off, and the empty node wherever pins
are written down. -/
def written : List Bytes :=
  match a.flushes s with
  | some pins => Node.empty.encode :: (recordNodes a.codec pins).map Node.encode
  | none => a.command.content a.files

variable {a s} {w w' : World} {change : Program Pin.Error Unit}

theorem outcome_of_opened (opened : openRecord a.timeout (s.worldUnder a.conduct) = (.done (), w)) :
    a.outcome s = a.command.run a.files a.codec w :=
  bind_of_done (mapError_of_done opened)

/-- Where the pins can not be read, a command does nothing. -/
theorem outcome_of_not_opened
    (not : ∀ w, openRecord a.timeout (s.worldUnder a.conduct) ≠ (.done (), w)) :
    (a.outcome s).2 = (openRecord a.timeout (s.worldUnder a.conduct)).2 := by
  rw [outcome, Command.perform, bind_apply, mapError]
  rcases opened : openRecord a.timeout (s.worldUnder a.conduct) with ⟨_ | e | _, w⟩
  · exact absurd opened (not w)
  · rfl
  · rfl

theorem flushes_of_changed (opened : openRecord a.timeout (s.worldUnder a.conduct) = (.done (), w))
    (changes : a.command.change? = some change) (changed : change w = (.done (), w')) :
    a.flushes s = some w'.pins := by
  simp only [flushes, changes]
  rw [bind_of_done opened, changed]

/-- A command has read the pins on record. -/
structure Begun (a : Attempt) (s : State) (known : Set Bytes) (pins : Pins) (w : World) : Prop where
  opened : openRecord a.timeout (s.worldUnder a.conduct) = (.done (), w)
  pins : w.pins = pins
  store : w.store = s.store
  records : w.records = s.records
  sound : w.Sound known

end Attempt

namespace State

/-- What a run of commands leaves. -/
def attempt (s : State) (attempts : List Attempt) : State := attempts.foldl (fun s a => a.after s) s

/-- The blocks that a run of commands would write if none of them were cut off. -/
def attempted : State → List Attempt → List Bytes
  | _, [] => []
  | s, a :: rest => a.written s ++ (a.after s).attempted rest

/-! ## What is kept throughout -/

/-- These are the pins on record, and the direct pins and the nodes of the record are there. -/
structure Intact (known : Set Bytes) (s : State) (pins : Pins) : Prop where
  addressed : s.store.ContentAddressed
  blocks : s.store.blocks ⊆ known
  inForce : InForce s.store s.records pins
  present : ∀ d, d ∈ pins.direct ∨ d ∈ pins.internal → ∃ data, s.store.block? d = some data

variable {s : State} {known : Set Bytes} {pins : Pins} {a : Attempt} {w w' : World}

namespace Intact

/-- As long as nothing is lost that must be kept, the state is as before. -/
theorem keeps (intact : s.Intact known pins) (sound : w.Sound known)
    (records : w.records = s.records)
    (kept : ObjectStore.Keeps (pins.Requires s.store.node?) s.store w.store) :
    State.Intact known ⟨w.store, w.records⟩ pins where
  addressed := sound.addressed
  blocks := sound.blocks
  inForce := by
    rw [records]
    exact intact.inForce.keeps fun d inside => kept d (Or.inl (Or.inl inside))
  present d isPart := by
    obtain ⟨data, there⟩ := intact.present d isPart
    refine ⟨data, kept d ?_ data there⟩
    exact isPart.symm.imp Or.inl id

/-- Where nothing in the storage has changed, the state is as before. -/
theorem unchanged (intact : s.Intact known pins) (sound : w.Sound known)
    (store : w.store = s.store) (records : w.records = s.records) :
    State.Intact known ⟨w.store, w.records⟩ pins := by
  have kept : ObjectStore.Keeps (pins.Requires s.store.node?) s.store w.store := by
    rw [store]
    exact refl s.store
  exact intact.keeps sound records kept

/-! ## One command -/

/-- A flush of pins that come from those on record, wherever it stops. -/
theorem flush (intact : s.Intact known pins) (distinct : Distinct known)
    (few : Pin.Countable w.pins) {codec : PinSet.Codec}
    (isKnown : recordBlocks codec w.pins ⊆ known) (sound : w.Sound known)
    (store : w.store = s.store) (records : w.records = s.records)
    (steps : Steps s.store.node? pins w.pins) :
    ∃ pins', State.Intact known ⟨(flush codec w).2.store, (flush codec w).2.records⟩ pins' := by
  obtain ⟨sound', ⟨-, committed, -⟩ | ⟨-, grows, -⟩⟩ := flush_cases distinct isKnown sound
  · refine ⟨recorded codec w.pins, sound'.addressed, sound'.blocks,
      .record committed.pointer (committed.record distinct isKnown few), ?_⟩
    -- The nodes of the record have just been stored.  A direct pin was there before, or has been
    -- read.
    rintro d (isDirect | isInternal)
    · have there : ∃ data, w.store.block? d = some data := by
        rw [store]
        rcases steps.readable d isDirect with before | ⟨n, readable⟩
        · exact intact.present d (Or.inl before)
        · obtain ⟨data, there, -⟩ := Graph.node?_eq_some.mp readable
          exact ⟨data, there⟩
      obtain ⟨data, there⟩ := there
      exact ⟨data, committed.block? (not_stale_of_mem_direct isDirect) there⟩
    · exact committed.exists_block? isInternal
  · have kept :
        ObjectStore.Keeps (pins.Requires s.store.node?) s.store (Pin.flush codec w).2.store :=
      store ▸ grows.store.keeps
    exact ⟨pins, intact.keeps sound' (grows.records.trans records) kept⟩

/-- A command that neither sets nor removes a pin, wherever it stops. -/
theorem plain (intact : s.Intact known pins) (distinct : Distinct known)
    (begun : a.Begun s known pins w) (plain : a.command.change? = none)
    (isKnown : ∀ data ∈ a.written s, data ∈ known) : (a.after s).Intact known pins := by
  have none : a.flushes s = none := by simp only [Attempt.flushes, plain]
  rw [Attempt.written, none] at isKnown
  have ran := Command.ensures_run a.files a.codec distinct isKnown plain begun.sound
  rw [begun.pins, begun.store] at ran
  have kept := intact.keeps ran.sound (ran.moved.records.trans begun.records)
    (begun.store ▸ ran.moved.store)
  rw [Attempt.after, Attempt.outcome_of_opened begun.opened]
  exact kept

/-- A command that sets or removes a pin, wherever it stops. -/
theorem change (intact : s.Intact known pins) (distinct : Distinct known)
    (few : ∀ pins', a.flushes s = some pins' → Pin.Countable pins') (begun : a.Begun s known pins w)
    {change : Program Pin.Error Unit} (changes : a.command.change? = some change)
    (isKnown : ∀ data ∈ a.written s, data ∈ known) :
    ∃ pins', (a.after s).Intact known pins' := by
  have ⟨repins, sound', steps⟩ := Command.ensures_change changes begun.sound
  rw [begun.pins, begun.store] at steps
  have store := repins.store.trans begun.store
  have records := repins.records.trans begun.records
  rw [Attempt.after, Attempt.outcome_of_opened begun.opened]
  rcases changed : change w with ⟨_ | e | _, w'⟩
  · rw [changed] at store records sound'
    have flushes := Attempt.flushes_of_changed begun.opened changes changed
    rw [Attempt.written, flushes] at isKnown
    rw [(Command.run_of_changed a.files a.codec changes changed).1]
    exact intact.flush distinct (few _ flushes) isKnown sound' store records (steps changed)
  -- If the change has not gone through, then nothing is written down.
  all_goals
    rw [Command.run_of_not_changed a.files a.codec changes fun w' done =>
      nomatch changed.symm.trans done]
    exact ⟨pins, intact.unchanged sound' store records⟩

/-- One command, wherever it stops and whatever has failed. -/
theorem attempt (intact : s.Intact known pins) (distinct : Distinct known)
    (few : ∀ pins', a.flushes s = some pins' → Pin.Countable pins') (truthful : a.conduct.lies = [])
    (isKnown : ∀ data ∈ a.written s, data ∈ known) :
    ∃ pins', (a.after s).Intact known pins' := by
  have sound : (s.worldUnder a.conduct).Sound known := ⟨truthful, intact.addressed, intact.blocks⟩
  obtain ⟨same, sound'⟩ := does_openRecord a.timeout _ sound
  rcases opened : openRecord a.timeout (s.worldUnder a.conduct) with ⟨_ | e | _, w⟩
  · rw [opened] at same sound'
    have begun : a.Begun s known pins w := ⟨opened,
      (openRecord_done sound opened).unique intact.inForce, same.store, same.records, sound'⟩
    rcases changes : a.command.change? with _ | change
    · exact ⟨pins, intact.plain distinct begun changes isKnown⟩
    · exact intact.change distinct few begun changes isKnown
  -- If the pins could not be read, then nothing else has been done.
  all_goals
    rw [Attempt.after, Attempt.outcome_of_not_opened fun w' done => nomatch opened.symm.trans done]
    exact ⟨pins, intact.unchanged sound' same.store same.records⟩

/-! ## Runs -/

/-- What is so at the end of a run. -/
theorem run {attempts : List Attempt} (intact : s.Intact known pins) (distinct : Distinct known)
    (few : ∀ early a, early ++ [a] <+: attempts → ∀ pins, a.flushes (s.attempt early) = some pins →
      Pin.Countable pins)
    (truthful : ∀ a ∈ attempts, a.conduct.lies = [])
    (isKnown : ∀ data ∈ s.attempted attempts, data ∈ known) :
    ∃ pins', (s.attempt attempts).Intact known pins' := by
  induction attempts generalizing s pins with
  | nil => exact ⟨pins, intact⟩
  | cons a rest ih =>
    obtain ⟨fewNow, fewLater⟩ := forall_steps.mp few
    obtain ⟨pins', intact'⟩ := intact.attempt distinct fewNow (truthful a List.mem_cons_self)
      fun data h => isKnown data (List.mem_append_left _ h)
    exact ih intact' fewLater (fun a' h => truthful a' (List.mem_cons_of_mem _ h))
      fun data h => isKnown data (List.mem_append_right _ h)

/-- Where a record is in force, loading finds pins, and all parts of the record and all direct pins
are there. -/
theorem finds (intact : s.Intact known pins) (set : pointer? s.records ≠ none) :
    Finds s.store s.records (some pins) := by
  cases intact.inForce with
  | unset unset => exact absurd unset set
  | record pointed record => exact finds_of_record pointed record

end Intact

theorem mem_attempted {early attempts : List Attempt} (before : early <+: attempts) {data : Bytes}
    (h : data ∈ s.attempted early) : data ∈ s.attempted attempts := by
  induction early generalizing s attempts with
  | nil => cases h
  | cons a early ih =>
    obtain ⟨rest, rfl⟩ := before
    rcases List.mem_append.mp h with first | later
    · exact List.mem_append_left _ first
    · exact List.mem_append_right _ (ih (List.prefix_append _ _) later)

/-- In a run that begins without a record, with whatever failures and wherever its commands are cut
off, loading finds pins as soon as there is a record, and the direct pins and the nodes of the
record are there. -/
theorem pins_survive {start : State} {attempts : List Attempt}
    (addressed : start.store.ContentAddressed) (unset : pointer? start.records = none)
    (truthful : ∀ a ∈ attempts, a.conduct.lies = [])
    (few : ∀ early a, early ++ [a] <+: attempts → ∀ pins,
      a.flushes (start.attempt early) = some pins → Pin.Countable pins)
    (distinct : Distinct (start.store.blocks ∪ { data | data ∈ start.attempted attempts })) :
    ∀ early, early <+: attempts → pointer? (start.attempt early).records ≠ none →
      ∃ pins, Finds (start.attempt early).store (start.attempt early).records (some pins) ∧
        ∀ d, d ∈ pins.direct ∨ d ∈ pins.internal →
          ∃ data, (start.attempt early).store.block? d = some data := by
  intro early before set
  have empty : start.Intact (start.store.blocks ∪ { data | data ∈ start.attempted attempts })
      .none := by
    refine ⟨addressed, Set.subset_union_left, .unset unset, ?_⟩
    rintro d (isDirect | isInternal)
    · exact absurd isDirect Std.ExtTreeSet.not_mem_empty
    · exact absurd isInternal Std.ExtTreeSet.not_mem_empty
  obtain ⟨pins, intact⟩ := empty.run distinct (fun first a h => few first a (h.trans before))
    (fun a h => truthful a (before.subset h)) fun data h => Or.inr (mem_attempted before h)
  exact ⟨pins, intact.finds set, intact.present⟩

end State

/-! ## A run that is cut off -/

namespace CutRun

/-- A command where all files are empty, and storage that stops before the call of this number. -/
def attempt (c : Command) (stop : Nat) : Attempt :=
  ⟨⟨fun _ => .ok [], 5000, PinSet.narrow, c⟩,
    ⟨fun clock _ => if clock < stop then .proceed else .halt, [], false⟩⟩

/-- The empty node is stored and pinned by itself; the command that is to remove the pin is cut off
while it removes the nodes of the old record. -/
def attempts : List Attempt :=
  [attempt (.put [] []) 100, attempt (.pin Node.emptyDigest false) 100,
    attempt (.unpin Node.emptyDigest false) 9]

/-- A repository in which nothing has been kept yet. -/
def start : State := ⟨.inMemory, ∅⟩

/-- These direct pins and no others. -/
def pins (direct : Digests) : Pins := ⟨∅, direct, ∅, none⟩

/-- The blocks of the run. -/
def blocks : List Bytes :=
  (Node.empty :: recordNodes PinSet.narrow (pins {Node.emptyDigest})
    ++ recordNodes PinSet.narrow (pins ∅)).map Node.encode

/-- What becomes of the run.  No command writes down more than one pin of either kind. -/
theorem run_attempts :
    (pointer? (start.attempt attempts).records).isSome = true ∧
      (∀ data ∈ start.attempted attempts, data ∈ blocks) ∧
      ∀ n < attempts.length,
        ∀ pins ∈ attempts[n]?.bind fun a => a.flushes (start.attempt (attempts.take n)),
          pins.direct.size ≤ 1 ∧ pins.recursive.size ≤ 1 := by
  decide +kernel

theorem distinct_attempts :
    Distinct (start.store.blocks ∪ { data | data ∈ start.attempted attempts }) := by
  rw [show start.store.blocks = ∅ from ObjectStore.blocks_inMemory, Set.empty_union]
  exact distinct_of_pairwise run_attempts.2.1 (by decide +kernel)

/-- The pins can still be loaded. -/
theorem pins_survive_attempts : pointer? (start.attempt attempts).records ≠ none ∧
    ∃ pins, Finds (start.attempt attempts).store (start.attempt attempts).records (some pins) ∧
      ∀ d, d ∈ pins.direct ∨ d ∈ pins.internal →
        ∃ data, (start.attempt attempts).store.block? d = some data := by
  have set : pointer? (start.attempt attempts).records ≠ none :=
    Option.isSome_iff_ne_none.mp run_attempts.1
  have truthful : ∀ a ∈ attempts, a.conduct.lies = [] := by decide
  exact ⟨set, State.pins_survive ObjectStore.contentAddressed_inMemory Std.ExtTreeMap.getElem?_empty
    truthful (countable_of_take (fun early (a : Attempt) => a.flushes (start.attempt early))
      run_attempts.2.2) distinct_attempts attempts List.prefix_rfl set⟩

end CutRun

end PinnedStore.Repository
