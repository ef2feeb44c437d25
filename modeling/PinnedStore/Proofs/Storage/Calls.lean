import PinnedStore.Graph
import PinnedStore.Proofs.Storage.Frame

/-!
# What single calls do

The calls on the storage, on single blocks and on single nodes, each with what every run of it
leaves alone, what a run that gives an answer has found or done, and what it does in a world whose
storage is honest.

* `Conduct.Stops`: the storage may stop a run.
* `ObjectStore.node?`: what can be read of a node.
* `ObjectStore.keep`, `Blocks.put_cases`: writing a block that may be there already.
* `Blocks.ensures_put`: writing a block loses nothing, and the block can be read then.
* `Blocks.remove_cases`, `Blocks.does_remove`: removing a block removes nothing else.
* `Graph.get_done`, `Graph.get_honest`: reading a node.
* `Graph.Denies`: reading a node fails.
-/

namespace PinnedStore

namespace World

/-- The world after one call more. -/
def ticked (w : World) : World := { w with clock := w.clock + 1 }

variable {w w' : World}

theorem untouched_ticked (w : World) : Untouched w w.ticked := ⟨rfl, rfl, rfl, rfl⟩

@[simp] theorem store_ticked (w : World) : w.ticked.store = w.store := rfl

@[simp] theorem records_ticked (w : World) : w.ticked.records = w.records := rfl

@[simp] theorem pins_ticked (w : World) : w.ticked.pins = w.pins := rfl

@[simp] theorem conduct_ticked (w : World) : w.ticked.conduct = w.conduct := rfl

end World

/-- A run may be stopped at a call. -/
def Conduct.Stops (c : Conduct) : Prop := ∃ number op, c.verdict number op = .halt

theorem Conduct.not_stops_honest : ¬ honest.Stops := by
  rintro ⟨number, op, stopped⟩
  cases stopped

/-- What can be read of a node. -/
def ObjectStore.node? (s : ObjectStore) (d : Digest) : Option Node :=
  (s.block? d).bind fun data => (Node.decode data).toOption

open Program

namespace Storage

variable {known : Set Bytes} {w w' : World} {path key : String} {α : Type}

theorem call_cases (op : Operation) (w : World) :
    call op w = (.done (), w.ticked) ∨ (∃ f, call op w = (.failed f, w.ticked)) ∨
      call op w = (.halted, w.ticked) := by
  unfold call
  split
  · exact Or.inl rfl
  · next f _ => exact Or.inr (Or.inl ⟨f, rfl⟩)
  · exact Or.inr (Or.inr rfl)

theorem call_done {op : Operation} {a : Unit} (h : call op w = (.done a, w')) : w' = w.ticked := by
  rcases call_cases op w with done | ⟨f, failed⟩ | halted
  · exact (Prod.mk.inj (h.symm.trans done)).2
  · cases h.symm.trans failed
  · cases h.symm.trans halted

theorem call_proceeds {op : Operation} (proceeds : w.conduct.verdict w.clock op = .proceed) :
    call op w = (.done (), w.ticked) := by
  rw [call, proceeds]
  rfl

theorem call_fails {op : Operation} {f : Failure} (fails : w.conduct.verdict w.clock op = .fail f) :
    call op w = (.failed f, w.ticked) := by
  rw [call, fails]
  rfl

theorem call_honest (honest : w.conduct = .honest) (op : Operation) :
    call op w = (.done (), w.ticked) :=
  call_proceeds (World.proceeds_of_honest honest op)

/-- Honest storage carries out every call. -/
theorem call_refused {op : Operation} {outcome : Outcome Failure Unit}
    (h : call op w = (outcome, w'))
    (notDone : outcome ≠ .done ()) : w.conduct ≠ .honest := by
  intro honest
  rw [call_honest honest] at h
  exact notDone (Prod.mk.inj h).1.symm

theorem call_halted {op : Operation} (h : call op w = (.halted, w')) : w.conduct.Stops := by
  refine ⟨w.clock, op, ?_⟩
  unfold call at h
  split at h
  · cases h
  · cases h
  · assumption

theorem call_bind_congr {op : Operation} {f g : Unit → Program Failure α}
    (same : f () w.ticked = g () w.ticked) : (call op >>= f) w = (call op >>= g) w := by
  rw [bind_apply, bind_apply]
  rcases call_cases op w with done | ⟨e, failed⟩ | halted
  · rw [done]
    exact same
  · rw [failed]
  · rw [halted]

theorem onlyReads_call (op : Operation) : OnlyReads (call op) := by
  intro w
  rcases call_cases op w with done | ⟨f, failed⟩ | halted
  · rw [done]
    exact w.untouched_ticked
  · rw [failed]
    exact w.untouched_ticked
  · rw [halted]
    exact w.untouched_ticked

theorem onlyReads_ask (question : ObjectStore → Except Failure α) : OnlyReads (ask question) := by
  intro w
  unfold ask
  split <;> exact refl w

theorem onlyReads_isThere (path : String) : OnlyReads (isThere path) :=
  (onlyReads_call _).bind fun _ => (KeepsTo.inspect _).bind fun _ =>
    .ite (fun _ => .pure _) fun _ => onlyReads_ask _

theorem onlyReads_read (path : String) (offset : Nat) (limit : Option Nat) :
    OnlyReads (read path offset limit) := by
  refine (onlyReads_call _).bind fun _ => (KeepsTo.inspect _).bind fun absent => ?_
  have asked : OnlyReads (do
      let offset := if ← tells .offsets then 0 else offset
      let limit := if ← tells .limits then none else limit
      ask (ObjectStore.read path offset limit)) :=
    (KeepsTo.inspect _).bind fun _ => (KeepsTo.inspect _).bind fun _ => onlyReads_ask _
  refine .ite (fun _ => (KeepsTo.inspect _).bind fun _ => ?_) fun _ => asked
  exact .ite (fun _ => .pure _) fun _ => asked

theorem keepsTo_put (path : String) (content : Bytes) :
    KeepsTo World.Changes (put path content) := by
  have changed : KeepsTo World.Changes (change (ObjectStore.put path content)) := by
    intro w
    unfold change
    split <;> exact ⟨trivial, rfl, rfl, rfl⟩
  refine (onlyReads_call _).moves.bind fun _ => (KeepsTo.inspect _).bind fun _ => ?_
  refine .ite (fun _ => .pure _) fun _ => (KeepsTo.inspect _).bind fun _ => ?_
  exact .ite (fun _ => (KeepsTo.inspect _).bind fun _ => .ite (fun _ => .pure _) fun _ => changed)
    fun _ => changed

theorem ask_done {question : ObjectStore → Except Failure α} {a : α} :
    ask question w = (.done a, w') ↔ w' = w ∧ question w.store = .ok a := by
  unfold ask
  rcases question w.store with f | a'
  · simp
  · simp [and_comm, eq_comm]

/-! ## Storage that tells no lies

What the calls come down to then. -/

section Truthful

variable (truthful : w.conduct.lies = [])

include truthful

theorem tells_bind (lie : Lie) (f : Bool → Program Failure α) :
    (tells lie >>= f) w.ticked = f false w.ticked := by
  refine bind_of_done ?_
  rw [tells, inspect_apply, Conduct.tells, World.conduct_ticked, truthful]
  rfl

theorem isThere_eq (path : String) :
    isThere path w = (call (.isThere path) >>= fun _ => ask (ObjectStore.isThere path)) w :=
  call_bind_congr (tells_bind truthful .presence _)

theorem put_eq (path : String) (content : Bytes) :
    put path content w
      = (call (.put path) >>= fun _ => change (ObjectStore.put path content)) w :=
  call_bind_congr ((tells_bind truthful .writes _).trans (tells_bind truthful .overwrites _))

theorem read_eq (path : String) (offset : Nat) (limit : Option Nat) :
    read path offset limit w
      = (call (.read path) >>= fun _ => ask (ObjectStore.read path offset limit)) w :=
  call_bind_congr ((tells_bind truthful .absence _).trans
    ((tells_bind truthful .offsets _).trans (tells_bind truthful .limits _)))

theorem size_eq (path : String) :
    size path w = (call (.size path) >>= fun _ => ask (ObjectStore.size path)) w := by
  refine call_bind_congr ?_
  rcases found : ask (ObjectStore.size path) w.ticked with ⟨n | f | _, w'⟩
  · rw [bind_of_done found, (ask_done.mp found).1]
    exact tells_bind truthful .sizes _
  · rw [bind_apply, found]
  · rw [bind_apply, found]

theorem delete_eq (path : String) :
    delete path w = (call (.delete path) >>= fun _ => change fun store =>
      match store.delete path with
      | .ok store => (.ok (), store)
      | .error f => (.error f, store)) w :=
  call_bind_congr (tells_bind truthful .removals _)

theorem getRecord_eq (key : String) :
    getRecord key w = (call (.getRecord key) >>= fun _ => inspect fun w => w.records[key]?) w :=
  call_bind_congr (tells_bind truthful .recordReads _)

theorem putRecord_eq (key : String) (value : Bytes) :
    putRecord key value w = (call (.putRecord key) >>= fun _ =>
      changeRecords fun records => records.insert key value) w :=
  call_bind_congr ((tells_bind truthful .recordWrites _).trans
    (tells_bind truthful .recordOverwrites _))

end Truthful

end Storage

/-! ## Blocks -/

namespace ObjectStore

variable {s : ObjectStore} {data : Bytes}

/-- Makes sure of a block: it is written unless it is there already. -/
def keep (data : Bytes) (s : ObjectStore) : Except Failure Unit × ObjectStore :=
  match s.isThere (BlockPath.write s.features (Digest.of data)) with
  | .error f => (.error f, s)
  | .ok true => (.ok (), s)
  | .ok false => s.put (BlockPath.write s.features (Digest.of data)) data

theorem keep_of_error {f : Failure}
    (h : s.isThere (BlockPath.write s.features (Digest.of data)) = .error f) :
    s.keep data = (.error f, s) := by
  rw [keep, h]

theorem keep_of_present (h : s.isThere (BlockPath.write s.features (Digest.of data)) = .ok true) :
    s.keep data = (.ok (), s) := by
  rw [keep, h]

theorem keep_of_absent (h : s.isThere (BlockPath.write s.features (Digest.of data)) = .ok false) :
    s.keep data = s.put (BlockPath.write s.features (Digest.of data)) data := by
  rw [keep, h]

/-- A block that the store is to make sure of is written, or nothing is done. -/
theorem keep_cases {result : Except Failure Unit} {s' : ObjectStore}
    (h : s.keep data = (result, s')) :
    (s' = s ∧ (result = .ok () →
        s.isThere (BlockPath.write s.features (Digest.of data)) = .ok true)) ∨
      (s.isThere (BlockPath.write s.features (Digest.of data)) = .ok false ∧
        s.put (BlockPath.write s.features (Digest.of data)) data = (result, s')) := by
  rcases there : s.isThere (BlockPath.write s.features (Digest.of data)) with f | _ | _
  · cases (keep_of_error there).symm.trans h
    exact Or.inl ⟨rfl, nofun⟩
  · exact Or.inr ⟨rfl, (keep_of_absent there).symm.trans h⟩
  · cases (keep_of_present there).symm.trans h
    exact Or.inl ⟨rfl, fun _ => rfl⟩

/-- Making sure of a block loses nothing, and leaves the block readable if it succeeds. -/
theorem keep_spec {known : Set Bytes} (distinct : Distinct known) (isKnown : data ∈ known)
    (addressed : s.ContentAddressed) (blocks : s.blocks ⊆ known) {result : Except Failure Unit}
    {s' : ObjectStore} (h : s.keep data = (result, s')) :
    Grows s s' ∧ s'.ContentAddressed ∧ s'.blocks ⊆ known ∧
      (result = .ok () → s'.block? (Digest.of data) = some data) := by
  -- A block of the same digest is the same block.
  have same : ∀ {content}, s.held (Digest.of data) = some content → content = data :=
    fun there => distinct (blocks ⟨_, there⟩) isKnown (addressed.digest_of_held there)
  rcases keep_cases h with ⟨rfl, there⟩ | ⟨-, wrote⟩
  · refine ⟨refl _, addressed, blocks, fun succeeds => ?_⟩
    obtain ⟨content, readable⟩ := addressed.block?_of_isThere (there succeeds)
    rw [readable, same (held_of_block? readable)]
  · obtain ⟨changes, own, succeeds⟩ := put_spec addressed rfl wrote
    refine ⟨⟨changes.later, fun {d content} before => ?_⟩, changes.addressed, ?_, succeeds⟩
    · by_cases equal : d = Digest.of data
      · subst equal
        rcases own with unchanged | written
        · exact unchanged.trans before
        · rw [written, same before]
      · exact (changes.others d equal).trans before
    · rintro content ⟨d, after⟩
      by_cases equal : d = Digest.of data
      · subst equal
        rcases own with unchanged | written
        · exact blocks ⟨_, unchanged ▸ after⟩
        · exact Option.some.inj (written.symm.trans after) ▸ isKnown
      · exact blocks ⟨d, changes.others d equal ▸ after⟩

end ObjectStore

namespace Blocks

variable {known : Set Bytes} {w w' : World} {d : Digest} {data : Bytes}

theorem onlyReads_get (d : Digest) : OnlyReads (get d) :=
  (KeepsTo.inspect _).bind fun _ => Storage.onlyReads_read _ _ _

theorem onlyReads_has (d : Digest) : OnlyReads (has d) :=
  (KeepsTo.inspect _).bind fun _ => Storage.onlyReads_isThere _

theorem keepsTo_put (data : Bytes) : KeepsTo World.Changes (put data) := by
  refine (KeepsTo.inspect _).bind fun _ => (Storage.onlyReads_isThere _).moves.bind fun _ => ?_
  refine .ite (fun _ => ?_) fun _ => ?_
  · exact (onlyReads_log _).moves.bind fun _ => .pure _
  · exact (Storage.keepsTo_put _ _).bind fun _ => .pure _

theorem get_done (truthful : w.conduct.lies = []) (h : get d w = (.done data, w')) :
    World.Untouched w w' ∧ w.store.block? d = some data := by
  change Storage.read (BlockPath.write w.store.features d) 0 none w = _ at h
  rw [Storage.read_eq truthful] at h
  obtain ⟨_, between, called, asked⟩ := done_of_bind h
  rw [Storage.call_done called] at asked
  obtain ⟨rfl, found⟩ := Storage.ask_done.mp asked
  refine ⟨w.untouched_ticked, ?_⟩
  rw [ObjectStore.block?, show w.store.read _ 0 none = .ok data from found]
  rfl

theorem get_honest (honest : w.conduct = .honest) (h : w.store.block? d = some data) :
    get d w = (.done data, w.ticked) := by
  have truthful := World.truthful_of_honest honest
  change Storage.read (BlockPath.write w.store.features d) 0 none w = _
  rw [Storage.read_eq truthful, bind_of_done (Storage.call_honest honest _)]
  refine Storage.ask_done.mpr ⟨rfl, ?_⟩
  unfold ObjectStore.block? at h
  rcases found : w.store.read (BlockPath.write w.store.features d) 0 none with f | content
  · rw [found] at h
    cases h
  · rw [found] at h
    exact found.trans (congrArg Except.ok (Option.some.inj h))

theorem get_failed (honest : w.conduct = .honest) (h : w.store.block? d = none) :
    ∃ f, get d w = (.failed f, w.ticked) := by
  have truthful := World.truthful_of_honest honest
  change ∃ f, Storage.read (BlockPath.write w.store.features d) 0 none w = _
  rw [Storage.read_eq truthful, bind_of_done (Storage.call_honest honest _), Storage.ask,
    World.store_ticked]
  rcases found : w.store.read (BlockPath.write w.store.features d) 0 none with f | content
  · exact ⟨f, rfl⟩
  · rw [ObjectStore.block?, found] at h
    cases h

/-- Reading a block is stopped by a call or not at all. -/
theorem get_halted (truthful : w.conduct.lies = []) (h : get d w = (.halted, w')) :
    w.conduct.Stops := by
  change Storage.read (BlockPath.write w.store.features d) 0 none w = _ at h
  rw [Storage.read_eq truthful, bind_apply] at h
  rcases called : Storage.call (.read (BlockPath.write w.store.features d)) w
    with ⟨_ | f | _, between⟩
  · rw [called] at h
    dsimp only [Storage.ask] at h
    split at h <;> cases h
  · rw [called] at h
    cases h
  · exact Storage.call_halted called

/-- What becomes of a block that is to be written: the store makes sure of it, it can not do so, or
it is not even asked, which does not happen where storage is honest. -/
inductive Put (data : Bytes) (w : World) : Outcome Failure Digest → World → Prop where
  | kept {w' : World} (kept : w.store.keep data = (.ok (), w'.store))
      (moved : World.Changes w w') : Put data w (.done (Digest.of data)) w'
  | stuck {w' : World} {f : Failure} (stuck : w.store.keep data = (.error f, w'.store))
      (moved : World.Changes w w') : Put data w (.failed f) w'
  | refused {w' : World} {outcome : Outcome Failure Digest} (dishonest : w.conduct ≠ .honest)
      (notDone : ∀ d, outcome ≠ .done d) (moved : World.Untouched w w') : Put data w outcome w'

/-- A block that is to be written comes to one of these. -/
theorem put_cases (truthful : w.conduct.lies = []) (data : Bytes) :
    Put data w (put data w).1 (put data w).2 := by
  have run : put data w = (Storage.isThere (BlockPath.write w.store.features (Digest.of data))
      >>= fun there => (if there = true then (do
          log (.blockPresent (Digest.of data))
          return Digest.of data)
        else (do
          Storage.put (BlockPath.write w.store.features (Digest.of data)) data
          return Digest.of data) : Program Failure Digest)) w := rfl
  rw [run, bind_apply, Storage.isThere_eq truthful, bind_apply]
  rcases Storage.call_cases (.isThere (BlockPath.write w.store.features (Digest.of data))) w
    with asked | ⟨f, failed⟩ | halted
  · rw [asked]
    dsimp only
    rw [Storage.ask, World.store_ticked]
    rcases there : w.store.isThere (BlockPath.write w.store.features (Digest.of data))
      with f | _ | _
    · exact .stuck (ObjectStore.keep_of_error there) ⟨trivial, rfl, rfl, rfl⟩
    · dsimp only
      rw [if_neg Bool.false_ne_true, bind_apply,
        Storage.put_eq (w := w.ticked) truthful, bind_apply]
      rcases Storage.call_cases (.put (BlockPath.write w.store.features (Digest.of data))) w.ticked
        with asked' | ⟨f, failed⟩ | halted
      · rw [asked']
        dsimp only
        rw [Storage.change, World.store_ticked, World.store_ticked]
        rcases wrote : w.store.put (BlockPath.write w.store.features (Digest.of data)) data
          with ⟨f | _, store⟩
        · exact .stuck ((ObjectStore.keep_of_absent there).trans wrote) ⟨trivial, rfl, rfl, rfl⟩
        · exact .kept ((ObjectStore.keep_of_absent there).trans wrote) ⟨trivial, rfl, rfl, rfl⟩
      · have refused : w.ticked.conduct ≠ .honest := Storage.call_refused failed nofun
        rw [failed]
        exact .refused refused nofun ⟨rfl, rfl, rfl, rfl⟩
      · have refused : w.ticked.conduct ≠ .honest := Storage.call_refused halted nofun
        rw [halted]
        exact .refused refused nofun ⟨rfl, rfl, rfl, rfl⟩
    · exact .kept (ObjectStore.keep_of_present there) ⟨trivial, rfl, rfl, rfl⟩
  · rw [failed]
    exact .refused (Storage.call_refused failed nofun) nofun w.untouched_ticked
  · rw [halted]
    exact .refused (Storage.call_refused halted nofun) nofun w.untouched_ticked

/-- Writing a block loses nothing, and leaves the block readable if it gives an answer. -/
theorem ensures_put (distinct : Distinct known) (isKnown : data ∈ known) (sound : w.Sound known) :
    Ensures known World.Grows w (put data) fun d w' =>
      d = Digest.of data ∧ w'.store.block? (Digest.of data) = some data := by
  have cases := put_cases sound.truthful data
  rcases run : put data w with ⟨outcome, w'⟩
  rw [run] at cases
  suffices whole : World.Grows w w' ∧ w'.Sound known ∧ ∀ d, outcome = .done d →
      d = Digest.of data ∧ w'.store.block? (Digest.of data) = some data by
    refine ⟨by rw [run]; exact whole.1, by rw [run]; exact whole.2.1, fun {d w''} h => ?_⟩
    cases run.symm.trans h
    exact whole.2.2 d rfl
  cases cases with
  | kept kept moved =>
    obtain ⟨grows, addressed, blocks, readable⟩ :=
      ObjectStore.keep_spec distinct isKnown sound.addressed sound.blocks kept
    refine ⟨⟨grows, moved.records, moved.pins, moved.conduct⟩,
      ⟨moved.truthful sound.truthful, addressed, blocks⟩, ?_⟩
    rintro d ⟨⟩
    exact ⟨rfl, readable rfl⟩
  | stuck stuck moved =>
    obtain ⟨grows, addressed, blocks, -⟩ :=
      ObjectStore.keep_spec distinct isKnown sound.addressed sound.blocks stuck
    exact ⟨⟨grows, moved.records, moved.pins, moved.conduct⟩,
      ⟨moved.truthful sound.truthful, addressed, blocks⟩, nofun⟩
  | refused dishonest notDone moved =>
    exact ⟨moved.moves, moved.sound sound, fun d same => absurd same (notDone d)⟩

/-- A removal goes through, or it leaves the store as it was. -/
theorem remove_cases (truthful : w.conduct.lies = []) (d : Digest) :
    (∃ store, w.store.delete (BlockPath.write w.store.features d) = .ok store ∧
      remove d w = (.done (), { w.ticked with store })) ∨
      (∀ w', remove d w ≠ (.done (), w')) ∧ (remove d w).2 = w.ticked := by
  have run : remove d w = _ := (Storage.delete_eq truthful _).trans (bind_apply _ _ w)
  rw [run]
  rcases Storage.call_cases (.delete (BlockPath.write w.store.features d)) w
    with called | ⟨f, failed⟩ | halted
  · rw [called]
    dsimp only
    rw [Storage.change, World.store_ticked]
    rcases w.store.delete (BlockPath.write w.store.features d) with f | store
    · exact Or.inr ⟨nofun, rfl⟩
    · exact Or.inl ⟨store, rfl, rfl⟩
  · rw [failed]
    exact Or.inr ⟨nofun, rfl⟩
  · rw [halted]
    exact Or.inr ⟨nofun, rfl⟩

/-- A removal that is not refused goes through if the store can make it. -/
theorem remove_of_proceeds (truthful : w.conduct.lies = [])
    (proceeds : w.conduct.verdict w.clock (.delete (BlockPath.write w.store.features d))
      = .proceed) :
    (∃ store, w.store.delete (BlockPath.write w.store.features d) = .ok store ∧
      remove d w = (.done (), { w.ticked with store })) ∨
      ∃ f, w.store.delete (BlockPath.write w.store.features d) = .error f ∧
        remove d w = (.failed f, w.ticked) := by
  have run : remove d w = _ :=
    (Storage.delete_eq truthful _).trans (bind_of_done (Storage.call_proceeds proceeds))
  rw [run, Storage.change, World.store_ticked]
  rcases w.store.delete (BlockPath.write w.store.features d) with f | store
  · exact Or.inr ⟨f, rfl, rfl⟩
  · exact Or.inl ⟨store, rfl, rfl⟩

/-- Where storage is honest, a removal goes through if the store can make it. -/
theorem remove_cases_honest (honest : w.conduct = .honest) (d : Digest) :
    (∃ store, w.store.delete (BlockPath.write w.store.features d) = .ok store ∧
      remove d w = (.done (), { w.ticked with store })) ∨
      ∃ f, w.store.delete (BlockPath.write w.store.features d) = .error f ∧
        remove d w = (.failed f, w.ticked) :=
  remove_of_proceeds (by rw [honest]; rfl) (by rw [honest]; rfl)

theorem remove_of_fails {f : Failure} (truthful : w.conduct.lies = [])
    (fails : w.conduct.verdict w.clock (.delete (BlockPath.write w.store.features d)) = .fail f) :
    remove d w = (.failed f, w.ticked) := by
  have run : remove d w = _ := (Storage.delete_eq truthful _).trans (bind_apply _ _ w)
  rw [run, Storage.call_fails fails]

/-- Removing a block removes no other block. -/
theorem does_remove (d : Digest) : Does known (World.Sheds (· = d)) (remove d) := by
  intro w sound
  rcases remove_cases sound.truthful d with ⟨store, removed, run⟩ | ⟨-, same⟩
  · obtain ⟨changes, own⟩ := ObjectStore.delete_spec sound.addressed removed
    have held : ∀ d', store.held d' = w.store.held d' ∨ (d' = d ∧ store.held d' = none) := by
      intro d'
      by_cases same : d' = d
      · exact (same ▸ own).imp_right fun gone => ⟨same, gone⟩
      · exact Or.inl (changes.others d' same)
    rw [run]
    refine ⟨⟨⟨changes.later, held⟩, rfl, rfl, rfl⟩, sound.truthful, changes.addressed, ?_⟩
    rintro content ⟨d', after⟩
    rcases held d' with same | ⟨-, gone⟩
    · exact sound.blocks ⟨d', same ▸ after⟩
    · cases gone.symm.trans after
  · rw [same]
    exact ⟨w.untouched_ticked.moves, w.untouched_ticked.sound sound⟩

theorem remove_ne_halted (honest : w.conduct = .honest) : remove d w ≠ (.halted, w') := by
  intro h
  rcases remove_cases_honest honest d with ⟨store, -, run⟩ | ⟨f, -, run⟩
  · cases run.symm.trans h
  · cases run.symm.trans h

end Blocks

/-! ## Nodes -/

namespace Graph

variable {known : Set Bytes} {w w' : World} {d : Digest} {node : Node}

theorem node?_eq_some {s : ObjectStore} :
    s.node? d = some node ↔ ∃ data, s.block? d = some data ∧ Node.decode data = .ok node := by
  rw [ObjectStore.node?, Option.bind_eq_some_iff]
  refine exists_congr fun data => and_congr_right fun _ => ?_
  cases Node.decode data <;> simp [Except.toOption]

theorem node?_mono {s s' : ObjectStore}
    (kept : ∀ data, s.block? d = some data → s'.block? d = some data) (h : s.node? d = some node) :
    s'.node? d = some node := by
  obtain ⟨data, there, decoded⟩ := node?_eq_some.mp h
  exact node?_eq_some.mpr ⟨data, kept data there, decoded⟩

theorem onlyReads_get (d : Digest) : OnlyReads (get d) := by
  refine (Blocks.onlyReads_get d).bind fun data => ?_
  cases Node.decode data with
  | ok node => exact .pure node
  | error e => exact .fail _

theorem does_get (d : Digest) : Does known World.Untouched (get d) := (onlyReads_get d).does

theorem does_has (d : Digest) : Does known World.Untouched (has d) := (Blocks.onlyReads_has d).does

theorem get_done (truthful : w.conduct.lies = []) (h : get d w = (.done node, w')) :
    World.Untouched w w' ∧ w.store.node? d = some node := by
  obtain ⟨data, between, found, read⟩ := done_of_bind h
  obtain ⟨moved, there⟩ := Blocks.get_done truthful found
  rcases decoded : Node.decode data with e | decodes
  · rw [decoded] at read
    cases read
  · rw [decoded] at read
    cases read
    exact ⟨moved, node?_eq_some.mpr ⟨data, there, decoded⟩⟩

theorem get_honest (honest : w.conduct = .honest) (h : w.store.node? d = some node) :
    get d w = (.done node, w.ticked) := by
  obtain ⟨data, there, decoded⟩ := node?_eq_some.mp h
  rw [get, bind_of_done (Blocks.get_honest honest there)]
  simp only [decoded]
  rfl

theorem get_failed (honest : w.conduct = .honest) (h : w.store.node? d = none) :
    ∃ f, get d w = (.failed f, w.ticked) := by
  rw [get, bind_apply]
  rcases found : w.store.block? d with _ | data
  · obtain ⟨f, failed⟩ := Blocks.get_failed honest found
    exact ⟨f, by rw [failed]⟩
  · rw [Blocks.get_honest honest found]
    rcases decoded : Node.decode data with e | node
    · exact ⟨_, by simp only [decoded]; rfl⟩
    · rw [node?_eq_some.mpr ⟨data, found, decoded⟩] at h
      cases h

/-- Reading a node fails in this way, at once or after other calls. -/
def Denies (w : World) (d : Digest) (f : Failure) : Prop :=
  ∃ v, World.Untouched w v ∧ (get d v).1 = .failed f

/-- Where storage is honest, only a node that can not be read is denied. -/
theorem Denies.absent {f : Failure} (denies : Denies w d f) (honest : w.conduct = .honest) :
    w.store.node? d = none := by
  obtain ⟨v, moved, failed⟩ := denies
  rcases there : w.store.node? d with _ | n
  · rfl
  · rw [moved.store] at there
    rw [get_honest (moved.conduct.trans honest) there] at failed
    cases failed

theorem get_halted (truthful : w.conduct.lies = []) (h : get d w = (.halted, w')) :
    w.conduct.Stops := by
  rw [get, bind_apply] at h
  rcases got : Blocks.get d w with ⟨data | f | _, between⟩
  · rw [got] at h
    rcases decoded : Node.decode data with e | node
    · simp only [decoded] at h
      cases h
    · simp only [decoded] at h
      cases h
  · rw [got] at h
    cases h
  · exact Blocks.get_halted truthful got

/-- Where storage is honest, a node is read if it can be read, and no answer but this one is
possible. -/
theorem answersIff_get (honest : w.conduct = .honest)
    (only : ∀ n, w.store.node? d = some n → n = node) :
    AnswersIff w (∃ n, w.store.node? d = some n) node (get d) := by
  refine ⟨w.ticked, w.untouched_ticked, ?_⟩
  rcases there : w.store.node? d with _ | n
  · exact Or.inr ⟨nofun, get_failed honest there⟩
  · exact Or.inl ⟨⟨n, rfl⟩, only n there ▸ get_honest honest there⟩

/-- Storing a node loses nothing, and leaves its block readable if it gives an answer. -/
theorem ensures_add (distinct : Distinct known) (isKnown : node.encode ∈ known)
    (sound : w.Sound known) :
    Ensures known World.Grows w (add node) fun d w' =>
      d = node.digest ∧ w'.store.block? node.digest = some node.encode :=
  Blocks.ensures_put distinct isKnown sound

theorem does_add (distinct : Distinct known) (isKnown : node.encode ∈ known) :
    Does known World.Grows (add node) :=
  fun _ sound =>
    ⟨(ensures_add distinct isKnown sound).moved, (ensures_add distinct isKnown sound).sound⟩

end Graph

end PinnedStore
