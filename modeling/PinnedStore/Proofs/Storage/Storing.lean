import PinnedStore.Proofs.Storage.Usable

/-!
# Storing blocks one after the other

A program that stores blocks asks for each of them whether it is there, and writes it if it is not.
What becomes of it is decided by the blocks alone: storage that fails or stops it cuts the list of
blocks short, and that is all it can do.  So a run that failed has done a first part of the work,
and doing all of the work after a first part of it comes to the same as doing it at once, because
what is there already is not written again.  Nothing is asked of the store for this, nor of the
digests: a block that is there is never written over.

* `ObjectStore.Shows`, `ObjectStore.Gains`: what is there, and what storing blocks does to it.
* `ObjectStore.keepAll`: one block after the other.
* `ObjectStore.keepAll_resume`, `ObjectStore.keepAll_settled`: going on after a part of the work,
  and after all of it.
* `ObjectStore.dropAll`: removing one block after the other.
* `Program.Stores`: a program that does nothing but store blocks, with what its run comes to in any
  storage that tells no lies.
-/

namespace PinnedStore

/-! ## What is there stays there -/

namespace Disk.OnlyMakes

variable {made : Location → Prop} {disk disk' : Disk} {l : Location}

theorem stays (makes : OnlyMakes made disk disk') {e : Entry} (there : disk.entry? l = some e) :
    disk'.entry? l = some e := by
  rcases makes.entry? l with same | ⟨absent, -, -⟩
  · exact same.trans there
  · cases absent.symm.trans there

theorem file (makes : OnlyMakes made disk disk') {content : Bytes} :
    disk'.entry? l = some (.file content) ↔ disk.entry? l = some (.file content) := by
  refine ⟨fun there => ?_, makes.stays⟩
  rcases makes.entry? l with same | ⟨-, stands, -⟩
  · exact same.symm.trans there
  · cases stands.symm.trans there

end Disk.OnlyMakes

namespace ObjectStore

variable {s s' s'' : ObjectStore} {d : Digest} {data : Bytes}

/-- The store says that a block is there. -/
def Shows (s : ObjectStore) (d : Digest) : Prop :=
  s.isThere (BlockPath.write s.features d) = .ok true

/-- Blocks have been stored, and what was there has been left alone. -/
structure Gains (blocks : Set Bytes) (s s' : ObjectStore) : Prop where
  later : Later s s'
  shows : ∀ {d}, s.Shows d → s'.Shows d
  kept : ∀ {d}, s.Shows d → s'.held d = s.held d
  held : ∀ d, s'.held d = s.held d ∨ ∃ data ∈ blocks, Digest.of data = d ∧ s'.held d = some data

instance {blocks : Set Bytes} : IsPreorder ObjectStore (Gains blocks) where
  refl s := ⟨.refl s, id, fun _ => rfl, fun _ => Or.inl rfl⟩
  trans s s' s'' first second := by
    refine ⟨first.later.trans second.later, fun there => second.shows (first.shows there),
      fun there => (second.kept (first.shows there)).trans (first.kept there), fun d => ?_⟩
    rcases second.held d with same | new
    · exact same ▸ first.held d
    · exact Or.inr new

theorem Gains.mono {blocks more : Set Bytes} (gains : Gains blocks s s') (sub : blocks ⊆ more) :
    Gains more s s' :=
  ⟨gains.later, gains.shows, gains.kept, fun d => (gains.held d).imp_right
    fun ⟨data, inside, named, there⟩ => ⟨data, sub inside, named, there⟩⟩

theorem shows_of_block? (h : s.block? d = some data) : s.Shows d :=
  (answers_of_block? h).isThere

/-- What could be read can still be read. -/
theorem Gains.block? {blocks : Set Bytes} (gains : Gains blocks s s') (h : s.block? d = some data) :
    s'.block? d = some data := by
  obtain ⟨isOpen, held⟩ := block?_eq_some.mp h
  exact block?_eq_some.mpr ⟨gains.later.isOpen isOpen, (gains.kept (shows_of_block? h)).trans held⟩

theorem shows_memory {objects : Std.ExtTreeMap String Bytes} :
    Shows (.memory objects) d ↔ held d (.memory objects) ≠ none := by
  rw [Shows, isThere_memory, Except.ok.injEq, Option.isSome_iff_ne_none]

/-- Writing a block that is not there. -/
theorem gains_put {result : Except Failure Unit} (absent : ¬ s.Shows d)
    (named : Digest.of data = d) (h : s.put (BlockPath.write s.features d) data = (result, s')) :
    Gains {data} s s' ∧ (result = .ok () → s'.Shows d) := by
  cases s with
  | memory objects =>
    cases h
    have others := fun d' (other : d' ≠ d) => (held_insert objects d d' data).trans (if_neg other)
    have own := (held_insert objects d d data).trans (if_pos rfl)
    refine ⟨⟨⟨rfl, id⟩, fun {d'} shows => ?_, fun {d'} shows => ?_, fun d' => ?_⟩, fun _ => ?_⟩
    · have kept := others d' fun same => absent (same ▸ shows)
      rwa [shows_memory, kept, ← shows_memory]
    · exact others d' fun same => absent (same ▸ shows)
    · by_cases same : d' = d
      · exact Or.inr ⟨data, rfl, named.trans same.symm, same ▸ own⟩
      · exact Or.inl (others d' same)
    · rw [shows_memory, own]
      exact Option.some_ne_none data
  | directory s =>
    rcases step : s.put (BlockPath.write Directory.features d) data with ⟨result', t⟩
    cases (put_directory step).symm.trans h
    obtain ⟨base, stages⟩ := Directory.put_stages step
    have makes := s.onlyMakes_prepared_way d
    have later : Directory.Later s t := ⟨base, makes.keepsDirectories.trans stages.keeps⟩
    have elsewhere : ∀ d' ≠ d,
        t.disk.entry? (s.place d') = Disk.entry? (s.prepared d) (s.place d') :=
      fun d' other => stages.entry? (Ne.symm (s.beside_ne_place d d'))
        fun same => other (s.place_injective same)
    have unchanged : ∀ d', t.disk.entry? (s.place d') = Disk.entry? (s.prepared d) (s.place d') →
        held d' (.directory t) = held d' (.directory s) := by
      intro d' same
      refine Option.ext fun content => ?_
      rw [held_directory_eq_some, held_directory_eq_some, later.place, same, makes.file]
    refine ⟨⟨later_directory later, fun {d'} shows => ?_, fun {d'} shows => ?_, fun d' => ?_⟩,
      fun succeeds => ?_⟩
    · obtain ⟨located, e, there⟩ := Directory.isThere_write.mp shows
      have other : d' ≠ d := fun same => absent (same ▸ shows)
      refine Directory.isThere_write.mpr ?_
      rw [later.target, later.place, elsewhere d' other]
      exact ⟨later.keeps.locate located, e, makes.stays there⟩
    · exact unchanged d' (elsewhere d' fun same => absent (same ▸ shows))
    · by_cases same : d' = d
      · subst same
        rcases stages.place with ⟨same, -⟩ | ⟨written, -⟩
        · exact Or.inl (unchanged d' same)
        · refine Or.inr ⟨data, rfl, named, held_directory_eq_some.mpr ?_⟩
          rw [later.place]
          exact written
      · exact Or.inl (unchanged d' (elsewhere d' same))
    · rcases stages.place with ⟨-, failed⟩ | ⟨written, located⟩
      · exact absurd succeeds failed
      · refine Directory.isThere_write.mpr ?_
        rw [later.target, later.place]
        exact ⟨located, _, written⟩

/-- Making sure of a block stores nothing else. -/
theorem gains_keep (data : Bytes) (s : ObjectStore) : Gains {data} s (s.keep data).2 := by
  rcases kept : s.keep data with ⟨result, s'⟩
  rcases keep_cases kept with ⟨rfl, -⟩ | ⟨absent, wrote⟩
  · exact refl _
  · exact (gains_put (fun shows => nomatch absent.symm.trans shows) rfl wrote).1

/-- A block that the store has been made sure of is there. -/
theorem shows_of_keep (h : s.keep data = (.ok (), s')) : s'.Shows (Digest.of data) := by
  rcases keep_cases h with ⟨rfl, there⟩ | ⟨absent, wrote⟩
  · exact there rfl
  · exact (gains_put (fun shows => nomatch absent.symm.trans shows) rfl wrote).2 rfl

/-! ## One block after the other -/

/-- Makes sure of blocks, as far as that is possible. -/
def keepAll : List Bytes → ObjectStore → Except Failure Unit × ObjectStore
  | [], s => (.ok (), s)
  | data :: rest, s =>
    match s.keep data with
    | (.ok (), s) => keepAll rest s
    | (.error f, s) => (.error f, s)

variable {bs early late : List Bytes}

theorem keepAll_cons_ok (h : s.keep data = (.ok (), s')) :
    keepAll (data :: bs) s = keepAll bs s' := by
  rw [keepAll, h]

theorem keepAll_cons_error {f : Failure} (h : s.keep data = (.error f, s')) :
    keepAll (data :: bs) s = (.error f, s') := by
  rw [keepAll, h]

theorem keepAll_append_ok (h : keepAll early s = (.ok (), s')) :
    keepAll (early ++ late) s = keepAll late s' := by
  induction early generalizing s with
  | nil =>
    cases h
    rfl
  | cons data rest ih =>
    rcases step : s.keep data with ⟨f | _, between⟩
    · cases (keepAll_cons_error step).symm.trans h
    · rw [keepAll_cons_ok step] at h
      rw [List.cons_append, keepAll_cons_ok step, ih h]

theorem keepAll_append_error {f : Failure} (h : keepAll early s = (.error f, s')) :
    keepAll (early ++ late) s = (.error f, s') := by
  induction early generalizing s with
  | nil => cases h
  | cons data rest ih =>
    rcases step : s.keep data with ⟨f' | _, between⟩
    · rw [keepAll_cons_error step] at h
      rw [List.cons_append, keepAll_cons_error step, h]
    · rw [keepAll_cons_ok step] at h
      rw [List.cons_append, keepAll_cons_ok step, ih h]

/-- What making sure of a block keeps is kept by making sure of some of them. -/
theorem keepAll_induction {P : ObjectStore → Prop}
    (step : ∀ {s data result s'}, P s → s.keep data = (result, s') → P s')
    (start : P s) (bs : List Bytes) : P (keepAll bs s).2 := by
  induction bs generalizing s with
  | nil => exact start
  | cons data rest ih =>
    rcases kept : s.keep data with ⟨f | _, between⟩
    · rw [keepAll_cons_error kept]
      exact step start kept
    · rw [keepAll_cons_ok kept]
      exact ih (step start kept)

theorem gains_keepAll (bs : List Bytes) (s : ObjectStore) :
    Gains { data | data ∈ bs } s (keepAll bs s).2 := by
  induction bs generalizing s with
  | nil => exact refl s
  | cons data rest ih =>
    have first : Gains { content | content ∈ data :: rest } s (s.keep data).2 :=
      (gains_keep data s).mono (by simp)
    rcases step : s.keep data with ⟨f | _, between⟩
    · rw [keepAll_cons_error step]
      rwa [step] at first
    · rw [keepAll_cons_ok step]
      rw [step] at first
      have others : Gains { content | content ∈ data :: rest } between (keepAll rest between).2 :=
        (ih between).mono fun content inside => List.mem_cons_of_mem _ inside
      exact IsTrans.trans _ _ _ first others

/-- What the store has been made sure of is there in the end. -/
theorem shows_of_keepAll (h : keepAll bs s = (.ok (), s')) (inside : data ∈ bs) :
    s'.Shows (Digest.of data) := by
  induction bs generalizing s with
  | nil => cases inside
  | cons first rest ih =>
    rcases step : s.keep first with ⟨f | _, between⟩
    · cases (keepAll_cons_error step).symm.trans h
    · rw [keepAll_cons_ok step] at h
      rcases List.mem_cons.mp inside with rfl | inside
      · have gains := gains_keepAll rest between
        rw [h] at gains
        exact gains.shows (shows_of_keep step)
      · exact ih h inside

/-- Making sure of what is there changes nothing. -/
theorem keepAll_settled (there : ∀ data ∈ bs, s.Shows (Digest.of data)) :
    keepAll bs s = (.ok (), s) := by
  induction bs with
  | nil => rfl
  | cons data rest ih =>
    have step : s.keep data = (.ok (), s) := keep_of_present (there data List.mem_cons_self)
    rw [keepAll_cons_ok step]
    exact ih fun data inside => there data (List.mem_cons_of_mem _ inside)

/-- Doing all of the work after a first part of it comes to the same as doing it at once. -/
theorem keepAll_resume (isEarly : early <+: bs) (h : keepAll bs s = (.ok (), s')) :
    keepAll bs (keepAll early s).2 = (.ok (), s') := by
  obtain ⟨late, rfl⟩ := isEarly
  rcases part : keepAll early s with ⟨f | _, between⟩
  · cases (keepAll_append_error part).symm.trans h
  · have settled : keepAll early between = (.ok (), between) :=
      keepAll_settled fun data inside => shows_of_keepAll part inside
    rw [keepAll_append_ok part] at h
    rw [keepAll_append_ok settled, h]

/-- Making sure of known blocks loses nothing, and leaves them readable if it succeeds. -/
theorem keepAll_spec {known : Set Bytes} (distinct : Distinct known)
    (areKnown : ∀ data ∈ bs, data ∈ known) (addressed : s.ContentAddressed)
    (blocks : s.blocks ⊆ known)
    {result : Except Failure Unit} (h : keepAll bs s = (result, s')) :
    Grows s s' ∧ s'.ContentAddressed ∧ s'.blocks ⊆ known ∧
      (result = .ok () → ∀ data ∈ bs, s'.block? (Digest.of data) = some data) := by
  induction bs generalizing s with
  | nil =>
    cases h
    exact ⟨refl _, addressed, blocks, fun _ => nofun⟩
  | cons data rest ih =>
    have isKnown := areKnown data List.mem_cons_self
    have areKnown' := fun data inside => areKnown data (List.mem_cons_of_mem _ inside)
    rcases step : s.keep data with ⟨f | _, between⟩
    · cases (keepAll_cons_error step).symm.trans h
      obtain ⟨grows, addressed', blocks', -⟩ := keep_spec distinct isKnown addressed blocks step
      exact ⟨grows, addressed', blocks', nofun⟩
    · rw [keepAll_cons_ok step] at h
      obtain ⟨grows, addressed', blocks', readable⟩ :=
        keep_spec distinct isKnown addressed blocks step
      obtain ⟨grows', addressed'', blocks'', readable'⟩ := ih areKnown' addressed' blocks' h
      refine ⟨IsTrans.trans _ _ _ grows grows', addressed'', blocks'', fun succeeds => ?_⟩
      intro content inside
      rcases List.mem_cons.mp inside with rfl | inside
      · exact grows'.block? (readable rfl)
      · exact readable' succeeds content inside

/-- Where nothing is in the way all blocks can be stored, and nothing is in the way afterwards. -/
theorem Usable.keepAll (usable : s.Usable) (bs : List Bytes) :
    ∃ s', keepAll bs s = (.ok (), s') ∧ s'.Usable := by
  induction bs generalizing s with
  | nil => exact ⟨s, rfl, usable⟩
  | cons data rest ih =>
    have step : ∃ between, s.keep data = (.ok (), between) ∧ between.Usable := by
      rcases there : s.block? (Digest.of data) with _ | content
      · obtain ⟨between, wrote⟩ := usable.put_done (Digest.of data) data
        exact ⟨between, (keep_of_absent (usable.misses there).isThere).trans wrote,
          usable.put wrote⟩
      · exact ⟨s, keep_of_present (answers_of_block? there).isThere, usable⟩
    obtain ⟨between, kept, usable'⟩ := step
    obtain ⟨s', done, usable''⟩ := ih usable'
    exact ⟨s', (keepAll_cons_ok kept).trans done, usable''⟩

/-- Removing a block leaves the others there. -/
theorem shows_delete (h : s.delete (BlockPath.write s.features d) = .ok s') {d' : Digest}
    (other : d' ≠ d) (shows : s.Shows d') : s'.Shows d' := by
  cases s with
  | memory objects =>
    cases h
    have kept := (held_erase objects d d').trans (if_neg other)
    rwa [shows_memory, kept, ← shows_memory]
  | directory s =>
    obtain ⟨t, step, rfl⟩ := delete_directory h
    obtain ⟨later, -, others, -⟩ := Directory.delete_spec step
    obtain ⟨located, there⟩ := Directory.isThere_write.mp shows
    refine Directory.isThere_write.mpr ?_
    rw [later.target, later.place, others d' other]
    exact ⟨later.keeps.locate located, there⟩

/-! ## Removing one block after the other -/

/-- The store without a block, if that can be removed. -/
def drop (d : Digest) (s : ObjectStore) : ObjectStore :=
  match s.delete (BlockPath.write s.features d) with
  | .ok s' => s'
  | .error _ => s

/-- The store without some blocks, as far as these can be removed. -/
def dropAll (ds : List Digest) (s : ObjectStore) : ObjectStore :=
  ds.foldl (fun s d => s.drop d) s

variable {d' : Digest} {ds : List Digest}

theorem drop_of_ok (h : s.delete (BlockPath.write s.features d) = .ok s') : s.drop d = s' := by
  rw [drop, h]

theorem drop_of_error {f : Failure} (h : s.delete (BlockPath.write s.features d) = .error f) :
    s.drop d = s := by
  rw [drop, h]

theorem dropAll_append (ds ds' : List Digest) (s : ObjectStore) :
    s.dropAll (ds ++ ds') = (s.dropAll ds).dropAll ds' :=
  List.foldl_append

/-- What removing a block keeps is kept by removing some of them. -/
theorem dropAll_induction {P : ObjectStore → Prop}
    (step : ∀ {s d s'}, P s → s.delete (BlockPath.write s.features d) = .ok s' → P s')
    (start : P s) (ds : List Digest) : P (s.dropAll ds) := by
  induction ds generalizing s with
  | nil => exact start
  | cons d rest ih =>
    refine ih (s := s.drop d) ?_
    rcases removed : s.delete (BlockPath.write s.features d) with f | s'
    · rwa [drop_of_error removed]
    · rw [drop_of_ok removed]
      exact step start removed

/-- Nothing else is removed. -/
theorem sheds_drop (d : Digest) (s : ObjectStore) : Sheds (· = d) s (s.drop d) := by
  rcases removed : s.delete (BlockPath.write s.features d) with f | s'
  · rw [drop_of_error removed]
    exact refl s
  · rw [drop_of_ok removed]
    obtain ⟨later, -, others, own⟩ := held_delete removed
    refine ⟨later, fun d' => ?_⟩
    by_cases same : d' = d
    · subst same
      exact own.imp_right fun gone => ⟨rfl, gone⟩
    · exact Or.inl (others d' same)

theorem sheds_dropAll (ds : List Digest) (s : ObjectStore) : Sheds (· ∈ ds) s (s.dropAll ds) := by
  induction ds generalizing s with
  | nil => exact refl s
  | cons d rest ih =>
    have first : Sheds (· ∈ d :: rest) s (s.drop d) :=
      (sheds_drop d s).mono fun _ same => same ▸ List.mem_cons_self
    have others : Sheds (· ∈ d :: rest) (s.drop d) ((s.drop d).dropAll rest) :=
      (ih (s.drop d)).mono fun _ inside => List.mem_cons_of_mem _ inside
    exact IsTrans.trans _ _ _ first others

/-- What could be read is gone. -/
theorem held_dropAll (inside : d ∈ ds) (there : s.block? d = some data) :
    (s.dropAll ds).held d = none := by
  induction ds generalizing s with
  | nil => cases inside
  | cons first rest ih =>
    by_cases same : d = first
    · subst same
      obtain ⟨s', removed, gone⟩ := delete_of_block? there
      have sheds := sheds_dropAll rest (s.drop d)
      rcases sheds.held d with unchanged | ⟨-, absent⟩
      · exact unchanged.trans ((drop_of_ok removed).symm ▸ gone)
      · exact absent
    · exact ih ((List.mem_cons.mp inside).resolve_left same)
        ((sheds_drop first s).block? same there)

/-- In a store of blocks nothing is left but what was there and has not been removed. -/
theorem held_of_dropAll (regular : s.Regular) (left : (s.dropAll ds).held d = some data) :
    d ∉ ds ∧ s.held d = some data := by
  have before : s.held d = some data := by
    rcases (sheds_dropAll ds s).held d with same | ⟨-, absent⟩
    · exact same.symm.trans left
    · cases absent.symm.trans left
  refine ⟨fun inside => ?_, before⟩
  cases (held_dropAll inside ((regular.block?_eq_held d).trans before)).symm.trans left

/-- Removing a block leaves the others there. -/
theorem shows_drop (other : d' ≠ d) (shows : s.Shows d') : (s.drop d).Shows d' := by
  rcases removed : s.delete (BlockPath.write s.features d) with f | s'
  · rwa [drop_of_error removed]
  · rw [drop_of_ok removed]
    exact shows_delete removed other shows

theorem shows_dropAll (apart : d ∉ ds) (shows : s.Shows d) : (s.dropAll ds).Shows d := by
  induction ds generalizing s with
  | nil => exact shows
  | cons first rest ih =>
    have other : d ≠ first := fun same => apart (same ▸ List.mem_cons_self)
    exact ih (fun inside => apart (List.mem_cons_of_mem _ inside)) (shows_drop other shows)

end ObjectStore

/-! ## Programs that store blocks -/

/-- Storage that tells no lies, and that refuses no call but, it may be, one that writes or removes
an object. -/
structure Conduct.RefusesOnlyChanges (c : Conduct) : Prop where
  truthful : c.lies = []
  proceeds : ∀ clock op, (∀ path, op ≠ .put path) → (∀ path, op ≠ .delete path) →
    c.verdict clock op = .proceed

theorem Conduct.refusesOnlyChanges_honest : honest.RefusesOnlyChanges := ⟨rfl, fun _ _ _ _ => rfl⟩

namespace Program

open ObjectStore

variable {ε ε' α β : Type} {bs bs' : List Bytes} {a : α} {b : β} {p : Program ε α}
  {f : α → Program ε β} {w w' : World}

/-- What a run comes to that makes sure of some blocks: it is done, or it has done a first part of
the work.  Where storage is honest there is no other reason for that than that the store can not do
more. -/
inductive Stored (bs : List Bytes) (a : α) (w : World) : Outcome ε α → World → Prop where
  | done {w' : World} (stored : keepAll bs w.store = (.ok (), w'.store))
      (moved : World.Changes w w') :
      Stored bs a w (.done a) w'
  | stopped {w' : World} {outcome : Outcome ε α} {early : List Bytes} (isEarly : early <+: bs)
      (part : w'.store = (keepAll early w.store).2) (notDone : ∀ b, outcome ≠ .done b)
      (stuck : w.conduct = .honest → ∃ f, keepAll bs w.store = (.error f, w'.store))
      (moved : World.Changes w w') : Stored bs a w outcome w'

/-- A program that makes sure of some blocks, one after the other, and does nothing else. -/
structure Stores (bs : List Bytes) (a : α) (p : Program ε α) : Prop where
  /-- No storage makes it give another answer. -/
  answer : ∀ {w b w'}, p w = (.done b, w') → b = a
  run : ∀ {w}, w.conduct.lies = [] → Stored bs a w (p w).1 (p w).2
  /-- Where the blocks are there already, it does not ask for anything to be written. -/
  settled : ∀ {w}, w.conduct.RefusesOnlyChanges → (∀ data ∈ bs, w.store.Shows (Digest.of data)) →
    ∃ w', p w = (.done a, w') ∧ World.Untouched w w'

theorem Stored.moved {outcome : Outcome ε α} (stored : Stored bs a w outcome w') :
    World.Changes w w' := by
  cases stored with
  | done _ moved => exact moved
  | stopped _ _ _ _ moved => exact moved

/-- Whatever becomes of a run, it has made sure of a first part of the blocks. -/
theorem Stored.part {outcome : Outcome ε α} (stored : Stored bs a w outcome w') :
    ∃ early, early <+: bs ∧ w'.store = (keepAll early w.store).2 := by
  cases stored with
  | done stored => exact ⟨bs, List.prefix_refl _, by rw [stored]⟩
  | stopped isEarly part => exact ⟨_, isEarly, part⟩

namespace Stores

theorem pure (a : α) : Stores [] a (Pure.pure a : Program ε α) where
  answer h := by
    cases h
    rfl
  run _ := .done rfl ⟨trivial, rfl, rfl, rfl⟩
  settled _ _ := ⟨_, rfl, refl _⟩

theorem log (e : Log.Event) : Stores [] () (log e : Program ε Unit) where
  answer _ := rfl
  run _ := .done rfl ⟨trivial, rfl, rfl, rfl⟩
  settled _ _ := ⟨_, rfl, rfl, rfl, rfl, rfl⟩

theorem mapError {g : ε → ε'} (stores : Stores bs a p) : Stores bs a (mapError g p) where
  answer h := stores.answer (done_of_mapError h)
  run {w} truthful := by
    have stored := stores.run truthful
    unfold Program.mapError
    rcases run : p w with ⟨b | e | _, w'⟩
    all_goals rw [run] at stored
    · cases stored with
      | done stored moved => exact .done stored moved
      | stopped _ _ notDone => exact absurd rfl (notDone b)
    · cases stored with
      | stopped isEarly part notDone stuck moved => exact .stopped isEarly part nofun stuck moved
    · cases stored with
      | stopped isEarly part notDone stuck moved => exact .stopped isEarly part nofun stuck moved
  settled obliging there := by
    obtain ⟨w', done, untouched⟩ := stores.settled obliging there
    exact ⟨w', mapError_of_done done, untouched⟩

theorem put (data : Bytes) : Stores [data] (Digest.of data) (Blocks.put data) where
  answer {w b w'} h := by
    obtain ⟨path, _, -, h⟩ := done_of_bind h
    obtain ⟨there, _, -, h⟩ := done_of_bind h
    split at h
    · obtain ⟨_, _, -, h⟩ := done_of_bind h
      cases h
      rfl
    · obtain ⟨_, _, -, h⟩ := done_of_bind h
      cases h
      rfl
  run {w} truthful := by
    have cases := Blocks.put_cases truthful data
    generalize (Blocks.put data w).1 = outcome at cases ⊢
    generalize (Blocks.put data w).2 = w' at cases ⊢
    cases cases with
    | kept kept moved => exact .done (keepAll_cons_ok kept) moved
    | stuck stuck moved =>
      have whole : keepAll [data] w.store = (.error _, w'.store) := keepAll_cons_error stuck
      exact .stopped (List.prefix_refl _) (by rw [whole]) nofun (fun _ => ⟨_, whole⟩) moved
    | refused dishonest notDone moved =>
      exact .stopped List.nil_prefix moved.store.symm notDone
        (fun honest => absurd honest dishonest) moved.moves
  settled {w} obliging there := by
    have asked : Storage.isThere (BlockPath.write w.store.features (Digest.of data)) w
        = (.done true, w.ticked) := by
      have called := Storage.call_proceeds (obliging.proceeds w.clock
        (.isThere (BlockPath.write w.store.features (Digest.of data))) nofun nofun)
      rw [Storage.isThere_eq obliging.truthful, bind_of_done called, Storage.ask,
        World.store_ticked, there data List.mem_cons_self]
    exact ⟨_, (bind_of_done rfl).trans ((bind_of_done asked).trans rfl), rfl, rfl, rfl, rfl⟩

theorem add (node : Node) : Stores [node.encode] node.digest (Graph.add node) := put _

theorem bind (first : Stores bs a p) (second : Stores bs' b (f a)) :
    Stores (bs ++ bs') b (p >>= f) where
  answer h := by
    obtain ⟨a', between, done, h⟩ := done_of_bind h
    cases first.answer done
    exact second.answer h
  run {w} truthful := by
    have stored := first.run truthful
    rw [bind_apply]
    rcases run : p w with ⟨a' | e | _, between⟩
    all_goals rw [run] at stored
    · cases stored with
      | done kept moved =>
        have stored' := second.run (moved.truthful truthful)
        dsimp only
        generalize (f a between).1 = outcome at stored' ⊢
        generalize (f a between).2 = w' at stored' ⊢
        cases stored' with
        | done kept' moved' =>
          exact .done ((keepAll_append_ok kept).trans kept') (IsTrans.trans _ _ _ moved moved')
        | @stopped _ _ early isEarly part notDone stuck moved' =>
          refine .stopped ((List.prefix_append_right_inj bs).mpr isEarly) ?_ notDone ?_
            (IsTrans.trans _ _ _ moved moved')
          · rw [keepAll_append_ok kept]
            exact part
          · intro honest
            rw [keepAll_append_ok kept]
            exact stuck (moved.conduct.trans honest)
      | stopped _ _ notDone => exact absurd rfl (notDone a')
    all_goals
      cases stored with
      | stopped isEarly part notDone stuck moved =>
        refine .stopped (isEarly.trans (List.prefix_append _ _)) part nofun (fun honest => ?_) moved
        obtain ⟨f, failed⟩ := stuck honest
        exact ⟨f, keepAll_append_error failed⟩
  settled obliging there := by
    obtain ⟨between, done, untouched⟩ := first.settled obliging fun data inside =>
      there data (List.mem_append_left _ inside)
    obtain ⟨w', done', untouched'⟩ := second.settled (untouched.conduct ▸ obliging)
      fun data inside => untouched.store ▸ there data (List.mem_append_right _ inside)
    exact ⟨w', (bind_of_done done).trans done', IsTrans.trans _ _ _ untouched untouched'⟩

/-- Storing known blocks loses nothing, and leaves them readable if it gives an answer. -/
theorem ensures {known : Set Bytes} (stores : Stores bs a p) (distinct : Distinct known)
    (areKnown : ∀ data ∈ bs, data ∈ known) (sound : w.Sound known) :
    Ensures known World.Grows w p fun b w' =>
      b = a ∧ ∀ data ∈ bs, w'.store.block? (Digest.of data) = some data := by
  have stored := stores.run sound.truthful
  have moved := stored.moved
  obtain ⟨early, isEarly, part⟩ := stored.part
  rcases kept : keepAll early w.store with ⟨result, store⟩
  rw [kept] at part
  obtain ⟨grows, addressed, blocks, -⟩ := keepAll_spec distinct
    (fun data inside => areKnown data (isEarly.subset inside)) sound.addressed sound.blocks kept
  refine ⟨⟨part ▸ grows, moved.records, moved.pins, moved.conduct⟩,
    ⟨moved.truthful sound.truthful, part ▸ addressed, part ▸ blocks⟩, fun {b w'} h => ?_⟩
  rw [h] at stored
  cases stored with
  | done stored =>
    exact ⟨rfl, (keepAll_spec distinct areKnown sound.addressed sound.blocks stored).2.2.2 rfl⟩
  | stopped _ _ notDone => exact absurd rfl (notDone b)

end Stores

end Program

end PinnedStore
