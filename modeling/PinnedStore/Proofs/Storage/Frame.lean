import Mathlib.Data.Set.Function
import Mathlib.Order.Defs.Unbundled
import PinnedStore.Proofs.Storage.Held
import PinnedStore.Storage.Operations

/-!
# What programs leave alone

A program may fail or be stopped at any of its calls, so what can be said of every run of it is a
relation between the world it starts in and the world it leaves.  These relations are reflexive and
transitive, and are proved of a program from its parts; where the program stops in between does not
matter, because each part keeps to the relation by itself.

Some relations are kept to in every world.  Others are kept to where the storage tells no lies, the
store is content-addressed, and all blocks in it belong to a set `known` of byte strings, which
stands for the blocks that are stored or written in the end.  No two of them are supposed to have
the same digest; then a block that is written again is written with the same content.

* `Distinct`: no two blocks of a set have the same digest.
* `World.Sound`: the storage tells no lies and holds known blocks, each under its digest.
* `World.Moves`: only the store has changed, and only in one way.
* `Program.KeepsTo`, `Program.OnlyReads`: every run of a program keeps to a relation, or changes
  nothing.
* `Program.AllOrNothing`: no run of a program that gives no answer changes anything.
* `Program.Does`: every run of a program in a sound world keeps to a relation.
-/

namespace PinnedStore

/-- No two of these blocks have the same digest. -/
def Distinct (blocks : Set Bytes) : Prop := Set.InjOn Digest.of blocks

theorem Distinct.mono {blocks more : Set Bytes} (distinct : Distinct more) (sub : blocks ⊆ more) :
    Distinct blocks :=
  Set.InjOn.mono sub distinct

/-- Finitely many blocks can be compared one by one. -/
theorem distinct_of_pairwise {blocks : Set Bytes} {all : List Bytes}
    (inside : ∀ data ∈ blocks, data ∈ all)
    (apart : all.Pairwise fun a b => Digest.of a = Digest.of b → a = b) : Distinct blocks := by
  have alike : ∀ a ∈ all, Digest.of a = Digest.of a → a = a := by
    intro a _ _
    rfl
  have flipped : all.Pairwise (flip fun a b => Digest.of a = Digest.of b → a = b) := by
    refine apart.imp ?_
    intro a b equal same
    exact (equal same.symm).symm
  intro a h b h' same
  exact List.Pairwise.forall_of_forall_of_flip alike apart flipped (inside a h) (inside b h') same

/-! ## Stores -/

namespace ObjectStore

/-- The blocks a store holds. -/
def blocks (s : ObjectStore) : Set Bytes := { data | ∃ d, s.held d = some data }

theorem blocks_inMemory : inMemory.blocks = ∅ := by
  refine Set.eq_empty_of_forall_notMem ?_
  rintro data ⟨d, h⟩
  rw [held_inMemory] at h
  cases h

/-- Nothing that is held has been lost or altered. -/
structure Grows (s s' : ObjectStore) : Prop where
  later : Later s s'
  held : ∀ {d data}, s.held d = some data → s'.held d = some data

/-- Anything may have happened. -/
def Changes (_ _ : ObjectStore) : Prop := True

/-- Nothing has happened but that some blocks have been removed. -/
structure Sheds (gone : Digest → Prop) (s s' : ObjectStore) : Prop where
  later : Later s s'
  held : ∀ d, s'.held d = s.held d ∨ (gone d ∧ s'.held d = none)

variable {s s' : ObjectStore} {gone : Digest → Prop} {d : Digest} {data : Bytes}

instance : IsPreorder ObjectStore Changes where
  refl _ := trivial
  trans _ _ _ _ _ := trivial

instance : IsPreorder ObjectStore Grows where
  refl s := ⟨.refl s, id⟩
  trans _ _ _ first second := ⟨first.later.trans second.later, fun h => second.held (first.held h)⟩

instance : IsPreorder ObjectStore (Sheds gone) where
  refl s := ⟨.refl s, fun _ => Or.inl rfl⟩
  trans s s' s'' first second := by
    refine ⟨first.later.trans second.later, fun d => ?_⟩
    rcases second.held d with same | lost
    · exact same ▸ first.held d
    · exact Or.inr lost

theorem Grows.block? (grows : Grows s s') (h : s.block? d = some data) :
    s'.block? d = some data := by
  obtain ⟨isOpen, held⟩ := block?_eq_some.mp h
  have stillOpen : s'.isOpen d := grows.later.isOpen isOpen
  have stillHeld : s'.held d = some data := grows.held held
  exact block?_eq_some.mpr ⟨stillOpen, stillHeld⟩

theorem Sheds.block? (sheds : Sheds gone s s') (stays : ¬ gone d) (h : s.block? d = some data) :
    s'.block? d = some data := by
  obtain ⟨isOpen, held⟩ := block?_eq_some.mp h
  have stillOpen : s'.isOpen d := sheds.later.isOpen isOpen
  rcases sheds.held d with same | ⟨lost, -⟩
  · have stillHeld : s'.held d = some data := same.trans held
    exact block?_eq_some.mpr ⟨stillOpen, stillHeld⟩
  · exact absurd lost stays

theorem Sheds.mono {gone' : Digest → Prop} (sheds : Sheds gone s s')
    (weaker : ∀ d, gone d → gone' d) :
    Sheds gone' s s' := by
  refine ⟨sheds.later, ?_⟩
  intro d
  rcases sheds.held d with same | ⟨lost, absent⟩
  · exact Or.inl same
  · exact Or.inr ⟨weaker d lost, absent⟩

end ObjectStore

/-! ## Worlds -/

namespace World

/-- The storage tells no lies and holds known blocks, each under its digest. -/
structure Sound (known : Set Bytes) (w : World) : Prop where
  truthful : w.conduct.lies = []
  addressed : w.store.ContentAddressed
  blocks : w.store.blocks ⊆ known

/-- Apart from calls counted and things said, only the store has changed, and only in one way. -/
structure Moves (change : ObjectStore → ObjectStore → Prop) (w w' : World) : Prop where
  store : change w.store w'.store
  records : w'.records = w.records
  pins : w'.pins = w.pins
  conduct : w'.conduct = w.conduct

/-- Nothing has been changed, apart from calls counted and things said. -/
abbrev Untouched : World → World → Prop := Moves Eq

/-- Nothing but the store may have been changed. -/
abbrev Changes : World → World → Prop := Moves ObjectStore.Changes

/-- Blocks may have been added. -/
abbrev Grows : World → World → Prop := Moves ObjectStore.Grows

/-- Some blocks may have been removed. -/
abbrev Sheds (gone : Digest → Prop) : World → World → Prop := Moves (ObjectStore.Sheds gone)

variable {known : Set Bytes} {w w' : World} {change : ObjectStore → ObjectStore → Prop}

instance [IsPreorder ObjectStore change] : IsPreorder World (Moves change) where
  refl _ := ⟨refl _, rfl, rfl, rfl⟩
  trans _ _ _ first second := by
    have records := second.records.trans first.records
    have pins := second.pins.trans first.pins
    have conduct := second.conduct.trans first.conduct
    exact ⟨IsTrans.trans _ _ _ first.store second.store, records, pins, conduct⟩

theorem Untouched.moves [IsPreorder ObjectStore change] (h : Untouched w w') : Moves change w w' :=
  ⟨h.store ▸ refl _, h.records, h.pins, h.conduct⟩

theorem Sheds.mono {gone gone' : Digest → Prop} (sheds : Sheds gone w w')
    (weaker : ∀ d, gone d → gone' d) : Sheds gone' w w' :=
  ⟨sheds.store.mono weaker, sheds.records, sheds.pins, sheds.conduct⟩

theorem truthful_of_honest (honest : w.conduct = .honest) : w.conduct.lies = [] := by
  rw [honest]
  rfl

theorem proceeds_of_honest (honest : w.conduct = .honest) (op : Operation) :
    w.conduct.verdict w.clock op = .proceed := by
  rw [honest]
  rfl

theorem Moves.truthful (h : Moves change w w') (truthful : w.conduct.lies = []) :
    w'.conduct.lies = [] := by
  rw [h.conduct]
  exact truthful

theorem Untouched.sound (h : Untouched w w') (sound : w.Sound known) : w'.Sound known := by
  constructor
  · rw [h.conduct]
    exact sound.truthful
  · rw [← h.store]
    exact sound.addressed
  · rw [← h.store]
    exact sound.blocks

theorem Sound.digest_of_block? (sound : w.Sound known) {d : Digest} {data : Bytes}
    (h : w.store.block? d = some data) : Digest.of data = d :=
  sound.addressed.digest_of_held (ObjectStore.held_of_block? h)

theorem Sound.mem_known (sound : w.Sound known) {d : Digest} {data : Bytes}
    (h : w.store.block? d = some data) : data ∈ known :=
  sound.blocks ⟨d, ObjectStore.held_of_block? h⟩

end World

/-! ## Programs -/

/-- Whether a program has given an answer. -/
def Outcome.isDone {ε α : Type} : Outcome ε α → Bool
  | .done _ => true
  | _ => false

/-- The answer of a program, if it has given one. -/
def Outcome.value? {ε α : Type} : Outcome ε α → Option α
  | .done a => some a
  | _ => none

namespace Program

variable {ε ε' α β : Type}

theorem done_of_value? {p : Program ε α} {w : World} {a : α} (h : (p w).1.value? = some a) :
    p w = (.done a, (p w).2) := by
  rcases run : p w with ⟨a' | e | _, w'⟩
  · rw [run] at h
    cases h
    rfl
  · rw [run] at h
    cases h
  · rw [run] at h
    cases h

theorem exists_done {p : Program ε α} {w : World} (h : (p w).1.isDone = true) :
    ∃ a w', p w = (.done a, w') := by
  rcases run : p w with ⟨a | e | _, w'⟩
  · exact ⟨a, w', rfl⟩
  · rw [run] at h
    cases h
  · rw [run] at h
    cases h

theorem bind_of_done {p : Program ε α} {f : α → Program ε β} {w w' : World} {a : α}
    (h : p w = (.done a, w')) : (p >>= f) w = f a w' := by
  rw [bind_apply, h]

theorem bind_of_eq {p q : Program ε α} {f : α → Program ε β} {w : World} (same : p w = q w) :
    (p >>= f) w = (q >>= f) w := by
  rw [bind_apply, bind_apply, same]

theorem done_of_bind {p : Program ε α} {f : α → Program ε β} {w w' : World} {b : β}
    (h : (p >>= f) w = (.done b, w')) :
    ∃ a between, p w = (.done a, between) ∧ f a between = (.done b, w') := by
  rw [bind_apply] at h
  split at h
  · next a between first => exact ⟨a, between, first, h⟩
  · cases h
  · cases h

theorem failed_of_bind {p : Program ε α} {f : α → Program ε β} {w w' : World} {e : ε}
    (h : (p >>= f) w = (.failed e, w')) :
    p w = (.failed e, w') ∨
      ∃ a between, p w = (.done a, between) ∧ f a between = (.failed e, w') := by
  rw [bind_apply] at h
  split at h
  · next a between first => exact Or.inr ⟨a, between, first, h⟩
  · next first => cases h; exact Or.inl first
  · cases h

theorem failed_of_mapError {f : ε → ε'} {p : Program ε α} {w w' : World} {e' : ε'}
    (h : mapError f p w = (.failed e', w')) : ∃ e, e' = f e := by
  unfold mapError at h
  split at h
  · cases h
  · next e _ _ => cases h; exact ⟨e, rfl⟩
  · cases h

theorem mapError_of_done {f : ε → ε'} {p : Program ε α} {w w' : World} {a : α}
    (h : p w = (.done a, w')) : mapError f p w = (.done a, w') := by
  rw [mapError, h]

theorem done_of_mapError {f : ε → ε'} {p : Program ε α} {w w' : World} {a : α}
    (h : mapError f p w = (.done a, w')) : p w = (.done a, w') := by
  unfold mapError at h
  split at h
  · next first => cases h; exact first
  · cases h
  · cases h

theorem mapError_eq_done {f : ε → ε'} {p : Program ε α} {w w' : World} {a : α} :
    mapError f p w = (.done a, w') ↔ p w = (.done a, w') :=
  ⟨done_of_mapError, mapError_of_done⟩

theorem mapError_mapError {ε'' : Type} (f : ε → ε') (g : ε' → ε'') (p : Program ε α) :
    mapError g (mapError f p) = mapError (g ∘ f) p := by
  funext w
  unfold mapError
  rcases p w with ⟨_ | _ | _, _⟩ <;> rfl

theorem mapError_bind (f : ε → ε') (p : Program ε α) (next : α → Program ε β) :
    mapError f (p >>= next) = mapError f p >>= fun a => mapError f (next a) := by
  funext w
  rw [bind_apply]
  unfold mapError
  rw [bind_apply]
  rcases p w with ⟨_ | _ | _, _⟩ <;> rfl

theorem done_of_attempt {p : Program ε α} {w w' : World} {a : α}
    (h : (attempt p : Program ε' (Except ε α)) w = (.done (.ok a), w')) : p w = (.done a, w') := by
  unfold attempt at h
  split at h
  · next first => cases h; exact first
  · cases h
  · cases h

theorem failed_of_attempt {p : Program ε α} {w w' : World} {e : ε}
    (h : (attempt p : Program ε' (Except ε α)) w = (.done (.error e), w')) :
    p w = (.failed e, w') := by
  unfold attempt at h
  split at h
  · cases h
  · next first => cases h; exact first
  · cases h

/-- Every run of a program keeps to a relation between the world it starts in and the world it
leaves. -/
def KeepsTo (R : World → World → Prop) (p : Program ε α) : Prop :=
  ∀ w, R w (p w).2

namespace KeepsTo

variable {R : World → World → Prop}

/-- What is so of the world that a run has left, whatever has become of it. -/
theorem leaves {p : Program ε α} (keeps : KeepsTo R p) {w w' : World} {outcome : Outcome ε α}
    (h : p w = (outcome, w')) : R w w' := by
  have kept := keeps w
  rw [h] at kept
  exact kept

theorem mono {R' : World → World → Prop} {p : Program ε α} (keeps : KeepsTo R p)
    (weaker : ∀ w w', R w w' → R' w w') : KeepsTo R' p :=
  fun w => weaker w _ (keeps w)

theorem mapError {f : ε → ε'} {p : Program ε α} (keeps : KeepsTo R p) :
    KeepsTo R (mapError f p) := by
  intro w
  unfold Program.mapError
  rcases h : p w with ⟨_ | _ | _, w'⟩ <;> exact keeps.leaves h

theorem attempt {p : Program ε α} (keeps : KeepsTo R p) :
    KeepsTo R (attempt p : Program ε' (Except ε α)) := by
  intro w
  unfold Program.attempt
  rcases h : p w with ⟨_ | _ | _, w'⟩ <;> exact keeps.leaves h

theorem ite {c : Prop} [Decidable c] {p q : Program ε α} (yes : c → KeepsTo R p)
    (no : ¬ c → KeepsTo R q) : KeepsTo R (if c then p else q) := by
  split
  · exact yes ‹_›
  · exact no ‹_›

variable [IsPreorder World R]

theorem pure (a : α) : KeepsTo R (Pure.pure a : Program ε α) := refl

theorem fail (e : ε) : KeepsTo R (fail e : Program ε α) := refl

theorem halt : KeepsTo R (halt : Program ε α) := refl

theorem inspect (read : World → α) : KeepsTo R (inspect read : Program ε α) := refl

theorem ofExcept (x : Except ε α) : KeepsTo R (ofExcept x) := by
  cases x with
  | ok a => exact pure a
  | error e => exact fail e

theorem bind {p : Program ε α} {f : α → Program ε β} (first : KeepsTo R p)
    (second : ∀ a, KeepsTo R (f a)) : KeepsTo R (p >>= f) := by
  intro w
  rw [bind_apply]
  rcases h : p w with ⟨a | e | _, between⟩
  · exact IsTrans.trans _ _ _ (first.leaves h) (second a between)
  · exact first.leaves h
  · exact first.leaves h

theorem forEach {items : List α} {body : α → Program ε Unit}
    (each : ∀ a ∈ items, KeepsTo R (body a)) : KeepsTo R (forEach items body) := by
  induction items with
  | nil => exact pure ()
  | cons item rest ih =>
    have first := each item List.mem_cons_self
    have others : ∀ a ∈ rest, KeepsTo R (body a) := by
      intro a h
      exact each a (List.mem_cons_of_mem _ h)
    exact bind first fun _ => ih others

theorem foldlM {items : List α} {body : β → α → Program ε β}
    (each : ∀ b, ∀ a ∈ items, KeepsTo R (body b a)) (b : β) :
    KeepsTo R (items.foldlM body b) := by
  induction items generalizing b with
  | nil => exact pure b
  | cons item rest ih =>
    have first := each b item List.mem_cons_self
    have others : ∀ b, ∀ a ∈ rest, KeepsTo R (body b a) := by
      intro b a h
      exact each b a (List.mem_cons_of_mem _ h)
    rw [List.foldlM_cons]
    exact bind first fun b' => ih others b'

end KeepsTo

/-- No run of a program changes anything, apart from calls counted and things said. -/
abbrev OnlyReads (p : Program ε α) : Prop := KeepsTo World.Untouched p

/-- A program that changes nothing keeps to every relation between stores. -/
theorem OnlyReads.moves {change : ObjectStore → ObjectStore → Prop} [IsPreorder ObjectStore change]
    {p : Program ε α} (reads : OnlyReads p) : KeepsTo (World.Moves change) p :=
  reads.mono fun _ _ untouched => untouched.moves

/-- A run that gives no answer changes nothing, apart from calls counted and things said. -/
def AllOrNothing (p : Program ε α) : Prop :=
  ∀ w, (∀ a w', p w ≠ (.done a, w')) → World.Untouched w (p w).2

namespace AllOrNothing

theorem of_onlyReads {p : Program ε α} (reads : OnlyReads p) : AllOrNothing p :=
  fun w _ => reads w

theorem of_done {p : Program ε α} (done : ∀ w, ∃ a w', p w = (.done a, w')) : AllOrNothing p := by
  intro w not
  obtain ⟨a, w', run⟩ := done w
  exact absurd run (not a w')

theorem bind {p : Program ε α} {f : α → Program ε β} (reads : OnlyReads p)
    (next : ∀ a, AllOrNothing (f a)) : AllOrNothing (p >>= f) := by
  intro w not
  have untouched := reads w
  rw [bind_apply] at not ⊢
  rcases run : p w with ⟨a | e | _, between⟩
  all_goals rw [run] at not untouched
  · exact IsTrans.trans _ _ _ untouched (next a between not)
  · exact untouched
  · exact untouched

end AllOrNothing

/-- Every run of a program in a sound world keeps to a relation and leaves a sound world. -/
def Does (known : Set Bytes) (R : World → World → Prop) (p : Program ε α) : Prop :=
  ∀ w, w.Sound known → R w (p w).2 ∧ (p w).2.Sound known

theorem OnlyReads.does {known : Set Bytes} {p : Program ε α} (reads : OnlyReads p) :
    Does known World.Untouched p :=
  fun w sound => ⟨reads w, (reads w).sound sound⟩

/-- What `Does` asks of the worlds before and after a run. -/
def FromSound (known : Set Bytes) (R : World → World → Prop) (w w' : World) : Prop :=
  w.Sound known → R w w' ∧ w'.Sound known

instance {known : Set Bytes} {R : World → World → Prop} [IsPreorder World R] :
    IsPreorder World (FromSound known R) where
  refl w sound := ⟨refl w, sound⟩
  trans _ _ _ first second sound := by
    obtain ⟨moved, sound'⟩ := first sound
    obtain ⟨moved', sound''⟩ := second sound'
    exact ⟨IsTrans.trans _ _ _ moved moved', sound''⟩

theorem does_iff {known : Set Bytes} {R : World → World → Prop} {p : Program ε α} :
    Does known R p ↔ KeepsTo (FromSound known R) p := Iff.rfl

namespace Does

variable {known : Set Bytes} {R : World → World → Prop}

/-- What is so of the world that a run has left, whatever has become of it. -/
theorem leaves {p : Program ε α} (does : Does known R p) {w w' : World} {outcome : Outcome ε α}
    (sound : w.Sound known) (h : p w = (outcome, w')) : R w w' ∧ w'.Sound known :=
  (does_iff.mp does).leaves h sound

theorem mono {R' : World → World → Prop} {p : Program ε α} (does : Does known R p)
    (weaker : ∀ w w', R w w' → R' w w') : Does known R' p := by
  intro w sound
  obtain ⟨moved, sound'⟩ := does w sound
  exact ⟨weaker _ _ moved, sound'⟩

theorem mapError {f : ε → ε'} {p : Program ε α} (does : Does known R p) :
    Does known R (mapError f p) :=
  does_iff.mpr (does_iff.mp does).mapError

theorem attempt {p : Program ε α} (does : Does known R p) :
    Does known R (attempt p : Program ε' (Except ε α)) :=
  does_iff.mpr (does_iff.mp does).attempt

theorem ite {c : Prop} [Decidable c] {p q : Program ε α} (yes : c → Does known R p)
    (no : ¬ c → Does known R q) : Does known R (if c then p else q) := by
  split
  · exact yes ‹_›
  · exact no ‹_›

variable [IsPreorder World R]

theorem pure (a : α) : Does known R (Pure.pure a : Program ε α) := does_iff.mpr (.pure a)

theorem fail (e : ε) : Does known R (fail e : Program ε α) := does_iff.mpr (.fail e)

theorem halt : Does known R (halt : Program ε α) := does_iff.mpr .halt

theorem inspect (read : World → α) : Does known R (inspect read : Program ε α) :=
  does_iff.mpr (.inspect read)

theorem ofExcept (x : Except ε α) : Does known R (ofExcept x) := does_iff.mpr (.ofExcept x)

theorem bind {p : Program ε α} {f : α → Program ε β} (first : Does known R p)
    (second : ∀ a, Does known R (f a)) : Does known R (p >>= f) :=
  does_iff.mpr ((does_iff.mp first).bind fun a => does_iff.mp (second a))

theorem forEach {items : List α} {body : α → Program ε Unit}
    (each : ∀ a ∈ items, Does known R (body a)) : Does known R (forEach items body) :=
  does_iff.mpr (.forEach fun a h => does_iff.mp (each a h))

theorem foldlM {items : List α} {body : β → α → Program ε β}
    (each : ∀ b, ∀ a ∈ items, Does known R (body b a)) (b : β) :
    Does known R (items.foldlM body b) :=
  does_iff.mpr (.foldlM (fun b a h => does_iff.mp (each b a h)) b)

end Does

/-! ## What an answer promises -/

/-- This run of a program keeps to a relation and leaves a sound world, and if it gives an answer
then answer and world are as promised. -/
structure Ensures (known : Set Bytes) (R : World → World → Prop) (w : World) (p : Program ε α)
    (promise : α → World → Prop) : Prop where
  moved : R w (p w).2
  sound : (p w).2.Sound known
  promise : ∀ {a w'}, p w = (.done a, w') → promise a w'

theorem Does.ensures {known : Set Bytes} {R : World → World → Prop} {p : Program ε α}
    (does : Does known R p) {w : World} (sound : w.Sound known) {promise : α → World → Prop}
    (keeps : ∀ {a w'}, p w = (.done a, w') → R w w' → w'.Sound known → promise a w') :
    Ensures known R w p promise := by
  obtain ⟨moved, sound'⟩ := does w sound
  refine ⟨moved, sound', ?_⟩
  intro a w' h
  obtain ⟨moved, sound'⟩ := does.leaves sound h
  exact keeps h moved sound'

namespace Ensures

variable {known : Set Bytes} {R : World → World → Prop} {w : World}

/-- What is so of the world that this run has left, whatever has become of it. -/
theorem leaves {p : Program ε α} {promise : α → World → Prop}
    (ensures : Ensures known R w p promise)
    {outcome : Outcome ε α} {w' : World} (h : p w = (outcome, w')) : R w w' ∧ w'.Sound known := by
  have both : R w (p w).2 ∧ (p w).2.Sound known := ⟨ensures.moved, ensures.sound⟩
  rw [h] at both
  exact both

theorem mono {p : Program ε α} {promise promise' : α → World → Prop}
    (ensures : Ensures known R w p promise)
    (weaker : ∀ a w', R w w' → w'.Sound known → promise a w' → promise' a w') :
    Ensures known R w p promise' := by
  refine ⟨ensures.moved, ensures.sound, ?_⟩
  intro a w' h
  obtain ⟨moved, sound'⟩ := ensures.leaves h
  exact weaker a w' moved sound' (ensures.promise h)

theorem mapError {f : ε → ε'} {p : Program ε α} {promise : α → World → Prop}
    (ensures : Ensures known R w p promise) : Ensures known R w (mapError f p) promise := by
  have same : (Program.mapError f p w).2 = (p w).2 := by
    unfold Program.mapError
    rcases p w with ⟨_ | _ | _, w'⟩ <;> rfl
  refine ⟨?_, ?_, ?_⟩
  · rw [same]
    exact ensures.moved
  · rw [same]
    exact ensures.sound
  · intro a w' h
    exact ensures.promise (done_of_mapError h)

variable [IsPreorder World R]

theorem pure {promise : α → World → Prop} (sound : w.Sound known) {a : α} (kept : promise a w) :
    Ensures known R w (Pure.pure a : Program ε α) promise := by
  refine ⟨refl w, sound, ?_⟩
  intro a' w' h
  cases h
  exact kept

theorem bind {p : Program ε α} {f : α → Program ε β} {between : α → World → Prop}
    {promise : β → World → Prop} (first : Ensures known R w p between)
    (second : ∀ a w', p w = (.done a, w') → R w w' → w'.Sound known → between a w' →
      Ensures known R w' (f a) promise) :
    Ensures known R w (p >>= f) promise := by
  rcases h : p w with ⟨a | e | _, w'⟩
  · obtain ⟨moved, sound⟩ := first.leaves h
    have rest := second a w' h moved sound (first.promise h)
    have run : (p >>= f) w = f a w' := bind_of_done h
    constructor
    · rw [run]
      exact IsTrans.trans _ _ _ moved rest.moved
    · rw [run]
      exact rest.sound
    · intro b w'' done
      rw [run] at done
      exact rest.promise done
  all_goals
    obtain ⟨moved, sound⟩ := first.leaves h
    constructor
    · rw [bind_apply, h]
      exact moved
    · rw [bind_apply, h]
      exact sound
    · intro b w'' done
      rw [bind_apply, h] at done
      cases done

end Ensures

/-! ## Answers under a condition -/

/-- In this world a program changes nothing; it gives this answer if a condition holds, and fails
otherwise. -/
def AnswersIff (w : World) (c : Prop) (a : α) (p : Program ε α) : Prop :=
  ∃ w', World.Untouched w w' ∧ ((c ∧ p w = (.done a, w')) ∨ (¬ c ∧ ∃ e, p w = (.failed e, w')))

namespace AnswersIff

variable {w : World} {c c' : Prop} {a : α} {b : β} {p : Program ε α}

theorem pure (holds : c) : AnswersIff w c a (Pure.pure a : Program ε α) :=
  ⟨w, refl w, Or.inl ⟨holds, rfl⟩⟩

theorem congr (same : c ↔ c') (answers : AnswersIff w c a p) : AnswersIff w c' a p :=
  propext same ▸ answers

theorem mapError {f : ε → ε'} (answers : AnswersIff w c a p) :
    AnswersIff w c a (Program.mapError f p) := by
  obtain ⟨w', moved, ⟨holds, done⟩ | ⟨not, e, failed⟩⟩ := answers
  · exact ⟨w', moved, Or.inl ⟨holds, mapError_of_done done⟩⟩
  · exact ⟨w', moved, Or.inr ⟨not, f e, by rw [Program.mapError, failed]⟩⟩

theorem bind {f : α → Program ε β} (first : AnswersIff w c a p)
    (second : c → ∀ w', World.Untouched w w' → AnswersIff w' c' b (f a)) :
    AnswersIff w (c ∧ c') b (p >>= f) := by
  obtain ⟨w', moved, ⟨holds, done⟩ | ⟨not, e, failed⟩⟩ := first
  · obtain ⟨w'', moved', rest⟩ := second holds w' moved
    refine ⟨w'', IsTrans.trans _ _ _ moved moved', ?_⟩
    rw [bind_of_done done]
    exact rest.imp (fun h => ⟨⟨holds, h.1⟩, h.2⟩) fun h => ⟨fun both => h.1 both.2, h.2⟩
  · refine ⟨w', moved, Or.inr ⟨fun both => not both.1, e, ?_⟩⟩
    rw [bind_apply, failed]

theorem inspect_bind {read : World → α} {f : α → Program ε β}
    (answers : AnswersIff w c b (f (read w))) : AnswersIff w c b (inspect read >>= f) := by
  unfold AnswersIff
  rw [bind_of_done (inspect_apply read w)]
  exact answers

theorem done (answers : AnswersIff w c a p) (holds : c) :
    ∃ w', p w = (.done a, w') ∧ World.Untouched w w' := by
  obtain ⟨w', moved, ⟨-, done⟩ | ⟨not, -⟩⟩ := answers
  · exact ⟨w', done, moved⟩
  · exact absurd holds not

end AnswersIff

section Moves

variable {known : Set Bytes} {change : ObjectStore → ObjectStore → Prop}
  [IsPreorder ObjectStore change]

/-- A program that changes nothing keeps to every relation between stores. -/
theorem Does.moves {p : Program ε α} (does : Does known World.Untouched p) :
    Does known (World.Moves change) p :=
  does.mono fun _ _ untouched => untouched.moves

theorem onlyReads_say (notice : Log.Notice) : OnlyReads (say notice : Program ε Unit) :=
  fun _ => ⟨rfl, rfl, rfl, rfl⟩

theorem onlyReads_log (e : Log.Event) : OnlyReads (log e : Program ε Unit) := onlyReads_say _

theorem does_say (notice : Log.Notice) :
    Does known (World.Moves change) (say notice : Program ε Unit) :=
  (onlyReads_say notice).does.moves

theorem does_log (e : Log.Event) : Does known (World.Moves change) (log e : Program ε Unit) :=
  does_say _

end Moves

end Program

end PinnedStore
