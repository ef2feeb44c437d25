import PinnedStore.Proofs.Collect.Preservation
import PinnedStore.Proofs.Storage.Storing
import PinnedStore.Repository.Command

/-!
# What verified pins are

Verifying walks from every recursive pin by itself and reads what lies below it; the direct pins and
the nodes of the record are only asked for.  Collecting walks from all recursive pins at once, and
does not ask for the direct pins and the nodes of the record at all.  So a collection can find out
what must be kept although some of it is gone, and verifying can succeed although some of it is no
node.

What brings the two together is that a walk reads what it meets.  Whatever lies below a recursive
pin is there if it can be read, so where a collection has its answer, nothing can be missing but
direct pins and nodes of the record, which are just the nodes that verifying asks for.  How graphs
overlap, and whether a node is kept for several reasons, makes no difference to this.

* `Pins.Met`: everything is there that the pins ask for.
* `Collect.retained_iff`: when all that must be kept is known and there.
* `Pin.Checked`, `Pin.Told`, `Pin.told_tell`: one check, and a row of checks.
* `Pin.verify_honest`: the number of problems that are found.
* `Repository.answersIff_verify`: when pins are verified.
* `Repository.verified_iff_retained`: what has been verified, in terms of what must be kept.
-/

namespace PinnedStore

open Program

variable {w w' : World} {d : Digest} {s : ObjectStore}

/-! ## What is there -/

namespace Graph

theorem has_honest (honest : w.conduct = .honest) (d : Digest) :
    has d w = match w.store.isThere (BlockPath.write w.store.features d) with
      | .ok there => (.done there, w.ticked)
      | .error f => (.failed f, w.ticked) := by
  have truthful := World.truthful_of_honest honest
  change Storage.isThere (BlockPath.write w.store.features d) w = _
  rw [Storage.isThere_eq truthful, bind_of_done (Storage.call_honest honest _), Storage.ask,
    World.store_ticked]
  rcases w.store.isThere (BlockPath.write w.store.features d) with f | there
  · rfl
  · rfl

/-- Where storage is honest, a node is said to be there just if the store shows it. -/
theorem has_iff (honest : w.conduct = .honest) :
    (∃ v, has d w = (.done true, v)) ↔ w.store.Shows d := by
  rw [has_honest honest, ObjectStore.Shows]
  rcases w.store.isThere (BlockPath.write w.store.features d) with f | there
  · simp
  · simp

/-- What can be read is there. -/
theorem shows_of_node? {n : Node} (there : s.node? d = some n) : s.Shows d := by
  obtain ⟨data, found, -⟩ := node?_eq_some.mp there
  exact ObjectStore.shows_of_block? found

end Graph

/-- Everything is there that the pins ask for. -/
structure Pins.Met (s : ObjectStore) (pins : Pins) : Prop where
  recursive : ∀ r ∈ pins.recursive, Fetchable s.node? r
  direct : ∀ d ∈ pins.direct, s.Shows d
  internal : ∀ d ∈ pins.internal, s.Shows d

/-- It can be found out what must be kept, and all of it is there, just if everything is there that
the pins ask for. -/
theorem Collect.retained_iff (honest : w.conduct = .honest) :
    (∃ kept w', retained w = (.done kept, w') ∧ ∀ d ∈ kept, w.store.Shows d)
      ↔ w.pins.Met w.store := by
  have truthful := World.truthful_of_honest honest
  constructor
  · rintro ⟨kept, w', collected, shows⟩
    obtain ⟨-, fetchable, members⟩ := retained_done truthful collected
    refine ⟨fetchable, fun d isPin => ?_, fun d isNode => ?_⟩
    · exact shows d ((members d).mpr (Or.inr (Or.inl isPin)))
    · exact shows d ((members d).mpr (Or.inr (Or.inr isNode)))
  · intro met
    obtain ⟨kept, w', collected⟩ := retained_honest honest met.recursive
    obtain ⟨-, -, members⟩ := retained_done truthful collected
    refine ⟨kept, w', collected, fun d isKept => ?_⟩
    rcases (members d).mp isKept with ⟨r, isPin, reached⟩ | isPin | isNode
    · obtain ⟨n, there⟩ := met.recursive r isPin d reached
      exact Graph.shows_of_node? there
    · exact met.direct d isPin
    · exact met.internal d isNode

namespace Pin

/-! ## Checks -/

/-- How a check of a node comes out that is to say whether the node is well: it has no problem, or
it has one, or the storage can not say. -/
inductive Checked (w : World) (well : Prop) : Outcome Failure (Option Problem) → World → Prop
  | good {w' : World} (holds : well) (moved : World.Untouched w w') : Checked w well (.done none) w'
  | bad {w' : World} {problem : Problem} (not : ¬ well) (moved : World.Untouched w w') :
    Checked w well (.done (some problem)) w'
  | unknown {w' : World} {f : Failure} (not : ¬ well) (moved : World.Untouched w w') :
    Checked w well (.failed f) w'

theorem checked_graph (honest : w.conduct = .honest) (r : Digest) :
    Checked w (Fetchable w.store.node? r) (checkGraph r w).1 (checkGraph r w).2 := by
  have moved := Graph.onlyReads_fetch r w
  have answers := Graph.fetch_iff (r := r) honest
  rw [checkGraph, bind_apply, attempt]
  rcases run : Graph.fetch r w with ⟨⟨⟩ | f | _, w'⟩
  · rw [run] at moved
    exact .good (answers.mp ⟨w', run⟩) moved
  · rw [run] at moved
    refine .bad (fun fetchable => ?_) moved
    obtain ⟨_, done⟩ := answers.mpr fetchable
    cases run.symm.trans done
  · have truthful := World.truthful_of_honest honest
    have stops := Graph.fetch_halted truthful (congrArg Prod.fst run)
    rw [honest] at stops
    exact absurd stops Conduct.not_stops_honest

theorem checked_presence (honest : w.conduct = .honest) (problem : Digest → Problem) (d : Digest) :
    Checked w (w.store.Shows d) (checkPresence problem d w).1 (checkPresence problem d w).2 := by
  rw [checkPresence, bind_apply, Graph.has_honest honest]
  rcases there : w.store.isThere (BlockPath.write w.store.features d) with f | _ | _
  · exact .unknown (fun shows => nomatch there.symm.trans shows) w.untouched_ticked
  · exact .bad (fun shows => nomatch there.symm.trans shows) w.untouched_ticked
  · exact .good there w.untouched_ticked

open scoped Classical in
/-- The number of nodes that are not well. -/
noncomputable def ailing (well : Digest → Prop) (ds : List Digest) : Nat :=
  ds.countP fun d => ¬ well d

theorem ailing_eq_zero {well : Digest → Prop} {ds : List Digest} :
    ailing well ds = 0 ↔ ∀ d ∈ ds, well d := by
  simp [ailing]

theorem ailing_cons_of_well {well : Digest → Prop} {ds : List Digest} (holds : well d) :
    ailing well (d :: ds) = ailing well ds := by
  simp [ailing, holds]

theorem ailing_cons_of_not {well : Digest → Prop} {ds : List Digest} (not : ¬ well d) :
    ailing well (d :: ds) = ailing well ds + 1 := by
  simp [ailing, not]

/-- How a row of checks comes out: the nodes are counted that are not well, unless the storage can
not say about one of them. -/
inductive Told (w : World) (well : Digest → Prop) (ds : List Digest) :
    Outcome Failure Nat → World → Prop
  | counted {w' : World} (moved : World.Untouched w w') : Told w well ds (.done (ailing well ds)) w'
  | unknown {w' : World} {f : Failure} {x : Digest} (inside : x ∈ ds) (not : ¬ well x)
    (moved : World.Untouched w w') : Told w well ds (.failed f) w'

/-- What a program does after a row of checks depends only on how many nodes are not well, as long
as the storage can say. -/
theorem Told.bind {α : Type} {row : Program Failure Nat} {next : Nat → Program Failure α}
    {well : Digest → Prop} {ds : List Digest} {Q : Outcome Failure α → World → Prop}
    (told : Told w well ds (row w).1 (row w).2)
    (counted : ∀ {between}, World.Untouched w between →
      Q (next (ailing well ds) between).1 (next (ailing well ds) between).2)
    (unknown : ∀ {f x between}, x ∈ ds → ¬ well x → World.Untouched w between →
      Q (.failed f) between) :
    Q ((row >>= next) w).1 ((row >>= next) w).2 := by
  rw [bind_apply]
  rcases run : row w with ⟨outcome, between⟩
  rw [run] at told
  cases told with
  | counted moved => exact counted moved
  | unknown inside not moved => exact unknown inside not moved

section Tell

variable {check : Digest → Program Failure (Option Problem)} {well : Digest → Prop}
    {between : World}
  {rest : List Digest}

theorem tell_of_good (run : check d w = (.done none, between)) :
    tell check (d :: rest) w = tell check rest between := by
  rw [tell, bind_of_done run]

/-- A problem is told, and counted after the others have been. -/
theorem tell_of_bad {problem : Problem} (run : check d w = (.done (some problem), between)) :
    tell check (d :: rest) w = (do return (← tell check rest) + 1 : Program Failure Nat)
      { between with journal := .remark problem.message :: between.journal } := by
  rw [tell, bind_of_done run]
  rfl

/-- The others come out the same after a node that is well. -/
theorem Told.after_good {outcome : Outcome Failure Nat} (holds : well d)
    (moved : World.Untouched w between) (told : Told between well rest outcome w') :
    Told w well (d :: rest) outcome w' := by
  cases told with
  | counted moved' =>
    rw [← ailing_cons_of_well holds]
    exact .counted (IsTrans.trans _ _ _ moved moved')
  | unknown inside not moved' =>
    exact .unknown (List.mem_cons_of_mem _ inside) not (IsTrans.trans _ _ _ moved moved')

/-- After a node that is not well there is one problem more. -/
theorem Told.after_bad (not : ¬ well d) (moved : World.Untouched w between)
    (told : Told between well rest (tell check rest between).1 (tell check rest between).2) :
    Told w well (d :: rest) ((do return (← tell check rest) + 1 : Program Failure Nat) between).1
      ((do return (← tell check rest) + 1 : Program Failure Nat) between).2 := by
  refine told.bind (Q := Told w well (d :: rest))
    (fun {w'} moved' => ?_) fun inside not' moved' => ?_
  · show Told w well (d :: rest) (.done (ailing well rest + 1)) w'
    rw [← ailing_cons_of_not not]
    exact .counted (IsTrans.trans _ _ _ moved moved')
  · exact .unknown (List.mem_cons_of_mem _ inside) not' (IsTrans.trans _ _ _ moved moved')

end Tell

/-- Checks that come out right come out right in a row. -/
theorem told_tell (well : ObjectStore → Digest → Prop)
    {check : Digest → Program Failure (Option Problem)} (honest : w.conduct = .honest)
    (each : ∀ v d, v.conduct = .honest → Checked v (well v.store d) (check d v).1 (check d v).2)
    (ds : List Digest) :
    Told w (well w.store) ds (tell check ds w).1 (tell check ds w).2 := by
  induction ds generalizing w with
  | nil => exact .counted (refl w)
  | cons d rest ih =>
    have checked := each w d honest
    rcases run : check d w with ⟨outcome, between⟩
    rw [run] at checked
    cases checked with
    | good holds moved =>
      have told := ih (moved.conduct.trans honest)
      rw [← moved.store] at told
      rw [tell_of_good run]
      exact told.after_good holds moved
    | @bad _ problem not moved =>
      let said : World := { between with journal := .remark problem.message :: between.journal }
      have told := ih (w := said) (moved.conduct.trans honest)
      have moved' : World.Untouched w said :=
        ⟨moved.store, moved.records, moved.pins, moved.conduct⟩
      rw [← moved'.store] at told
      rw [tell_of_bad run]
      exact told.after_bad not moved'
    | unknown not moved =>
      rw [tell, bind_apply, run]
      exact .unknown List.mem_cons_self not moved

theorem told_graphs (honest : w.conduct = .honest) (roots : List Digest) :
    Told w (Fetchable w.store.node?) roots (tell checkGraph roots w).1
      (tell checkGraph roots w).2 :=
  told_tell (fun s => Fetchable s.node?) honest
    (fun _ r honest => checked_graph honest r) roots

theorem told_presence (honest : w.conduct = .honest) (problem : Digest → Problem)
    (ds : List Digest) :
    Told w w.store.Shows ds (tell (checkPresence problem) ds w).1
      (tell (checkPresence problem) ds w).2 :=
  told_tell ObjectStore.Shows honest
    (fun _ d honest => checked_presence honest problem d) ds

/-! ## All checks -/

/-- The number of problems with pins. -/
noncomputable def problems (s : ObjectStore) (pins : Pins) : Nat :=
  ailing (Fetchable s.node?) pins.recursive.toList + ailing s.Shows pins.direct.toList
    + ailing s.Shows pins.internal.toList

theorem problems_eq_zero {pins : Pins} : problems s pins = 0 ↔ pins.Met s := by
  rw [problems, Nat.add_eq_zero_iff, Nat.add_eq_zero_iff, ailing_eq_zero, ailing_eq_zero,
    ailing_eq_zero]
  simp only [Std.ExtTreeSet.mem_toList]
  exact ⟨fun ⟨⟨recursive, direct⟩, internal⟩ => ⟨recursive, direct, internal⟩,
    fun met => ⟨⟨met.recursive, met.direct⟩, met.internal⟩⟩

/-- How verifying comes out: the problems are counted, unless the storage can not say whether a
direct pin or a node of the record is there. -/
inductive Verified (w : World) : Outcome Failure Nat → World → Prop
  | counted {w' : World} (moved : World.Untouched w w') :
    Verified w (.done (problems w.store w.pins)) w'
  | unknown {w' : World} {f : Failure} (not : ¬ w.pins.Met w.store) (moved : World.Untouched w w') :
    Verified w (.failed f) w'

/-- Verifying counts the problems. -/
theorem verify_honest (honest : w.conduct = .honest) : Verified w (verify w).1 (verify w).2 := by
  rw [verify, bind_of_done (show current w = (.done w.pins, w) from rfl)]
  refine (told_graphs honest _).bind (fun {w₁} moved₁ => ?_) fun inside not moved => ?_
  · have honest₁ := moved₁.conduct.trans honest
    refine (told_presence honest₁ .missing _).bind (fun {w₂} moved₂ => ?_)
      fun inside not moved => ?_
    · have moved := IsTrans.trans _ _ _ moved₁ moved₂
      have honest₂ := moved.conduct.trans honest
      refine (told_presence honest₂ .missingRecord _).bind (fun moved₃ => ?_)
        fun inside not moved₃ => ?_
      · rw [← moved₁.store, ← moved.store]
        exact .counted (IsTrans.trans _ _ _ moved moved₃)
      · rw [← moved.store] at not
        exact .unknown (fun met => not (met.internal _ (Std.ExtTreeSet.mem_toList.mp inside)))
          (IsTrans.trans _ _ _ moved moved₃)
    · rw [← moved₁.store] at not
      exact .unknown (fun met => not (met.direct _ (Std.ExtTreeSet.mem_toList.mp inside)))
        (IsTrans.trans _ _ _ moved₁ moved)
  · exact .unknown (fun met => not (met.recursive _ (Std.ExtTreeSet.mem_toList.mp inside))) moved

end Pin

namespace Repository

/-- Pins are verified just if everything is there that they ask for. -/
theorem answersIff_verify (honest : w.conduct = .honest)
    (files : List Char → Except IoError Bytes) (codec : PinSet.Codec) :
    AnswersIff w (w.pins.Met w.store) .verified (Command.verify.run files codec) := by
  have verified := Pin.verify_honest honest
  rcases run : Pin.verify w with ⟨outcome, w'⟩
  rw [run] at verified
  rw [AnswersIff, Command.run, bind_apply, mapError, run]
  cases verified with
  | counted moved =>
    dsimp only
    split
    · next none => exact ⟨w', moved, Or.inl ⟨Pin.problems_eq_zero.mp none, rfl⟩⟩
    · next some =>
        exact ⟨w', moved, Or.inr ⟨fun met => some (Pin.problems_eq_zero.mpr met), _, rfl⟩⟩
  | unknown not moved => exact ⟨w', moved, Or.inr ⟨not, _, rfl⟩⟩

/-- Pins are verified just if it can be found out what must be kept, and all of it is there. -/
theorem verified_iff_retained (honest : w.conduct = .honest)
    (files : List Char → Except IoError Bytes) (codec : PinSet.Codec) :
    (∃ w', Command.verify.run files codec w = (.done .verified, w'))
      ↔ ∃ kept w', Collect.retained w = (.done kept, w') ∧
        ∀ d ∈ kept, ∃ v, Graph.has d w = (.done true, v) := by
  simp only [Graph.has_iff honest]
  rw [Collect.retained_iff honest]
  obtain ⟨w', -, ⟨met, done⟩ | ⟨not, e, failed⟩⟩ := answersIff_verify honest files codec
  · exact iff_of_true ⟨w', done⟩ met
  · refine iff_of_false (fun ⟨_, done⟩ => ?_) not
    cases failed.symm.trans done

/-! ### Pins that overlap -/

/-- Three nodes in a chain, and a block that is no node.  Two of the three have a recursive pin, the
last one has a direct pin and is part of the record, and the block has a direct pin. -/
def overlappingWorld : World :=
  let name (i : UInt8) : String := BlockPath.write ObjectStore.inMemory.features (Sample.repeated i)
  let node (targets : List UInt8) : Node :=
    ⟨targets.map fun t => .unnamed (Sample.repeated t), []⟩
  { World.fresh (.memory (.ofList [(name 1, (node [2]).encode), (name 2, (node [3]).encode),
      (name 3, (node []).encode), (name 4, Bytes.ofText "no node")])) ∅ with
    pins := ⟨{Sample.repeated 1, Sample.repeated 2}, {Sample.repeated 3, Sample.repeated 4},
      {Sample.repeated 3}, none⟩ }

theorem problems_overlappingWorld : (Pin.verify overlappingWorld).1.value? = some 0 := by
  decide +kernel

/-- The block can not be read as a node.  Yet these pins are verified, and so it can be found out
what must be kept, and all of it is there. -/
theorem verified_iff_retained_overlappingWorld : overlappingWorld.conduct = .honest ∧
    overlappingWorld.store.node? (Sample.repeated 4) = none ∧
    ∃ kept w', Collect.retained overlappingWorld = (.done kept, w') ∧
      ∀ d ∈ kept, ∃ v, Graph.has d overlappingWorld = (.done true, v) := by
  refine ⟨rfl, by decide +kernel,
    (verified_iff_retained rfl (fun _ => .error .notFound) PinSet.narrow).mp ?_⟩
  exact ⟨_, bind_of_done (mapError_of_done (done_of_value? problems_overlappingWorld))⟩

end Repository

end PinnedStore
