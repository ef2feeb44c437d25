import PinnedStore.Proofs.Collect
import PinnedStore.Proofs.Pin.Change
import PinnedStore.Proofs.Pin.Flush
import PinnedStore.Proofs.Pin.InForce
import PinnedStore.Repository.Command

/-!
# Commands in turn

A repository keeps its blocks and its records; the pins are read from the record in force whenever a
command begins.  So a run of commands is a sequence of states, and all that one command can do to
the next is done to the storage.  Here storage does what it is asked to do; what it can refuse is a
write into a directory that something else stands in the way of.

* `Repository.State`, `Repository.Turn`: what is kept, and a command with what it is given.
* `Turn.after`, `State.run`: the state that a command leaves, and that a run leaves.
* `Turn.flushes`: the pins that a command writes down.
* `Command.ensures_run`: a command that sets and removes no pin loses nothing that is needed.
-/

namespace PinnedStore

open Program

/-! ## What is needed -/

/-- Blocks that are needed are still there, and nothing else than the store has changed. -/
abbrev World.Keeps (needed : Digest → Prop) : World → World → Prop :=
  World.Moves (ObjectStore.Keeps needed)

/-- What a record and recursive pins need: the nodes of the record, and what lies below a pin. -/
def Pins.Needs (node? : Digest → Option Node) (pins : Pins) (d : Digest) : Prop :=
  d ∈ pins.internal ∨ ∃ r ∈ pins.recursive, Reaches node? r d

/-- What a collection must keep: what is needed, and the direct pins. -/
def Pins.Requires (node? : Digest → Option Node) (pins : Pins) (d : Digest) : Prop :=
  pins.Needs node? d ∨ d ∈ pins.direct

namespace Repository

open Pin

/-! ## Single commands -/

namespace Command

variable {known : Set Bytes} {w w' : World} {files : List Char → Except IoError Bytes}
  {c : Command}

/-- The change that a command makes to the pins, if it is one to set or remove a pin. -/
def change? : Command → Option (Program Pin.Error Unit)
  | .pin d recursive => some (Pin.pin d recursive)
  | .unpin d recursive => some (Pin.unpin d recursive)
  | _ => none

/-- The block that a command writes if it neither sets nor removes a pin. -/
def content (files : List Char → Except IoError Bytes) : Command → List Bytes
  | .put path ls =>
    match files path with
    | .ok data => [(Node.mk ls data).encode]
    | .error _ => []
  | _ => []

theorem ensures_change {change : Program Pin.Error Unit} (changes : c.change? = some change)
    (sound : w.Sound known) :
    Ensures known World.Repins w change fun _ w' => Steps w.store.node? w.pins w'.pins := by
  cases c <;> cases changes
  · exact ensures_pin _ _ sound
  · exact ensures_unpin _ _ sound

/-- A command that sets or removes a pin changes the pins and writes them down. -/
theorem run_of_change (files : List Char → Except IoError Bytes) (codec : PinSet.Codec)
    {change : Program Pin.Error Unit} (changes : c.change? = some change) :
    ∃ answer, c.run files codec = mapError .pin change >>= fun _ => save codec >>= fun _ =>
      (pure answer : Program Error Answer) := by
  cases c <;> cases changes
  · exact ⟨_, rfl⟩
  · exact ⟨_, rfl⟩

/-- A command whose change of the pins goes through comes down to the flush. -/
theorem run_of_changed {change : Program Pin.Error Unit} (files : List Char → Except IoError Bytes)
    (codec : PinSet.Codec) (changes : c.change? = some change)
    (changed : change w = (.done (), w')) :
    (c.run files codec w).2 = (flush codec w').2 ∧
      ((∃ answer w'', c.run files codec w = (.done answer, w'')) ↔
        ∃ root w'', flush codec w' = (.done root, w'')) := by
  obtain ⟨answer, run⟩ := run_of_change files codec changes
  rw [run, bind_of_done (mapError_of_done changed), save, bind_apply, bind_apply, mapError]
  rcases flush codec w' with ⟨root | e | _, w''⟩ <;> simp

/-- A command whose change of the pins does not go through leaves what that has left. -/
theorem run_of_not_changed {change : Program Pin.Error Unit}
    (files : List Char → Except IoError Bytes) (codec : PinSet.Codec)
    (changes : c.change? = some change) (not : ∀ w', change w ≠ (.done (), w')) :
    (c.run files codec w).2 = (change w).2 := by
  obtain ⟨answer, run⟩ := run_of_change files codec changes
  rw [run, bind_apply, mapError]
  rcases changed : change w with ⟨_ | e | _, w'⟩
  · exact absurd changed (not w')
  · rfl
  · rfl

theorem does_store (distinct : Distinct known) {path : List Char} {ls : List Link}
    (isKnown : ∀ data ∈ content files (.put path ls), data ∈ known) :
    Does known World.Grows (store (files path) path ls) := by
  have targets : Does known World.Untouched (forEach ls requireTarget) := .forEach fun l _ =>
    (Graph.does_has l.target).mapError.bind fun _ => .ite (fun _ => .pure _) fun _ => .fail _
  rcases found : files path with e | data
  · exact fun w sound => ⟨refl w, sound⟩
  · rw [content, found] at isKnown
    have run : store (.ok data) path ls
        = forEach ls requireTarget >>= fun _ => mapError .storage (Graph.add ⟨ls, data⟩) := rfl
    rw [run]
    exact targets.moves.bind fun _ =>
      (Graph.does_add distinct (isKnown _ (List.mem_singleton.mpr rfl))).mapError

/-- A collection loses nothing that must be kept. -/
theorem ensures_collectAll (dryRun : Bool) (sound : w.Sound known) :
    Ensures known (World.Keeps (w.pins.Requires w.store.node?)) w (collectAll dryRun)
      fun _ _ => True := by
  have kept : Ensures known (World.Keeps (w.pins.Requires w.store.node?)) w Collect.retained
      fun kept _ => ∀ d, w.pins.Requires w.store.node? d → d ∈ kept := by
    refine ⟨(Collect.does_retained w sound).1.moves, (Collect.does_retained w sound).2, ?_⟩
    intro kept w' done d isRequired
    rw [(Collect.retained_done sound.truthful done).2.2]
    rcases isRequired with (internal | below) | direct
    · exact Or.inr (Or.inr internal)
    · exact Or.inl below
    · exact Or.inr (Or.inl direct)
  refine kept.mapError.bind fun kept w' _ _ sound' all => ?_
  have swept : Does known (World.Keeps (w.pins.Requires w.store.node?))
      (Collect.sweep kept dryRun) :=
    (Collect.does_sweep kept dryRun).mono fun _ _ sheds =>
      ⟨sheds.store.keeps fun d isRequired lost => lost (all d isRequired),
        sheds.records, sheds.pins,
        sheds.conduct⟩
  refine Does.ensures (swept.mapError.bind fun report => ?_) sound' fun _ _ _ => trivial
  exact Does.bind (.forEach fun _ _ => does_say _) fun _ => .pure _

/-- A command that neither sets nor removes a pin loses nothing that must be kept. -/
theorem ensures_run (files : List Char → Except IoError Bytes) (codec : PinSet.Codec)
    (distinct : Distinct known) (isKnown : ∀ data ∈ c.content files, data ∈ known)
    (plain : c.change? = none) (sound : w.Sound known) :
    Ensures known (World.Keeps (w.pins.Requires w.store.node?)) w (c.run files codec)
      fun _ _ => True := by
  have reads : ∀ {p : Program Error Answer}, Does known World.Untouched p →
      Ensures known (World.Keeps (w.pins.Requires w.store.node?)) w p fun _ _ => True :=
    fun does => does.moves.ensures sound fun _ _ _ => trivial
  cases c with
  | put path ls =>
    refine Does.ensures (.bind ((does_store distinct isKnown).mono fun _ _ grows => ?_) fun _ =>
      .pure _) sound fun _ _ _ => trivial
    exact ⟨grows.store.keeps, grows.records, grows.pins, grows.conduct⟩
  | get d => exact reads ((Graph.does_get d).mapError.bind fun _ => .pure _)
  | links d => exact reads ((Graph.does_get d).mapError.bind fun _ => .pure _)
  | pin d recursive => cases plain
  | unpin d recursive => cases plain
  | list q => exact reads ((does_listing q).mapError.bind fun _ => .pure _)
  | verify =>
    exact reads (does_verify.mapError.bind fun _ => .ite (fun _ => .pure _) fun _ => .fail _)
  | collect dryRun =>
    exact (ensures_collectAll dryRun sound).bind fun _ _ _ _ sound' _ => .pure sound' trivial

end Command

/-! ## Commands in turn -/

/-- What a repository keeps from one command to the next. -/
structure State where
  store : ObjectStore
  records : Records

/-- The world that a command begins in. -/
def State.world (s : State) : World := World.fresh s.store s.records

/-- A command, with the files it may read and the settings it is run with. -/
structure Turn where
  files : List Char → Except IoError Bytes
  timeout : Nat
  codec : PinSet.Codec
  command : Command

namespace Turn

variable (t : Turn) (s : State)

/-- What becomes of a command. -/
def outcome : Outcome Error Answer × World :=
  t.command.perform t.files t.timeout t.codec s.world

/-- What a command leaves for the next one. -/
def after : State := ⟨(t.outcome s).2.store, (t.outcome s).2.records⟩

/-- The pins that a command begins to write down, if it comes to that. -/
def flushes : Option Pins :=
  match t.command.change? with
  | none => none
  | some change =>
    match (openRecord t.timeout >>= fun _ => change) s.world with
    | (.done _, w) => some w.pins
    | _ => none

/-- The blocks that a command writes, and the empty node wherever pins are written down. -/
def written : List Bytes :=
  match t.flushes s with
  | some pins => Node.empty.encode :: (recordNodes t.codec pins).map Node.encode
  | none => t.command.content t.files

variable {t : Turn} {s : State} {w w' : World} {change : Program Pin.Error Unit}

theorem outcome_eq (opened : openRecord t.timeout s.world = (.done (), w)) :
    t.outcome s = t.command.run t.files t.codec w :=
  bind_of_done (mapError_of_done opened)

theorem flushes_of_done (opened : openRecord t.timeout s.world = (.done (), w))
    (changes : t.command.change? = some change) (changed : change w = (.done (), w')) :
    t.flushes s = some w'.pins := by
  simp only [flushes, changes]
  rw [bind_of_done opened, changed]

/-- A command whose change of the pins goes through comes down to the flush. -/
theorem outcome_of_done (opened : openRecord t.timeout s.world = (.done (), w))
    (changes : t.command.change? = some change) (changed : change w = (.done (), w')) :
    (t.outcome s).2 = (flush t.codec w').2 ∧ ((∃ answer w'', t.outcome s = (.done answer, w'')) ↔
      ∃ root w'', flush t.codec w' = (.done root, w'')) := by
  rw [outcome_eq opened]
  exact Command.run_of_changed t.files t.codec changes changed

/-- A command whose change of the pins does not go through writes nothing down. -/
theorem outcome_of_not_done (opened : openRecord t.timeout s.world = (.done (), w))
    (changes : t.command.change? = some change) (not : ∀ w', change w ≠ (.done (), w')) :
    (t.outcome s).2 = (change w).2 ∧ t.flushes s = none := by
  simp only [flushes, changes]
  rw [outcome_eq opened, bind_of_done opened]
  refine ⟨Command.run_of_not_changed t.files t.codec changes not, ?_⟩
  rcases changed : change w with ⟨_ | e | _, w'⟩
  · exact absurd changed (not w')
  · rfl
  · rfl

end Turn

/-! ## Runs -/

section Steps

variable {α : Type} {steps : List α}

/-- What holds of every step of a run holds of the first one and of those after it. -/
theorem forall_steps {first : α} {P : List α → α → Prop} :
    (∀ early a, early ++ [a] <+: first :: steps → P early a) ↔
      P [] first ∧ ∀ early a, early ++ [a] <+: steps → P (first :: early) a := by
  refine ⟨fun all => ⟨all [] first ⟨steps, rfl⟩, fun early a h => all (first :: early) a ?_⟩, ?_⟩
  · exact List.cons_prefix_cons.mpr ⟨rfl, h⟩
  · rintro ⟨now, later⟩ early a h
    cases early with
    | nil =>
      obtain ⟨rfl, -⟩ := List.cons_prefix_cons.mp h
      exact now
    | cons a₀ early =>
      obtain ⟨rfl, before⟩ := List.cons_prefix_cons.mp h
      exact later early a before

/-- Where no step writes down more than one pin of either kind, there are not too many. -/
theorem countable_of_take (flushes : List α → α → Option Pins)
    (few : ∀ n < steps.length, ∀ pins ∈ steps[n]?.bind (flushes (steps.take n)),
      pins.direct.size ≤ 1 ∧ pins.recursive.size ≤ 1) :
    ∀ early a, early ++ [a] <+: steps → ∀ pins, flushes early a = some pins → Countable pins := by
  rintro early a ⟨rest, rfl⟩ pins flushed
  have one : 1 < PinSet.uncountable := by decide
  obtain ⟨direct, recursive⟩ := few early.length (by simp) pins (by simpa using flushed)
  exact ⟨Nat.lt_of_le_of_lt direct one, Nat.lt_of_le_of_lt recursive one⟩

end Steps

namespace State

/-- What a run of commands leaves. -/
def run (s : State) (turns : List Turn) : State := turns.foldl (fun s t => t.after s) s

/-- The blocks that a run of commands writes. -/
def written : State → List Turn → List Bytes
  | _, [] => []
  | s, t :: rest => t.written s ++ (t.after s).written rest

end State

end Repository

end PinnedStore
