import PinnedStore.Storage.World

/-!
# Programs

A program runs in a world and leaves a world behind, whatever becomes of it: it may give an answer,
fail, or be stopped.  A failure can be caught and a stop can not, so what a stopped program leaves
behind is what a crash at that point leaves behind.
-/

namespace PinnedStore

/-- What becomes of a program. -/
inductive Outcome (ε α : Type) where
  /-- It gives an answer. -/
  | done (a : α)
  /-- It fails. -/
  | failed (e : ε)
  /-- It is stopped. -/
  | halted
  deriving DecidableEq

/-- A program that answers with an `α` or fails with an `ε`. -/
def Program (ε α : Type) : Type := World → Outcome ε α × World

namespace Program

variable {ε ε' α β : Type}

/-- The program that answers at once. -/
protected def pure (a : α) : Program ε α := fun w => (.done a, w)

/-- The program that fails at once. -/
def fail (e : ε) : Program ε α := fun w => (.failed e, w)

/-- The program that is stopped at once. -/
def halt : Program ε α := fun w => (.halted, w)

/-- Runs a program and goes on with its answer. -/
protected def bind (p : Program ε α) (next : α → Program ε β) : Program ε β := fun w =>
  match p w with
  | (.done a, w) => next a w
  | (.failed e, w) => (.failed e, w)
  | (.halted, w) => (.halted, w)

instance : Monad (Program ε) where
  pure := Program.pure
  bind := Program.bind

/-- Answers with what was read, or fails. -/
def ofExcept : Except ε α → Program ε α
  | .ok a => Program.pure a
  | .error e => fail e

/-- Runs a program and answers with its answer or its failure. -/
def attempt (p : Program ε α) : Program ε' (Except ε α) := fun w =>
  match p w with
  | (.done a, w) => (.done (.ok a), w)
  | (.failed e, w) => (.done (.error e), w)
  | (.halted, w) => (.halted, w)

/-- Changes the failure of a program. -/
def mapError (f : ε → ε') (p : Program ε α) : Program ε' α := fun w =>
  match p w with
  | (.done a, w) => (.done a, w)
  | (.failed e, w) => (.failed (f e), w)
  | (.halted, w) => (.halted, w)

/-- Reads the world. -/
def inspect (read : World → α) : Program ε α := fun w => (.done (read w), w)

/-- Changes the world. -/
def update (change : World → World) : Program ε Unit := fun w => (.done (), change w)

/-- Says something. -/
def say (notice : Log.Notice) : Program ε Unit :=
  update fun w => { w with journal := notice :: w.journal }

/-- Logs an event. -/
def log (e : Log.Event) : Program ε Unit := say (.event e)

/-- Runs a program for every element, in order. -/
def forEach (items : List α) (body : α → Program ε Unit) : Program ε Unit :=
  match items with
  | [] => Program.pure ()
  | item :: rest => Program.bind (body item) fun _ => forEach rest body

/-! ## What programs do, step by step -/

@[simp] theorem pure_apply (a : α) (w : World) :
    (Pure.pure a : Program ε α) w = (.done a, w) := rfl

@[simp] theorem fail_apply (e : ε) (w : World) :
    (fail e : Program ε α) w = (.failed e, w) := rfl

@[simp] theorem halt_apply (w : World) : (halt : Program ε α) w = (.halted, w) := rfl

theorem bind_apply (p : Program ε α) (next : α → Program ε β) (w : World) :
    (p >>= next) w = match p w with
      | (.done a, w) => next a w
      | (.failed e, w) => (.failed e, w)
      | (.halted, w) => (.halted, w) := rfl

@[simp] theorem inspect_apply (read : World → α) (w : World) :
    (inspect read : Program ε α) w = (.done (read w), w) := rfl

@[simp] theorem update_apply (change : World → World) (w : World) :
    (update change : Program ε Unit) w = (.done (), change w) := rfl

theorem id_map (p : Program ε α) : id <$> p = p := by
  funext w
  change Program.bind p (fun a => Program.pure a) w = p w
  simp only [Program.bind, Program.pure]
  split <;> simp_all

theorem bind_assoc {γ : Type} (p : Program ε α) (f : α → Program ε β) (g : β → Program ε γ) :
    p >>= f >>= g = p >>= fun a => f a >>= g := by
  funext w
  change Program.bind (Program.bind p f) g w = Program.bind p (fun a => Program.bind (f a) g) w
  simp only [Program.bind]
  rcases p w with ⟨_ | _ | _, _⟩ <;> rfl

instance : LawfulMonad (Program ε) :=
  LawfulMonad.mk' (Program ε) id_map (fun _ _ => rfl) bind_assoc

end Program

end PinnedStore
