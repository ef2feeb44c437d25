import Mathlib.Data.List.TakeWhile
import PinnedStore.Collect
import PinnedStore.Proofs.Graph.Reach
import PinnedStore.Sample

/-!
# Where a walk leads

A walk keeps the nodes it has read and a stack of those it has yet to look at.  What has been read
is left alone when it turns up again, so it does not matter how often a node is among the roots or
how many links lead to it, nor whether links lead back.  The stack may grow with every step.  What
bounds the walk is that every step reads a node for the first time, and each of these is an object
of its own in the store: so the fuel, one step more than there are objects, is not used up.

Whoever collects walks from many roots and wants to know where the links have led; whoever fetches a
graph walks from one root and only wants to know that everything can be read.  They differ in
nothing but in what they say when a node can not be read, and what is said then has no part in where
a walk goes.  So they read the same nodes in the same order, and the one succeeds whenever the other
does, even if the storage fails now and then or tells lies.

* `Graph.Walked`: what is so at every step of a walk.
* `Graph.Walk`, `Graph.walk_closure`: how a walk ends.
* `Graph.mem_closure`, `Graph.closure_honest`: the answer of a walk, and when there is one.
* `Graph.mapError_closure`: what a walk says has no part in where it goes.
* `Graph.fetch_iff`: when a graph can be fetched.
* `Collect.walks_are_exact`: both walks are exact, and agree.
-/

namespace PinnedStore

open Program

variable {known : Set Bytes} {w w' : World} {d r : Digest} {ε ε' : Type}

namespace Graph

/-! ## Steps of a walk -/

section Steps

variable {node? : Digest → Option Node} {roots stack rest : List Digest} {seen : Digests}

/-- What is dropped off the stack has been seen. -/
theorem mem_seen_or_mem_dropWhile (h : d ∈ stack) : d ∈ seen ∨ d ∈ stack.dropWhile (· ∈ seen) := by
  rw [← List.takeWhile_append_dropWhile (p := (· ∈ seen)) (l := stack)] at h
  rcases List.mem_append.mp h with early | late
  · exact Or.inl (by simpa using List.mem_takeWhile_imp early)
  · exact Or.inr late

theorem notMem_seen_of_dropWhile (next : stack.dropWhile (· ∈ seen) = d :: rest) : d ∉ seen := by
  have stop := List.head_dropWhile_not (· ∈ seen) (l := stack) (by rw [next]; simp)
  simpa [next] using stop

/-- What has been seen or waits before a step has been seen or waits after it. -/
theorem mem_step {n : Node} {x : Digest} (next : stack.dropWhile (· ∈ seen) = d :: rest)
    (h : x ∈ seen ∨ x ∈ stack) : x ∈ seen.insert d ∨ x ∈ n.targets.reverse ++ rest := by
  have later : x ∈ seen ∨ x ∈ d :: rest := by
    rcases h with inside | waits
    · exact Or.inl inside
    · exact next ▸ mem_seen_or_mem_dropWhile waits
  rcases later with inside | waits
  · exact Or.inl (mem_insert.mpr (Or.inr inside))
  · rcases List.mem_cons.mp waits with same | waits
    · exact Or.inl (mem_insert.mpr (Or.inl same))
    · exact Or.inr (List.mem_append_right _ waits)

/-- At every step of a walk, every node that has been seen has been read, and its targets have been
seen or wait to be; so have the roots; and what has been seen or waits lies below the roots. -/
structure Walked (node? : Digest → Option Node) (roots : List Digest) (seen : Digests)
    (stack : List Digest) : Prop where
  explored : ∀ x ∈ seen, ∃ n, node? x = some n ∧ ∀ t ∈ n.targets, t ∈ seen ∨ t ∈ stack
  kept : ∀ r ∈ roots, r ∈ seen ∨ r ∈ stack
  below : ∀ x, x ∈ seen ∨ x ∈ stack → ∃ r ∈ roots, Reaches node? r x

namespace Walked

theorem start : Walked node? roots ∅ roots.reverse where
  explored x h := absurd h Std.ExtTreeSet.not_mem_empty
  kept r h := Or.inr (List.mem_reverse.mpr h)
  below x h := by
    have isRoot := h.resolve_left Std.ExtTreeSet.not_mem_empty
    exact ⟨x, List.mem_reverse.mp isRoot, .refl x⟩

theorem readable (walked : Walked node? roots seen stack) {x : Digest} (h : x ∈ seen) :
    ∃ n, node? x = some n := by
  obtain ⟨n, there, -⟩ := walked.explored x h
  exact ⟨n, there⟩

/-- The node on top of the stack that has not been seen lies below the roots. -/
theorem below_next (walked : Walked node? roots seen stack)
    (next : stack.dropWhile (· ∈ seen) = d :: rest) {x : Digest} (h : x ∈ d :: rest) :
    ∃ r ∈ roots, Reaches node? r x :=
  walked.below x (Or.inr ((List.dropWhile_suffix (· ∈ seen)).subset (next ▸ h)))

/-- A node that has not been seen is read, and its targets wait from then on. -/
theorem step {n : Node} (walked : Walked node? roots seen stack)
    (next : stack.dropWhile (· ∈ seen) = d :: rest) (there : node? d = some n) :
    Walked node? roots (seen.insert d) (n.targets.reverse ++ rest) where
  explored x h := by
    rcases mem_insert.mp h with rfl | before
    · refine ⟨n, there, fun t link => Or.inr ?_⟩
      exact List.mem_append_left _ (List.mem_reverse.mpr link)
    · obtain ⟨m, readable, targets⟩ := walked.explored x before
      exact ⟨m, readable, fun t link => mem_step next (targets t link)⟩
  kept r h := mem_step next (walked.kept r h)
  below x h := by
    obtain ⟨r, isRoot, reached⟩ := walked.below_next next List.mem_cons_self
    rcases h with inside | waits
    · rcases mem_insert.mp inside with rfl | before
      · exact ⟨r, isRoot, reached⟩
      · exact walked.below x (Or.inl before)
    · rcases List.mem_append.mp waits with link | waits
      · exact ⟨r, isRoot, reached.trans (.step there (List.mem_reverse.mp link) (.refl x))⟩
      · exact walked.below_next next (List.mem_cons_of_mem _ waits)

/-- When there is nothing new on the stack, just what lies below the roots has been seen. -/
theorem mem_iff (walked : Walked node? roots seen stack) (empty : stack.dropWhile (· ∈ seen) = [])
    (x : Digest) : x ∈ seen ↔ ∃ r ∈ roots, Reaches node? r x := by
  have all : ∀ {y}, y ∈ seen ∨ y ∈ stack → y ∈ seen := by
    rintro y (inside | waits)
    · exact inside
    · refine (mem_seen_or_mem_dropWhile waits).resolve_right fun left => ?_
      rw [empty] at left
      cases left
  refine ⟨fun inside => walked.below x (Or.inl inside), ?_⟩
  rintro ⟨r, isRoot, reached⟩
  refine reached.mem_of_closed (fun y insideY n there t link => ?_) (all (walked.kept r isRoot))
  obtain ⟨m, readable, targets⟩ := walked.explored y insideY
  cases readable.symm.trans there
  exact all (targets t link)

end Walked

end Steps

/-! ## Closures -/

variable {read : Digest → Program ε Node} {blame : Digest → Failure → ε} {roots : List Digest}

theorem closureFrom_of_empty {fuel : Nat} {seen : Digests} {stack : List Digest}
    (empty : stack.dropWhile (· ∈ seen) = []) :
    closureFrom read (fuel + 1) seen stack = pure seen := by
  rw [closureFrom, empty]

theorem closureFrom_of_next {fuel : Nat} {seen : Digests} {stack rest : List Digest}
    (next : stack.dropWhile (· ∈ seen) = d :: rest) : closureFrom read (fuel + 1) seen stack
      = read d >>= fun n => closureFrom read fuel (seen.insert d) (n.targets.reverse ++ rest) := by
  rw [closureFrom, next]

theorem onlyReads_closureFrom (reads : ∀ d, OnlyReads (read d)) (fuel : Nat) (seen : Digests)
    (stack : List Digest) : OnlyReads (closureFrom read fuel seen stack) := by
  induction fuel generalizing seen stack with
  | zero => exact .halt
  | succ fuel ih =>
    rcases next : stack.dropWhile (· ∈ seen) with _ | ⟨d, rest⟩
    · rw [closureFrom_of_empty next]
      exact .pure _
    · rw [closureFrom_of_next next]
      exact (reads d).bind fun n => ih _ _

theorem onlyReads_closure (reads : ∀ d, OnlyReads (read d)) (roots : List Digest) :
    OnlyReads (closure read roots) :=
  (KeepsTo.inspect _).bind fun _ => onlyReads_closureFrom reads _ _ _

/-- How a walk from some roots ends, if `blame` says what is made of the failure of a read: it
answers with what lies below the roots, all of which can be read; it fails because of a node there;
or it is stopped. -/
inductive Walk (w : World) (roots : List Digest) (blame : Digest → Failure → ε) :
    Outcome ε Digests → Prop
  | exact {found : Digests} (members : ∀ x, x ∈ found ↔ ∃ r ∈ roots, Reaches w.store.node? r x)
    (readable : ∀ x ∈ found, ∃ n, w.store.node? x = some n) : Walk w roots blame (.done found)
  | stuck {x : Digest} {f : Failure} (below : ∃ r ∈ roots, Reaches w.store.node? r x)
    (denied : Denies w x f) : Walk w roots blame (.failed (blame x f))
  | stopped (stops : w.conduct.Stops) : Walk w roots blame .halted

/-- A walk ends before its fuel is used up. -/
theorem walk_closureFrom {v : World} {fuel : Nat} {seen : Digests} {stack : List Digest}
    (truthful : w.conduct.lies = []) (moved : World.Untouched w v)
    (walked : Walked w.store.node? roots seen stack)
    (enough : w.store.bound + 1 ≤ fuel + seen.size) :
    Walk w roots blame (closureFrom (fun d => mapError (blame d) (get d)) fuel seen stack v).1 := by
  -- Every step but the last one reads a node for the first time, and these are no more than the
  -- objects.
  induction fuel generalizing v seen stack with
  | zero =>
    have few := size_le_bound fun x h => walked.readable h
    omega
  | succ fuel ih =>
    rcases next : stack.dropWhile (· ∈ seen) with _ | ⟨d, rest⟩
    · rw [closureFrom_of_empty next]
      exact .exact (walked.mem_iff next) fun x h => walked.readable h
    · have truthful' := moved.truthful truthful
      rw [closureFrom_of_next next, bind_apply, mapError]
      rcases got : get d v with ⟨n | f | _, between⟩
      · obtain ⟨moved', there⟩ := get_done truthful' got
        rw [← moved.store] at there
        have larger : (seen.insert d).size = seen.size + 1 := by
          rw [Std.ExtTreeSet.size_insert, if_neg (by simpa using notMem_seen_of_dropWhile next)]
        exact ih (IsTrans.trans _ _ _ moved moved') (walked.step next there) (by omega)
      · exact .stuck (walked.below_next next List.mem_cons_self) ⟨v, moved, by rw [got]⟩
      · exact .stopped (moved.conduct ▸ get_halted truthful' got)

theorem walk_closure (truthful : w.conduct.lies = []) (blame : Digest → Failure → ε)
    (roots : List Digest) :
    Walk w roots blame (closure (fun d => mapError (blame d) (get d)) roots w).1 := by
  have inspected : (bound : Program ε Nat) w = (.done w.store.bound, w) := rfl
  rw [closure, bind_of_done inspected]
  refine walk_closureFrom truthful (refl w) .start ?_
  rw [Std.ExtTreeSet.size_empty]

/-- A closure changes nothing.  Its answer is what lies below the roots, all of which can be
read. -/
theorem mem_closure {found : Digests} (truthful : w.conduct.lies = [])
    (h : closure (fun d => mapError (blame d) (get d)) roots w = (.done found, w')) :
    World.Untouched w w' ∧ (∀ x, x ∈ found ↔ ∃ r ∈ roots, Reaches w.store.node? r x) ∧
      ∀ x ∈ found, ∃ n, w.store.node? x = some n := by
  have reads : ∀ d, OnlyReads (mapError (blame d) (get d)) := fun d => (onlyReads_get d).mapError
  have walk := walk_closure truthful blame roots
  rw [h] at walk
  cases walk with
  | exact members readable => exact ⟨(onlyReads_closure reads roots).leaves h, members, readable⟩

/-- Where storage is honest, there is an answer if everything below the roots can be read. -/
theorem closure_honest (honest : w.conduct = .honest) (blame : Digest → Failure → ε)
    (fetchable : ∀ r ∈ roots, Fetchable w.store.node? r) :
    ∃ found w', closure (fun d => mapError (blame d) (get d)) roots w = (.done found, w') := by
  have truthful := World.truthful_of_honest honest
  have walk := walk_closure truthful blame roots
  rcases run : closure (fun d => mapError (blame d) (get d)) roots w with ⟨outcome, w'⟩
  rw [run] at walk
  cases walk with
  | exact => exact ⟨_, w', rfl⟩
  | stuck below denied =>
    obtain ⟨r, isRoot, reached⟩ := below
    obtain ⟨n, there⟩ := fetchable r isRoot _ reached
    cases (denied.absent honest).symm.trans there
  | stopped stops =>
    rw [honest] at stops
    exact absurd stops Conduct.not_stops_honest

/-! ## What is said when a node can not be read -/

theorem mapError_closureFrom (f : ε → ε') (read : Digest → Program ε Node) (fuel : Nat)
    (seen : Digests) (stack : List Digest) :
    mapError f (closureFrom read fuel seen stack)
      = closureFrom (fun d => mapError f (read d)) fuel seen stack := by
  induction fuel generalizing seen stack with
  | zero => rfl
  | succ fuel ih =>
    rcases next : stack.dropWhile (· ∈ seen) with _ | ⟨d, rest⟩
    · rw [closureFrom_of_empty next, closureFrom_of_empty next]
      rfl
    · rw [closureFrom_of_next next, closureFrom_of_next next, mapError_bind]
      simp only [ih]

/-- What a walk says has no part in where it goes. -/
theorem mapError_closure (f : ε → ε') (read : Digest → Program ε Node) (roots : List Digest) :
    mapError f (closure read roots) = closure (fun d => mapError f (read d)) roots := by
  unfold closure
  rw [mapError_bind]
  simp only [mapError_closureFrom]
  rfl

/-- Two walks that differ in what they say alone give the same answers and leave the same worlds. -/
theorem closure_done_congr {blame' : Digest → Failure → ε'} {found : Digests} :
    closure (fun d => mapError (blame d) (get d)) roots w = (.done found, w')
      ↔ closure (fun d => mapError (blame' d) (get d)) roots w = (.done found, w') := by
  have forget : ∀ {ε : Type} (blame : Digest → Failure → ε),
      mapError (fun _ => ()) (closure (fun d => mapError (blame d) (get d)) roots)
        = closure (fun d => mapError (fun _ => ()) (get d)) roots := by
    intro ε blame
    simp only [mapError_closure, mapError_mapError]
  rw [← mapError_eq_done (f := fun _ => ()), forget, ← forget blame', mapError_eq_done]

/-! ## Fetching a graph -/

theorem onlyReads_fetch (root : Digest) : OnlyReads (fetch root) :=
  (onlyReads_closure (fun d => (onlyReads_get d).mapError) _).bind fun _ => .pure _

theorem does_fetch (root : Digest) : Does known World.Untouched (fetch root) :=
  (onlyReads_fetch root).does

/-- A graph is fetched just if a walk from its root gives an answer. -/
theorem fetch_eq_done (blame : Digest → Failure → ε) : fetch r w = (.done (), w') ↔
    ∃ found, closure (fun d => mapError (blame d) (get d)) [r] w = (.done found, w') := by
  constructor
  · intro h
    obtain ⟨found, between, closed, ended⟩ := done_of_bind h
    cases ended
    exact ⟨found, closure_done_congr.mp closed⟩
  · rintro ⟨found, closed⟩
    exact (bind_of_done (closure_done_congr.mp closed)).trans rfl

theorem fetchable_of_fetch (truthful : w.conduct.lies = []) (h : fetch r w = (.done (), w')) :
    Fetchable w.store.node? r := by
  obtain ⟨found, closed⟩ := (fetch_eq_done fun _ => id).mp h
  obtain ⟨-, members, readable⟩ := mem_closure truthful closed
  exact fun d reached => readable d ((members d).mpr ⟨r, List.mem_singleton.mpr rfl, reached⟩)

/-- Where storage is honest, a graph can be fetched if and only if every node of it can be read. -/
theorem fetch_iff (honest : w.conduct = .honest) :
    (∃ w', fetch r w = (.done (), w')) ↔ Fetchable w.store.node? r := by
  have truthful := World.truthful_of_honest honest
  refine ⟨fun ⟨w', h⟩ => fetchable_of_fetch truthful h, fun fetchable => ?_⟩
  obtain ⟨found, w', closed⟩ := closure_honest honest (fun _ => id)
    fun x h => List.mem_singleton.mp h ▸ fetchable
  exact ⟨w', (fetch_eq_done fun _ => id).mpr ⟨found, closed⟩⟩

/-- Fetching a graph is stopped by a call or not at all. -/
theorem fetch_halted (truthful : w.conduct.lies = []) (h : (fetch r w).1 = .halted) :
    w.conduct.Stops := by
  let blame : Digest → Failure → Failure :=
    fun d f => f.within s!"fetching graph of {r}: node {d} unavailable"
  have walk := walk_closure truthful blame [r]
  change ((closure (fun d => mapError (blame d) (get d)) [r] >>= fun _ => pure ()) w).1 = _ at h
  rw [bind_apply] at h
  rcases run : closure (fun d => mapError (blame d) (get d)) [r] w with ⟨outcome, between⟩
  rw [run] at walk h
  cases walk with
  | exact => cases h
  | stuck => cases h
  | stopped stops => exact stops

end Graph

/-! ## Both walks -/

namespace Collect

/-- Walking from some roots and fetching a graph change nothing, and both end unless the storage
stops them.  What a walk answers with is just what lies below its roots, all of which can be read;
it fails only because of a node there that was not read.  Where storage is honest, it gives an
answer if and only if everything below its roots can be read.  A graph is fetched just if a walk
from its root alone gives an answer. -/
theorem walks_are_exact (truthful : w.conduct.lies = []) (roots : List Digest) (root : Digest) :
    World.Untouched w (reachable roots w).2 ∧ World.Untouched w (Graph.fetch root w).2 ∧
    (¬ w.conduct.Stops → (reachable roots w).1 ≠ .halted ∧ (Graph.fetch root w).1 ≠ .halted) ∧
    (∀ found, (reachable roots w).1 = .done found →
      (∀ x, x ∈ found ↔ ∃ r ∈ roots, Reaches w.store.node? r x) ∧
        ∀ x ∈ found, ∃ n, w.store.node? x = some n) ∧
    (∀ e, (reachable roots w).1 = .failed e →
      ∃ r ∈ roots, ∃ x f, Reaches w.store.node? r x ∧ e = .fetch f ∧ Graph.Denies w x f ∧
        (w.conduct = .honest → w.store.node? x = none)) ∧
    (w.conduct = .honest → ((∃ found, (reachable roots w).1 = .done found)
      ↔ ∀ r ∈ roots, Fetchable w.store.node? r)) ∧
    ((Graph.fetch root w).1 = .done () ↔ ∃ found, (reachable [root] w).1 = .done found) := by
  have walk : Graph.Walk w roots (fun _ => Pin.Error.fetch) (reachable roots w).1 :=
    Graph.walk_closure truthful _ roots
  have reads : OnlyReads (reachable roots) :=
    Graph.onlyReads_closure (fun d => (Graph.onlyReads_get d).mapError) roots
  refine ⟨reads w, Graph.onlyReads_fetch root w, fun not => ⟨fun h => ?_, fun h => ?_⟩,
    fun found h => ?_, fun e h => ?_, fun honest => ⟨?_, fun fetchable => ?_⟩, ?_⟩
  · rw [h] at walk
    cases walk with
    | stopped stops => exact not stops
  · exact not (Graph.fetch_halted truthful h)
  · rw [h] at walk
    cases walk with
    | exact members readable => exact ⟨members, readable⟩
  · rw [h] at walk
    cases walk with
    | stuck below denied =>
      obtain ⟨r, isRoot, reached⟩ := below
      exact ⟨r, isRoot, _, _, reached, rfl, denied, denied.absent⟩
  · rintro ⟨found, h⟩ r isRoot x reached
    rw [h] at walk
    cases walk with
    | exact members readable => exact readable x ((members x).mpr ⟨r, isRoot, reached⟩)
  · obtain ⟨found, w', closed⟩ := Graph.closure_honest honest (fun _ => Pin.Error.fetch) fetchable
    exact ⟨found, congrArg Prod.fst closed⟩
  · constructor
    · intro h
      obtain ⟨found, closed⟩ := (Graph.fetch_eq_done fun _ => Pin.Error.fetch).mp (Prod.ext h rfl)
      exact ⟨found, congrArg Prod.fst closed⟩
    · rintro ⟨found, h⟩
      have closed : reachable [root] w = (.done found, (reachable [root] w).2) := Prod.ext h rfl
      exact congrArg Prod.fst ((Graph.fetch_eq_done fun _ => Pin.Error.fetch).mpr ⟨found, closed⟩)

/-! ### Links in a knot -/

/-- Two nodes that lead to each other and to one that leads to itself. -/
def knotWorld : World :=
  let node (targets : List UInt8) : Node :=
    ⟨targets.map fun t => .unnamed (Sample.repeated t), []⟩
  World.fresh (.ofNodes [(Sample.repeated 1, node [2]), (Sample.repeated 2, node [1, 3, 1]),
    (Sample.repeated 3, node [3])]) ∅

/-- Two of them, one twice. -/
def knotRoots : List Digest := [Sample.repeated 3, Sample.repeated 2, Sample.repeated 3]

theorem reachable_knotWorld : (reachable knotRoots knotWorld).1
    = .done {Sample.repeated 1, Sample.repeated 2, Sample.repeated 3} := by
  decide +kernel

/-- A walk into the knot ends, although its roots are repeated and lead back to themselves. -/
theorem walks_are_exact_knotWorld : knotWorld.conduct.lies = [] ∧
    (∀ x, x ∈ ({Sample.repeated 1, Sample.repeated 2, Sample.repeated 3} : Digests)
      ↔ ∃ r ∈ knotRoots, Reaches knotWorld.store.node? r x) ∧
    ∀ r ∈ knotRoots, Fetchable knotWorld.store.node? r := by
  obtain ⟨-, -, -, exactly, -, answers, -⟩ :=
    walks_are_exact (w := knotWorld) rfl knotRoots (Sample.repeated 1)
  exact ⟨rfl, (exactly _ reachable_knotWorld).1, (answers rfl).mp ⟨_, reachable_knotWorld⟩⟩

end Collect

end PinnedStore
