import Mathlib.Algebra.BigOperators.Group.List.Basic
import Mathlib.Algebra.GroupWithZero.Nat
import PinnedStore.PinSet.Basic

/-!
# Adding up counts

Adding entries one after the other gives every digest the sum of its counts, cut off at the largest
64-bit number.  The cut-off does not depend on the order: a sum that is cut off once stays so.
Digests whose counts are all zero do not appear.

* `total`: the sum of the counts of a digest, as a natural number.
* `Multiset.getElem?_ofEntries`: what adding up gives.
* `Multiset.ofEntries_toList`: adding up the entries of a sum, in any order, gives it back.
-/

namespace PinnedStore.PinSet

/-- The sum of the counts of a digest. -/
def total (d : Digest) (entries : List Entry) : Nat :=
  ((entries.filter (·.1 = d)).map fun e => e.2.toNat).sum

/-- A sum cut off at the largest count. -/
def cutOff (n : Nat) : Nat := min n (UInt64.size - 1)

variable {d : Digest} {entries entries' : List Entry}

@[simp] theorem total_nil (d : Digest) : total d [] = 0 := rfl

theorem total_cons (d : Digest) (e : Entry) (entries : List Entry) :
    total d (e :: entries) = (if e.1 = d then e.2.toNat else 0) + total d entries := by
  by_cases same : e.1 = d <;> simp [total, same]

theorem total_perm (same : entries.Perm entries') : total d entries = total d entries' :=
  ((same.filter _).map _).sum_eq

theorem total_eq_zero (absent : ∀ e ∈ entries, e.1 ≠ d) : total d entries = 0 := by
  rw [total, List.filter_eq_nil_iff.mpr fun e h => by simpa using absent e h]
  rfl

theorem cutOff_cutOff_add (a b : Nat) : cutOff (cutOff a + b) = cutOff (a + b) := by
  simp only [cutOff]
  omega

theorem cutOff_toNat (c : UInt64) : cutOff c.toNat = c.toNat :=
  Nat.min_eq_left (Nat.le_pred_of_lt c.toNat_lt)

theorem toNat_addCounts (a b : UInt64) : (addCounts a b).toNat = cutOff (a.toNat + b.toNat) := by
  have fits : min (a.toNat + b.toNat) (UInt64.size - 1) < 2 ^ 64 := by
    have : UInt64.size = 2 ^ 64 := rfl
    omega
  rw [addCounts, cutOff, Nat.toUInt64, UInt64.toNat_ofNat', Nat.mod_eq_of_lt fits]

namespace Multiset

variable {m : Multiset}

/-- How often a digest counts, as a natural number. -/
def count (m : Multiset) (d : Digest) : Nat := (m.getD d 0).toNat

theorem getElem?_of_mem (listed : d ∈ m) : m[d]? = some (m.getD d 0) :=
  Std.ExtTreeMap.getElem?_eq_some_getD listed

theorem count_add (m : Multiset) (e : Entry) (d : Digest) :
    (m.add e).count d = cutOff (m.count d + if e.1 = d then e.2.toNat else 0) := by
  by_cases zero : e.2 = 0
  · rw [add, if_pos zero, zero]
    simp [count, cutOff_toNat]
  · rw [add, if_neg zero, count, Std.ExtTreeMap.getD_insert]
    by_cases same : e.1 = d
    · rw [if_pos (Std.compare_eq_iff_eq.mpr same), if_pos same, toNat_addCounts, same]
      rfl
    · rw [if_neg fun h => same (Std.compare_eq_iff_eq.mp h), if_neg same, Nat.add_zero]
      exact (cutOff_toNat _).symm

theorem count_addAll (m : Multiset) (entries : List Entry) (d : Digest) :
    (m.addAll entries).count d = cutOff (m.count d + total d entries) := by
  induction entries generalizing m with
  | nil => exact (cutOff_toNat _).symm
  | cons e rest ih =>
    rw [addAll, List.foldl_cons, ← addAll, ih, count_add, total_cons, cutOff_cutOff_add,
      Nat.add_assoc]

/-- No digest is listed that does not count. -/
def Positive (m : Multiset) : Prop := ∀ d, d ∈ m → 0 < m.count d

theorem Positive.add (positive : m.Positive) (e : Entry) : (m.add e).Positive := by
  intro d listed
  rw [count_add]
  by_cases zero : e.2 = 0
  · rw [Multiset.add, if_pos zero] at listed
    have still : cutOff (m.count d) = m.count d := cutOff_toNat _
    simpa [zero, still] using positive d listed
  · rw [Multiset.add, if_neg zero, Std.ExtTreeMap.mem_insert] at listed
    have counts : 0 < e.2.toNat := Nat.pos_of_ne_zero fun h => zero (UInt64.toNat_inj.mp h)
    have wide : 0 < UInt64.size - 1 := by decide
    rw [cutOff]
    rcases listed with same | listed
    · rw [if_pos (Std.compare_eq_iff_eq.mp same)]
      omega
    · have := positive d listed
      omega

theorem positive_ofEntries (entries : List Entry) : (ofEntries entries).Positive := by
  have grown : ∀ m : Multiset, m.Positive → (m.addAll entries).Positive := by
    induction entries with
    | nil => exact fun m positive => positive
    | cons e rest ih => exact fun m positive => ih _ (positive.add e)
  exact grown ∅ fun d listed => absurd listed Std.ExtTreeMap.not_mem_empty

theorem count_ofEntries (entries : List Entry) (d : Digest) :
    (ofEntries entries).count d = cutOff (total d entries) := by
  rw [ofEntries, count_addAll, count, Std.ExtTreeMap.getD_empty]
  simp

/-- Two sums that count alike are the same. -/
theorem Positive.ext {m' : Multiset} (positive : m.Positive) (positive' : m'.Positive)
    (same : ∀ d, m.count d = m'.count d) : m = m' := by
  refine Std.ExtTreeMap.ext_getElem? fun d => ?_
  have values : m.getD d 0 = m'.getD d 0 := UInt64.toNat_inj.mp (same d)
  by_cases listed : d ∈ m
  · have listed' : d ∈ m' := by
      by_contra absent
      have counts := positive d listed
      rw [same, count, Std.ExtTreeMap.getD_eq_fallback absent] at counts
      exact absurd counts (by decide)
    rw [getElem?_of_mem listed, getElem?_of_mem listed', values]
  · have absent : d ∉ m' := by
      intro listed'
      have counts := positive' d listed'
      rw [← same, count, Std.ExtTreeMap.getD_eq_fallback listed] at counts
      exact absurd counts (by decide)
    rw [Std.ExtTreeMap.getElem?_eq_none listed, Std.ExtTreeMap.getElem?_eq_none absent]

/-- Adding up gives every digest with a positive count the sum of its counts, cut off at the largest
count, and no other digest. -/
theorem getElem?_ofEntries (entries : List Entry) (d : Digest) :
    (ofEntries entries)[d]? =
      if total d entries = 0 then none else some (cutOff (total d entries)).toUInt64 := by
  have counted := count_ofEntries entries d
  by_cases listed : d ∈ ofEntries entries
  · have positive := positive_ofEntries entries d listed
    have some_count : total d entries ≠ 0 := by
      intro zero
      rw [counted, zero] at positive
      exact absurd positive (by decide)
    rw [if_neg some_count, ← counted, getElem?_of_mem listed, count]
    simp
  · rw [count, Std.ExtTreeMap.getD_eq_fallback listed] at counted
    have wide : 0 < UInt64.size - 1 := by decide
    have none_count : total d entries = 0 := by
      rw [cutOff] at counted
      have : (0 : UInt64).toNat = 0 := rfl
      omega
    rw [if_pos none_count, Std.ExtTreeMap.getElem?_eq_none listed]

theorem total_of_mem {v : UInt64} (distinct : entries.Pairwise fun a b => a.1 ≠ b.1)
    (listed : (d, v) ∈ entries) : total d entries = v.toNat := by
  induction entries with
  | nil => cases listed
  | cons e rest ih =>
    obtain ⟨apart, distinct⟩ := List.pairwise_cons.mp distinct
    rw [total_cons]
    rcases List.mem_cons.mp listed with rfl | later
    · rw [if_pos rfl, total_eq_zero fun e h => (apart e h).symm, Nat.add_zero]
    · rw [if_neg (apart _ later), ih distinct later, Nat.zero_add]

theorem total_toList (m : Multiset) (d : Digest) : total d m.toList = m.count d := by
  have distinct : m.toList.Pairwise fun a b => a.1 ≠ b.1 :=
    m.distinct_keys_toList.imp fun apart same => apart (Std.compare_eq_iff_eq.mpr same)
  rcases value : m[d]? with _ | v
  · rw [total_eq_zero, count, Std.ExtTreeMap.getD_eq_getD_getElem?, value]
    · rfl
    · rintro ⟨d', v⟩ listed rfl
      cases (Std.ExtTreeMap.mem_toList_iff_getElem?_eq_some.mp listed).symm.trans value
  · rw [total_of_mem distinct (Std.ExtTreeMap.mem_toList_iff_getElem?_eq_some.mpr value), count,
      Std.ExtTreeMap.getD_eq_getD_getElem?, value]
    rfl

/-- Adding up the entries of a sum, in any order, gives it back. -/
theorem ofEntries_toList (same : entries'.Perm (ofEntries entries).toList) :
    ofEntries entries' = ofEntries entries := by
  refine (positive_ofEntries _).ext (positive_ofEntries _) fun d => ?_
  rw [count_ofEntries, total_perm same, total_toList, count_ofEntries]
  exact Nat.min_eq_left (Nat.min_le_right _ _)

end Multiset

end PinnedStore.PinSet
