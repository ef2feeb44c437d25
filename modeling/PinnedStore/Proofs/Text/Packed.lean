import Mathlib.Algebra.Group.Nat.Defs
import Mathlib.Data.List.Nodup
import PinnedStore.Text.Packed

/-!
# Bit-packed text can be read back

Writing bytes in an alphabet and reading the symbols gives the bytes, and what is left over is the
padding of the last symbol: fewer zeros than a symbol has bits.  So two byte strings never share a
text.

The argument follows the bits through the three stages of `Packed.encode` --- bytes to bits, bits to
groups, groups to symbols --- and undoes them one at a time.

* `bytesOfBits_bitsOfBytes`: bits back to bytes.
* `flatten_groups`: groups back to bits, with the padding.
* `bitsOfSymbols?_map`: symbols back to groups.
* `decode?_encode`, `encode_injective`: all of it.
-/

namespace PinnedStore.Packed

/-! ## Bits and values -/

/-- The value of bits that come after others. -/
theorem foldl_bits (start : Nat) (bits : List Bool) :
    bits.foldl (fun value bit => 2 * value + bit.toNat) start
      = start * 2 ^ bits.length + valueOf bits := by
  induction bits generalizing start with
  | nil => simp [valueOf]
  | cons bit rest ih =>
    have tail : valueOf (bit :: rest) = bit.toNat * 2 ^ rest.length + valueOf rest := by
      rw [valueOf, List.foldl_cons, ih]
      simp
    rw [List.foldl_cons, ih, tail, List.length_cons, Nat.pow_succ, Nat.add_mul]
    have : 2 * start * 2 ^ rest.length = start * (2 ^ rest.length * 2) := by
      rw [Nat.mul_comm 2 start, Nat.mul_assoc, Nat.mul_comm 2]
    omega

theorem valueOf_cons (bit : Bool) (rest : List Bool) :
    valueOf (bit :: rest) = bit.toNat * 2 ^ rest.length + valueOf rest := by
  rw [valueOf, List.foldl_cons, foldl_bits]
  simp

theorem valueOf_lt (bits : List Bool) : valueOf bits < 2 ^ bits.length := by
  induction bits with
  | nil => simp [valueOf]
  | cons bit rest ih =>
    rw [valueOf_cons, List.length_cons, Nat.pow_succ]
    cases bit <;> simp <;> omega

@[simp] theorem length_bitsOf (width value : Nat) : (bitsOf width value).length = width := by
  induction width with
  | zero => rfl
  | succ width ih => rw [bitsOf, List.length_cons, ih]

/-- Only the lowest bits of a value are looked at. -/
theorem bitsOf_add (width value high : Nat) :
    bitsOf width (high * 2 ^ width + value) = bitsOf width value := by
  induction width generalizing high with
  | zero => rfl
  | succ width ih =>
    have split : high * 2 ^ (width + 1) + value = high * 2 * 2 ^ width + value := by
      rw [Nat.pow_succ, Nat.mul_assoc, Nat.mul_comm 2]
    have top : (high * 2 * 2 ^ width + value) / Nat.pow 2 width = high * 2 + value / 2 ^ width := by
      rw [Nat.add_comm]
      exact (Nat.add_mul_div_right _ _ (Nat.pow_pos (by omega))).trans (Nat.add_comm _ _)
    rw [split, bitsOf, bitsOf, ih, top, Nat.add_comm (high * 2), Nat.add_mul_mod_self_right]
    rfl

/-- Bits are the bits of their value. -/
theorem bitsOf_valueOf (bits : List Bool) : bitsOf bits.length (valueOf bits) = bits := by
  induction bits with
  | nil => rfl
  | cons bit rest ih =>
    have small := valueOf_lt rest
    have top : (bit.toNat * 2 ^ rest.length + valueOf rest) / Nat.pow 2 rest.length
        = bit.toNat := by
      rw [Nat.add_comm]
      refine (Nat.add_mul_div_right _ _ (Nat.pow_pos (by omega))).trans ?_
      rw [Nat.div_eq_of_lt small, Nat.zero_add]
    rw [List.length_cons, valueOf_cons, bitsOf, bitsOf_add, ih, top]
    cases bit <;> rfl

/-- A value is the value of its bits. -/
theorem valueOf_bitsOf (width value : Nat) : valueOf (bitsOf width value) = value % 2 ^ width := by
  induction width with
  | zero => simp [bitsOf, valueOf, Nat.mod_one]
  | succ width ih =>
    rw [bitsOf, valueOf_cons, length_bitsOf, ih, Nat.pow_succ, Nat.mod_mul, Nat.mul_comm]
    have bit : (value / Nat.pow 2 width % 2 == 1).toNat = value / 2 ^ width % 2 := by
      have : value / 2 ^ width % 2 < 2 := Nat.mod_lt _ (by omega)
      change (value / 2 ^ width % 2 == 1).toNat = _
      rcases (by omega : value / 2 ^ width % 2 = 0 ∨ value / 2 ^ width % 2 = 1)
        with h | h <;> simp [h]
    rw [bit, Nat.add_comm]

/-! ## Bytes -/

/-- The bits of bytes make the bytes again; bits after them that fill no byte are left over. -/
theorem bytesOfBits_bitsOfBytes (bytes : Bytes) (left : List Bool) (short : left.length < 8) :
    bytesOfBits (bitsOfBytes bytes ++ left) = (bytes, left) := by
  induction bytes with
  | nil =>
    rw [bitsOfBytes, List.flatMap_nil, List.nil_append]
    match left, short with
    | [], _ | [_], _ | [_, _], _ | [_, _, _], _ | [_, _, _, _], _ | [_, _, _, _, _], _
    | [_, _, _, _, _, _], _ | [_, _, _, _, _, _, _], _ => rfl
  | cons byte rest ih =>
    have value : valueOf (bitsOf 8 byte.toNat) = byte.toNat := by
      rw [valueOf_bitsOf]
      exact Nat.mod_eq_of_lt byte.toNat_lt
    have unfolded : bitsOfBytes (byte :: rest) ++ left
        = bitsOf 8 byte.toNat ++ (bitsOfBytes rest ++ left) := by
      rw [bitsOfBytes, List.flatMap_cons, List.append_assoc]
      rfl
    rw [unfolded]
    simp only [bitsOf, List.cons_append, List.nil_append] at value ⊢
    rw [bytesOfBits, ih, value]
    simp

/-! ## Groups -/

theorem length_of_mem_groups {width count : Nat} {bits group : List Bool}
    (h : group ∈ groups width count bits) : group.length = width := by
  induction count generalizing bits with
  | zero => simp [groups] at h
  | succ count ih =>
    rw [groups] at h
    split at h
    · simp at h
    · rcases List.mem_cons.mp h with rfl | later
      · rw [List.length_append, List.length_replicate, List.length_take]
        omega
      · exact ih later

/-- The groups hold the bits, followed by fewer zeros than a group has bits. -/
theorem flatten_groups {width : Nat} (positive : 0 < width) (count : Nat) (bits : List Bool)
    (enough : bits.length ≤ count) :
    ∃ padding < width, (groups width count bits).flatten
      = bits ++ List.replicate padding false := by
  induction count generalizing bits with
  | zero =>
    have none : bits = [] := List.eq_nil_of_length_eq_zero (by omega)
    exact ⟨0, positive, by simp [none, groups]⟩
  | succ count ih =>
    rcases bits with _ | ⟨bit, rest⟩
    · exact ⟨0, positive, by simp [groups]⟩
    rw [groups, if_neg (by simp), List.flatten_cons]
    by_cases last : (bit :: rest).length ≤ width
    · refine ⟨width - (bit :: rest).length, by rw [List.length_cons]; omega, ?_⟩
      rw [List.take_of_length_le last, List.drop_of_length_le last]
      cases count <;> simp [groups]
    · obtain ⟨padding, small, equal⟩ := ih ((bit :: rest).drop width)
        (by rw [List.length_drop]; omega)
      refine ⟨padding, small, ?_⟩
      have full : width - ((bit :: rest).take width).length = 0 := by
        rw [List.length_take]; omega
      rw [equal, full, List.replicate_zero, List.append_nil, ← List.append_assoc,
        List.take_append_drop]

theorem length_flatten_groups (width count : Nat) (bits : List Bool) :
    (groups width count bits).flatten.length = (groups width count bits).length * width := by
  have even : ∀ gs : List (List Bool), (∀ group ∈ gs, group.length = width) →
      gs.flatten.length = gs.length * width := by
    intro gs h
    induction gs with
    | nil => simp
    | cons group rest ih =>
      rw [List.flatten_cons, List.length_append, h group List.mem_cons_self,
        ih fun g hg => h g (List.mem_cons_of_mem _ hg), List.length_cons, Nat.add_mul, Nat.add_comm,
        Nat.one_mul]
  exact even _ fun _ h => length_of_mem_groups h

/-! ## Symbols -/

/-- An alphabet in which every group has a symbol of its own. -/
structure Alphabet.Proper (alphabet : Alphabet) : Prop where
  width_pos : 0 < alphabet.width
  width_le : alphabet.width ≤ 8
  nodup : alphabet.symbols.Nodup
  length_symbols : 2 ^ alphabet.width = alphabet.symbols.length

theorem proper_base64Url : base64Url.Proper :=
  ⟨by decide, by decide, by decide, by decide⟩

theorem proper_crockford32 : crockford32.Proper :=
  ⟨by decide, by decide, by decide, by decide⟩

variable {alphabet : Alphabet}

theorem getD_symbol {value : Nat} (inside : value < alphabet.symbols.length) :
    alphabet.symbols.getD value ' ' = alphabet.symbols[value] := by
  simp [inside]

theorem idxOf?_symbol (proper : alphabet.Proper) {value : Nat}
    (small : value < 2 ^ alphabet.width) :
    alphabet.symbols.idxOf? (alphabet.symbols.getD value ' ') = some value := by
  have inside : value < alphabet.symbols.length := proper.length_symbols ▸ small
  rw [getD_symbol inside, List.idxOf?_eq_some_iff]
  refine ⟨inside, rfl, fun j earlier same => ?_⟩
  have equal := (List.Nodup.getElem_inj_iff proper.nodup).mp same
  omega

/-- The symbols of groups stand for the bits of the groups. -/
theorem bitsOfSymbols?_map (proper : alphabet.Proper) (gs : List (List Bool))
    (even : ∀ group ∈ gs, group.length = alphabet.width) :
    bitsOfSymbols? alphabet (gs.map fun group => alphabet.symbols.getD (valueOf group) ' ')
      = some gs.flatten := by
  induction gs with
  | nil => rfl
  | cons group rest ih =>
    have width := even group List.mem_cons_self
    have small : valueOf group < 2 ^ alphabet.width := width ▸ valueOf_lt group
    have back : bitsOf alphabet.width (valueOf group) = group := width ▸ bitsOf_valueOf group
    rw [List.map_cons, bitsOfSymbols?, idxOf?_symbol proper small,
      ih fun g h => even g (List.mem_cons_of_mem _ h)]
    simp [back]

/-- Reading what was written gives the bytes, and the padding of the last symbol. -/
theorem decode?_encode (proper : alphabet.Proper) (bytes : Bytes) :
    ∃ padding < alphabet.width,
      decode? alphabet (encode alphabet bytes) = some (bytes, List.replicate padding false) := by
  obtain ⟨padding, small, equal⟩ :=
    flatten_groups proper.width_pos (bitsOfBytes bytes).length (bitsOfBytes bytes) (Nat.le_refl _)
  refine ⟨padding, small, ?_⟩
  have short : (List.replicate padding false).length < 8 := by
    have := proper.width_le
    rw [List.length_replicate]
    omega
  rw [decode?, encode, bitsOfSymbols?_map proper _ fun _ h => length_of_mem_groups h,
    equal]
  simp [bytesOfBits_bitsOfBytes bytes _ short, small]

theorem length_bitsOfBytes (bytes : Bytes) : (bitsOfBytes bytes).length = 8 * bytes.length := by
  induction bytes with
  | nil => rfl
  | cons byte rest ih =>
    rw [bitsOfBytes, List.flatMap_cons, List.length_append, length_bitsOf, List.length_cons]
    change 8 + (bitsOfBytes rest).length = _
    omega

/-- The symbols hold the bits of the bytes, and less than a symbol more. -/
theorem length_encode (proper : alphabet.Proper) (bytes : Bytes) :
    ∃ padding < alphabet.width,
      (encode alphabet bytes).length * alphabet.width = 8 * bytes.length + padding := by
  obtain ⟨padding, small, equal⟩ :=
    flatten_groups proper.width_pos (bitsOfBytes bytes).length (bitsOfBytes bytes) (Nat.le_refl _)
  refine ⟨padding, small, ?_⟩
  have lengths := congrArg List.length equal
  rw [length_flatten_groups, List.length_append, length_bitsOfBytes,
    List.length_replicate] at lengths
  rw [encode, List.length_map, length_bitsOfBytes]
  exact lengths

theorem encode_injective (proper : alphabet.Proper) : Function.Injective (encode alphabet) := by
  intro a b same
  obtain ⟨_, _, readA⟩ := decode?_encode proper a
  obtain ⟨_, _, readB⟩ := decode?_encode proper b
  rw [same, readB] at readA
  exact (Prod.mk.inj (Option.some.inj readA)).1.symm

/-- Every symbol of a text belongs to the alphabet. -/
theorem mem_symbols_of_mem_encode (proper : alphabet.Proper) {bytes : Bytes} {c : Char}
    (h : c ∈ encode alphabet bytes) : c ∈ alphabet.symbols := by
  obtain ⟨group, inside, rfl⟩ := List.mem_map.mp h
  have small : valueOf group < alphabet.symbols.length := by
    rw [← proper.length_symbols, ← length_of_mem_groups inside]
    exact valueOf_lt group
  rw [getD_symbol small]
  exact List.getElem_mem small

end PinnedStore.Packed
