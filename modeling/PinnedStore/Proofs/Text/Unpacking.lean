import PinnedStore.Proofs.Text.Packed

/-!
# Which texts can be read as bytes

Reading a text in an alphabet takes the bits of its symbols, cuts them into bytes, and is content
with any bits that are left over as long as they make no symbol of their own.  So a text is read as
some bytes just if it has their bits and less than a symbol more, and from these bits the text can
be got back.

A format with one spelling for each byte string asks besides that the bits left over are zeros.
Then they are the padding that writing adds, since both fill up the same symbol; so what can be read
is what has been written, and nothing else.

* `map_symbols_groups`: the symbols of a text, got back from their bits.
* `decode?_eq_some`: what a text is read as.
* `exists_strict_iff`: the texts that can be read where the bits left over must be zeros.
-/

namespace PinnedStore.Packed

variable {alphabet : Alphabet} {chars : List Char} {bits left : List Bool} {bytes : Bytes}

/-! ## Bytes of bits -/

theorem bitsOf_toUInt8 {bits : List Bool} (eight : bits.length = 8) :
    bitsOf 8 (valueOf bits).toUInt8.toNat = bits := by
  have small : valueOf bits < 2 ^ 8 := eight ▸ valueOf_lt bits
  have same : (valueOf bits).toUInt8.toNat = valueOf bits := by
    rw [UInt8.toNat_ofNat']
    exact Nat.mod_eq_of_lt small
  rw [same, ← eight, bitsOf_valueOf]

/-- Bits are those of the bytes they make, and those left over. -/
theorem bytesOfBits_spec (bits : List Bool) :
    bits = bitsOfBytes (bytesOfBits bits).1 ++ (bytesOfBits bits).2 ∧
      (bytesOfBits bits).2.length < 8 := by
  fun_induction bytesOfBits bits with
  | case1 b7 b6 b5 b4 b3 b2 b1 b0 rest bytes left parts ih =>
    rw [parts] at ih
    refine ⟨?_, ih.2⟩
    have first : bitsOf 8 (valueOf [b7, b6, b5, b4, b3, b2, b1, b0]).toUInt8.toNat
        = [b7, b6, b5, b4, b3, b2, b1, b0] := bitsOf_toUInt8 rfl
    rw [bitsOfBytes, List.flatMap_cons, first, List.append_assoc]
    exact congrArg ([b7, b6, b5, b4, b3, b2, b1, b0] ++ ·) ih.1
  | case2 left short =>
    refine ⟨rfl, ?_⟩
    show left.length < 8
    rcases left
      with _ | ⟨b7, _ | ⟨b6, _ | ⟨b5, _ | ⟨b4, _ | ⟨b3, _ | ⟨b2, _ | ⟨b1, _ | ⟨b0, rest⟩⟩⟩⟩⟩⟩⟩⟩
    case cons.cons.cons.cons.cons.cons.cons.cons =>
      exact absurd rfl (short b7 b6 b5 b4 b3 b2 b1 b0 rest)
    all_goals simp

/-! ## Symbols of bits -/

theorem length_bitsOfSymbols? (h : bitsOfSymbols? alphabet chars = some bits) :
    bits.length = chars.length * alphabet.width := by
  induction chars generalizing bits with
  | nil =>
    cases h
    simp
  | cons c rest ih =>
    rw [bitsOfSymbols?] at h
    obtain ⟨value, -, h⟩ := Option.bind_eq_some_iff.mp h
    obtain ⟨others, later, h⟩ := Option.bind_eq_some_iff.mp h
    cases h
    rw [List.length_append, length_bitsOf, ih later, List.length_cons, Nat.add_mul, Nat.one_mul,
      Nat.add_comm]

/-- The symbols of a text are those of the groups of its bits. -/
theorem map_symbols_groups (proper : alphabet.Proper)
    (h : bitsOfSymbols? alphabet chars = some bits) {count : Nat} (enough : bits.length ≤ count) :
    (groups alphabet.width count bits).map (fun group => alphabet.symbols.getD (valueOf group) ' ')
      = chars := by
  have positive := proper.width_pos
  induction chars generalizing bits count with
  | nil =>
    cases h
    cases count <;> rfl
  | cons c rest ih =>
    rw [bitsOfSymbols?] at h
    obtain ⟨value, found, h⟩ := Option.bind_eq_some_iff.mp h
    obtain ⟨others, later, h⟩ := Option.bind_eq_some_iff.mp h
    cases h
    obtain ⟨inside, isSymbol, -⟩ := List.idxOf?_eq_some_iff.mp found
    have width : (bitsOf alphabet.width value).length = alphabet.width := length_bitsOf _ _
    rw [List.length_append, width] at enough
    obtain ⟨count, rfl⟩ : ∃ n, count = n + 1 := ⟨count - 1, by omega⟩
    have some : ¬ (bitsOf alphabet.width value ++ others).isEmpty = true := by
      rw [List.isEmpty_iff]
      intro none
      have := congrArg List.length none
      rw [List.length_append, width, List.length_nil] at this
      omega
    have first : (bitsOf alphabet.width value ++ others).take alphabet.width
        = bitsOf alphabet.width value := List.take_left' width
    have back : valueOf (bitsOf alphabet.width value) = value := by
      rw [valueOf_bitsOf]
      exact Nat.mod_eq_of_lt (proper.length_symbols ▸ inside)
    rw [groups, if_neg some]
    dsimp only
    rw [first, width, Nat.sub_self, List.replicate_zero, List.append_nil,
      List.drop_left' width, List.map_cons, back, getD_symbol inside, isSymbol,
      ih later (by omega)]

/-- Texts with the same bits are the same. -/
theorem eq_of_bitsOfSymbols? {chars' : List Char} (proper : alphabet.Proper)
    (h : bitsOfSymbols? alphabet chars = some bits)
    (h' : bitsOfSymbols? alphabet chars' = some bits) :
    chars = chars' := by
  rw [← map_symbols_groups proper h (Nat.le_refl _), map_symbols_groups proper h' (Nat.le_refl _)]

/-- Two rests of less than a symbol that fill up the last symbol of the same bits are as long. -/
theorem eq_of_fill {width known rest rest' count count' : Nat} (short : rest < width)
    (short' : rest' < width) (fills : known + rest = count * width)
    (fills' : known + rest' = count' * width) : rest = rest' := by
  have next : ∀ {a b : Nat}, a < b → a * width + width ≤ b * width := fun {a b} less => by
    have := Nat.mul_le_mul_right width less
    rwa [Nat.succ_mul] at this
  rcases Nat.lt_trichotomy count count' with less | equal | more
  · have := next less
    omega
  · rw [equal] at fills
    omega
  · have := next more
    omega

/-! ## Reading -/

/-- A text is read as some bytes just if it has their bits and, besides, those left over, which make
no symbol of their own. -/
theorem decode?_eq_some (proper : alphabet.Proper) : decode? alphabet chars = some (bytes, left) ↔
    bitsOfSymbols? alphabet chars = some (bitsOfBytes bytes ++ left) ∧
      left.length < alphabet.width := by
  constructor
  · intro h
    rw [decode?] at h
    obtain ⟨bits, symbols, h⟩ := Option.bind_eq_some_iff.mp h
    have parts := (bytesOfBits_spec bits).1
    dsimp only at h
    split at h
    · next short =>
      cases h
      rw [← parts]
      exact ⟨symbols, short⟩
    · cases h
  · rintro ⟨symbols, short⟩
    rw [decode?, symbols]
    show (if (bytesOfBits (bitsOfBytes bytes ++ left)).2.length < alphabet.width then _ else none)
      = _
    rw [bytesOfBits_bitsOfBytes bytes left (Nat.lt_of_lt_of_le short proper.width_le), if_pos short]
    rfl

/-- Where the bits left over must be zeros, a text can be read just if it is what some bytes are
written as. -/
theorem exists_strict_iff (proper : alphabet.Proper) :
    (∃ left, decode? alphabet chars = some (bytes, left) ∧ left.any id = false)
      ↔ chars = encode alphabet bytes := by
  obtain ⟨padding, small, written⟩ := decode?_encode proper bytes
  constructor
  · rintro ⟨left, read, zeros⟩
    obtain ⟨symbols, short⟩ := (decode?_eq_some proper).mp read
    obtain ⟨symbols', -⟩ := (decode?_eq_some proper).mp written
    have plain : left = List.replicate left.length false :=
      List.eq_replicate_of_mem fun bit inside => by
        simpa using List.any_eq_false.mp zeros bit inside
    -- Both fill up the same symbol, so there are as many zeros left over as writing adds.
    have total := length_bitsOfSymbols? symbols
    have total' := length_bitsOfSymbols? symbols'
    rw [List.length_append] at total total'
    rw [List.length_replicate] at total'
    have same : left.length = padding :=
      eq_of_fill short small total total'
    rw [plain, same] at symbols
    exact eq_of_bitsOfSymbols? proper symbols symbols'
  · rintro rfl
    exact ⟨_, written, by simp⟩

end PinnedStore.Packed
