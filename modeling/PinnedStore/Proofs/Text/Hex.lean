import PinnedStore.Text.Hex

/-!
# Which texts are hexadecimal

Bytes are written with lower-case digits and read from digits of either case.  So a text is read as
some bytes just if in lower case it is the text that these bytes are written as.  There are such
bytes just if the text is made of digits and their number is even.

The reader sees the UTF-8 form of a text and not its characters.  This makes no difference: a
character that takes more than one byte there begins with a byte that is no digit.  An odd number of
digits can not be mended by such a character either, since the values of the bytes of a text settle
what its characters are.

* `IsDigit`: the digits of either case.
* `map_value?_eq`: the values of the bytes of a text, said of its characters.
* `decodePairs_eq_ok`: what the reader makes of values, said with the halves of bytes.
* `decode_eq_ok`: the texts that are read as some bytes.
* `exists_toLower_iff`: the texts that are read as any bytes.
-/

namespace PinnedStore

/-- The UTF-8 form of a text is that of its characters, one after the other. -/
theorem Bytes.ofText_eq (text : String) :
    Bytes.ofText text = text.toList.flatMap String.utf8EncodeChar := by
  have encoded := String.toByteArray_ofList (l := text.toList)
  rw [String.ofList_toList, List.utf8Encode] at encoded
  rw [ofText, encoded, List.data_toByteArray]

namespace Hex

variable {c : Char} {h l v byte symbol : UInt8} {values symbols bytes : Bytes} {offset : Nat}
  {text : String}

/-! ## Digits -/

/-- A hexadecimal digit of either case. -/
def IsDigit (c : Char) : Prop :=
  ('0' ≤ c ∧ c ≤ '9') ∨ ('a' ≤ c ∧ c ≤ 'f') ∨ ('A' ≤ c ∧ c ≤ 'F')

instance (c : Char) : Decidable (IsDigit c) := by unfold IsDigit; infer_instance

theorem toNat_digit_lt {n : Nat} (small : n < 16) : (digit n).toNat < 128 := by
  have table : ∀ n < 16, (digit n).toNat < 128 := by decide
  exact table n small

/-- Only ASCII characters have a digit in lower case. -/
theorem ascii_of_toLower {n : Nat} (small : n < 16) (same : c.toLower = digit n) :
    c.toNat < 128 := by
  by_cases upper : c.val ≥ 'A'.val ∧ c.val ≤ 'Z'.val
  · have last : c.toNat ≤ 90 := upper.2
    omega
  · have kept : c.toLower = c := dif_neg upper
    rw [← kept, same]
    exact toNat_digit_lt small

theorem value?_spec (read : value? symbol = some v) : v.toNat < 16 ∧ symbol.toNat < 128 := by
  have table : ∀ n < 256, ∀ v ∈ value? (UInt8.ofNat n), v.toNat < 16 ∧ n < 128 := by
    decide +kernel
  have own := table symbol.toNat symbol.toNat_lt
  rw [UInt8.ofNat_toNat] at own
  exact own v read

/-- An ASCII character has the value of the digit that it is in lower case. -/
theorem value?_iff (ascii : c.toNat < 128) (small : v.toNat < 16) :
    value? (UInt8.ofNat c.toNat) = some v ↔ c.toLower = digit v.toNat := by
  have table : ∀ n < 128, ∀ m < 16, value? (UInt8.ofNat n) = some (UInt8.ofNat m)
      ↔ (Char.ofNat n).toLower = digit m := by decide +kernel
  have own := table c.toNat ascii v.toNat small
  rwa [UInt8.ofNat_toNat, Char.ofNat_toNat] at own

theorem isDigit_iff : IsDigit c ↔ ∃ n < 16, c.toLower = digit n := by
  by_cases ascii : c.toNat < 128
  · have table : ∀ n < 128,
        IsDigit (Char.ofNat n) ↔ ∃ m < 16, (Char.ofNat n).toLower = digit m := by
      decide +kernel
    have own := table c.toNat ascii
    rwa [Char.ofNat_toNat] at own
  · refine iff_of_false ?_ fun ⟨n, small, same⟩ => ascii (ascii_of_toLower small same)
    rintro (⟨-, last⟩ | ⟨-, last⟩ | ⟨-, last⟩)
    all_goals exact ascii (Nat.lt_of_le_of_lt last (by decide))

/-! ## The bytes of a text -/

theorem utf8EncodeChar_of_ascii (ascii : c.toNat < 128) :
    String.utf8EncodeChar c = [UInt8.ofNat c.toNat] :=
  if_pos (Nat.le_of_lt_succ ascii)

/-- Any other character begins with a byte that is no digit. -/
theorem utf8EncodeChar_of_not_ascii (other : ¬ c.toNat < 128) :
    ∃ first rest, String.utf8EncodeChar c = first :: rest ∧ value? first = none := by
  have foreign : ∀ n, 128 ≤ n % 256 → value? (UInt8.ofNat n) = none := by
    intro n large
    rw [Option.eq_none_iff_forall_ne_some]
    intro v read
    have small := (value?_spec read).2
    rw [UInt8.toNat_ofNat'] at small
    omega
  have above : ¬ c.val.toNat ≤ 127 := fun small => other (Nat.lt_succ_of_le small)
  rw [String.utf8EncodeChar, if_neg above]
  -- Characters of two, of three and of four bytes.
  split
  · exact ⟨_, _, rfl, foreign _ (by omega)⟩
  · split
    · exact ⟨_, _, rfl, foreign _ (by omega)⟩
    · exact ⟨_, _, rfl, foreign _ (by omega)⟩

/-- The bytes of characters have these values just if the characters are, in lower case, the digits
of these values. -/
theorem map_value?_eq {chars : List Char} (small : ∀ v ∈ values, v.toNat < 16) :
    (chars.flatMap String.utf8EncodeChar).map value? = values.map some
      ↔ chars.map Char.toLower = values.map fun v => digit v.toNat := by
  induction chars generalizing values with
  | nil => cases values <;> simp
  | cons c rest ih =>
    rcases values with _ | ⟨v, others⟩
    · simp
    · have own := small v List.mem_cons_self
      have ih := ih fun v inside => small v (List.mem_cons_of_mem _ inside)
      rw [List.flatMap_cons, List.map_append, List.map_cons, List.map_cons, List.map_cons,
        List.cons.injEq]
      by_cases ascii : c.toNat < 128
      · rw [utf8EncodeChar_of_ascii ascii, List.map_singleton, List.singleton_append,
          List.cons.injEq,
          value?_iff ascii own, ih]
      · obtain ⟨first, late, encoded, foreign⟩ := utf8EncodeChar_of_not_ascii ascii
        rw [encoded, List.map_cons, foreign]
        exact iff_of_false (by simp) fun same => ascii (ascii_of_toLower own same.1)

/-! ## Pairs of digits -/

/-- The halves of a byte, the high one first. -/
def halves (byte : UInt8) : Bytes := [byte / 16, byte % 16]

theorem halves_eq (high : h.toNat < 16) (low : l.toNat < 16) :
    byte / 16 = h ∧ byte % 16 = l ↔ byte = 16 * h + l := by
  have bound := byte.toNat_lt
  simp only [← UInt8.toNat_inj, UInt8.toNat_div, UInt8.toNat_mod, UInt8.toNat_add, UInt8.toNat_mul,
    UInt8.reduceToNat]
  omega

theorem small_of_mem_halves (inside : v ∈ bytes.flatMap halves) : v.toNat < 16 := by
  obtain ⟨byte, -, half⟩ := List.mem_flatMap.mp inside
  have bound := byte.toNat_lt
  rw [halves, List.mem_cons, List.mem_singleton] at half
  rcases half with rfl | rfl
  · rw [UInt8.toNat_div]
    exact Nat.div_lt_of_lt_mul bound
  · exact Nat.mod_lt _ (by decide)

theorem length_halves (bytes : Bytes) : (bytes.flatMap halves).length = 2 * bytes.length := by
  induction bytes with
  | nil => rfl
  | cons byte others ih =>
    rw [List.flatMap_cons, List.length_append, ih, List.length_cons]
    simp only [halves, List.length_cons, List.length_nil]
    omega

theorem map_halves_cons (byte : UInt8) (others : Bytes) : ((byte :: others).flatMap halves).map some
    = some (byte / 16) :: some (byte % 16) :: (others.flatMap halves).map some := rfl

/-- An even number of symbols is read as those bytes whose halves are the values of the symbols. -/
theorem decodePairs_eq_ok (even : symbols.length % 2 = 0) : decodePairs offset symbols = .ok bytes
    ↔ symbols.map value? = (bytes.flatMap halves).map some := by
  fun_induction decodePairs offset symbols generalizing bytes with
  | case1 offset high low rest h l readLow readHigh ih =>
    have even' : rest.length % 2 = 0 := by
      rw [List.length_cons, List.length_cons] at even
      omega
    rw [List.map_cons, List.map_cons, readHigh, readLow]
    rcases bytes with _ | ⟨byte, others⟩
    · refine iff_of_false ?_ (by simp)
      cases decodePairs (offset + 2) rest <;> simp [Except.map]
    · rw [map_halves_cons, List.cons.injEq, List.cons.injEq, Option.some_inj, Option.some_inj,
        ← ih even', ← and_assoc, eq_comm (a := h), eq_comm (a := l),
        halves_eq (value?_spec readHigh).1 (value?_spec readLow).1]
      cases decodePairs (offset + 2) rest <;> simp [Except.map, eq_comm]
  | case2 offset high low rest foreign =>
    rw [List.map_cons, foreign]
    cases bytes <;> simp [halves]
  | case3 offset high low rest h foreign readHigh =>
    rw [List.map_cons, List.map_cons, foreign]
    cases bytes <;> simp [halves]
  | case4 symbols offset short =>
    rcases symbols with _ | ⟨high, _ | ⟨low, rest⟩⟩
    · cases bytes <;> simp [halves]
    · cases even
    · exact absurd rfl (short high low rest)

/-! ## Texts -/

theorem chars_eq (bytes : Bytes) :
    chars bytes = (bytes.flatMap halves).map fun v => digit v.toNat := by
  rw [chars, List.map_flatMap]
  rfl

theorem length_chars (bytes : Bytes) : (chars bytes).length = 2 * bytes.length := by
  rw [chars_eq, List.length_map, length_halves]

theorem mem_chars (inside : c ∈ chars bytes) : ∃ n < 16, c = digit n := by
  rw [chars_eq] at inside
  obtain ⟨v, isHalf, rfl⟩ := List.mem_map.mp inside
  exact ⟨v.toNat, small_of_mem_halves isHalf, rfl⟩

theorem toLower_eq_encode :
    text.toLower = encode bytes ↔ text.toList.map Char.toLower = chars bytes := by
  have lowered : text.toLower = text.map Char.toLower := rfl
  rw [lowered, ← String.toList_inj, String.toList_map, encode, String.toList_ofList]

theorem length_of_toLower (same : text.toLower = encode bytes) :
    text.length = 2 * bytes.length := by
  have length := congrArg List.length (toLower_eq_encode.mp same)
  rwa [List.length_map, String.length_toList, length_chars] at length

/-- What bytes are written as is in lower case. -/
theorem toLower_encode (bytes : Bytes) : (encode bytes).toLower = encode bytes := by
  have table : ∀ n < 16, (digit n).toLower = digit n := by decide
  rw [toLower_eq_encode, encode, String.toList_ofList]
  refine (List.map_congr_left (g := id) fun c inside => ?_).trans (List.map_id _)
  obtain ⟨n, small, rfl⟩ := mem_chars inside
  exact table n small

/-- A text is read as some bytes just if in lower case it is the text of these bytes. -/
theorem decode_eq_ok : decode (Bytes.ofText text) = .ok bytes ↔ text.toLower = encode bytes := by
  rw [toLower_eq_encode, chars_eq, ← map_value?_eq fun v inside => small_of_mem_halves inside,
    ← Bytes.ofText_eq]
  by_cases even : (Bytes.ofText text).length % 2 = 0
  · rw [decode, if_pos even, decodePairs_eq_ok even]
  · rw [decode, if_neg even]
    refine iff_of_false (by simp) fun same => even ?_
    have length := congrArg List.length same
    rw [List.length_map, List.length_map, length_halves] at length
    omega

theorem digits_ofNat {m n : Nat} (high : m < 16) (low : n < 16) :
    digits (UInt8.ofNat (16 * m + n)) = [digit m, digit n] := by
  have value : (UInt8.ofNat (16 * m + n)).toNat = 16 * m + n := by
    rw [UInt8.toNat_ofNat']
    omega
  have halved : (16 * m + n) / 16 = m ∧ (16 * m + n) % 16 = n := by omega
  rw [digits, value, halved.1, halved.2]

/-- Lower-case digits in even number are the text of some bytes. -/
theorem exists_chars : ∀ {lowered : List Char}, lowered.length % 2 = 0 →
    (∀ c ∈ lowered, ∃ n < 16, c = digit n) → ∃ bytes, chars bytes = lowered
  | [], _, _ => ⟨[], rfl⟩
  | [_], odd, _ => nomatch odd
  | high :: low :: rest, even, areDigits => by
    obtain ⟨m, smallM, rfl⟩ := areDigits high List.mem_cons_self
    obtain ⟨n, smallN, rfl⟩ := areDigits low (List.mem_cons_of_mem _ List.mem_cons_self)
    have even' : rest.length % 2 = 0 := by
      rw [List.length_cons, List.length_cons] at even
      omega
    obtain ⟨bytes, same⟩ := exists_chars even' fun c inside =>
      areDigits c (List.mem_cons_of_mem _ (List.mem_cons_of_mem _ inside))
    refine ⟨UInt8.ofNat (16 * m + n) :: bytes, ?_⟩
    rw [chars, List.flatMap_cons, digits_ofNat smallM smallN, ← chars, same]
    rfl

/-- A text is in lower case the text of some bytes just if it is made of digits in even number. -/
theorem exists_toLower_iff : (∃ bytes, text.toLower = encode bytes)
    ↔ text.length % 2 = 0 ∧ ∀ c ∈ text.toList, IsDigit c := by
  constructor
  · rintro ⟨bytes, same⟩
    have length := length_of_toLower same
    refine ⟨by omega, fun c inside => isDigit_iff.mpr ?_⟩
    exact mem_chars (toLower_eq_encode.mp same ▸ List.mem_map_of_mem inside)
  · rintro ⟨even, areDigits⟩
    have lowered : ∀ c ∈ text.toList.map Char.toLower, ∃ n < 16, c = digit n := by
      intro c inside
      obtain ⟨original, inside', rfl⟩ := List.mem_map.mp inside
      exact isDigit_iff.mp (areDigits original inside')
    obtain ⟨bytes, same⟩ := exists_chars (by rwa [List.length_map, String.length_toList]) lowered
    exact ⟨bytes, toLower_eq_encode.mpr same.symm⟩

end Hex

end PinnedStore
