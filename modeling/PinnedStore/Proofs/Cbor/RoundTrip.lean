import Mathlib.Tactic.Ring
import PinnedStore.Cbor.Record

/-!
# Reading back what was written

Every writer has a reader that gives back what was written and stops right behind it, whatever
follows.  That is what `Reads` says of a reader and a piece of text, and pieces that are read one
after the other are read as a whole.

A length or a number takes at most eight bytes; so everything that is written has to be shorter than
`2 ^ 64`.

* `Cbor.Reads`: a reader reads a text as a value, whatever follows.
* `Cbor.reads_unsigned`, `Cbor.reads_signed`: numbers.
* `Cbor.reads_byteString`, `Cbor.reads_text`: strings.
* `Cbor.reads_array`, `Cbor.reads_pair`: arrays and records of two fields.
-/

namespace PinnedStore.Cbor

variable {α β : Type}

/-- A reader reads a text as a value, whatever follows. -/
def Reads (reader : Reader α) (written : Bytes) (a : α) : Prop :=
  ∀ rest, reader (written ++ rest) = .ok (a, rest)

/-! ## Numbers -/

theorem take_append (data rest : Bytes) : take data.length (data ++ rest) = .ok (data, rest) := by
  simp [take]

theorem foldl_digits (start : Nat) (digits : Bytes) :
    digits.foldl (fun n byte => 256 * n + byte.toNat) start
      = start * 256 ^ digits.length + digits.foldl (fun n byte => 256 * n + byte.toNat) 0 := by
  induction digits generalizing start with
  | nil => simp
  | cons digit rest ih =>
    rw [List.foldl_cons, List.foldl_cons, ih, ih (256 * 0 + digit.toNat), List.length_cons,
      Nat.pow_succ]
    ring

theorem foldl_bigEndian (count n : Nat) :
    (bigEndian count n).foldl (fun n byte => 256 * n + byte.toNat) 0 = n % 256 ^ count := by
  induction count with
  | zero => simp [bigEndian, Nat.mod_one]
  | succ count ih =>
    rw [bigEndian, List.foldl_cons, foldl_digits, ih, length_bigEndian, Nat.mul_zero, Nat.zero_add,
      Nat.pow_succ, Nat.mod_mul, Nat.add_comm, Nat.mul_comm]
    simp [Nat.toUInt8, UInt8.toNat_ofNat']

theorem reads_number (count : Nat) {n : Nat} (fits : n < 256 ^ count) :
    Reads (number count) (bigEndian count n) n := by
  intro rest
  have taken := take_append (bigEndian count n) rest
  rw [length_bigEndian] at taken
  rw [number, taken]
  simp only [bind, Except.bind, pure, Except.pure, foldl_bigEndian, Nat.mod_eq_of_lt fits]

/-- What the low five bits of an initial byte say about a number. -/
def shortForm (n : Nat) : UInt8 :=
  if n < 24 then n.toUInt8
  else if n < UInt8.size then 24
  else if n < UInt16.size then 25
  else if n < UInt32.size then 26
  else 27

/-- The bytes of a number after the initial byte. -/
def longForm (n : Nat) : Bytes :=
  if n < 24 then []
  else if n < UInt8.size then bigEndian 1 n
  else if n < UInt16.size then bigEndian 2 n
  else if n < UInt32.size then bigEndian 4 n
  else bigEndian 8 n

theorem head_eq (kind : Major) (n : Nat) :
    head kind n = (kind.bits + shortForm n) :: longForm n := by
  rw [head, shortForm, longForm]
  split
  · rfl
  · split
    · rfl
    · split
      · rfl
      · split <;> rfl

theorem shortForm_eq (n : Nat) : ∃ i < 28, shortForm n = i.toUInt8 := by
  rw [shortForm]
  split
  · exact ⟨n, by omega, rfl⟩
  · split
    · exact ⟨24, by omega, rfl⟩
    · split
      · exact ⟨25, by omega, rfl⟩
      · split
        · exact ⟨26, by omega, rfl⟩
        · exact ⟨27, by omega, rfl⟩

theorem toUInt8_lt {n : Nat} (small : n < 24) : n.toUInt8 < 24 := by
  rw [UInt8.lt_iff_toNat_lt]
  simp only [Nat.toUInt8, UInt8.toNat_ofNat']
  exact Nat.lt_of_le_of_lt (Nat.mod_le _ _) small

theorem reads_argument {n : Nat} (fits : n < UInt64.size) :
    Reads (argument (shortForm n)) (longForm n) n := by
  intro rest
  rw [shortForm, longForm, argument]
  split
  · next small =>
    rw [if_pos (toUInt8_lt small)]
    simp only [Nat.toUInt8, UInt8.toNat_ofNat', List.nil_append]
    rw [Nat.mod_eq_of_lt (by omega)]
  · split
    · next fits => exact reads_number 1 fits rest
    · split
      · next fits => exact reads_number 2 fits rest
      · split
        · next fits => exact reads_number 4 fits rest
        · exact reads_number 8 fits rest

/-- The initial byte of a number without a sign is its short form. -/
theorem unsigned_shortForm (n : Nat) :
    Major.unsigned.bits + shortForm n = shortForm n ∧ shortForm n ≤ 0x1B := by
  have low : ∀ i < 28, Major.unsigned.bits + i.toUInt8 = i.toUInt8 ∧ i.toUInt8 ≤ 0x1B := by decide
  obtain ⟨i, bound, short⟩ := shortForm_eq n
  rw [short]
  exact low i bound

theorem reads_unsigned {n most : Nat} (fits : n < UInt64.size) (small : n ≤ most) :
    Reads (readUnsigned most) (head .unsigned n) n := by
  intro rest
  obtain ⟨bits, low⟩ := unsigned_shortForm n
  rw [head_eq, List.cons_append, readUnsigned, bits, if_pos low, reads_argument fits]
  simp only [bind, Except.bind, pure, Except.pure, small, if_true]

theorem reads_signed {n : Nat} (fits : n < 0x8000000000000000) :
    Reads readSigned (head .unsigned n) (n : Int) := by
  intro rest
  obtain ⟨bits, low⟩ := unsigned_shortForm n
  have wide : n < UInt64.size := Nat.lt_trans fits (by decide)
  rw [head_eq, List.cons_append, readSigned, bits, if_pos low, reads_argument wide]
  simp only [bind, Except.bind, pure, Except.pure, fits, if_true]

/-! ## Strings -/

/-- An initial byte is taken apart into its type and its low bits. -/
theorem major_info (kind : Major) (n : Nat) :
    major (kind.bits + shortForm n) = kind.bits ∧ info (kind.bits + shortForm n) = shortForm n ∧
      shortForm n ≠ 31 := by
  obtain ⟨i, bound, short⟩ := shortForm_eq n
  have parts : ∀ i < 28, major (kind.bits + i.toUInt8) = kind.bits ∧
      info (kind.bits + i.toUInt8) = i.toUInt8 ∧ i.toUInt8 ≠ 31 := by
    cases kind <;> decide
  rw [short]
  exact parts i bound

theorem reads_openHead (kind : Major) {n : Nat} (fits : n < UInt64.size) :
    Reads (openHead kind) (head kind n) (some n) := by
  intro rest
  obtain ⟨isMajor, isInfo, closed⟩ := major_info kind n
  rw [head_eq, List.cons_append, openHead, isMajor, isInfo, if_neg (fun h => h rfl), if_neg closed,
    reads_argument fits]
  rfl

theorem reads_content (kind : Major) {data : Bytes} (fits : data.length < UInt64.size) :
    Reads (content kind) (head kind data.length ++ data) data := by
  intro rest
  obtain ⟨isMajor, isInfo, closed⟩ := major_info kind data.length
  rw [head_eq, List.append_assoc, List.cons_append, content, isMajor, isInfo,
    if_neg (not_or.mpr ⟨fun h => h rfl, closed⟩), reads_argument fits]
  exact take_append data rest

theorem reads_byteString {data : Bytes} (fits : data.length < UInt64.size) :
    Reads readBytes (byteString data) data :=
  reads_content .bytes fits

theorem reads_text {s : String} (fits : (Bytes.ofText s).length < UInt64.size) :
    Reads readText (text s) s := by
  intro rest
  have whole : text s = head .text (Bytes.ofText s).length ++ Bytes.ofText s := rfl
  rw [readText, whole, reads_content .text fits]
  simp only [bind, Except.bind, Bytes.toText?_ofText]
  rfl

/-! ## Arrays and records -/

theorem reads_counted {item : Reader α} {write : α → Bytes} {items : List α}
    (each : ∀ a ∈ items, Reads item (write a) a) :
    Reads (readCounted item items.length) (items.flatMap write) items := by
  induction items with
  | nil => exact fun rest => rfl
  | cons a rest ih =>
    intro after
    rw [List.flatMap_cons, List.append_assoc, List.length_cons, readCounted,
      each a List.mem_cons_self]
    simp only [bind, Except.bind]
    rw [ih fun b h => each b (List.mem_cons_of_mem _ h)]
    rfl

theorem reads_array {item : Reader α} {write : α → Bytes} {items : List α}
    (fits : items.length < UInt64.size) (each : ∀ a ∈ items, Reads item (write a) a) :
    Reads (readArray item) (array write items) items := by
  intro rest
  rw [readArray, array, List.append_assoc, reads_openHead .array fits]
  exact reads_counted each rest

theorem reads_pair {first : Reader α} {second : Reader β} {a : α} {b : β} {written written' : Bytes}
    (reads : Reads first written a) (reads' : Reads second written' b) :
    Reads (readPair first second) (head .array 2 ++ written ++ written') (a, b) := by
  intro rest
  rw [readPair, List.append_assoc, List.append_assoc, reads_openHead .array (by decide)]
  simp only [bind, Except.bind]
  rw [if_neg (by decide), reads]
  simp only [pure, Except.pure]
  rw [if_neg (by decide), reads']
  rfl

end PinnedStore.Cbor
