import PinnedStore.Proofs.Cbor.RoundTrip

/-!
# Texts that are cut off

What is written says how long it is: the initial byte of an item tells how many bytes its number
takes, and the number how many bytes or items follow.  So no reader takes the beginning of a text
for a whole one.  Wherever a text is cut off, one of the readers on the way finds too few bytes and
says that the input ends.

A cut through two pieces lies in the first, or it leaves the first whole and lies in the second.
With what a reader makes of a whole first piece (`Reads`), this carries `Notices` from the pieces to
the text.

* `Cbor.Cut`: a text without some bytes at its end.
* `Cbor.Notices`: a reader notices wherever a text is cut off.
* `Cbor.Notices.bind`: reading one piece after another.
* `Cbor.notices_openHead`, `Cbor.notices_content`, `Cbor.notices_text`: heads and strings.
* `Cbor.notices_array`, `Cbor.notices_pair`: arrays and records of two fields.
-/

namespace PinnedStore.Cbor

variable {α β γ : Type}

/-- A text without some bytes at its end. -/
def Cut (part whole : Bytes) : Prop :=
  part <+: whole ∧ part ≠ whole

theorem not_cut_nil (part : Bytes) : ¬ Cut part [] :=
  fun ⟨isPrefix, short⟩ => short (List.prefix_nil.mp isPrefix)

theorem Cut.length_lt {part whole : Bytes} (cut : Cut part whole) : part.length < whole.length :=
  lt_of_le_of_ne cut.1.length_le fun same => cut.2 (cut.1.eq_of_length same)

theorem cut_cons {part whole : Bytes} {b : UInt8} (cut : Cut part (b :: whole)) :
    part = [] ∨ ∃ rest, part = b :: rest ∧ Cut rest whole := by
  obtain ⟨isPrefix, short⟩ := cut
  obtain none | ⟨rest, same, within⟩ := List.prefix_cons_iff.mp isPrefix
  · exact .inl none
  · exact .inr ⟨rest, same, within, fun h => short (by rw [same, h])⟩

/-- A cut lies in the first of two pieces, or in the second behind a whole first. -/
theorem cut_append {part first second : Bytes} (cut : Cut part (first ++ second)) :
    Cut part first ∨ ∃ rest, part = first ++ rest ∧ Cut rest second := by
  induction first generalizing part with
  | nil => exact .inr ⟨part, rfl, cut⟩
  | cons b first ih =>
    obtain rfl | ⟨rest, rfl, deeper⟩ := cut_cons cut
    · exact .inl ⟨List.nil_prefix, (List.cons_ne_nil b first).symm⟩
    · obtain early | ⟨late, rfl, within⟩ := ih deeper
      · exact .inl ⟨List.cons_prefix_cons.mpr ⟨rfl, early.1⟩, fun h => early.2 (List.cons.inj h).2⟩
      · exact .inr ⟨late, rfl, within⟩

/-- A reader notices wherever a text is cut off. -/
def Notices (reader : Reader α) (written : Bytes) : Prop :=
  ∀ part, Cut part written → reader part = .error .endOfInput

theorem notices_nil (reader : Reader α) : Notices reader [] :=
  fun part cut => absurd cut (not_cut_nil part)

/-- Behind an initial byte. -/
theorem notices_cons {reader : Reader α} {b : UInt8} {written : Bytes}
    (start : reader [] = .error .endOfInput)
    (rest : Notices (fun bytes => reader (b :: bytes)) written) :
    Notices reader (b :: written) := by
  intro part cut
  obtain rfl | ⟨part, rfl, deeper⟩ := cut_cons cut
  · exact start
  · exact rest part deeper

/-- What is done with the value of a reader comes too late to hide a cut. -/
theorem Notices.followed {reader : Reader α} {written : Bytes} (notices : Notices reader written)
    (next : α × Bytes → Except Error γ) {part : Bytes} (cut : Cut part written) :
    (reader part >>= next) = .error .endOfInput := by
  rw [notices part cut]
  rfl

/-- Two pieces, read one after the other. -/
theorem Notices.bind {reader : Reader α} {first second : Bytes} {a : α}
    {next : α × Bytes → Except Error (γ × Bytes)} (reads : Reads reader first a)
    (notices : Notices reader first) (after : Notices (fun bytes => next (a, bytes)) second) :
    Notices (fun bytes => reader bytes >>= next) (first ++ second) := by
  intro part cut
  obtain early | ⟨rest, rfl, within⟩ := cut_append cut
  · exact notices.followed next early
  · show (reader (first ++ rest) >>= next) = .error .endOfInput
    rw [reads rest]
    exact after rest within

/-! ## Heads and strings -/

theorem notices_take (data : Bytes) : Notices (take data.length) data := by
  intro part cut
  have short : (part.take data.length).length < data.length :=
    Nat.lt_of_le_of_lt (List.length_take_le' _ _) cut.length_lt
  rw [take, if_pos short]

theorem notices_number (count n : Nat) : Notices (number count) (bigEndian count n) := by
  intro part cut
  have taken := notices_take (bigEndian count n)
  rw [length_bigEndian] at taken
  exact taken.followed _ cut

theorem notices_argument (n : Nat) : Notices (argument (shortForm n)) (longForm n) := by
  rw [shortForm, longForm]
  split
  · exact notices_nil _
  · split
    · exact notices_number 1 n
    · split
      · exact notices_number 2 n
      · split
        · exact notices_number 4 n
        · exact notices_number 8 n

theorem notices_openHead (kind : Major) (n : Nat) : Notices (openHead kind) (head kind n) := by
  obtain ⟨isMajor, isInfo, closed⟩ := major_info kind n
  rw [head_eq]
  refine notices_cons rfl fun part cut => ?_
  show openHead kind (_ :: part) = .error .endOfInput
  rw [openHead, isMajor, isInfo, if_neg (fun h => h rfl), if_neg closed]
  exact (notices_argument n).followed _ cut

theorem notices_content (kind : Major) {data : Bytes} (fits : data.length < UInt64.size) :
    Notices (content kind) (head kind data.length ++ data) := by
  obtain ⟨isMajor, isInfo, closed⟩ := major_info kind data.length
  rw [head_eq, List.cons_append]
  refine notices_cons rfl fun part cut => ?_
  show content kind (_ :: part) = .error .endOfInput
  rw [content, isMajor, isInfo, if_neg (not_or.mpr ⟨fun h => h rfl, closed⟩)]
  exact (notices_argument data.length).bind (reads_argument fits) (notices_take data) part cut

theorem notices_byteString {data : Bytes} (fits : data.length < UInt64.size) :
    Notices readBytes (byteString data) :=
  notices_content .bytes fits

/-- The bytes of a text are counted before they are looked at, so a cut inside a character is a cut
like any other. -/
theorem notices_text {s : String} (fits : (Bytes.ofText s).length < UInt64.size) :
    Notices readText (text s) :=
  fun _ cut => (notices_content .text fits).followed _ cut

/-! ## Arrays and records -/

theorem notices_counted {item : Reader α} {write : α → Bytes} {items : List α}
    (reads : ∀ a ∈ items, Reads item (write a) a) (notices : ∀ a ∈ items, Notices item (write a)) :
    Notices (readCounted item items.length) (items.flatMap write) := by
  induction items with
  | nil => exact notices_nil _
  | cons a rest ih =>
    have others : Notices (readCounted item rest.length) (rest.flatMap write) :=
      ih (fun b h => reads b (List.mem_cons_of_mem _ h)) fun b h =>
        notices b (List.mem_cons_of_mem _ h)
    rw [List.flatMap_cons]
    exact (notices a List.mem_cons_self).bind (reads a List.mem_cons_self)
      fun _ cut => others.followed _ cut

theorem notices_array {item : Reader α} {write : α → Bytes} {items : List α}
    (fits : items.length < UInt64.size) (reads : ∀ a ∈ items, Reads item (write a) a)
    (notices : ∀ a ∈ items, Notices item (write a)) :
    Notices (readArray item) (array write items) :=
  (notices_openHead .array items.length).bind (reads_openHead .array fits)
    (notices_counted reads notices)

theorem notices_pair {first : Reader α} {second : Reader β} {a : α} {written written' : Bytes}
    (reads : Reads first written a) (notices : Notices first written)
    (notices' : Notices second written') :
    Notices (readPair first second) (head .array 2 ++ written ++ written') := by
  rw [List.append_assoc]
  refine (notices_openHead .array 2).bind (reads_openHead .array (by decide)) ?_
  exact notices.bind reads fun part cut => notices'.followed _ cut

end PinnedStore.Cbor
