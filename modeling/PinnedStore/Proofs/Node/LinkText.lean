import Mathlib.Data.List.TakeWhile
import PinnedStore.Node.LinkText
import PinnedStore.Proofs.Text.Hex

/-!
# Digests and links as text

A digest is read from a text of sixty-four hexadecimal digits of either case, with any white space
around it, and from no other text.  A link is read from a text with an equals sign in it, the first
of which ends the name; what follows has to be a text of a digest.

So a digest can be read back from what it is shown as.  A link can be read back from what it is
written as unless its name has an equals sign in it; then no link is read at all, since a sign is
left over before the digest.

* `Blank.Cut`, `Blank.trim_eq_iff`: what is left of a text without the white space at its ends.
* `Digest.parse_eq_ok`, `Digest.exists_parse_iff`: the texts of a digest, and of any digest.
* `Link.parse_eq_ok`: the texts of a link.
* `Link.parse_text_eq_ok`: what comes of the written form of a link.
* `Link.texts_follow_grammar`: all of it together.
-/

namespace PinnedStore

variable {c : Char} {chars core before after : List Char} {text name : String} {d : Digest}

/-! ## White space -/

namespace Blank

/-- What is left of a text is what stands between blanks, and neither begins nor ends with one. -/
structure Cut (chars core : List Char) : Prop where
  ends : ∃ before after, chars = before ++ core ++ after ∧ (∀ c ∈ before, isBlank c = true) ∧
    ∀ c ∈ after, isBlank c = true
  first : ∀ c ∈ core.head?, isBlank c = false
  last : ∀ c ∈ core.getLast?, isBlank c = false

theorem head_dropWhile (chars : List Char) :
    ∀ c ∈ (chars.dropWhile isBlank).head?, isBlank c = false := by
  intro c isHead
  have stop := List.head?_dropWhile_not isBlank chars
  rw [Option.mem_def.mp isHead] at stop
  exact stop

/-- Blanks are dropped up to something that does not begin with one. -/
theorem dropWhile_append_eq (blank : ∀ c ∈ before, isBlank c = true)
    (stop : ∀ c ∈ core.head?, isBlank c = false) : (before ++ core).dropWhile isBlank = core := by
  rw [List.dropWhile_append_of_pos blank]
  rcases core with _ | ⟨c, rest⟩
  · rfl
  · exact List.dropWhile_cons_of_neg (by rw [stop c rfl]; exact Bool.false_ne_true)

theorem cut_trimChars (chars : List Char) : Cut chars (trimChars chars) := by
  let rest := chars.dropWhile isBlank
  have front : chars.takeWhile isBlank ++ rest = chars := List.takeWhile_append_dropWhile
  have back : rest = trimChars chars ++ (rest.reverse.takeWhile isBlank).reverse := by
    rw [trimChars, ← List.reverse_append, List.takeWhile_append_dropWhile, List.reverse_reverse]
  constructor
  · refine ⟨chars.takeWhile isBlank, (rest.reverse.takeWhile isBlank).reverse, ?_,
      fun c inside => ?_,
      fun c inside => ?_⟩
    · rw [List.append_assoc, ← back, front]
    · exact List.mem_takeWhile_imp inside
    · exact List.mem_takeWhile_imp (List.mem_reverse.mp inside)
  · intro c isHead
    refine head_dropWhile chars c ?_
    show c ∈ rest.head?
    rw [back, List.head?_append, Option.mem_def.mp isHead]
    rfl
  · intro c isLast
    rw [trimChars, List.getLast?_reverse] at isLast
    exact head_dropWhile rest.reverse c isLast

/-- Trimming leaves just what stands between the white space at the ends. -/
theorem trimChars_eq_iff : trimChars chars = core ↔ Cut chars core := by
  refine ⟨fun same => same ▸ cut_trimChars chars, fun cut => ?_⟩
  obtain ⟨⟨before, after, rfl, front, back⟩, first, last⟩ := cut
  rcases core with _ | ⟨c, rest⟩
  · have all : ∀ c ∈ before ++ [] ++ after, isBlank c = true := by
      intro c inside
      rw [List.append_nil] at inside
      exact (List.mem_append.mp inside).elim (front c) (back c)
    rw [trimChars, List.dropWhile_eq_nil_iff.mpr all]
    rfl
  · have dropped : (before ++ (c :: rest) ++ after).dropWhile isBlank = c :: rest ++ after := by
      rw [List.append_assoc]
      exact dropWhile_append_eq front first
    rw [trimChars, dropped, List.reverse_append, dropWhile_append_eq, List.reverse_reverse]
    · exact fun c inside => back c (List.mem_reverse.mp inside)
    · rwa [List.head?_reverse]

theorem trim_eq_iff {left : String} : trim text = left ↔ Cut text.toList left.toList := by
  rw [trim, ← String.toList_inj, String.toList_ofList, trimChars_eq_iff]

/-- A text that has no white space in it is left as it is. -/
theorem trim_of_none (none : ∀ c ∈ text.toList, isBlank c = false) : trim text = text := by
  refine trim_eq_iff.mpr ⟨⟨[], [], by simp, nofun, nofun⟩, fun c isHead => none c ?_,
    fun c isLast => none c ?_⟩
  · exact List.mem_of_mem_head? isHead
  · exact List.mem_of_mem_getLast? isLast

end Blank

/-! ## Digests -/

namespace Digest

theorem ofBytes_eq_ok {bytes : Bytes} : ofBytes bytes = .ok d ↔ bytes = d.bytes := by
  rw [ofBytes]
  split
  · next full =>
    rw [Except.ok.injEq]
    exact ⟨fun same => same ▸ rfl, fun same => ext same⟩
  · next other =>
    refine iff_of_false (by simp) fun same => other ?_
    rw [same, d.length_bytes]

/-- A text is read as a digest just if, in lower case and without the white space at its ends, it is
what the digest is shown as. -/
theorem parse_eq_ok : parse text = .ok d ↔ (Blank.trim text).toLower = d.toHex := by
  rw [toHex, ← Hex.decode_eq_ok, parse]
  rcases Hex.decode (Bytes.ofText (Blank.trim text)) with e | bytes
  · simp
  · rw [Except.ok.injEq]
    exact ofBytes_eq_ok

/-- The texts that are read as any digest. -/
theorem exists_parse_iff : (∃ d, parse text = .ok d)
    ↔ (Blank.trim text).length = 64 ∧ ∀ c ∈ (Blank.trim text).toList, Hex.IsDigit c := by
  simp only [parse_eq_ok]
  constructor
  · rintro ⟨d, same⟩
    have length := Hex.length_of_toLower same
    rw [d.length_bytes] at length
    exact ⟨length, (Hex.exists_toLower_iff.mp ⟨d.bytes, same⟩).2⟩
  · rintro ⟨length, areDigits⟩
    obtain ⟨bytes, same⟩ := Hex.exists_toLower_iff.mpr ⟨by rw [length], areDigits⟩
    have full : bytes.length = 32 := by
      have twice := Hex.length_of_toLower same
      omega
    exact ⟨⟨bytes, full⟩, same⟩

/-- What a digest is shown as has no white space in it. -/
theorem trim_toHex (d : Digest) : Blank.trim d.toHex = d.toHex := by
  have table : ∀ n < 16, Blank.isBlank (Hex.digit n) = false := by decide
  refine Blank.trim_of_none fun c inside => ?_
  rw [toHex, Hex.encode, String.toList_ofList] at inside
  obtain ⟨n, small, rfl⟩ := Hex.mem_chars inside
  exact table n small

theorem parse_toHex (d : Digest) : parse d.toHex = .ok d := by
  rw [parse_eq_ok, trim_toHex]
  exact Hex.toLower_encode d.bytes

/-- There is no equals sign in a text of a digest. -/
theorem sign_not_mem_of_parse (isRead : parse text = .ok d) : '=' ∉ text.toList := by
  obtain ⟨-, areDigits⟩ := exists_parse_iff.mp ⟨d, isRead⟩
  obtain ⟨⟨before, after, split, front, back⟩, -, -⟩ :=
    Blank.trim_eq_iff.mp (rfl : Blank.trim text = Blank.trim text)
  have notBlank : Blank.isBlank '=' = false := by decide
  have notDigit : ¬ Hex.IsDigit '=' := by decide
  rw [split]
  intro inside
  rcases List.mem_append.mp inside with inside | inside
  · rcases List.mem_append.mp inside with inside | inside
    · exact Bool.false_ne_true (notBlank.symm.trans (front _ inside))
    · exact notDigit (areDigits _ inside)
  · exact Bool.false_ne_true (notBlank.symm.trans (back _ inside))

end Digest

/-! ## Links -/

namespace Link

/-- Something is cut at its first equals sign. -/
theorem cut_iff {rest : List Char} :
    chars.takeWhile (· ≠ '=') = before ∧ chars.dropWhile (· ≠ '=') = '=' :: rest
      ↔ chars = before ++ '=' :: rest ∧ '=' ∉ before := by
  constructor
  · rintro ⟨rfl, late⟩
    refine ⟨?_, fun inside => ?_⟩
    · rw [← late, List.takeWhile_append_dropWhile]
    · simpa using List.mem_takeWhile_imp inside
  · rintro ⟨rfl, apart⟩
    have early : ∀ c ∈ before, decide (c ≠ '=') = true := fun c inside =>
      decide_eq_true fun same => apart (same ▸ inside)
    rw [List.takeWhile_append_of_pos early, List.dropWhile_append_of_pos early]
    simp

/-- A text is read as a link just if it is the name, an equals sign and a text of the digest, and
there is no equals sign in the name. -/
theorem parse_eq_ok : parse text = .ok ⟨name, d⟩
    ↔ ∃ rest, text = name ++ "=" ++ rest ∧ '=' ∉ name.toList ∧ Digest.parse rest = .ok d := by
  have cut : ∀ rest : String, (text = name ++ "=" ++ rest ∧ '=' ∉ name.toList)
      ↔ text.toList.takeWhile (· ≠ '=') = name.toList ∧
        text.toList.dropWhile (· ≠ '=') = '=' :: rest.toList := by
    intro rest
    rw [cut_iff, ← String.toList_inj]
    simp
  simp only [← and_assoc, cut]
  rw [parse]
  rcases late : text.toList.dropWhile (· ≠ '=') with _ | ⟨sign, rest⟩
  · simp
  · have stop := List.head?_dropWhile_not (· ≠ '=') text.toList
    rw [late] at stop
    obtain rfl : sign = '=' := not_not.mp (of_decide_eq_false stop)
    dsimp only
    constructor
    · intro isRead
      split at isRead
      · next target found =>
        cases isRead
        exact ⟨String.ofList rest, ⟨String.toList_ofList.symm, by rw [String.toList_ofList]⟩, found⟩
      · cases isRead
    · rintro ⟨rest', ⟨early, same⟩, found⟩
      rw [(List.cons.inj same).2, String.ofList_toList, found, early, String.ofList_toList]

theorem text_eq (l : Link) : l.text = l.name ++ "=" ++ l.target.toHex := by
  rw [← String.toList_inj, text, String.toList_ofList]
  simp

theorem parse_text {l : Link} (apart : '=' ∉ l.name.toList) : parse l.text = .ok l :=
  parse_eq_ok.mpr ⟨l.target.toHex, text_eq l, apart, Digest.parse_toHex l.target⟩

/-- What a link is written as is read as the link, unless there is an equals sign in its name; then
it is not read as any link. -/
theorem parse_text_eq_ok {l l' : Link} : parse l.text = .ok l' ↔ l' = l ∧ '=' ∉ l.name.toList := by
  constructor
  · intro isRead
    obtain ⟨rest, same, apart, found⟩ := parse_eq_ok.mp isRead
    -- There is one sign only, which is the one after the name that has been read.
    have signs := congrArg (fun text => text.toList.count '=') (same.symm.trans (text_eq l))
    simp only [String.toList_append, List.count_append, List.count_eq_zero_of_not_mem apart,
      List.count_eq_zero_of_not_mem (Digest.sign_not_mem_of_parse found)] at signs
    have once : '=' ∉ l.name.toList := List.count_eq_zero.mp (by omega)
    exact ⟨Except.ok.inj (isRead.symm.trans (parse_text once)), once⟩
  · rintro ⟨rfl, apart⟩
    exact parse_text apart

/-- A text is read as a digest just if, without the white space at its ends, it is made of
sixty-four hexadecimal digits; the digest is shown as these digits in lower case, and can be read
back from them.  A text is read as a link just if there is an equals sign in it, what stands before
the first one is the name, and what follows is read as the digest.  So a link can be read back from
its name, an equals sign and the digest just if there is no such sign in the name. -/
theorem texts_follow_grammar :
    (∀ text, Blank.Cut text.toList (Blank.trim text).toList) ∧
    (∀ text d, Digest.parse text = .ok d ↔
      ((Blank.trim text).length = 64 ∧ ∀ c ∈ (Blank.trim text).toList, Hex.IsDigit c) ∧
        d.toHex = (Blank.trim text).toLower) ∧
    (∀ text, (∃ d, Digest.parse text = .ok d) ↔
      (Blank.trim text).length = 64 ∧ ∀ c ∈ (Blank.trim text).toList, Hex.IsDigit c) ∧
    (∀ d : Digest, Digest.parse d.toHex = .ok d) ∧
    (∀ text name d, parse text = .ok ⟨name, d⟩ ↔
      ∃ rest, text = name ++ "=" ++ rest ∧ '=' ∉ name.toList ∧ Digest.parse rest = .ok d) ∧
    ∀ (name : String) (d : Digest),
      parse (name ++ "=" ++ d.toHex) = .ok ⟨name, d⟩ ↔ '=' ∉ name.toList := by
  refine ⟨fun text => Blank.trim_eq_iff.mp rfl, fun text d => ?_,
    fun text => Digest.exists_parse_iff,
    Digest.parse_toHex, fun text name d => parse_eq_ok, fun name d => ?_⟩
  · constructor
    · intro isRead
      exact ⟨Digest.exists_parse_iff.mp ⟨d, isRead⟩, (Digest.parse_eq_ok.mp isRead).symm⟩
    · rintro ⟨-, shown⟩
      exact Digest.parse_eq_ok.mpr shown.symm
  · rw [← text_eq ⟨name, d⟩, parse_text_eq_ok]
    exact and_iff_right rfl

end Link

end PinnedStore
