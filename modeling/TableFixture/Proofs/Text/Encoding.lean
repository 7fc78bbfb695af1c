import Mathlib.Data.List.TakeWhile
import TableFixture.Text.Blank
import TableFixture.Text.Utf8

/-!
# Encoded texts

Decoding inverts encoding, and what is done to the bytes of a text before it is decoded
can be said of its characters.  Bytes of more than seven bits never are line ends,
separators or blanks, so only ASCII characters need to be looked at.

Main results:

- Theorem `decode_encode`: the bytes of a text decode to the text.
- Theorem `trimBoth_encode`: trimming bytes of ASCII blanks trims the characters of them.
- Theorem `isPrefixOf_encode_iff`: a text begins with the bytes of a character exactly if
  it begins with that character.
- Theorem `trimBoth_blanks_append_blanks`: blanks at the ends do not change a trim.
-/

namespace TableFixture.Text

/-! ## Trimming twice -/

section Trim

variable {α : Type} {p q : α → Bool}

/-- Elements that are all dropped leave nothing. -/
theorem dropWhile_append_of_all {before : List α} (h : ∀ x ∈ before, p x = true) (xs : List α) :
    (before ++ xs).dropWhile p = xs.dropWhile p := by
  rw [List.dropWhile_append, List.dropWhile_eq_nil_iff.2 h]
  rfl

/-- Trimmed elements before a list do not change its trim. -/
theorem trimBoth_append_left {before : List α} (h : ∀ x ∈ before, p x = true) (xs : List α) :
    trimBoth p (before ++ xs) = trimBoth p xs := by
  rw [trimBoth, dropWhile_append_of_all h, trimBoth]

/-- The order in which the ends are trimmed does not matter. -/
theorem reverse_trimBoth (xs : List α) : (trimBoth p xs).reverse = trimBoth p xs.reverse := by
  induction xs with
  | nil => rfl
  | cons x xs ih =>
      by_cases hx : p x = true
      · have hsingle : ∀ y ∈ [x], p y = true := by simpa using hx
        rw [← List.singleton_append, trimBoth_append_left hsingle, ih]
        simp only [trimBoth, List.reverse_append, List.reverse_singleton, List.reverse_inj]
        rw [List.dropWhile_append]
        by_cases hall : (xs.reverse.dropWhile p).isEmpty = true
        · rw [if_pos hall, List.isEmpty_iff.1 hall]
          simp [hx]
        · rw [if_neg hall, List.reverse_append, List.reverse_singleton, List.singleton_append,
            List.dropWhile_cons_of_pos hx]
      · simp only [trimBoth, List.dropWhile_cons_of_neg hx, List.reverse_reverse, List.reverse_cons]
        rw [List.dropWhile_append]
        by_cases hall : (xs.reverse.dropWhile p).isEmpty = true
        · rw [if_pos hall]
          simp [hx]
        · rw [if_neg hall, List.reverse_append, List.reverse_singleton, List.singleton_append,
            List.dropWhile_cons_of_neg hx]
          simp

/-- Trimmed elements after a list do not change its trim. -/
theorem trimBoth_append_right {after : List α} (h : ∀ x ∈ after, p x = true) (xs : List α) :
    trimBoth p (xs ++ after) = trimBoth p xs := by
  rw [← List.reverse_inj, reverse_trimBoth, reverse_trimBoth, List.reverse_append]
  exact trimBoth_append_left (by simpa using h) _

/-- Blanks at the ends do not change a trim. -/
theorem trimBoth_blanks_append_blanks {before after : List α} (hbefore : ∀ x ∈ before, p x = true)
    (hafter : ∀ x ∈ after, p x = true) (xs : List α) :
    trimBoth p (before ++ xs ++ after) = trimBoth p xs := by
  rw [trimBoth_append_right hafter, trimBoth_append_left hbefore]

/-- A list is its trim between trimmed elements. -/
theorem exists_eq_append_trimBoth (xs : List α) :
    ∃ before after : List α, (∀ x ∈ before, p x = true) ∧ (∀ x ∈ after, p x = true)
      ∧ xs = before ++ trimBoth p xs ++ after := by
  refine ⟨xs.takeWhile p, ((xs.dropWhile p).reverse.takeWhile p).reverse, ?_, ?_, ?_⟩
  · exact fun x hx => List.mem_takeWhile_imp hx
  · exact fun x hx => List.mem_takeWhile_imp (List.mem_reverse.1 hx)
  · have hend : trimBoth p xs ++ ((xs.dropWhile p).reverse.takeWhile p).reverse
        = xs.dropWhile p := by
      rw [trimBoth, ← List.reverse_append, List.takeWhile_append_dropWhile, List.reverse_reverse]
    rw [List.append_assoc, hend, List.takeWhile_append_dropWhile]

/-- A trim of fewer elements before a trim of more is lost in it. -/
theorem trimBoth_trimBoth_of_imp (h : ∀ x, q x = true → p x = true) (xs : List α) :
    trimBoth p (trimBoth q xs) = trimBoth p xs := by
  rcases exists_eq_append_trimBoth (p := q) xs with ⟨before, after, hbefore, hafter, hxs⟩
  conv => rhs; rw [hxs]
  exact (trimBoth_blanks_append_blanks (fun x hx => h x (hbefore x hx))
    (fun x hx => h x (hafter x hx)) _).symm

/-- A trim is no longer than what was trimmed. -/
theorem length_trimBoth_le (xs : List α) : (trimBoth p xs).length ≤ xs.length := by
  rcases exists_eq_append_trimBoth (p := p) xs with ⟨before, after, -, -, hxs⟩
  have hlength := congrArg List.length hxs
  simp only [List.length_append] at hlength
  omega

end Trim

namespace Utf8

/-! ## The bytes of a character -/

/-- An ASCII character is its own byte. -/
theorem utf8EncodeChar_of_lt {c : Char} (h : c.toNat < 128) :
    String.utf8EncodeChar c = [UInt8.ofNat c.toNat] := by
  have hle : c.val.toNat ≤ 0x7f := Nat.le_of_lt_succ h
  simp only [String.utf8EncodeChar, if_pos hle]
  rfl

/-- The bytes of a character beyond ASCII all have more than seven bits. -/
theorem le_of_mem_utf8EncodeChar {c : Char} (h : 128 ≤ c.toNat) {b : UInt8}
    (hb : b ∈ String.utf8EncodeChar c) : 128 ≤ b.toNat := by
  have hv : 128 ≤ c.val.toNat := h
  unfold String.utf8EncodeChar at hb
  dsimp only at hb
  split at hb
  · omega
  · split at hb
    · simp only [List.mem_cons, List.not_mem_nil, or_false] at hb
      rcases hb with rfl | rfl <;> simp only [UInt8.toNat_ofNat'] <;> omega
    · split at hb
      · simp only [List.mem_cons, List.not_mem_nil, or_false] at hb
        rcases hb with rfl | rfl | rfl <;> simp only [UInt8.toNat_ofNat'] <;> omega
      · simp only [List.mem_cons, List.not_mem_nil, or_false] at hb
        rcases hb with rfl | rfl | rfl | rfl <;> simp only [UInt8.toNat_ofNat'] <;> omega

/-- A character has a first byte. -/
theorem exists_utf8EncodeChar_eq_cons (c : Char) :
    ∃ b bs, String.utf8EncodeChar c = b :: bs := by
  cases h : String.utf8EncodeChar c with
  | nil =>
      have hpos := length_utf8EncodeChar_pos c
      rw [h] at hpos
      exact absurd hpos (Nat.lt_irrefl 0)
  | cons b bs => exact ⟨b, bs, rfl⟩

/-- Nothing is written only for a text without characters. -/
@[simp]
theorem encode_eq_nil_iff {cs : List Char} : encode cs = [] ↔ cs = [] := by
  constructor
  · intro h
    cases cs with
    | nil => rfl
    | cons c cs =>
        rcases exists_utf8EncodeChar_eq_cons c with ⟨b, bs, hc⟩
        rw [encode_cons, hc] at h
        exact absurd h (List.cons_ne_nil _ _)
  · rintro rfl
    rfl

/-! ## Decoding what was encoded -/

/-- The character that the first bytes encode is found again, whatever follows it. -/
theorem leadingChar_utf8EncodeChar_append (c : Char) (rest : List UInt8) :
    leadingChar (String.utf8EncodeChar c ++ rest) = c := by
  suffices hcode : leadingChar (String.utf8EncodeChar c ++ rest) = Char.ofNat c.val.toNat by
    rw [hcode]
    exact Char.ofNat_toNat c
  have hmax : c.val.toNat < 0x110000 := by
    rcases c.valid with h | h <;> omega
  unfold leadingChar String.utf8EncodeChar
  dsimp only
  generalize c.val.toNat = v at hmax ⊢
  congr 1
  -- one case for each length that the first byte can announce
  by_cases h1 : v ≤ 0x7f
  · rw [if_pos h1]
    simp only [List.cons_append, List.getElem?_cons_zero, Option.getD_some, UInt8.toNat_ofNat']
    rw [if_pos (by omega)]
    omega
  · rw [if_neg h1]
    by_cases h2 : v ≤ 0x7ff
    · rw [if_pos h2]
      simp [payload, UInt8.toNat_ofNat']
      rw [if_neg (by omega), if_pos (by omega)]
      omega
    · rw [if_neg h2]
      by_cases h3 : v ≤ 0xffff
      · rw [if_pos h3]
        simp [payload, UInt8.toNat_ofNat']
        rw [if_neg (by omega), if_neg (by omega), if_pos (by omega)]
        omega
      · rw [if_neg h3]
        simp [payload, UInt8.toNat_ofNat']
        rw [if_neg (by omega), if_neg (by omega), if_neg (by omega)]
        omega

/-- Characters are read up to the end of what was encoded. -/
theorem decodeFrom_encode (read cs : List Char) :
    decodeFrom read (encode cs) = (read.reverse ++ cs, []) := by
  induction cs generalizing read with
  | nil =>
      have hnone : (String.utf8EncodeChar (leadingChar [])).isPrefixOf [] = false := by decide
      rw [encode_nil, decodeFrom, dif_neg (by simp [hnone]), List.append_nil]
  | cons c cs ih =>
      have hlead : leadingChar (encode (c :: cs)) = c := leadingChar_utf8EncodeChar_append c _
      have hprefix : (String.utf8EncodeChar (leadingChar (encode (c :: cs)))).isPrefixOf
          (encode (c :: cs)) = true := by
        rw [hlead]
        exact List.isPrefixOf_iff_prefix.2 (List.prefix_append _ _)
      rw [decodeFrom, dif_pos hprefix, hlead, encode_cons, List.drop_left, ih,
        List.reverse_cons, List.append_assoc, List.singleton_append]

/-- The bytes of a text decode to the text. -/
@[simp]
theorem decode_encode (cs : List Char) : decode (encode cs) = .ok cs := by
  rw [decode, decodeFrom_encode]
  rfl

/-- Different texts have different bytes. -/
theorem encode_injective {cs ds : List Char} (h : encode cs = encode ds) : cs = ds := by
  have hdecode := decode_encode cs
  rw [h, decode_encode] at hdecode
  exact (Except.ok.inj hdecode).symm

/-- A text begins with the bytes of a character exactly if it begins with that character. -/
theorem isPrefixOf_encode_iff (c : Char) (cs : List Char) :
    (String.utf8EncodeChar c).isPrefixOf (encode cs) = true ↔ cs.head? = some c := by
  rw [List.isPrefixOf_iff_prefix]
  constructor
  · rintro ⟨rest, hrest⟩
    cases cs with
    | nil =>
        rcases exists_utf8EncodeChar_eq_cons c with ⟨b, bs, hc⟩
        rw [hc] at hrest
        exact absurd hrest (List.cons_ne_nil _ _)
    | cons d ds =>
        have hc := leadingChar_utf8EncodeChar_append c rest
        rw [hrest, encode_cons, leadingChar_utf8EncodeChar_append] at hc
        rw [List.head?_cons, hc]
  · intro h
    cases cs with
    | nil => exact absurd h (by simp)
    | cons d ds =>
        rcases Option.some.inj h with rfl
        exact List.prefix_append _ _

/-! ## Trimming bytes -/

/-- Whether a character is an ASCII blank: space, tab, line feed, form feed or carriage
return. -/
def isBlankAscii (c : Char) : Bool := decide (c.toNat < 128) && isBlankByte (UInt8.ofNat c.toNat)

/-- An ASCII blank is a blank. -/
theorem isBlank_of_isBlankAscii {c : Char} (h : isBlankAscii c = true) : isBlank c = true := by
  simp only [isBlankAscii, isBlankByte, Bool.and_eq_true, decide_eq_true_eq, Bool.or_eq_true,
    beq_iff_eq, ← UInt8.toNat_inj, UInt8.toNat_ofNat', UInt8.reduceToNat] at h
  simp [isBlank, blankRanges]
  omega

/-- Elements written as lists are dropped with their lists: a dropped one is a list of one
dropped item, a kept one begins with a kept item. -/
theorem dropWhile_flatMap {α β : Type} {p : β → Bool} {q : α → Bool} {f : α → List β}
    (hdrop : ∀ x, q x = true → ∃ y, f x = [y] ∧ p y = true)
    (hkeep : ∀ x, q x = false → ∃ y ys, f x = y :: ys ∧ p y = false) (xs : List α) :
    (xs.flatMap f).dropWhile p = (xs.dropWhile q).flatMap f := by
  induction xs with
  | nil => rfl
  | cons x xs ih =>
      cases hq : q x with
      | true =>
          rcases hdrop x hq with ⟨y, hy, hp⟩
          rw [List.flatMap_cons, hy, List.singleton_append, List.dropWhile_cons_of_pos hp, ih,
            List.dropWhile_cons_of_pos hq]
      | false =>
          rcases hkeep x hq with ⟨y, ys, hy, hp⟩
          rw [List.dropWhile_cons_of_neg (by simp [hq]), List.flatMap_cons, hy, List.cons_append,
            List.dropWhile_cons_of_neg (by simp [hp])]

/-- The byte of an ASCII blank is a blank byte. -/
theorem utf8EncodeChar_of_isBlankAscii {c : Char} (h : isBlankAscii c = true) :
    ∃ b, String.utf8EncodeChar c = [b] ∧ isBlankByte b = true := by
  rw [isBlankAscii, Bool.and_eq_true, decide_eq_true_eq] at h
  exact ⟨_, utf8EncodeChar_of_lt h.1, h.2⟩

/-- No byte of another character is a blank byte. -/
theorem isBlankByte_of_mem_utf8EncodeChar {c : Char} (h : isBlankAscii c = false) {b : UInt8}
    (hb : b ∈ String.utf8EncodeChar c) : isBlankByte b = false := by
  by_cases hc : c.toNat < 128
  · rw [utf8EncodeChar_of_lt hc, List.mem_singleton] at hb
    rw [isBlankAscii, decide_eq_true hc, Bool.true_and] at h
    rw [hb, h]
  · have hge := le_of_mem_utf8EncodeChar (Nat.le_of_not_lt hc) hb
    simp only [isBlankByte, Bool.or_eq_false_iff, beq_eq_false_iff_ne, ne_eq, ← UInt8.toNat_inj]
    refine ⟨⟨⟨⟨?_, ?_⟩, ?_⟩, ?_⟩, ?_⟩ <;> intro hb' <;> simp_all

/-- Dropping bytes at the start of a text drops characters. -/
theorem dropWhile_encode (cs : List Char) :
    (encode cs).dropWhile isBlankByte = encode (cs.dropWhile isBlankAscii) := by
  apply dropWhile_flatMap (fun c hc => utf8EncodeChar_of_isBlankAscii hc)
  intro c hc
  rcases exists_utf8EncodeChar_eq_cons c with ⟨b, bs, hbs⟩
  exact ⟨b, bs, hbs, isBlankByte_of_mem_utf8EncodeChar hc (by simp [hbs])⟩

/-- Dropping bytes at the end of a text drops characters. -/
theorem dropWhile_reverse_encode (cs : List Char) :
    (encode cs).reverse.dropWhile isBlankByte
      = (encode (cs.reverse.dropWhile isBlankAscii).reverse).reverse := by
  have hreverse (ds : List Char) :
      (encode ds).reverse = ds.reverse.flatMap fun c => (String.utf8EncodeChar c).reverse := by
    rw [encode, List.reverse_flatMap]
    rfl
  rw [hreverse, hreverse, List.reverse_reverse]
  apply dropWhile_flatMap
  · intro c hc
    rcases utf8EncodeChar_of_isBlankAscii hc with ⟨b, hb, hblank⟩
    exact ⟨b, by rw [hb]; rfl, hblank⟩
  · intro c hc
    cases hbs : (String.utf8EncodeChar c).reverse with
    | nil =>
        have hpos := length_utf8EncodeChar_pos c
        rw [← List.length_reverse, hbs] at hpos
        exact absurd hpos (Nat.lt_irrefl 0)
    | cons b bs =>
        have hmem : b ∈ String.utf8EncodeChar c := by
          rw [← List.mem_reverse, hbs]
          exact List.mem_cons_self
        exact ⟨b, bs, rfl, isBlankByte_of_mem_utf8EncodeChar hc hmem⟩

/-- Trimming bytes of ASCII blanks trims the characters of them. -/
theorem trimBoth_encode (cs : List Char) :
    trimBoth isBlankByte (encode cs) = encode (trimBoth isBlankAscii cs) := by
  rw [trimBoth, dropWhile_encode, dropWhile_reverse_encode, List.reverse_reverse, trimBoth]

/-- The trim of a text does not notice that the bytes were trimmed before. -/
theorem trimBoth_trimBoth_isBlankAscii (cs : List Char) :
    trimBoth isBlank (trimBoth isBlankAscii cs) = trimBoth isBlank cs :=
  trimBoth_trimBoth_of_imp (fun _ => isBlank_of_isBlankAscii) cs

end Utf8

end TableFixture.Text
