/-!
# Blank characters and trimming

Texts are trimmed at both ends of the characters with the Unicode property
`White_Space`.  Bytes that are not yet known to be text are trimmed of the ASCII
blanks alone.

Main results:

- Theorem `trimBoth_eq_self_of_ends`: a list that neither starts nor ends with a blank
  is its own trim.
- Theorem `trimBoth_trimBoth`: trimming twice is trimming once.
-/

namespace TableFixture.Text

/-! ## Trimming a list -/

/-- Removes the elements that satisfy `p` from both ends. -/
def trimBoth {α : Type} (p : α → Bool) (xs : List α) : List α :=
  ((xs.dropWhile p).reverse.dropWhile p).reverse

@[simp] theorem trimBoth_nil {α : Type} (p : α → Bool) : trimBoth p ([] : List α) = [] := rfl

/-- What is left after dropping does not start with a dropped element. -/
theorem head?_dropWhile_not {α : Type} (p : α → Bool) (xs : List α) :
    ∀ x ∈ (xs.dropWhile p).head?, p x = false := by
  induction xs with
  | nil => simp
  | cons y ys ih =>
    by_cases h : p y = true
    · simpa [List.dropWhile_cons, h] using ih
    · intro x hx
      rw [List.dropWhile_cons_of_neg h, List.head?_cons, Option.mem_some_iff] at hx
      rw [← hx]
      exact Bool.eq_false_iff.2 h

/-- A list that starts with no droppable element loses nothing. -/
theorem dropWhile_eq_self {α : Type} {p : α → Bool} {xs : List α}
    (h : ∀ x ∈ xs.head?, p x = false) : xs.dropWhile p = xs := by
  cases xs with
  | nil => rfl
  | cons y ys => simp [h y (by simp)]

/-- A list that neither starts nor ends with a trimmed element is its own trim. -/
theorem trimBoth_eq_self_of_ends {α : Type} {p : α → Bool} {xs : List α}
    (hfirst : ∀ x ∈ xs.head?, p x = false) (hlast : ∀ x ∈ xs.getLast?, p x = false) :
    trimBoth p xs = xs := by
  have hrev : ∀ x ∈ xs.reverse.head?, p x = false := by simpa using hlast
  rw [trimBoth, dropWhile_eq_self hfirst, dropWhile_eq_self hrev, List.reverse_reverse]

/-- A trim does not end with a trimmed element. -/
theorem getLast?_trimBoth_not {α : Type} (p : α → Bool) (xs : List α) :
    ∀ x ∈ (trimBoth p xs).getLast?, p x = false := by
  rw [trimBoth, List.getLast?_reverse]
  exact head?_dropWhile_not p _

/-- A trim does not start with a trimmed element. -/
theorem head?_trimBoth_not {α : Type} (p : α → Bool) (xs : List α) :
    ∀ x ∈ (trimBoth p xs).head?, p x = false := by
  intro x hx
  refine head?_dropWhile_not p xs x ?_
  rw [trimBoth] at hx
  generalize xs.dropWhile p = ys at hx ⊢
  rw [List.head?_reverse] at hx
  obtain ⟨front, hfront⟩ : ys.reverse.dropWhile p <:+ ys.reverse := List.dropWhile_suffix p
  rw [← List.getLast?_reverse, ← hfront, List.getLast?_append]
  simp [Option.mem_def.1 hx]

/-- Trimming twice is trimming once. -/
@[simp] theorem trimBoth_trimBoth {α : Type} (p : α → Bool) (xs : List α) :
    trimBoth p (trimBoth p xs) = trimBoth p xs :=
  trimBoth_eq_self_of_ends (head?_trimBoth_not p xs) (getLast?_trimBoth_not p xs)

/-! ## Blanks -/

/-- The ranges of the characters with the Unicode property `White_Space`. -/
def blankRanges : List (Nat × Nat) :=
  [(0x9, 0xD), (0x20, 0x20), (0x85, 0x85), (0xA0, 0xA0), (0x1680, 0x1680), (0x2000, 0x200A),
    (0x2028, 0x2029), (0x202F, 0x202F), (0x205F, 0x205F), (0x3000, 0x3000)]

/-- Whether a character has the Unicode property `White_Space`. -/
def isBlank (c : Char) : Bool :=
  blankRanges.any fun r => decide (r.1 ≤ c.toNat) && decide (c.toNat ≤ r.2)

/-- Whether a byte is an ASCII blank: space, tab, line feed, form feed or carriage return. -/
def isBlankByte (b : UInt8) : Bool := b == 32 || b == 9 || b == 10 || b == 12 || b == 13

/-- A text without the blanks at its ends. -/
def trim (s : String) : String := String.ofList (trimBoth isBlank s.toList)

@[simp] theorem toList_trim (s : String) : (trim s).toList = trimBoth isBlank s.toList :=
  String.toList_ofList

/-- Trimming a text twice is trimming it once. -/
@[simp] theorem trim_trim (s : String) : trim (trim s) = trim s := by
  rw [trim, toList_trim, trimBoth_trimBoth, trim]

end TableFixture.Text
