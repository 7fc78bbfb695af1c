import Mathlib.Tactic.SplitIfs
import TableFixture.Json.Text
import TableFixture.Proofs.Decimal.Numeral

/-!
# JSON texts are read in one way

A text of flat records belongs to no other records.  Each part of it ends where it must: a
string at the first quote that is not escaped, a number or `null` before the next comma or
brace, a list after the item that no comma follows.  So whatever strings hold, none of
their characters is taken for a part of the structure around them.

Main results:

- Theorem `writeString_append_inj`: a string ends in the same place in every reading.
- Theorem `write_append_inj`: so does a scalar before a comma or a brace.
- Theorem `intercalate_append_inj`: so does a list whose items do.
- Theorem `writeArray_inj`: a text of records belongs to no others.
-/

namespace TableFixture.Json

/-! ## Strings -/

/-- The characters that have an escape of their own, each with the letter of it. -/
def shortEscapes : List (Char × Char) :=
  [('"', '"'), ('\\', '\\'), ('\x08', 'b'), ('\x0c', 'f'), ('\n', 'n'), ('\r', 'r'), ('\t', 't')]

theorem mem_shortEscapes {c letter : Char} (h : shortEscape? c = some letter) :
    (c, letter) ∈ shortEscapes := by
  unfold shortEscape? at h
  split_ifs at h <;> cases h <;> subst_vars <;> decide

/-- The letters after a backslash name the characters they stand for. -/
theorem eq_of_shortEscape {c d letter : Char} (hc : shortEscape? c = some letter)
    (hd : shortEscape? d = some letter) : c = d := by
  have hall : ∀ p ∈ shortEscapes, ∀ q ∈ shortEscapes, p.2 = q.2 → p.1 = q.1 := by decide
  exact hall _ (mem_shortEscapes hc) _ (mem_shortEscapes hd) rfl

/-- None of these letters announces the digits of a code. -/
theorem ne_of_shortEscape {c letter : Char} (h : shortEscape? c = some letter) :
    letter ≠ 'u' := by
  have hall : ∀ p ∈ shortEscapes, p.2 ≠ 'u' := by decide
  exact hall _ (mem_shortEscapes h)

/-- A character is a letter after a backslash, the four digits of its code after a
backslash, or itself. -/
theorem writeEscaped_cases (c : Char) :
    (∃ letter, shortEscape? c = some letter ∧ writeEscaped c = ['\\', letter]) ∨
      (c.toNat < 32 ∧ writeEscaped c
        = ['\\', 'u', '0', '0', Nat.digitChar (c.toNat / 16), Nat.digitChar (c.toNat % 16)]) ∨
      (32 ≤ c.toNat ∧ c ≠ '"' ∧ c ≠ '\\' ∧ writeEscaped c = [c]) := by
  unfold writeEscaped
  split
  next letter hletter => exact .inl ⟨letter, hletter, rfl⟩
  next hnone =>
    split
    next hlow => exact .inr (.inl ⟨hlow, rfl⟩)
    next hlow =>
      refine .inr (.inr ⟨Nat.not_lt.1 hlow, ?_, ?_, rfl⟩)
      · rintro rfl
        exact absurd hnone (by decide)
      · rintro rfl
        exact absurd hnone (by decide)

theorem eq_of_digitChar {m n : Nat} (hm : m < 16) (hn : n < 16)
    (h : Nat.digitChar m = Nat.digitChar n) : m = n := by
  have hall : ∀ m < 16, ∀ n < 16, Nat.digitChar m = Nat.digitChar n → m = n := by decide
  exact hall m hm n hn h

/-- A character inside a string ends in the same place in every reading. -/
theorem writeEscaped_append_inj {c d : Char} {x y : List Char}
    (h : writeEscaped c ++ x = writeEscaped d ++ y) : c = d ∧ x = y := by
  rcases writeEscaped_cases c with ⟨letter, hc, hwrite⟩ | ⟨hc, hwrite⟩ | ⟨-, -, hc, hwrite⟩ <;>
    rcases writeEscaped_cases d with
      ⟨letter', hd, hwrite'⟩ | ⟨hd, hwrite'⟩ | ⟨-, -, hd, hwrite'⟩ <;>
    simp only [hwrite, hwrite', List.cons_append, List.nil_append, List.cons.injEq, true_and] at h
  · obtain ⟨rfl, hrest⟩ := h
    exact ⟨eq_of_shortEscape hc hd, hrest⟩
  · exact absurd h.1 (ne_of_shortEscape hc)
  · exact absurd h.1.symm hd
  · exact absurd h.1.symm (ne_of_shortEscape hd)
  · obtain ⟨hhigh, hlow, hrest⟩ := h
    have hdiv := eq_of_digitChar (by omega) (by omega) hhigh
    have hmod := eq_of_digitChar (by omega) (by omega) hlow
    exact ⟨Char.toNat_inj.1 (by omega), hrest⟩
  · exact absurd h.1.symm hd
  · exact absurd h.1 hc
  · exact absurd h.1 hc
  · exact h

/-- No character inside a string begins like the end of it. -/
theorem exists_writeEscaped_eq_cons (c : Char) :
    ∃ d rest, writeEscaped c = d :: rest ∧ d ≠ '"' := by
  rcases writeEscaped_cases c with ⟨letter, -, h⟩ | ⟨-, h⟩ | ⟨-, hquote, -, h⟩
  · exact ⟨_, _, h, by decide⟩
  · exact ⟨_, _, h, by decide⟩
  · exact ⟨_, _, h, hquote⟩

/-- A string ends in the same place in every reading. -/
theorem writeString_append_inj {s t x y : List Char}
    (h : writeString s ++ x = writeString t ++ y) : s = t ∧ x = y := by
  have hbody : s.flatMap writeEscaped ++ '"' :: x = t.flatMap writeEscaped ++ '"' :: y := by
    simpa [writeString] using h
  clear h
  induction s generalizing t with
  | nil =>
      cases t with
      | nil => exact ⟨rfl, by simpa using hbody⟩
      | cons d t =>
          rcases exists_writeEscaped_eq_cons d with ⟨e, rest, hd, he⟩
          rw [List.flatMap_cons, hd] at hbody
          exact absurd (List.cons.inj hbody).1.symm he
  | cons c s ih =>
      cases t with
      | nil =>
          rcases exists_writeEscaped_eq_cons c with ⟨e, rest, hc, he⟩
          rw [List.flatMap_cons, hc] at hbody
          exact absurd (List.cons.inj hbody).1 he
      | cons d t =>
          rw [List.flatMap_cons, List.flatMap_cons, List.append_assoc, List.append_assoc] at hbody
          rcases writeEscaped_append_inj hbody with ⟨rfl, hrest⟩
          rcases ih hrest with ⟨rfl, hxy⟩
          exact ⟨rfl, hxy⟩

/-! ## Scalars -/

/-- What may follow a scalar. -/
def IsStop (c : Char) : Prop := c = ',' ∨ c = '}'

/-- A number is written only if it is finite. -/
def Scalar.IsWritten : Scalar → Prop
  | .number x => x.isFinite = true
  | _ => True

/-- Every cell has a value that is written. -/
theorem isWritten_ofCell (cell : Cell) : (Scalar.ofCell cell).IsWritten := by
  cases cell with
  | int64 n => trivial
  | string s => trivial
  | float64 x =>
      rw [Scalar.ofCell]
      split
      next hfinite => exact hfinite
      next => trivial

/-- Whether a character may stand in a scalar that is no string. -/
def isBare (c : Char) : Bool := Decimal.isNumeral c || c == 'u' || c == 'l'

theorem isBare_of_isStop {c : Char} (h : IsStop c) : isBare c = false := by
  rcases h with rfl | rfl <;> decide

/-- A scalar is a string or is written in bare characters. -/
theorem write_cases (v : Scalar) :
    (∃ s, v = .text s) ∨ (∀ s, v ≠ .text s) ∧ ∀ c ∈ v.write, isBare c = true := by
  have hnumeral {cs : List Char} (h : ∀ c ∈ cs, Decimal.isNumeral c = true) :
      ∀ c ∈ cs, isBare c = true := fun c hc => by simp [isBare, h c hc]
  cases v with
  | null => exact .inr ⟨by simp, by simp [Scalar.write, isBare, Decimal.isNumeral]⟩
  | integer n =>
      exact .inr ⟨by simp, hnumeral fun _ => Decimal.isNumeral_of_mem_writeInteger⟩
  | number x => exact .inr ⟨by simp, hnumeral fun _ => Decimal.isNumeral_of_mem_write⟩
  | text s => exact .inl ⟨s, rfl⟩

/-- Texts of some characters end in the same place if others follow them. -/
theorem append_inj_of_forall {p : Char → Bool} {as bs x y : List Char}
    (has : ∀ c ∈ as, p c = true) (hbs : ∀ c ∈ bs, p c = true)
    (hx : ∀ c ∈ x.head?, p c = false) (hy : ∀ c ∈ y.head?, p c = false)
    (h : as ++ x = bs ++ y) : as = bs ∧ x = y := by
  have htake {cs z : List Char} (hcs : ∀ c ∈ cs, p c = true) (hz : ∀ c ∈ z.head?, p c = false) :
      (cs ++ z).takeWhile p = cs := by
    rw [List.takeWhile_append_of_pos hcs]
    cases z with
    | nil => simp
    | cons c z => simp [hz c rfl]
  have heads : as = bs := by rw [← htake has hx, h, htake hbs hy]
  subst heads
  exact ⟨rfl, List.append_cancel_left h⟩

/-- Scalars without quotes that are written differ in their texts. -/
theorem write_inj_of_bare {v w : Scalar} (hv : v.IsWritten) (hw : w.IsWritten)
    (hv' : ∀ s, v ≠ .text s) (hw' : ∀ s, w ≠ .text s) (h : v.write = w.write) : v = w := by
  have hinteger (n : Int64) : Decimal.readInt64 (Scalar.integer n).write = some n :=
    Decimal.readInt64_writeInteger n
  have hnumber (x : Binary64) : Decimal.readInt64 (Scalar.number x).write = none :=
    Decimal.readInt64_write rfl x
  have hnull : Decimal.readInt64 Scalar.null.write = none := by decide
  have hnull' : Decimal.readBinary64 Scalar.null.write = none := by decide
  have hvalue {x : Binary64} (hx : (Scalar.number x).IsWritten) :
      Decimal.readBinary64 (Scalar.number x).write = some x :=
    Decimal.readBinary64_write_of_isFinite _ hx
  have hint := congrArg Decimal.readInt64 h
  have hfloat := congrArg Decimal.readBinary64 h
  cases v with
  | text s => exact absurd rfl (hv' s)
  | null =>
      cases w with
      | text s => exact absurd rfl (hw' s)
      | null => rfl
      | integer n =>
          rw [hnull, hinteger] at hint
          exact absurd hint (by simp)
      | number x =>
          rw [hnull', hvalue hw] at hfloat
          exact absurd hfloat (by simp)
  | integer n =>
      cases w with
      | text s => exact absurd rfl (hw' s)
      | null =>
          rw [hnull, hinteger] at hint
          exact absurd hint (by simp)
      | integer m =>
          rw [hinteger, hinteger] at hint
          rw [Option.some.inj hint]
      | number x =>
          rw [hinteger, hnumber] at hint
          exact absurd hint (by simp)
  | number x =>
      cases w with
      | text s => exact absurd rfl (hw' s)
      | null =>
          rw [hnull', hvalue hv] at hfloat
          exact absurd hfloat (by simp)
      | integer n =>
          rw [hinteger, hnumber] at hint
          exact absurd hint (by simp)
      | number y =>
          rw [hvalue hv, hvalue hw] at hfloat
          rw [Option.some.inj hfloat]

/-- A string does not begin like a scalar of bare characters, nor like what follows one. -/
theorem writeString_append_ne {s as x y : List Char} (has : ∀ c ∈ as, isBare c = true)
    (hx : ∀ c ∈ x.head?, IsStop c) : as ++ x ≠ writeString s ++ y := by
  intro h
  have hhead : (as ++ x).head? = some '"' := by rw [h]; rfl
  cases as with
  | nil => exact absurd (hx '"' hhead) (by simp [IsStop])
  | cons c as =>
      obtain rfl := Option.some.inj hhead
      exact absurd (has '"' List.mem_cons_self) (by decide)

/-- A scalar before a comma or a brace ends in the same place in every reading. -/
theorem write_append_inj {v w : Scalar} {x y : List Char} (hv : v.IsWritten) (hw : w.IsWritten)
    (hx : ∀ c ∈ x.head?, IsStop c) (hy : ∀ c ∈ y.head?, IsStop c)
    (h : v.write ++ x = w.write ++ y) : v = w ∧ x = y := by
  rcases write_cases v with ⟨s, rfl⟩ | ⟨hv', hbare⟩ <;>
    rcases write_cases w with ⟨t, rfl⟩ | ⟨hw', hbare'⟩
  · rcases writeString_append_inj h with ⟨hst, hxy⟩
    exact ⟨by rw [String.toList_inj.1 hst], hxy⟩
  · exact absurd h.symm (writeString_append_ne hbare' hy)
  · exact absurd h (writeString_append_ne hbare hx)
  · rcases append_inj_of_forall hbare hbare' (fun c hc => isBare_of_isStop (hx c hc))
      (fun c hc => isBare_of_isStop (hy c hc)) h with ⟨htext, hxy⟩
    exact ⟨write_inj_of_bare hv hw hv' hw' htext, hxy⟩

/-! ## Lists of items -/

section Items

variable {α : Type} {write : α → List Char} {IsItem : α → Prop} {last : Char}

/-- The first item of a list is followed by the end of it, or by a comma and the others. -/
theorem intercalate_cons_cases (write : α → List Char) (last : Char) (a : α) (as : List α)
    (x : List Char) :
    ∃ c rest, [','].intercalate ((a :: as).map write) ++ last :: x = write a ++ c :: rest ∧
      (as = [] ∧ c = last ∧ rest = x ∨
        c = ',' ∧ rest = [','].intercalate (as.map write) ++ last :: x) := by
  cases as with
  | nil =>
      refine ⟨last, x, ?_, .inl ⟨rfl, rfl, rfl⟩⟩
      rw [List.map_singleton, List.intercalate_singleton]
  | cons a' as =>
      refine ⟨',', _, ?_, .inr ⟨rfl, rfl⟩⟩
      rw [List.map_cons, List.map_cons, List.intercalate_cons_cons]
      simp

/-- A list of items with commas between them ends in the same place in every reading, if
its items do before a comma and before the end, and begin like neither of the two. -/
theorem intercalate_append_inj
    (hitem : ∀ a b x y, IsItem a → IsItem b → (∀ c ∈ x.head?, c = ',' ∨ c = last) →
      (∀ c ∈ y.head?, c = ',' ∨ c = last) → write a ++ x = write b ++ y → a = b ∧ x = y)
    (hhead : ∀ a, ∃ c rest, write a = c :: rest ∧ c ≠ last) (hlast : last ≠ ',')
    {as bs : List α} {x y : List Char} (has : ∀ a ∈ as, IsItem a) (hbs : ∀ b ∈ bs, IsItem b)
    (h : [','].intercalate (as.map write) ++ last :: x
      = [','].intercalate (bs.map write) ++ last :: y) : as = bs ∧ x = y := by
  have hnot_end (b : α) (bs : List α) (x y : List Char) :
      last :: x ≠ [','].intercalate ((b :: bs).map write) ++ last :: y := by
    intro heq
    rcases intercalate_cons_cases write last b bs y with ⟨d, rest, hcons, -⟩
    rcases hhead b with ⟨c, tail, hb, hc⟩
    rw [hcons, hb] at heq
    exact hc (List.cons.inj heq).1.symm
  induction as generalizing bs with
  | nil =>
      cases bs with
      | nil => exact ⟨rfl, (List.cons.inj h).2⟩
      | cons b bs => exact absurd h (hnot_end b bs x y)
  | cons a as ih =>
      cases bs with
      | nil => exact absurd h.symm (hnot_end a as y x)
      | cons b bs =>
          rcases intercalate_cons_cases write last a as x with ⟨c, rest, ha, hc⟩
          rcases intercalate_cons_cases write last b bs y with ⟨d, rest', hb, hd⟩
          have hc' : c = ',' ∨ c = last := hc.elim (fun h => .inr h.2.1) fun h => .inl h.1
          have hd' : d = ',' ∨ d = last := hd.elim (fun h => .inr h.2.1) fun h => .inl h.1
          rw [ha, hb] at h
          rcases hitem a b _ _ (has a List.mem_cons_self) (hbs b List.mem_cons_self)
            (by simpa using hc') (by simpa using hd') h with ⟨rfl, hrests⟩
          obtain ⟨rfl, rfl⟩ := List.cons.inj hrests
          -- both lists end after their first items, or neither does
          rcases hc with ⟨rfl, hc, hx⟩ | ⟨hc, hx⟩ <;> rcases hd with ⟨rfl, hd, hy⟩ | ⟨hd, hy⟩
          · exact ⟨rfl, hx.symm.trans hy⟩
          · exact absurd (hc.symm.trans hd) hlast
          · exact absurd (hd.symm.trans hc) hlast
          · have htails := ih (fun a' hmem => has a' (List.mem_cons_of_mem a hmem))
              (fun b' hmem => hbs b' (List.mem_cons_of_mem a hmem)) (hx.symm.trans hy)
            exact ⟨by rw [htails.1], htails.2⟩

end Items

/-! ## Objects -/

/-- The text of a member. -/
def writeMember (m : String × Scalar) : List Char := writeString m.1.toList ++ ':' :: m.2.write

/-- A member before a comma or a brace ends in the same place in every reading. -/
theorem writeMember_append_inj {m n : String × Scalar} {x y : List Char} (hm : m.2.IsWritten)
    (hn : n.2.IsWritten) (hx : ∀ c ∈ x.head?, c = ',' ∨ c = '}')
    (hy : ∀ c ∈ y.head?, c = ',' ∨ c = '}') (h : writeMember m ++ x = writeMember n ++ y) :
    m = n ∧ x = y := by
  simp only [writeMember, List.append_assoc, List.cons_append] at h
  rcases writeString_append_inj h with ⟨hname, hrest⟩
  rcases write_append_inj hm hn hx hy (List.cons.inj hrest).2 with ⟨hvalue, hxy⟩
  exact ⟨Prod.ext (String.toList_inj.1 hname) hvalue, hxy⟩

theorem writeObject_append (object : Members) (x : List Char) :
    writeObject object ++ x = '{' :: ([','].intercalate (object.map writeMember) ++ '}' :: x) := by
  rw [writeObject, List.cons_append, List.append_assoc, List.singleton_append]
  rfl

/-- An object ends in the same place in every reading. -/
theorem writeObject_append_inj {object object' : Members} {x y : List Char}
    (hobject : ∀ m ∈ object, m.2.IsWritten) (hobject' : ∀ m ∈ object', m.2.IsWritten)
    (h : writeObject object ++ x = writeObject object' ++ y) : object = object' ∧ x = y := by
  rw [writeObject_append, writeObject_append] at h
  refine intercalate_append_inj ?_ ?_ (by decide) hobject hobject' (List.cons.inj h).2
  · exact fun m n x y hm hn hx hy => writeMember_append_inj hm hn hx hy
  · exact fun m => ⟨'"', _, rfl, by decide⟩

/-- A text of records belongs to no others. -/
theorem writeArray_inj {records records' : List Members}
    (h : ∀ object ∈ records, ∀ m ∈ object, m.2.IsWritten)
    (h' : ∀ object ∈ records', ∀ m ∈ object, m.2.IsWritten)
    (htext : writeArray records = writeArray records') : records = records' := by
  have hbody : [','].intercalate (records.map writeObject) ++ ']' :: []
      = [','].intercalate (records'.map writeObject) ++ ']' :: [] := (List.cons.inj htext).2
  refine (intercalate_append_inj ?_ ?_ (by decide) h h' hbody).1
  · exact fun object object' x y hobject hobject' _ _ => writeObject_append_inj hobject hobject'
  · exact fun object => ⟨'{', _, rfl, by decide⟩

end TableFixture.Json
