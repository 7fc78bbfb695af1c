import TableFixture.Proofs.Json.Decoding

/-!
# JSON texts are read back

A reader of the JSON texts of flat records, made without regard to how they are written: a
string may escape any of its characters, by a letter or by a code, and a number may be any
decimal.  It knows no blanks between the parts of a text, and no characters that are written
as two codes.  What it reads from the text of records are these records.

Main results:

- Theorem `readString_writeString`: a string is read back, whatever it holds.
- Theorem `readValue_write`: a scalar before a comma or a brace is read back.
- Theorem `readList_intercalate`: a list is read back if its items are.
- Theorem `readArray_writeArray`: the text of records is read as these records.
-/

namespace TableFixture.Json

/-! ## The reader -/

/-- A value without parts as it stands in a text. -/
inductive Value where
  | null
  | number (decimal : List Char)
  | string (text : String)
deriving DecidableEq, Repr

/-- Where the reader stands in a string. -/
inductive StringPhase where
  /-- Between two characters. -/
  | between
  /-- After a backslash. -/
  | escape
  /-- In a code, after some digits that have a value. -/
  | code (digits value : Nat)

/-- The character that a letter after a backslash stands for. -/
def unescape? (letter : Char) : Option Char :=
  ((('/', '/') :: shortEscapes).find? fun p => p.2 == letter).map (·.1)

/-- The value of a hexadecimal digit. -/
def hexDigit? (c : Char) : Option Nat :=
  ['0', '1', '2', '3', '4', '5', '6', '7', '8', '9', 'a', 'b', 'c', 'd', 'e', 'f'].idxOf? c.toLower

/-- The characters of a string after those already read (kept in reverse), up to the quote
that ends it, and what follows the quote. -/
def readCharacters : StringPhase → List Char → List Char → Option (List Char × List Char)
  | _, _, [] => none
  | .between, read, c :: cs =>
    if c = '"' then some (read.reverse, cs)
    else if c = '\\' then readCharacters .escape read cs
    else if c.toNat < 32 then none
    else readCharacters .between (c :: read) cs
  | .escape, read, c :: cs =>
    if c = 'u' then readCharacters (.code 0 0) read cs
    else
      match unescape? c with
      | some d => readCharacters .between (d :: read) cs
      | none => none
  | .code digits value, read, c :: cs =>
    match hexDigit? c with
    | some digit =>
      let value := 16 * value + digit
      if digits < 3 then readCharacters (.code (digits + 1) value) read cs
      else if value.isValidChar then readCharacters .between (Char.ofNat value :: read) cs
      else none
    | none => none

/-- What follows a character at the front of a text. -/
def skip (c : Char) : List Char → Option (List Char)
  | [] => none
  | d :: cs => if d = c then some cs else none

/-- A string between quotes at the front of a text, and what follows it. -/
def readString (cs : List Char) : Option (String × List Char) := do
  let cs ← skip '"' cs
  let (text, cs) ← readCharacters .between [] cs
  return (String.ofList text, cs)

/-- Whether a character may stand in a number. -/
def isNumberPart (c : Char) : Bool := Decimal.isDecimalPart c || c == 'E'

/-- A number at the front of a text, and what follows it. -/
def readNumber (cs : List Char) : Option (List Char × List Char) :=
  let decimal := cs.takeWhile isNumberPart
  if (Decimal.readBinary64 decimal).isSome then some (decimal, cs.dropWhile isNumberPart) else none

/-- A value without parts at the front of a text, and what follows it. -/
def readValue (cs : List Char) : Option (Value × List Char) :=
  if cs.head? = some '"' then (readString cs).map fun (text, cs) => (.string text, cs)
  else if ['n', 'u', 'l', 'l'].isPrefixOf cs then some (.null, cs.drop 4)
  else (readNumber cs).map fun (decimal, cs) => (.number decimal, cs)

/-- A member at the front of a text, and what follows it. -/
def readMember (cs : List Char) : Option ((String × Value) × List Char) := do
  let (name, cs) ← readString cs
  let cs ← skip ':' cs
  let (value, cs) ← readValue cs
  return ((name, value), cs)

section Items

variable {α : Type} (readItem : List Char → Option (α × List Char)) (last : Char)

/-- Items with commas between them at the front of a text, not more of them than the given
number, up to the character after the last one, and what follows it. -/
def readItems : Nat → List Char → Option (List α × List Char)
  | 0, _ => none
  | count + 1, cs =>
    match readItem cs with
    | none => none
    | some (item, cs) =>
      match skip last cs, skip ',' cs with
      | some cs, _ => some ([item], cs)
      | none, some cs => (readItems count cs).map fun (items, cs) => (item :: items, cs)
      | none, none => none

/-- A list of items between two characters at the front of a text, and what follows it.  There
are not more items than characters. -/
def readList (first : Char) (cs : List Char) : Option (List α × List Char) := do
  let cs ← skip first cs
  match skip last cs with
  | some cs => return ([], cs)
  | none => readItems readItem last cs.length cs

end Items

/-- An object at the front of a text, and what follows it. -/
def readObject : List Char → Option (List (String × Value) × List Char) :=
  readList readMember '}' '{'

/-- The objects of a text that is a list of objects. -/
def readArray (cs : List Char) : Option (List (List (String × Value))) :=
  match readList readObject ']' '[' cs with
  | some (objects, []) => some objects
  | _ => none

/-! ## Strings -/

theorem unescape?_of_shortEscape {c letter : Char} (h : shortEscape? c = some letter) :
    unescape? letter = some c := by
  have hall : ∀ p ∈ shortEscapes, unescape? p.2 = some p.1 := by decide
  exact hall _ (mem_shortEscapes h)

theorem hexDigit?_digitChar {n : Nat} (h : n < 16) : hexDigit? (Nat.digitChar n) = some n := by
  have hall : ∀ n < 16, hexDigit? (Nat.digitChar n) = some n := by decide
  exact hall n h

/-- The four digits of the code of a control character stand for it. -/
theorem readCharacters_code {c : Char} (h : c.toNat < 32) (read cs : List Char) :
    readCharacters (.code 0 0) read
        ('0' :: '0' :: Nat.digitChar (c.toNat / 16) :: Nat.digitChar (c.toNat % 16) :: cs)
      = readCharacters .between (c :: read) cs := by
  have hzero : hexDigit? '0' = some 0 := rfl
  have hhigh := hexDigit?_digitChar (n := c.toNat / 16) (by omega)
  have hlow := hexDigit?_digitChar (n := c.toNat % 16) (by omega)
  have hvalue : 16 * (c.toNat / 16) + c.toNat % 16 = c.toNat := Nat.div_add_mod _ _
  have hvalid : c.toNat.isValidChar := .inl (by omega)
  simp only [readCharacters, hzero, hhigh, hlow, Nat.mul_zero, Nat.zero_add, hvalue,
    if_pos hvalid, Char.ofNat_toNat]
  rfl

/-- A character of a string is read back. -/
theorem readCharacters_writeEscaped (c : Char) (read cs : List Char) :
    readCharacters .between read (writeEscaped c ++ cs)
      = readCharacters .between (c :: read) cs := by
  rcases writeEscaped_cases c with ⟨letter, hletter, h⟩ | ⟨hlow, h⟩ | ⟨hspace, hquote, hslash, h⟩
  · rw [h]
    simp [readCharacters, ne_of_shortEscape hletter, unescape?_of_shortEscape hletter]
  · rw [h, ← readCharacters_code hlow]
    simp [readCharacters]
  · rw [h]
    simp [readCharacters, hquote, hslash, Nat.not_lt.2 hspace]

theorem readCharacters_flatMap_writeEscaped (text read cs : List Char) :
    readCharacters .between read (text.flatMap writeEscaped ++ '"' :: cs)
      = some (read.reverse ++ text, cs) := by
  induction text generalizing read with
  | nil => simp [readCharacters]
  | cons c text ih =>
      rw [List.flatMap_cons, List.append_assoc, readCharacters_writeEscaped, ih,
        List.reverse_cons, List.append_assoc, List.singleton_append]

@[simp]
theorem skip_cons (c : Char) (cs : List Char) : skip c (c :: cs) = some cs := by
  rw [skip, if_pos rfl]

theorem skip_cons_of_ne {c d : Char} (h : d ≠ c) (cs : List Char) : skip c (d :: cs) = none := by
  rw [skip, if_neg h]

/-- A string is read back, whatever it holds. -/
theorem readString_writeString (text cs : List Char) :
    readString (writeString text ++ cs) = some (String.ofList text, cs) := by
  have hread := readCharacters_flatMap_writeEscaped text [] cs
  simp [readString, writeString, hread]

/-! ## Scalars -/

/-- A scalar as it stands in a text. -/
def Scalar.value : Scalar → Value
  | .null => .null
  | .integer n => .number (Decimal.writeInteger n.toInt)
  | .number x => .number (Decimal.Layout.json.write x)
  | .text s => .string s

theorem isNumberPart_of_isStop {c : Char} (h : IsStop c) : isNumberPart c = false := by
  rcases h with rfl | rfl <;> decide

/-- A number before a comma or a brace ends there. -/
theorem readNumber_append {decimal cs : List Char}
    (hparts : ∀ c ∈ decimal, Decimal.isDecimalPart c = true)
    (hread : (Decimal.readBinary64 decimal).isSome = true) (hcs : ∀ c ∈ cs.head?, IsStop c) :
    readNumber (decimal ++ cs) = some (decimal, cs) := by
  have hdecimal : ∀ c ∈ decimal, isNumberPart c = true := fun c hc => by
    rw [isNumberPart, hparts c hc, Bool.true_or]
  have hends : cs.takeWhile isNumberPart = [] ∧ cs.dropWhile isNumberPart = cs := by
    cases cs with
    | nil => exact ⟨rfl, rfl⟩
    | cons c cs => simp [isNumberPart_of_isStop (hcs c rfl)]
  rw [readNumber, List.takeWhile_append_of_pos hdecimal, List.dropWhile_append_of_pos hdecimal,
    hends.1, hends.2, List.append_nil, if_pos hread]

/-- A number is no string and not `null`. -/
theorem readValue_append {decimal cs : List Char}
    (hparts : ∀ c ∈ decimal, Decimal.isDecimalPart c = true)
    (hread : (Decimal.readBinary64 decimal).isSome = true) (hcs : ∀ c ∈ cs.head?, IsStop c) :
    readValue (decimal ++ cs) = some (.number decimal, cs) := by
  have hnumber := readNumber_append hparts hread hcs
  cases decimal with
  | nil => exact absurd hread (by decide)
  | cons c decimal =>
      have hc := hparts c List.mem_cons_self
      have hquote : c ≠ '"' := by
        rintro rfl
        exact absurd hc (by decide)
      have hnull : c ≠ 'n' := by
        rintro rfl
        exact absurd hc (by decide)
      rw [readValue, hnumber]
      simp [hquote, hnull.symm]

/-- A scalar before a comma or a brace is read back. -/
theorem readValue_write {v : Scalar} (hv : v.IsWritten) {cs : List Char}
    (hcs : ∀ c ∈ cs.head?, IsStop c) : readValue (v.write ++ cs) = some (v.value, cs) := by
  cases v with
  | null => rfl
  | integer n =>
      exact readValue_append (fun _ => Decimal.isDecimalPart_of_mem_writeInteger)
        (Decimal.isSome_readBinary64_of_readInt64 (Decimal.readInt64_writeInteger n)) hcs
  | number x =>
      refine readValue_append (fun _ => Decimal.isDecimalPart_of_mem_write hv) ?_ hcs
      rw [Scalar.write, Decimal.readBinary64_write]
      rfl
  | text s =>
      have hread := readString_writeString s.toList cs
      have hquote : (writeString s.toList ++ cs).head? = some '"' := rfl
      rw [String.ofList_toList] at hread
      rw [readValue, Scalar.write, if_pos hquote, hread]
      rfl

/-! ## Lists of items -/

section Items

variable {α β : Type} {readItem : List Char → Option (α × List Char)} {last : Char}

theorem readItems_last {item : α} {cs rest : List Char}
    (h : readItem cs = some (item, last :: rest)) (count : Nat) :
    readItems readItem last (count + 1) cs = some ([item], rest) := by
  simp only [readItems, h, skip_cons]

theorem readItems_comma (hlast : last ≠ ',') {item : α} {cs rest : List Char}
    (h : readItem cs = some (item, ',' :: rest)) (count : Nat) :
    readItems readItem last (count + 1) cs
      = (readItems readItem last count rest).map fun (items, cs) => (item :: items, cs) := by
  simp only [readItems, h, skip_cons, skip_cons_of_ne hlast.symm]

/-- Items with commas between them are not more than their characters and one. -/
theorem length_le_intercalate (items : List (List Char)) :
    items.length ≤ ([','].intercalate items).length + 1 := by
  induction items with
  | nil => exact Nat.zero_le _
  | cons item items ih =>
      cases items with
      | nil => simp
      | cons item' items =>
          rw [List.intercalate_cons_cons, List.length_append, List.length_append]
          simp only [List.length_cons, List.length_nil] at ih ⊢
          omega

variable {write : β → List Char} {value : β → α} {IsItem : β → Prop}
  (hitem : ∀ b, IsItem b → ∀ cs, (∀ c ∈ cs.head?, c = ',' ∨ c = last) →
    readItem (write b ++ cs) = some (value b, cs))
  (hlast : last ≠ ',')
include hitem hlast

/-- Items are read back before a comma and before the end, so all of them are. -/
theorem readItems_intercalate {bs : List β} (hne : bs ≠ []) (hbs : ∀ b ∈ bs, IsItem b)
    {count : Nat} (hcount : bs.length ≤ count) (cs : List Char) :
    readItems readItem last count ([','].intercalate (bs.map write) ++ last :: cs)
      = some (bs.map value, cs) := by
  induction bs generalizing count with
  | nil => exact absurd rfl hne
  | cons b bs ih =>
      rcases List.forall_mem_cons.1 hbs with ⟨hb, hrest⟩
      cases count with
      | zero => exact absurd hcount (Nat.not_succ_le_zero _)
      | succ count =>
          cases bs with
          | nil =>
              rw [List.map_singleton, List.intercalate_singleton]
              exact readItems_last (hitem b hb _ (by simp)) count
          | cons b' bs =>
              have hread := ih (by simp) hrest (Nat.le_of_succ_le_succ hcount)
              rw [List.map_cons] at hread
              rw [List.map_cons, List.map_cons, List.intercalate_cons_cons, List.append_assoc,
                List.append_assoc, List.singleton_append,
                readItems_comma hlast (hitem b hb _ (by simp)) count, hread]
              rfl

/-- A list is read back if its items are, and none of them begins like the end of the list. -/
theorem readList_intercalate (hhead : ∀ b, ∃ c rest, write b = c :: rest ∧ c ≠ last)
    {bs : List β} (hbs : ∀ b ∈ bs, IsItem b) (first : Char) (cs : List Char) :
    readList readItem last first (first :: ([','].intercalate (bs.map write) ++ last :: cs))
      = some (bs.map value, cs) := by
  rw [readList, skip_cons]
  cases bs with
  | nil => simp
  | cons b bs =>
      have hcount : (b :: bs).length
          ≤ ([','].intercalate ((b :: bs).map write) ++ last :: cs).length := by
        have hlength := length_le_intercalate ((b :: bs).map write)
        rw [List.length_map] at hlength
        rw [List.length_append, List.length_cons (a := last)]
        omega
      have hskip : skip last ([','].intercalate ((b :: bs).map write) ++ last :: cs) = none := by
        rcases hhead b with ⟨c, rest, hb, hc⟩
        rcases intercalate_cons_cases write last b bs cs with ⟨d, tail, htext, -⟩
        rw [htext, hb, List.cons_append, skip_cons_of_ne hc]
      rw [Option.bind_eq_bind, Option.bind_some, hskip]
      exact readItems_intercalate hitem hlast (by simp) hbs hcount cs

end Items

/-! ## Records -/

/-- A member before a comma or a brace is read back. -/
theorem readMember_writeMember {m : String × Scalar} (hm : m.2.IsWritten) {cs : List Char}
    (hcs : ∀ c ∈ cs.head?, c = ',' ∨ c = '}') :
    readMember (writeMember m ++ cs) = some ((m.1, m.2.value), cs) := by
  have hname := readString_writeString m.1.toList (':' :: (m.2.write ++ cs))
  rw [String.ofList_toList] at hname
  simp [readMember, writeMember, hname, readValue_write hm hcs]

/-- The members of an object as they stand in its text. -/
def valuesOf (object : Members) : List (String × Value) := object.map fun m => (m.1, m.2.value)

/-- An object is read back. -/
theorem readObject_writeObject {object : Members} (h : ∀ m ∈ object, m.2.IsWritten)
    (cs : List Char) : readObject (writeObject object ++ cs) = some (valuesOf object, cs) := by
  rw [writeObject_append]
  exact readList_intercalate (fun m hm cs hcs => readMember_writeMember hm hcs) (by decide)
    (fun m => ⟨'"', _, rfl, by decide⟩) h '{' cs

/-- The text of records is read as these records. -/
theorem readArray_writeArray {records : List Members}
    (h : ∀ object ∈ records, ∀ m ∈ object, m.2.IsWritten) :
    readArray (writeArray records) = some (records.map valuesOf) := by
  have hread : readList readObject ']' '[' (writeArray records)
      = some (records.map valuesOf, []) :=
    readList_intercalate (fun object hobject cs _ => readObject_writeObject hobject cs) (by decide)
      (fun object => ⟨'{', _, rfl, by decide⟩) h '[' []
  rw [readArray, hread]

/-- Other texts are read too, with codes for characters and other forms of numbers. -/
example : readArray "[\x7b\"a\":\"\\u0041\\/\",\"b\":-1E2\x7d]".toList
    = some [[("a", .string "A/"), ("b", .number ['-', '1', 'E', '2'])]] := by decide

end TableFixture.Json
