import Mathlib.Data.List.Forall2
import TableFixture.Csv.Written
import TableFixture.Proofs.Text.Encoding

/-!
# Splitting texts of known form

The splitting machine is followed through texts of a known form: fields that are bare or
quoted, records that are fields with commas between them, and lines that are records or
empty.  The forms fix what every field holds, whatever line ends were chosen and however
many empty lines stand between the records.

Main results:

- Theorem `exists_phase_of_fieldForm`: a field leaves the machine with its bytes and ready
  for a separator.
- Theorem `exists_phase_of_forall₂_fieldForm`: so does the last field of a record, with the
  fields before it.
- Theorem `fieldsFrom_of_lines`: the fields of a text of lines are those of its records.
-/

namespace TableFixture.Csv

open Text.Utf8 (encode)

/-! ## One byte after the other -/

/-- The fields of the records in the bytes, from the middle of a record. -/
def fieldsFrom (phase : Phase) (field : List UInt8) (fields : List (List UInt8))
    (bytes : List UInt8) : List (List (List UInt8)) :=
  (splitFrom phase field fields ⟨0, 0⟩ ⟨0, 0⟩ bytes).map (·.fields)

section Steps

variable {phase next : Phase} {field : List UInt8} {fields : List (List UInt8)} {b : UInt8}
  {bytes : List UInt8}

theorem fieldsFrom_skip (h : mark phase b = (next, .skip)) :
    fieldsFrom phase field fields (b :: bytes) = fieldsFrom next field fields bytes := by
  rw [fieldsFrom, splitFrom, h]
  exact fields_splitFrom ..

theorem fieldsFrom_keep (h : mark phase b = (next, .keep)) :
    fieldsFrom phase field fields (b :: bytes) = fieldsFrom next (b :: field) fields bytes := by
  rw [fieldsFrom, splitFrom, h]
  exact fields_splitFrom ..

theorem fieldsFrom_endField (h : mark phase b = (next, .endField)) :
    fieldsFrom phase field fields (b :: bytes)
      = fieldsFrom next [] (field.reverse :: fields) bytes := by
  rw [fieldsFrom, splitFrom, h]
  exact fields_splitFrom ..

theorem fieldsFrom_endRecord (h : mark phase b = (next, .endRecord)) :
    fieldsFrom phase field fields (b :: bytes)
      = (field.reverse :: fields).reverse :: fieldsFrom next [] [] bytes := by
  rw [fieldsFrom, splitFrom, h]
  exact congrArg (_ :: ·) (fields_splitFrom ..)

/-- A comma outside quotes ends the field. -/
theorem fieldsFrom_comma (hphase : phase ≠ .quoted) :
    fieldsFrom phase field fields (comma :: bytes)
      = fieldsFrom .fieldStart [] (field.reverse :: fields) bytes := by
  apply fieldsFrom_endField
  cases phase with
  | quoted => exact absurd rfl hphase
  | recordStart => rfl
  | fieldStart => rfl
  | bare => rfl
  | closing => rfl

/-- A line end outside quotes ends a record of which something has been read. -/
theorem fieldsFrom_lineEnd (hquoted : phase ≠ .quoted) (hstart : phase ≠ .recordStart)
    (hb : isLineEnd b = true) :
    fieldsFrom phase field fields (b :: bytes)
      = (field.reverse :: fields).reverse :: fieldsFrom .recordStart [] [] bytes := by
  apply fieldsFrom_endRecord
  simp only [isLineEnd, Bool.or_eq_true, beq_iff_eq] at hb
  rcases hb with rfl | rfl
  all_goals
    cases phase with
    | quoted => exact absurd rfl hquoted
    | recordStart => exact absurd rfl hstart
    | fieldStart => rfl
    | bare => rfl
    | closing => rfl

/-- The end of the bytes ends a record of which something has been read. -/
theorem fieldsFrom_nil (hstart : phase ≠ .recordStart) :
    fieldsFrom phase field fields [] = [(field.reverse :: fields).reverse] := by
  rw [fieldsFrom, splitFrom, if_neg hstart]
  rfl

/-- A line end between records is an empty line. -/
theorem fieldsFrom_emptyLine (hb : isLineEnd b = true) :
    fieldsFrom .recordStart field fields (b :: bytes)
      = fieldsFrom .recordStart field fields bytes := by
  apply fieldsFrom_skip
  rw [mark, if_pos hb]

end Steps

/-! ## Characters without a meaning -/

/-- Whether a byte is kept outside quotes, wherever it stands. -/
def isPlain (b : UInt8) : Bool := b != comma && b != quote && !isLineEnd b

theorem mark_of_isPlain {phase : Phase} (hphase : phase ≠ .quoted) {b : UInt8}
    (hb : isPlain b = true) : mark phase b = (.bare, .keep) := by
  simp only [isPlain, Bool.and_eq_true, bne_iff_ne, ne_eq, Bool.not_eq_true'] at hb
  rcases hb with ⟨⟨hcomma, hquote⟩, hline⟩
  have hbare : markBare b = (.bare, .keep) := by simp [markBare, hcomma, hline]
  cases phase with
  | quoted => exact absurd rfl hphase
  | recordStart => simp [mark, hline, hquote, hbare]
  | fieldStart => simp [mark, hquote, hbare]
  | bare => exact hbare
  | closing => simp [mark, hquote, hbare]

/-- Plain bytes are kept outside quotes. -/
theorem fieldsFrom_plain {phase : Phase} (hphase : phase ≠ .quoted) {bs : List UInt8}
    (hne : bs ≠ []) (hbs : ∀ b ∈ bs, isPlain b = true) (field : List UInt8)
    (fields : List (List UInt8)) (bytes : List UInt8) :
    fieldsFrom phase field fields (bs ++ bytes)
      = fieldsFrom .bare (bs.reverse ++ field) fields bytes := by
  induction bs generalizing phase field with
  | nil => exact absurd rfl hne
  | cons b bs ih =>
      have hb : isPlain b = true := hbs b List.mem_cons_self
      rw [List.cons_append, fieldsFrom_keep (mark_of_isPlain hphase hb)]
      by_cases hnil : bs = []
      · subst hnil
        rfl
      · rw [ih (by decide) hnil (fun d hd => hbs d (List.mem_cons_of_mem b hd)),
          List.reverse_cons, List.append_assoc, List.singleton_append]

/-- Bytes other than the quote are kept inside quotes. -/
theorem fieldsFrom_quoted {bs : List UInt8} (hbs : ∀ b ∈ bs, b ≠ quote) (field : List UInt8)
    (fields : List (List UInt8)) (bytes : List UInt8) :
    fieldsFrom .quoted field fields (bs ++ bytes)
      = fieldsFrom .quoted (bs.reverse ++ field) fields bytes := by
  induction bs generalizing field with
  | nil => rfl
  | cons b bs ih =>
      have hb : mark .quoted b = (.quoted, .keep) := by
        simp [mark, hbs b List.mem_cons_self]
      rw [List.cons_append, fieldsFrom_keep hb,
        ih (fun d hd => hbs d (List.mem_cons_of_mem b hd)), List.reverse_cons, List.append_assoc,
        List.singleton_append]

/-- The bytes of a character are those of no other ASCII character. -/
theorem ne_of_mem_utf8EncodeChar {c d : Char} (hd : d.toNat < 128) (hne : c ≠ d) {b : UInt8}
    (hb : b ∈ String.utf8EncodeChar c) : b ≠ UInt8.ofNat d.toNat := by
  intro heq
  have hbd : b.toNat = d.toNat := by
    rw [heq, UInt8.toNat_ofNat']
    omega
  by_cases hc : c.toNat < 128
  · rw [Text.Utf8.utf8EncodeChar_of_lt hc, List.mem_singleton] at hb
    rw [hb, UInt8.toNat_ofNat', Nat.mod_eq_of_lt (by omega)] at hbd
    exact hne (Char.toNat_inj.1 hbd)
  · have hge := Text.Utf8.le_of_mem_utf8EncodeChar (Nat.le_of_not_lt hc) hb
    omega

theorem isPlain_of_mem_encode {cs : List Char} (hcs : ∀ c ∈ cs, isSpecial c = false) {b : UInt8}
    (hb : b ∈ encode cs) : isPlain b = true := by
  rcases List.mem_flatMap.1 hb with ⟨c, hc, hbc⟩
  have hspecial := hcs c hc
  simp only [isSpecial, Bool.or_eq_false_iff, beq_eq_false_iff_ne, ne_eq] at hspecial
  rcases hspecial with ⟨⟨⟨hcomma, hquote⟩, hreturn⟩, hfeed⟩
  have hcomma' : b ≠ comma := ne_of_mem_utf8EncodeChar (d := ',') (by decide) hcomma hbc
  have hquote' : b ≠ quote := ne_of_mem_utf8EncodeChar (d := '"') (by decide) hquote hbc
  have hreturn' : b ≠ carriageReturn :=
    ne_of_mem_utf8EncodeChar (d := '\r') (by decide) hreturn hbc
  have hfeed' : b ≠ lineFeed := ne_of_mem_utf8EncodeChar (d := '\n') (by decide) hfeed hbc
  simp [isPlain, isLineEnd, hcomma', hquote', hreturn', hfeed']

/-- What was quoted is kept inside quotes, each doubled quote as one. -/
theorem fieldsFrom_doubleQuotes (cs : List Char) (field : List UInt8) (fields : List (List UInt8))
    (bytes : List UInt8) :
    fieldsFrom .quoted field fields (encode (doubleQuotes cs) ++ bytes)
      = fieldsFrom .quoted ((encode cs).reverse ++ field) fields bytes := by
  induction cs generalizing field with
  | nil => rfl
  | cons c cs ih =>
      have hcons : doubleQuotes (c :: cs)
          = (if c = '"' then ['"', '"'] else [c]) ++ doubleQuotes cs := rfl
      rw [hcons, Text.Utf8.encode_append, List.append_assoc]
      by_cases hc : c = '"'
      · subst hc
        have hpair : encode (if '"' = '"' then ['"', '"'] else ['"']) = [quote, quote] := by decide
        have hone : String.utf8EncodeChar '"' = [quote] := by decide
        have hopen : mark .quoted quote = (.closing, .skip) := rfl
        have hclose : mark .closing quote = (.quoted, .keep) := rfl
        rw [hpair, List.cons_append, fieldsFrom_skip hopen, List.singleton_append,
          fieldsFrom_keep hclose, ih, Text.Utf8.encode_cons, hone, List.singleton_append,
          List.reverse_cons, List.append_assoc, List.singleton_append]
      · have hbytes : ∀ b ∈ String.utf8EncodeChar c, b ≠ quote := fun b hb =>
          ne_of_mem_utf8EncodeChar (d := '"') (by decide) hc hb
        rw [if_neg hc, Text.Utf8.encode_cons, Text.Utf8.encode_nil, List.append_nil,
          fieldsFrom_quoted hbytes, ih, Text.Utf8.encode_cons, List.reverse_append,
          List.append_assoc]

/-! ## Fields -/

/-- The texts that a field of a table can have: its characters as they stand, or quoted,
with what follows the closing quote. -/
inductive FieldForm : List Char → List Char → Prop where
  | bare {value : List Char} : (∀ c ∈ value, isSpecial c = false) → FieldForm value value
  | quoted {inside after : List Char} : (∀ c ∈ after, isSpecial c = false) →
      FieldForm (inside ++ after) ('"' :: (doubleQuotes inside ++ '"' :: after))

/-- The text of a field is kept outside quotes, if it is not empty. -/
theorem fieldsFrom_plainText {phase : Phase} (hphase : phase ≠ .quoted) {cs : List Char}
    (hne : cs ≠ []) (hcs : ∀ c ∈ cs, isSpecial c = false) (field : List UInt8)
    (fields : List (List UInt8)) (bytes : List UInt8) :
    fieldsFrom phase field fields (encode cs ++ bytes)
      = fieldsFrom .bare ((encode cs).reverse ++ field) fields bytes :=
  fieldsFrom_plain hphase (by simpa using hne) (fun _ => isPlain_of_mem_encode hcs) field fields
    bytes

/-- A field leaves the machine outside quotes with the bytes of the field; only the empty
text leaves it where it was. -/
theorem exists_phase_of_fieldForm {value text : List Char} (h : FieldForm value text)
    {phase : Phase} (hphase : phase = .recordStart ∨ phase = .fieldStart) :
    ∃ next, next ≠ .quoted ∧ (next = .recordStart → text = [] ∧ phase = .recordStart) ∧
      ∀ fields bytes, fieldsFrom phase [] fields (encode text ++ bytes)
        = fieldsFrom next (encode value).reverse fields bytes := by
  have hquoted : phase ≠ .quoted := by
    rcases hphase with rfl | rfl <;> decide
  cases h with
  | bare hvalue =>
      by_cases hnil : value = []
      · subst hnil
        exact ⟨phase, hquoted, fun hstart => ⟨rfl, hstart⟩, fun _ _ => rfl⟩
      · refine ⟨.bare, by decide, fun hstart => absurd hstart (by decide), ?_⟩
        intro fields bytes
        rw [fieldsFrom_plainText hquoted hnil hvalue, List.append_nil]
  | @quoted inside after hafter =>
      have hopen : mark phase quote = (.quoted, .skip) := by
        rcases hphase with rfl | rfl <;> rfl
      have hquote (cs : List Char) : encode ('"' :: cs) = quote :: encode cs := rfl
      have hinside (fields : List (List UInt8)) (bytes : List UInt8) :
          fieldsFrom phase [] fields
              (encode ('"' :: (doubleQuotes inside ++ '"' :: after)) ++ bytes)
            = fieldsFrom .closing (encode inside).reverse fields (encode after ++ bytes) := by
        rw [hquote, List.cons_append, fieldsFrom_skip hopen, Text.Utf8.encode_append,
          List.append_assoc, fieldsFrom_doubleQuotes, List.append_nil, hquote, List.cons_append]
        exact fieldsFrom_skip rfl
      by_cases hnil : after = []
      · subst hnil
        refine ⟨.closing, by decide, fun hstart => absurd hstart (by decide), ?_⟩
        intro fields bytes
        rw [hinside, List.append_nil]
        rfl
      · refine ⟨.bare, by decide, fun hstart => absurd hstart (by decide), ?_⟩
        intro fields bytes
        rw [hinside, fieldsFrom_plainText (by decide) hnil hafter, Text.Utf8.encode_append,
          List.reverse_append]

/-! ## Records -/

/-- The texts of a record: its fields with commas between them, but never an empty line. -/
def RecordForm (values : List (List Char)) (text : List Char) : Prop :=
  text ≠ [] ∧ ∃ texts, List.Forall₂ FieldForm values texts ∧ text = [','].intercalate texts

/-- The fields of a record leave the machine at the end of the last of them. -/
theorem exists_phase_of_forall₂_fieldForm {values texts : List (List Char)}
    (h : List.Forall₂ FieldForm values texts) {phase : Phase}
    (hphase : phase = .recordStart ∨ phase = .fieldStart) (hvalues : values ≠ [])
    (hne : [','].intercalate texts ≠ [] ∨ phase = .fieldStart) (fields : List (List UInt8)) :
    ∃ next field done, next ≠ .quoted ∧ next ≠ .recordStart ∧
      (field.reverse :: done).reverse = fields.reverse ++ values.map encode ∧
      ∀ bytes, fieldsFrom phase [] fields (encode ([','].intercalate texts) ++ bytes)
        = fieldsFrom next field done bytes := by
  induction h generalizing phase fields with
  | nil => exact absurd rfl hvalues
  | @cons value text values texts hfield hrest ih =>
      rcases exists_phase_of_fieldForm hfield hphase with ⟨next, hquoted, hstart, hrun⟩
      cases hrest with
      | nil =>
          refine ⟨next, (encode value).reverse, fields, hquoted, ?_, by simp, ?_⟩
          · intro hnext
            rcases hstart hnext with ⟨rfl, rfl⟩
            rcases hne with hne | hne
            · exact hne rfl
            · exact absurd hne (by decide)
          · intro bytes
            rw [List.intercalate_singleton, hrun]
      | @cons value' text' values texts hfield' hrest =>
          rcases ih (.inr rfl) (by simp) (.inr rfl) (encode value :: fields) with
            ⟨next', field, done, hquoted', hstart', hdone, hrun'⟩
          refine ⟨next', field, done, hquoted', hstart', ?_, ?_⟩
          · rw [hdone, List.reverse_cons, List.append_assoc, List.map_cons (l := value' :: values),
              List.singleton_append]
          · intro bytes
            have hcomma (cs : List Char) : encode ([','] ++ cs) = comma :: encode cs := rfl
            rw [List.intercalate_cons_cons, List.append_assoc, Text.Utf8.encode_append,
              List.append_assoc, hrun, hcomma, List.cons_append, fieldsFrom_comma hquoted,
              List.reverse_reverse, hrun']

/-- A record leaves the machine at the end of its last field. -/
theorem exists_phase_of_recordForm {values : List (List Char)} {text : List Char}
    (h : RecordForm values text) :
    ∃ next field done, next ≠ .quoted ∧ next ≠ .recordStart ∧
      (field.reverse :: done).reverse = values.map encode ∧
      ∀ bytes, fieldsFrom .recordStart [] [] (encode text ++ bytes)
        = fieldsFrom next field done bytes := by
  rcases h with ⟨hne, texts, hfields, rfl⟩
  have hvalues : values ≠ [] := by
    rintro rfl
    cases hfields
    exact hne rfl
  exact exists_phase_of_forall₂_fieldForm hfields (.inl rfl) hvalues (.inl hne) []

/-! ## Lines -/

/-- The ways to end a line. -/
inductive Newline : List Char → Prop where
  | lineFeed : Newline ['\n']
  | carriageReturn : Newline ['\r']
  | both : Newline ['\r', '\n']

/-- Texts of lines: each line is ended, the last one perhaps by the end of the text, and
there may be empty lines anywhere. -/
inductive Lines : List (List Char) → List Char → Prop where
  | nil : Lines [] []
  | empty {newline text : List Char} {lines : List (List Char)} : Newline newline →
      Lines lines text → Lines lines (newline ++ text)
  | line {line newline text : List Char} {lines : List (List Char)} : Newline newline →
      Lines lines text → Lines (line :: lines) (line ++ newline ++ text)
  | last (line : List Char) : Lines [line] line

/-- An empty line between records is skipped. -/
theorem fieldsFrom_emptyNewline {newline : List Char} (h : Newline newline)
    (field : List UInt8) (fields : List (List UInt8)) (bytes : List UInt8) :
    fieldsFrom .recordStart field fields (encode newline ++ bytes)
      = fieldsFrom .recordStart field fields bytes := by
  cases h with
  | lineFeed => exact fieldsFrom_emptyLine rfl
  | carriageReturn => exact fieldsFrom_emptyLine rfl
  | both => exact (fieldsFrom_emptyLine rfl).trans (fieldsFrom_emptyLine rfl)

/-- A newline ends a record of which something has been read. -/
theorem fieldsFrom_newline {newline : List Char} (h : Newline newline) {phase : Phase}
    (hquoted : phase ≠ .quoted) (hstart : phase ≠ .recordStart) (field : List UInt8)
    (fields : List (List UInt8)) (bytes : List UInt8) :
    fieldsFrom phase field fields (encode newline ++ bytes)
      = (field.reverse :: fields).reverse :: fieldsFrom .recordStart [] [] bytes := by
  cases h with
  | lineFeed => exact fieldsFrom_lineEnd hquoted hstart rfl
  | carriageReturn => exact fieldsFrom_lineEnd hquoted hstart rfl
  | both =>
      -- the line feed of the pair is an empty line
      exact (fieldsFrom_lineEnd hquoted hstart rfl).trans
        (congrArg (_ :: ·) (fieldsFrom_emptyLine rfl))

/-- The fields of a text of lines are those of its records. -/
theorem fieldsFrom_of_lines {records : List (List (List Char))} {lines : List (List Char)}
    {text : List Char} (hlines : Lines lines text) (h : List.Forall₂ RecordForm records lines) :
    fieldsFrom .recordStart [] [] (encode text) = records.map (·.map encode) := by
  induction hlines generalizing records with
  | nil =>
      cases h
      rfl
  | empty hnewline _ ih =>
      rw [Text.Utf8.encode_append, fieldsFrom_emptyNewline hnewline, ih h]
  | line hnewline _ ih =>
      cases h with
      | cons hrecord hrest =>
          rcases exists_phase_of_recordForm hrecord with
            ⟨next, field, done, hquoted, hstart, hdone, hrun⟩
          rw [Text.Utf8.encode_append, Text.Utf8.encode_append, List.append_assoc, hrun,
            fieldsFrom_newline hnewline hquoted hstart, hdone, ih hrest, List.map_cons]
  | last line =>
      cases h with
      | cons hrecord hrest =>
          cases hrest
          rcases exists_phase_of_recordForm hrecord with
            ⟨next, field, done, hquoted, hstart, hdone, hrun⟩
          have hend := hrun []
          rw [List.append_nil] at hend
          rw [hend, fieldsFrom_nil hstart, hdone, List.map_cons, List.map_nil]

end TableFixture.Csv
