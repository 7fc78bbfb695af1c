import TableFixture.Csv.File
import TableFixture.Proofs.Csv.Inference
import TableFixture.Proofs.Csv.Reading

/-!
# Tables that are accepted

A table is accepted exactly if its fields are texts, its records are all as wide as its
header, and its names are distinct after trimming.  Its frame then has one column for each
name and one row for each other record, and every value is that of the field in its place.
A table is refused for its first faulty record, whatever its names are, and for its first
repeated name only if no record is faulty.

Main results:

- Theorem `isText_trimBoth_iff`: trimming bytes does not change whether they are a text.
- Theorem `isText_of_mem_records`: the fields of a table that is a text are texts.
- Theorems `readTable_of_sound` and `readTable_of_not_sound`: tables without a faulty
  record, and with one.
- Theorem `holds_of_columns`: which value stands in which place.
- Theorem `readsExactly_ofCsv`: what is read from bytes, files and texts.
-/

namespace TableFixture

namespace Csv

open Text.Utf8 (encode decode)

/-! ## Fields that are texts -/

/-- The bytes of a field are those of a text. -/
def IsText (field : List UInt8) : Prop := ∃ cs, encode cs = field

/-- The bytes of a field are those of a text with the given trim. -/
def FieldText (field : List UInt8) (text : String) : Prop :=
  ∃ cs, encode cs = field ∧ Text.trim (String.ofList cs) = text

theorem FieldText.unique {field : List UInt8} {text text' : String} (h : FieldText field text)
    (h' : FieldText field text') : text = text' := by
  rcases h with ⟨cs, hcs, rfl⟩
  rcases h' with ⟨cs', hcs', rfl⟩
  rw [Text.Utf8.encode_injective (hcs.trans hcs'.symm)]

/-- What does not decode is no text. -/
theorem not_isText_of_decode {field : List UInt8} {validBytes : Nat}
    (h : decode field = .error validBytes) : ¬ IsText field := by
  rintro ⟨cs, rfl⟩
  rw [Text.Utf8.decode_encode] at h
  exact absurd h (by simp)

/-- Blank bytes are the bytes of blanks. -/
theorem isText_of_blankBytes {bytes : List UInt8}
    (h : ∀ b ∈ bytes, Text.isBlankByte b = true) : IsText bytes := by
  induction bytes with
  | nil => exact ⟨[], rfl⟩
  | cons b bytes ih =>
      rcases ih fun b' hb' => h b' (List.mem_cons_of_mem b hb') with ⟨cs, rfl⟩
      have hblank := h b List.mem_cons_self
      simp only [Text.isBlankByte, Bool.or_eq_true, beq_iff_eq] at hblank
      rcases hblank with (((rfl | rfl) | rfl) | rfl) | rfl
      · exact ⟨' ' :: cs, rfl⟩
      · exact ⟨'\t' :: cs, rfl⟩
      · exact ⟨'\n' :: cs, rfl⟩
      · exact ⟨'\x0c' :: cs, rfl⟩
      · exact ⟨'\r' :: cs, rfl⟩

/-- Trimming bytes does not change whether they are a text. -/
theorem isText_trimBoth_iff (field : List UInt8) :
    IsText (Text.trimBoth Text.isBlankByte field) ↔ IsText field := by
  constructor
  · rintro ⟨cs, hcs⟩
    rcases Text.exists_eq_append_trimBoth (p := Text.isBlankByte) field with
      ⟨before, after, hbefore, hafter, hfield⟩
    rcases isText_of_blankBytes hbefore with ⟨ds, hds⟩
    rcases isText_of_blankBytes hafter with ⟨es, hes⟩
    refine ⟨ds ++ cs ++ es, ?_⟩
    rw [Text.Utf8.encode_append, Text.Utf8.encode_append, hds, hcs, hes, ← hfield]
  · rintro ⟨cs, rfl⟩
    exact ⟨_, (Text.Utf8.trimBoth_encode cs).symm⟩

/-- Fields that are all texts are decoded, others are refused for the first that is none. -/
theorem decodeFields_cases (position : Position) (number : Nat) (fields : List (List UInt8)) :
    (∃ texts : List (List Char), fields = texts.map encode) ∨
      ∃ i field validBytes, fields[i]? = some field ∧ ¬ IsText field ∧
        (∀ field' ∈ fields.take i, IsText field') ∧
        decodeFields position number fields
          = .error (.invalidUtf8 position (number + i) validBytes) := by
  induction fields generalizing number with
  | nil => exact .inl ⟨[], rfl⟩
  | cons field fields ih =>
      cases hdecode : decode field with
      | error validBytes =>
          refine .inr ⟨0, field, validBytes, rfl, not_isText_of_decode hdecode, by simp, ?_⟩
          simp only [decodeFields, hdecode, Nat.add_zero]
      | ok cs =>
          have hcs := Text.Utf8.encode_of_decode hdecode
          rcases ih (number + 1) with ⟨texts, rfl⟩ | ⟨i, bad, validBytes, hi, hbad, htake, hrest⟩
          · exact .inl ⟨cs :: texts, by rw [List.map_cons, hcs]⟩
          · refine .inr ⟨i + 1, bad, validBytes, hi, hbad, ?_, ?_⟩
            · intro field' hmem
              rcases List.mem_cons.1 hmem with rfl | hmem
              · exact ⟨cs, hcs⟩
              · exact htake field' hmem
            · simp only [decodeFields, hdecode, hrest, Nat.add_assoc, Nat.add_comm 1 i]

/-! ## Tables that are texts -/

theorem isText_nil : IsText [] := ⟨[], rfl⟩

theorem IsText.append {xs ys : List UInt8} (hxs : IsText xs) (hys : IsText ys) :
    IsText (xs ++ ys) := by
  rcases hxs with ⟨cs, rfl⟩
  rcases hys with ⟨ds, rfl⟩
  exact ⟨cs ++ ds, Text.Utf8.encode_append cs ds⟩

theorem isText_utf8EncodeChar (c : Char) : IsText (String.utf8EncodeChar c) :=
  ⟨[c], by rw [Text.Utf8.encode_cons, Text.Utf8.encode_nil, List.append_nil]⟩

/-- The bytes of a character beyond ASCII are kept together, inside quotes and outside. -/
theorem exists_phase_of_not_ascii {c : Char} (hc : 128 ≤ c.toNat) (phase : Phase)
    (field : List UInt8) (fields : List (List UInt8)) :
    ∃ next, ∀ bytes, fieldsFrom phase field fields (String.utf8EncodeChar c ++ bytes)
      = fieldsFrom next ((String.utf8EncodeChar c).reverse ++ field) fields bytes := by
  have hascii {b d : UInt8} (hb : b ∈ String.utf8EncodeChar c) (hd : d.toNat < 128) : b ≠ d := by
    rintro rfl
    exact absurd (Text.Utf8.le_of_mem_utf8EncodeChar hc hb) (Nat.not_le.2 hd)
  by_cases hphase : phase = .quoted
  · subst hphase
    exact ⟨.quoted, fieldsFrom_quoted (fun b hb => hascii hb (by decide)) field fields⟩
  · rcases Text.Utf8.exists_utf8EncodeChar_eq_cons c with ⟨b, bs, hcons⟩
    refine ⟨.bare, fieldsFrom_plain hphase (by simp [hcons]) (fun b hb => ?_) field fields⟩
    have hcomma : b ≠ comma := hascii hb (by decide)
    have hquote : b ≠ quote := hascii hb (by decide)
    have hreturn : b ≠ carriageReturn := hascii hb (by decide)
    have hfeed : b ≠ lineFeed := hascii hb (by decide)
    simp [isPlain, isLineEnd, hcomma, hquote, hreturn, hfeed]

/-- A record of texts stays one with another field. -/
theorem forall_isText_reverse_cons {field : List UInt8} {fields : List (List UInt8)}
    (hfield : IsText field) (hfields : ∀ done ∈ fields, IsText done) :
    ∀ done ∈ (field :: fields).reverse, IsText done := by
  intro done hmem
  rw [List.mem_reverse] at hmem
  exact List.forall_mem_cons.2 ⟨hfield, hfields⟩ done hmem

/-- Splitting a text breaks no character, so its fields are texts. -/
theorem isText_of_mem_fieldsFrom (cs : List Char) {phase : Phase} {field : List UInt8}
    {fields : List (List UInt8)} (hfield : IsText field.reverse)
    (hfields : ∀ done ∈ fields, IsText done) :
    ∀ record ∈ fieldsFrom phase field fields (encode cs), ∀ done ∈ record, IsText done := by
  induction cs generalizing phase field fields with
  | nil =>
      by_cases hstart : phase = .recordStart
      · subst hstart
        exact List.forall_mem_nil _
      · rw [Text.Utf8.encode_nil, fieldsFrom_nil hstart, List.forall_mem_singleton]
        exact forall_isText_reverse_cons hfield hfields
  | cons c cs ih =>
      have hkeep : IsText ((String.utf8EncodeChar c).reverse ++ field).reverse := by
        rw [List.reverse_append, List.reverse_reverse]
        exact hfield.append (isText_utf8EncodeChar c)
      rw [Text.Utf8.encode_cons]
      by_cases hascii : c.toNat < 128
      · rw [Text.Utf8.utf8EncodeChar_of_lt hascii] at hkeep ⊢
        generalize UInt8.ofNat c.toNat = b at hkeep ⊢
        rw [List.singleton_append]
        cases hmark : mark phase b with
        | mk next m =>
            cases m with
            | skip =>
                rw [fieldsFrom_skip hmark]
                exact ih hfield hfields
            | keep =>
                rw [fieldsFrom_keep hmark]
                exact ih hkeep hfields
            | endField =>
                rw [fieldsFrom_endField hmark]
                exact ih isText_nil (List.forall_mem_cons.2 ⟨hfield, hfields⟩)
            | endRecord =>
                rw [fieldsFrom_endRecord hmark, List.forall_mem_cons]
                exact ⟨forall_isText_reverse_cons hfield hfields,
                  ih isText_nil (List.forall_mem_nil _)⟩
      · rcases exists_phase_of_not_ascii (Nat.le_of_not_lt hascii) phase field fields with
          ⟨next, hrun⟩
        rw [hrun]
        exact ih hkeep hfields

/-- The fields of a table that is a text are texts. -/
theorem isText_of_mem_records {bytes : List UInt8} (h : IsText bytes) :
    ∀ r ∈ records bytes, ∀ field ∈ r.fields, IsText field := by
  rcases h with ⟨cs, rfl⟩
  have hsplit : ∃ ds, (records (encode cs)).map (·.fields)
      = fieldsFrom .recordStart [] [] (encode ds) := by
    by_cases hmark : cs.head? = some markChar
    · rcases List.head?_eq_some_iff.1 hmark with ⟨ds, rfl⟩
      exact ⟨ds, fields_records_mark ds⟩
    · exact ⟨cs, fields_records_of_head? hmark⟩
  rcases hsplit with ⟨ds, hds⟩
  rw [← List.forall_mem_map (f := RawRecord.fields)
    (P := fun record => ∀ field ∈ record, IsText field), hds]
  exact isText_of_mem_fieldsFrom ds isText_nil (List.forall_mem_nil _)

/-! ## Records without fault -/

/-- The fields of the header of a table; none if the table has no record. -/
def headerFields (bytes : List UInt8) : List (List UInt8) :=
  ((records bytes).head?.map (·.fields)).getD []

/-- The fields of the records of a table after its header. -/
def dataFields (bytes : List UInt8) : List (List (List UInt8)) :=
  (records bytes).tail.map (·.fields)

/-- A record has the given number of fields, and all of them are texts. -/
structure Sound (width : Nat) (r : RawRecord) : Prop where
  length : r.fields.length = width
  texts : ∀ field ∈ r.fields, IsText field

/-- No record of a table is faulty exactly if all fields are texts and the records are as wide
as the header. -/
theorem forall_sound_iff (bytes : List UInt8) :
    (∀ r ∈ records bytes, Sound (headerFields bytes).length r) ↔
      (∀ field ∈ headerFields bytes, IsText field) ∧
        ∀ fields ∈ dataFields bytes, fields.length = (headerFields bytes).length ∧
          ∀ field ∈ fields, IsText field := by
  have hsound (width : Nat) (r : RawRecord) : Sound width r ↔
      r.fields.length = width ∧ ∀ field ∈ r.fields, IsText field :=
    ⟨fun h => ⟨h.length, h.texts⟩, fun h => ⟨h.1, h.2⟩⟩
  cases hrecords : records bytes with
  | nil => simp [headerFields, dataFields, hrecords]
  | cons header data =>
      simp only [headerFields, dataFields, hrecords, List.head?_cons, Option.map_some,
        Option.getD_some, List.tail_cons, List.forall_mem_cons, List.forall_mem_map, hsound,
        true_and]

/-- What is wrong with a record of the given number in a table of the given width: it has
another number of fields, or else its first field that is no text. -/
inductive Faulty (width number : Nat) (r : RawRecord) : CsvError → Prop where
  | ragged : r.fields.length ≠ width →
      Faulty width number r (.unequalLengths (r.position number) width r.fields.length)
  | garbled {i validBytes : Nat} {field : List UInt8} : r.fields.length = width →
      r.fields[i]? = some field → ¬ IsText field → (∀ field' ∈ r.fields.take i, IsText field') →
      Faulty width number r (.invalidUtf8 (r.position number) i validBytes)

/-- The fault of the first faulty record of a table, which is named by its number. -/
def FirstFault (bytes : List UInt8) (e : CsvError) : Prop :=
  ∃ before r after, records bytes = before ++ r :: after ∧
    (∀ r' ∈ before, Sound (headerFields bytes).length r') ∧
    Faulty (headerFields bytes).length before.length r e

theorem exists_texts_of_sound {width : Nat} {r : RawRecord} (h : Sound width r) :
    ∃ texts : List (List Char), r.fields = texts.map encode := by
  rcases decodeFields_cases (r.position 0) 0 r.fields with htexts | ⟨i, field, -, hi, hbad, -⟩
  · exact htexts
  · exact absurd (h.texts field (List.mem_of_getElem? hi)) hbad

/-- Records without fault have texts. -/
theorem exists_table_of_sound {width : Nat} {rs : List RawRecord} (h : ∀ r ∈ rs, Sound width r) :
    ∃ table : List (List (List Char)), rs.map (·.fields) = table.map (·.map encode) ∧
      ∀ row ∈ table, row.length = width := by
  induction rs with
  | nil => exact ⟨[], rfl, by simp⟩
  | cons r rs ih =>
      rcases exists_texts_of_sound (h r List.mem_cons_self) with ⟨texts, htexts⟩
      rcases ih fun r' hr' => h r' (List.mem_cons_of_mem r hr') with ⟨table, htable, hwidth⟩
      refine ⟨texts :: table, by rw [List.map_cons, List.map_cons, htexts, htable], ?_⟩
      have hlength := (h r List.mem_cons_self).length
      rw [htexts, List.length_map] at hlength
      simpa [hlength] using hwidth

/-- A header with a field that is no text is refused. -/
theorem readHeader_of_not_sound {r : RawRecord} (h : ¬ Sound r.fields.length r) :
    ∃ e, Faulty r.fields.length 0 r e ∧ readHeader r = .error e := by
  rcases decodeFields_cases (r.position 0) 0 r.fields with
    ⟨texts, htexts⟩ | ⟨i, field, validBytes, hi, hbad, htake, hdecode⟩
  · refine absurd ⟨rfl, fun field hfield => ?_⟩ h
    rw [htexts] at hfield
    rcases List.mem_map.1 hfield with ⟨cs, -, rfl⟩
    exact ⟨cs, rfl⟩
  · rw [Nat.zero_add] at hdecode
    exact ⟨_, .garbled rfl hi hbad htake, by rw [readHeader, hdecode]⟩

/-- A faulty row is refused: for its width, or else for its first field that is no text. -/
theorem readRow_of_not_sound {width : Nat} {r : RawRecord} (h : ¬ Sound width r) (number : Nat) :
    ∃ e, Faulty width number r e ∧ readRow width number r = .error e := by
  by_cases hwidth : r.fields.length = width
  · rcases decodeFields_cases (r.position number) 0
      (r.fields.map (Text.trimBoth Text.isBlankByte)) with
      ⟨texts, htexts⟩ | ⟨i, field, validBytes, hi, hbad, htake, hdecode⟩
    · refine absurd ⟨hwidth, fun field hfield => ?_⟩ h
      have hmem : Text.trimBoth Text.isBlankByte field ∈ texts.map encode := by
        rw [← htexts]
        exact List.mem_map_of_mem hfield
      rcases List.mem_map.1 hmem with ⟨cs, -, hcs⟩
      exact (isText_trimBoth_iff field).1 ⟨cs, hcs⟩
    · -- the faults of the trimmed bytes are those of the bytes as they stand
      rw [List.getElem?_map, Option.map_eq_some_iff] at hi
      rcases hi with ⟨raw, hraw, rfl⟩
      rw [isText_trimBoth_iff] at hbad
      have hbefore : ∀ field' ∈ r.fields.take i, IsText field' := by
        intro field' hmem
        rw [← isText_trimBoth_iff]
        apply htake
        rw [← List.map_take]
        exact List.mem_map_of_mem hmem
      rw [Nat.zero_add] at hdecode
      refine ⟨.invalidUtf8 (r.position number) i validBytes, .garbled hwidth hraw hbad hbefore, ?_⟩
      rw [readRow, if_neg (not_not.2 hwidth), hdecode]
  · exact ⟨_, .ragged hwidth, by rw [readRow, if_pos hwidth]⟩

theorem readRow_of_sound {width : Nat} {r : RawRecord} (h : Sound width r) (number : Nat) :
    ∃ row, readRow width number r = .ok row := by
  rcases exists_texts_of_sound h with ⟨texts, htexts⟩
  have hlength : texts.length = width := by
    rw [← h.length, htexts, List.length_map]
  exact ⟨_, readRow_of_fields htexts hlength number⟩

/-- Rows are refused for the first that is faulty. -/
theorem readRows_of_not_sound {width : Nat} {rs : List RawRecord}
    (h : ¬ ∀ r ∈ rs, Sound width r) (number : Nat) :
    ∃ before r after e, rs = before ++ r :: after ∧ (∀ r' ∈ before, Sound width r') ∧
      Faulty width (number + before.length) r e ∧ readRows width number rs = .error e := by
  induction rs generalizing number with
  | nil => exact absurd (List.forall_mem_nil _) h
  | cons r rs ih =>
      by_cases hr : Sound width r
      · have hrest : ¬ ∀ r' ∈ rs, Sound width r' := fun hall =>
          h (List.forall_mem_cons.2 ⟨hr, hall⟩)
        rcases ih hrest (number + 1) with
          ⟨before, r', after, e, rfl, hbefore, hfault, hread⟩
        rcases readRow_of_sound hr number with ⟨row, hrow⟩
        refine ⟨r :: before, r', after, e, rfl, List.forall_mem_cons.2 ⟨hr, hbefore⟩, ?_, ?_⟩
        · rwa [List.length_cons, Nat.add_comm before.length, ← Nat.add_assoc]
        · simp only [readRows, hrow, hread]
      · rcases readRow_of_not_sound hr number with ⟨e, hfault, hread⟩
        exact ⟨[], r, rs, e, rfl, List.forall_mem_nil _, hfault, by simp only [readRows, hread]⟩

/-! ## Tables -/

/-- The names of a table are the trims of the fields of its header. -/
def HasNames (bytes : List UInt8) (names : List String) : Prop :=
  List.Forall₂ FieldText (headerFields bytes) names

/-- The rows of a table are the trims of the fields of its other records. -/
def HasRows (bytes : List UInt8) (rows : List (List String)) : Prop :=
  List.Forall₂ (List.Forall₂ FieldText) (dataFields bytes) rows

theorem forall₂_fieldText (texts : List (List Char)) :
    List.Forall₂ FieldText (texts.map encode) (texts.map trimmed) := by
  rw [List.forall₂_map_left_iff, List.forall₂_map_right_iff, List.forall₂_same]
  exact fun cs _ => ⟨cs, rfl, (trimmed_eq cs).symm⟩

theorem hasNames_unique {bytes : List UInt8} {names names' : List String}
    (h : HasNames bytes names) (h' : HasNames bytes names') : names = names' := by
  have hunique : Relator.RightUnique FieldText := fun _ _ _ htext htext' => htext.unique htext'
  exact hunique.forall₂ h h'

/-- Only a table without records has a header without fields. -/
theorem records_of_headerFields {bytes : List UInt8} (h : headerFields bytes = []) :
    records bytes = [] := by
  cases hrecords : records bytes with
  | nil => rfl
  | cons r rs =>
      have hmem : r ∈ records bytes := by simp [hrecords]
      have hfields : r.fields = [] := by simpa [headerFields, hrecords] using h
      unfold records at hmem
      split at hmem
      · exact absurd hfields (ne_nil_of_mem_splitFrom hmem)
      · exact absurd hfields (ne_nil_of_mem_splitFrom hmem)

/-- A table without a faulty record is read: its names and rows are the trims of its fields. -/
theorem readTable_of_sound {bytes : List UInt8}
    (h : ∀ r ∈ records bytes, Sound (headerFields bytes).length r) :
    ∃ names rows, readTable bytes = .ok (names, rows) ∧ HasNames bytes names ∧
      HasRows bytes rows := by
  rcases exists_table_of_sound h with ⟨table, htable, hwidth⟩
  cases table with
  | nil =>
      have hrecords : records bytes = [] := by simpa using htable
      refine ⟨[], [], by rw [readTable, hrecords], ?_, ?_⟩
      · rw [HasNames, headerFields, hrecords]
        exact .nil
      · rw [HasRows, dataFields, hrecords]
        exact .nil
  | cons header rows =>
      rcases List.map_eq_cons_iff.1 htable with ⟨r, rs, hrecords, hheader, hrows⟩
      have hfields : headerFields bytes = header.map encode := by
        rw [headerFields, hrecords, List.head?_cons, Option.map_some, Option.getD_some, hheader]
      have hdata : dataFields bytes = rows.map (·.map encode) := by
        rw [dataFields, hrecords, List.tail_cons, hrows]
      refine ⟨_, _, readTable_of_split htable ?_, ?_, ?_⟩
      · intro row hrow
        rw [hwidth row (List.mem_cons_of_mem header hrow), hfields, List.length_map]
      · rw [HasNames, hfields]
        exact forall₂_fieldText header
      · rw [HasRows, hdata, List.forall₂_map_left_iff, List.forall₂_map_right_iff,
          List.forall₂_same]
        exact fun row _ => forall₂_fieldText row

/-- A table with a faulty record is refused for the first of them. -/
theorem readTable_of_not_sound {bytes : List UInt8}
    (h : ¬ ∀ r ∈ records bytes, Sound (headerFields bytes).length r) :
    ∃ e, FirstFault bytes e ∧ readTable bytes = .error e := by
  cases hrecords : records bytes with
  | nil =>
      rw [hrecords] at h
      exact absurd (List.forall_mem_nil _) h
  | cons header data =>
      have hfields : headerFields bytes = header.fields := by
        rw [headerFields, hrecords, List.head?_cons, Option.map_some, Option.getD_some]
      rw [hrecords, hfields] at h
      by_cases hheader : Sound header.fields.length header
      · have hdata : ¬ ∀ r ∈ data, Sound header.fields.length r := fun hall =>
          h (List.forall_mem_cons.2 ⟨hheader, hall⟩)
        rcases readRows_of_not_sound hdata 1 with
          ⟨before, r, after, e, rfl, hbefore, hfault, hread⟩
        rcases exists_texts_of_sound hheader with ⟨texts, htexts⟩
        have hnames := readHeader_of_fields htexts
        rw [htexts, List.length_map] at hread
        refine ⟨e, ⟨header :: before, r, after, hrecords, ?_, ?_⟩, ?_⟩
        · rw [hfields]
          exact List.forall_mem_cons.2 ⟨hheader, hbefore⟩
        · rwa [hfields, List.length_cons, Nat.add_comm]
        · simp only [readTable, hrecords, hnames, List.length_map, hread]
      · rcases readHeader_of_not_sound hheader with ⟨e, hfault, hread⟩
        refine ⟨e, ⟨[], header, data, hrecords, List.forall_mem_nil _, ?_⟩, ?_⟩
        · rwa [hfields, List.length_nil]
        · simp only [readTable, hrecords, hread]

/-! ## Values -/

/-- A cell is the value that a text has in the type of the cell. -/
inductive ReadFrom (text : String) : Cell → Prop where
  | int64 {n : Int64} : Decimal.readInt64 text.toList = some n → ReadFrom text (.int64 n)
  | float64 {x : Binary64} : Decimal.readBinary64 text.toList = some x →
      ReadFrom text (.float64 x)
  | string : ReadFrom text (.string text)

theorem forall₂_of_map_eq_map_some {α β : Type} {read : α → Option β} {xs : List α}
    {ys : List β} (h : xs.map read = ys.map some) :
    List.Forall₂ (fun x y => read x = some y) xs ys := by
  have hall : List.Forall₂ (· = ·) (xs.map read) (ys.map some) := by
    rw [h]
    exact List.forall₂_same.2 fun _ _ => rfl
  rwa [List.forall₂_map_left_iff, List.forall₂_map_right_iff] at hall

/-- Cells of the narrowest type of texts are the values of these texts, one for each. -/
theorem Narrowest.readFrom {texts : List String} {cells : Cells} (h : Narrowest texts cells) :
    List.Forall₂ ReadFrom texts cells.toList := by
  cases h with
  | int64 _ hvs =>
      rw [Cells.toList, List.forall₂_map_right_iff]
      exact (forall₂_of_map_eq_map_some hvs).imp fun _ _ => .int64
  | float64 _ hvs =>
      rw [Cells.toList, List.forall₂_map_right_iff]
      exact (forall₂_of_map_eq_map_some hvs).imp fun _ _ => .float64
  | string _ =>
      rw [Cells.toList, List.forall₂_map_right_iff, List.forall₂_same]
      exact fun _ _ => .string

theorem exists_getElem?_of_forall₂ {α β : Type} {R : α → β → Prop} {as : List α} {bs : List β}
    (h : List.Forall₂ R as bs) {i : Nat} {a : α} (ha : as[i]? = some a) :
    ∃ b, bs[i]? = some b ∧ R a b := by
  induction h generalizing i with
  | nil => simp at ha
  | cons hhead _ ih =>
      cases i with
      | zero =>
          obtain rfl := Option.some.inj ha
          exact ⟨_, rfl, hhead⟩
      | succ i => exact ih ha

/-- A frame holds a table: a column for each field of the header, a row for each other
record, and in each place the value of the field there. -/
structure Holds (f : Frame) (bytes : List UInt8) : Prop where
  columnCount : f.columnCount = (headerFields bytes).length
  rowCount : f.rowCount = (dataFields bytes).length
  column : ∀ (c : Nat) (field : List UInt8), (headerFields bytes)[c]? = some field →
    ∃ name texts cells, FieldText field name ∧ f.columns[c]? = some ⟨name, cells⟩ ∧
      Narrowest texts cells ∧
      List.Forall₂ (fun fields text => ∃ field, fields[c]? = some field ∧ FieldText field text)
        (dataFields bytes) texts
  value : ∀ (c r : Nat) (fields : List (List UInt8)), c < (headerFields bytes).length →
    (dataFields bytes)[r]? = some fields →
    ∃ field text column cell, fields[c]? = some field ∧ FieldText field text ∧
      f.columns[c]? = some column ∧ column.cells.cell? r = some cell ∧ ReadFrom text cell

/-- The texts of a column are those of the fields in its place. -/
theorem forall₂_columnTexts {data : List (List (List UInt8))} {rows : List (List String)}
    (h : List.Forall₂ (List.Forall₂ FieldText) data rows) {c width : Nat} (hc : c < width)
    (hwidth : ∀ fields ∈ data, fields.length = width) :
    List.Forall₂ (fun fields text => ∃ field, fields[c]? = some field ∧ FieldText field text)
      data (columnTexts rows c) := by
  rw [columnTexts, List.forall₂_map_right_iff]
  induction h with
  | nil => exact .nil
  | @cons fields row data rows hhead _ ih =>
      refine .cons ?_ (ih fun fields' hmem => hwidth fields' (List.mem_cons_of_mem fields hmem))
      have hlength := hwidth fields List.mem_cons_self
      have hfield : fields[c]? = some fields[c] := List.getElem?_eq_getElem (hlength ▸ hc)
      rcases exists_getElem?_of_forall₂ hhead hfield with ⟨text, htext, hread⟩
      refine ⟨fields[c], hfield, ?_⟩
      rwa [List.getD_eq_getElem?_getD, htext]

/-- The frame of the columns of a table holds the table. -/
theorem holds_of_columns {bytes : List UInt8} {names : List String} {rows : List (List String)}
    {f : Frame} (hsound : ∀ r ∈ records bytes, Sound (headerFields bytes).length r)
    (hnames : HasNames bytes names) (hrows : HasRows bytes rows)
    (hf : f.columns = tableColumns names rows) : Holds f bytes := by
  have hwidth : ∀ fields ∈ dataFields bytes, fields.length = (headerFields bytes).length := by
    intro fields hmem
    rcases List.mem_map.1 hmem with ⟨r, hr, rfl⟩
    exact (hsound r (List.mem_of_mem_tail hr)).length
  have hcolumn (c : Nat) (field : List UInt8) (hfield : (headerFields bytes)[c]? = some field) :
      ∃ name texts cells, FieldText field name ∧ f.columns[c]? = some ⟨name, cells⟩ ∧
        Narrowest texts cells ∧
        List.Forall₂ (fun fields text => ∃ field, fields[c]? = some field ∧ FieldText field text)
          (dataFields bytes) texts := by
    rcases exists_getElem?_of_forall₂ hnames hfield with ⟨name, hname, htext⟩
    have hc : c < (headerFields bytes).length := List.getElem?_eq_some_iff.1 hfield |>.1
    refine ⟨name, columnTexts rows c, inferCells (columnTexts rows c), htext, ?_,
      narrowest_inferCells _, forall₂_columnTexts hrows hc hwidth⟩
    rw [hf, getElem?_tableColumns rows hname]
  refine ⟨?_, ?_, hcolumn, ?_⟩
  · rw [Frame.columnCount, hf, length_tableColumns, ← hnames.length_eq]
  · cases names with
    | nil =>
        have hheader : headerFields bytes = [] := List.forall₂_nil_right_iff.1 hnames
        rw [dataFields, records_of_headerFields hheader, Frame.rowCount, hf]
        rfl
    | cons name names =>
        rw [Frame.rowCount, hf, hrows.length_eq]
        simp [tableColumns, NamedColumn.length, columnTexts]
  · intro c r fields hc hfields
    rcases hcolumn c _ (List.getElem?_eq_getElem hc) with
      ⟨name, texts, cells, -, hcells, hread, htexts⟩
    rcases exists_getElem?_of_forall₂ htexts hfields with ⟨text, htext, field, hfield, hfieldText⟩
    rcases exists_getElem?_of_forall₂ hread.readFrom htext with ⟨cell, hcell, hvalue⟩
    refine ⟨field, text, _, cell, hfield, hfieldText, hcells, ?_, hvalue⟩
    rw [Cells.cell?_eq_getElem?, hcell]

/-! ## Reading -/

/-- What is read from the bytes of a table. -/
structure ReadsExactly (bytes : List UInt8) (result : Except Error Frame) : Prop where
  /-- A table is accepted exactly if no record is faulty and its names are distinct. -/
  accepted : (∃ f, result = .ok f) ↔
    (∀ r ∈ records bytes, Sound (headerFields bytes).length r) ∧
      ∃ names, HasNames bytes names ∧ names.Nodup
  /-- The frame of an accepted table holds it. -/
  frame : ∀ f, result = .ok f → Holds f bytes
  /-- A table with a faulty record is refused for the first one, whatever its names are. -/
  faulty : (¬ ∀ r ∈ records bytes, Sound (headerFields bytes).length r) →
    ∃ e, FirstFault bytes e ∧ result = .error (.csv e)
  /-- A table is refused for a name exactly if no record is faulty and the name is the
  first that repeats an earlier one. -/
  duplicate : ∀ name, result = .error (.duplicateColumnName name) ↔
    (∀ r ∈ records bytes, Sound (headerFields bytes).length r) ∧
      ∃ names, HasNames bytes names ∧ FirstRepeat names name
  /-- There are no other errors; columns have names and equal numbers of rows. -/
  errors : ∀ e, result = .error e →
    (∃ cause, e = .csv cause) ∨ ∃ name, e = .duplicateColumnName name
  /-- Of every row that is read, before or without a fault, each field is there. -/
  complete : ∀ read unread rows, (records bytes).tail = read ++ unread →
    readRows (headerFields bytes).length 1 read = .ok rows →
    ∀ row ∈ rows, ∀ c < (headerFields bytes).length, ∃ text, row[c]? = some text

theorem readsExactly_ofCsvBytes (bytes : List UInt8) :
    ReadsExactly bytes (Frame.ofCsvBytes bytes) := by
  have hcomplete : ∀ read unread rows, (records bytes).tail = read ++ unread →
      readRows (headerFields bytes).length 1 read = .ok rows →
      ∀ row ∈ rows, ∀ c < (headerFields bytes).length, ∃ text, row[c]? = some text := by
    intro read unread rows _ hread row hrow c hc
    have hlength := length_of_readRows hread row hrow
    exact ⟨_, List.getElem?_eq_getElem (hlength ▸ hc)⟩
  by_cases hsound : ∀ r ∈ records bytes, Sound (headerFields bytes).length r
  · rcases readTable_of_sound hsound with ⟨names, rows, hread, hnames, hrows⟩
    by_cases hdistinct : names.Nodup
    · rcases exists_ofCsvBytes_eq_ok hread hdistinct with ⟨f, hf, hcolumns⟩
      have hno_repeat (name : String) :
          ¬ ∃ names, HasNames bytes names ∧ FirstRepeat names name := by
        rintro ⟨names', hnames', hrepeat⟩
        rw [hasNames_unique hnames' hnames] at hrepeat
        exact not_nodup_of_firstRepeat hrepeat hdistinct
      rw [hf]
      refine ⟨?_, ?_, fun h => absurd hsound h, ?_, by simp, hcomplete⟩
      · exact ⟨fun _ => ⟨hsound, names, hnames, hdistinct⟩, fun _ => ⟨f, rfl⟩⟩
      · intro g hg
        obtain rfl := Except.ok.inj hg
        exact holds_of_columns hsound hnames hrows hcolumns
      · exact fun name => ⟨fun h => absurd h (by simp), fun h => absurd h.2 (hno_repeat name)⟩
    · rcases exists_firstRepeat hdistinct with ⟨first, hfirst⟩
      rw [ofCsvBytes_eq_duplicate hread hfirst]
      refine ⟨?_, by simp, fun h => absurd hsound h, ?_, by simp, hcomplete⟩
      · constructor
        · rintro ⟨f, hf⟩
          exact absurd hf (by simp)
        · rintro ⟨-, names', hnames', hdistinct'⟩
          rw [hasNames_unique hnames' hnames] at hdistinct'
          exact absurd hdistinct' hdistinct
      · intro name
        constructor
        · intro h
          injection h with h
          injection h with h
          exact ⟨hsound, names, hnames, h ▸ hfirst⟩
        · rintro ⟨-, names', hnames', hrepeat⟩
          rw [hasNames_unique hnames' hnames] at hrepeat
          rw [← ofCsvBytes_eq_duplicate hread hfirst, ofCsvBytes_eq_duplicate hread hrepeat]
  · rcases readTable_of_not_sound hsound with ⟨e, hfault, hread⟩
    have hresult : Frame.ofCsvBytes bytes = .error (.csv e) := by
      rw [Frame.ofCsvBytes, hread]
    rw [hresult]
    refine ⟨?_, by simp, fun _ => ⟨e, hfault, rfl⟩, ?_, ?_, hcomplete⟩
    · constructor
      · rintro ⟨f, hf⟩
        exact absurd hf (by simp)
      · exact fun h => absurd h.1 hsound
    · exact fun name => ⟨fun h => absurd h (by simp), fun h => absurd h.1 hsound⟩
    · intro e' he'
      obtain rfl := Except.error.inj he'
      exact .inl ⟨e, rfl⟩

/-- A table is read in the same way from its bytes, from a file that holds them and from a
text of which they are the bytes: exactly if it is rectangular, all its fields are texts
and its names are distinct. -/
theorem readsExactly_ofCsv (bytes : List UInt8) :
    ReadsExactly bytes (Frame.ofCsvBytes bytes) ∧
    (∀ files path mode, FileStore.open? files path = .ok (.file bytes mode) →
      ReadsExactly bytes (Frame.ofCsvFile files path)) ∧
    ∀ text : String, encode text.toList = bytes → ReadsExactly bytes (Frame.ofCsv text) := by
  refine ⟨readsExactly_ofCsvBytes bytes, ?_, ?_⟩
  · intro files path mode hopen
    rw [Frame.ofCsvFile_of_open hopen]
    exact readsExactly_ofCsvBytes bytes
  · rintro text rfl
    exact readsExactly_ofCsvBytes _

/-- A short row is the fault that is reported, although the names are not distinct. -/
theorem ofCsv_raggedRow :
    ∃ e, FirstFault (encode "a,a\n1,2\n3\n".toList) e ∧
      Frame.ofCsv "a,a\n1,2\n3\n" = .error (.csv e) := by
  apply ((readsExactly_ofCsv (encode "a,a\n1,2\n3\n".toList)).2.2 "a,a\n1,2\n3\n" rfl).faulty
  have hwidth : (headerFields (encode "a,a\n1,2\n3\n".toList)).length = 2 := by decide
  rw [hwidth]
  intro hsound
  have hrow : (⟨[[51]], ⟨8, 2⟩⟩ : RawRecord) ∈ records (encode "a,a\n1,2\n3\n".toList) := by decide
  exact absurd (hsound _ hrow).length (by decide)

end Csv

end TableFixture
