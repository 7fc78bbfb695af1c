import TableFixture.Csv.Writer
import TableFixture.Proofs.Csv.Splitting

/-!
# What a writer of records writes

A writer looks at bytes, and the fields it is given are texts.  Every byte that is written apart
from the field, or makes quotes necessary, is a character of its own, and no other character has
such a byte.  So the pieces that a writer makes of the bytes of texts are the pieces of the texts.

Records of equal width are counted without an error.  The pieces of one are written after the
other as if they were given at once, and what is left to report are the refusals of the sink.

Main results:

- Theorem `openField_append_closeField`, `openRecord_append_closeRecord`: the pieces of the bytes
  of texts.
- Theorem `feed_append`: pieces can be fed in parts.
- Theorem `run_writeFields`: what one more record does.
- Theorem `run_writeAll`, `writeInto_eq`: what records of equal width do.
-/

namespace TableFixture.Csv

open Text.Utf8 (encode)

/-! ## Bytes and characters -/

/-- The bytes that make quotes necessary are those of the characters that do. -/
theorem any_isSpecialByte_utf8EncodeChar (c : Char) :
    (String.utf8EncodeChar c).any isSpecialByte = isSpecial c := by
  by_cases hspecial : isSpecial c = true
  · have hcases := hspecial
    simp only [isSpecial, Bool.or_eq_true, beq_iff_eq] at hcases
    rcases hcases with ((rfl | rfl) | rfl) | rfl <;> decide
  · have hplain : ∀ d ∈ [c], isSpecial d = false := by simpa using hspecial
    rw [Bool.eq_false_iff.2 hspecial, List.any_eq_false]
    intro b hb hbyte
    have hb' : isPlain b = true := isPlain_of_mem_encode hplain (by simpa using hb)
    simp only [isSpecialByte, Bool.or_eq_true, beq_iff_eq] at hbyte
    rcases hbyte with ((rfl | rfl) | rfl) | rfl <;> cases hb'

theorem any_isSpecialByte_encode (cs : List Char) :
    (encode cs).any isSpecialByte = cs.any isSpecial := by
  induction cs with
  | nil => rfl
  | cons c cs ih =>
      rw [Text.Utf8.encode_cons, List.any_append, any_isSpecialByte_utf8EncodeChar, ih,
        List.any_cons]

/-- Byte by byte a quote is doubled, and any other character is kept. -/
theorem flatMap_utf8EncodeChar (c : Char) :
    ((String.utf8EncodeChar c).flatMap fun b => if b = quote then [[quote, quote]] else [[b]])
      = if c = '"' then [[quote, quote]] else charPieces c := by
  by_cases hc : c = '"'
  · subst hc
    decide
  · have hbytes : ∀ b ∈ String.utf8EncodeChar c, b ≠ quote := fun b hb =>
      ne_of_mem_utf8EncodeChar (d := '"') (by decide) hc hb
    rw [if_neg hc, charPieces, List.map_eq_flatMap]
    exact List.flatMap_congr fun b hb => if_neg (hbytes b hb)

/-- The pieces of the bytes of a text are the pieces of the text. -/
theorem openField_append_closeField (cs : List Char) :
    openField (encode cs) ++ closeField (encode cs) = fieldPieces cs := by
  unfold openField closeField fieldPieces
  rw [any_isSpecialByte_encode]
  by_cases hspecial : cs.any isSpecial = true
  · rw [if_pos hspecial, if_pos hspecial, if_pos hspecial, List.cons_append, encode,
      List.flatMap_assoc]
    simp only [flatMap_utf8EncodeChar]
  · rw [if_neg hspecial, if_neg hspecial, if_neg hspecial, List.append_nil, encode,
      List.map_flatMap]
    rfl

/-! ## Records -/

/-- Where nothing is written for a record, no quote was opened. -/
theorem closeField_of_openRecord_eq_nil {fields : List (List UInt8)} (h : openRecord fields = []) :
    (fields.getLast?.map closeField).getD [] = [] := by
  cases fields with
  | nil => rfl
  | cons field rest =>
      cases rest with
      | nil =>
          have hany : field.any isSpecialByte = false := by
            by_contra hany
            rw [openRecord, openField, if_pos (by simpa using hany)] at h
            exact absurd h (List.cons_ne_nil _ _)
          simp [closeField, hany]
      | cons next rest =>
          rw [openRecord] at h
          simp at h

/-- The pieces of a record before its end, its last field closed. -/
theorem openRecord_append_getLast (fields : List (List Char)) :
    openRecord (fields.map encode) ++ ((fields.map encode).getLast?.map closeField).getD []
      = [[comma]].intercalate (fields.map fieldPieces) := by
  induction fields with
  | nil => rfl
  | cons field fields ih =>
      cases fields with
      | nil =>
          rw [List.map_singleton, List.map_singleton, List.intercalate_singleton]
          exact openField_append_closeField field
      | cons next fields =>
          have hlast : ((field :: next :: fields).map encode).getLast?
              = ((next :: fields).map encode).getLast? := by simp
          have hopen : openRecord ((field :: next :: fields).map encode)
              = openField (encode field) ++ (closeField (encode field) ++
                  [comma] :: openRecord ((next :: fields).map encode)) := rfl
          have hjoin : [[comma]].intercalate ((field :: next :: fields).map fieldPieces)
              = fieldPieces field ++ [[comma]] ++
                [[comma]].intercalate ((next :: fields).map fieldPieces) :=
            List.intercalate_cons_cons
          rw [hlast, hopen, hjoin, ← ih, ← openField_append_closeField]
          simp only [List.append_assoc, List.cons_append, List.nil_append]

/-- The pieces of a record of the bytes of texts are those of the record of the texts. -/
theorem openRecord_append_closeRecord (fields : List (List Char)) :
    openRecord (fields.map encode) ++ closeRecord (fields.map encode) = recordPieces fields := by
  have hlast := openRecord_append_getLast fields
  unfold closeRecord recordPieces
  dsimp only
  rw [← hlast]
  by_cases hnil : openRecord (fields.map encode) = []
  · rw [closeField_of_openRecord_eq_nil hnil, hnil]
    rfl
  · rw [if_neg (by simpa using hnil), if_neg (by simp [hnil]), List.append_assoc]

/-! ## Feeding in parts -/

section

variable {offer : Sink → List UInt8 → Except SystemError Unit × Sink}

/-- Pieces can be fed in parts. -/
theorem feed_append (buffer : Buffer) (pieces more : List (List UInt8)) (sink : Sink) :
    feed offer buffer (pieces ++ more) sink
      = match feed offer buffer pieces sink with
        | (.ok buffer', sink') => feed offer buffer' more sink'
        | (.error refused, sink') => (.error refused, sink') := by
  induction pieces generalizing buffer sink with
  | nil => rfl
  | cons piece pieces ih =>
      rw [List.cons_append, feed, feed]
      by_cases hfits : buffer.size + piece.length ≤ bufferSize
      · rw [if_pos hfits, if_pos hfits]
        exact ih (buffer.append piece) sink
      · rw [if_neg hfits, if_neg hfits]
        rcases offer sink buffer.bytes with ⟨_ | _, sink'⟩
        · rfl
        · exact ih (.ofBytes piece) sink'

/-! ## Running a writer -/

/-- A writer has counted no record yet, or records of the given width. -/
def Writer.Expects (w : Writer) (n : Nat) : Prop := ∀ expected, w.width = some expected → expected = n

/-- What a writer answers and holds, when it expects records of the given width, is what there is
after pieces have been fed to a buffer. -/
inductive Answers (n : Nat) :
    Except (SystemError × Buffer) Buffer × Sink → Except Error Unit × Writer → Prop where
  | done {w : Writer} : w.Expects n → Answers n (.ok w.buffer, w.sink) (.ok (), w)
  | refused {e : SystemError} {w : Writer} :
      Answers n (.error (e, w.buffer), w.sink) (.error (.csv (.system e)), w)

/-- To look at what a writer holds is to go on with it. -/
theorem run_get_then (next : Writer → Writing Unit) (w : Writer) :
    (get >>= next).run.run w = (next w).run.run w :=
  rfl

/-- What follows a success is done next, and nothing follows an error. -/
theorem run_then (first next : Writing Unit) (w : Writer) :
    (first >>= fun _ => next).run.run w
      = match first.run.run w with
        | (.ok (), w') => next.run.run w'
        | (.error e, w') => (.error e, w') := by
  rw [ExceptT.run_bind, StateT.run_bind]
  rcases first.run.run w with ⟨_ | _, w'⟩ <;> rfl

/-- Pieces are fed one after the other if they are written one after the other. -/
theorem Answers.append {n : Nat} {pieces more : List (List UInt8)} {first next : Writing Unit}
    {w : Writer} (hfirst : Answers n (feed offer w.buffer pieces w.sink) (first.run.run w))
    (hnext : ∀ w' : Writer, w'.Expects n →
      Answers n (feed offer w'.buffer more w'.sink) (next.run.run w')) :
    Answers n (feed offer w.buffer (pieces ++ more) w.sink)
      ((first >>= fun _ => next).run.run w) := by
  rw [run_then, feed_append]
  generalize feed offer w.buffer pieces w.sink = fed at hfirst
  generalize first.run.run w = run at hfirst
  cases hfirst with
  | done hexpects => exact hnext _ hexpects
  | refused => exact .refused

/-- Pieces that are written are fed to the buffer, and the count stays. -/
theorem run_push {n : Nat} (pieces : List (List UInt8)) {w : Writer} (h : w.Expects n) :
    Answers n (feed offer w.buffer pieces w.sink) ((push offer pieces).run.run w) := by
  rw [push, run_get_then]
  rcases feed offer w.buffer pieces w.sink with ⟨⟨e, buffer⟩ | buffer, sink⟩
  · exact Answers.refused (w := { w with buffer, sink })
  · exact Answers.done (w := { w with buffer, sink }) h

/-- A record of the expected width is counted. -/
theorem run_count_of_expects {n : Nat} {w : Writer} (h : w.Expects n) :
    (count n).run.run w = (.ok (), { w with width := some n }) := by
  rw [count, run_get_then]
  rcases w with ⟨buffer, _ | expected, sink⟩
  · rfl
  · rcases h expected rfl with rfl
    dsimp only
    rw [if_neg (by simp)]
    rfl

/-- What one more record of the expected width does. -/
theorem run_writeFields {fields : List (List UInt8)} {w : Writer} (h : w.Expects fields.length) :
    Answers fields.length
      (feed offer w.buffer (openRecord fields ++ closeRecord fields) w.sink)
      ((writeFields offer fields).run.run w) := by
  refine (run_push (openRecord fields) h).append fun w' hexpects => ?_
  rw [run_then, run_count_of_expects hexpects]
  have hcounted : Writer.Expects { w' with width := some fields.length } fields.length :=
    fun expected hexpected => (Option.some.inj hexpected).symm
  exact run_push (closeRecord fields) hcounted

/-- What records of the expected width do, one after the other. -/
theorem run_writeAll {n : Nat} {records : List (List (List UInt8))}
    (hrecords : ∀ fields ∈ records, fields.length = n) {w : Writer} (h : w.Expects n) :
    Answers n
      (feed offer w.buffer
        (records.flatMap fun fields => openRecord fields ++ closeRecord fields) w.sink)
      ((writeAll offer records).run.run w) := by
  induction records generalizing w with
  | nil => exact .done h
  | cons fields records ih =>
      rcases hrecords fields List.mem_cons_self with rfl
      have hrest := fun fs hfs => hrecords fs (List.mem_cons_of_mem fields hfs)
      exact (run_writeFields h).append fun w' hexpects => ih hrest hexpects

/-- Records of equal width are written as if all their pieces were fed at once. -/
theorem writeInto_eq {n : Nat} {records : List (List (List UInt8))}
    (hrecords : ∀ fields ∈ records, fields.length = n) (sink : Sink) :
    writeInto offer records sink
      = match feed offer (.ofBytes [])
          (records.flatMap fun fields => openRecord fields ++ closeRecord fields) sink with
        | (.error (e, buffer), sink') => (.error (.csv (.system e)), (offer sink' buffer.bytes).2)
        | (.ok buffer, sink') =>
          match finish offer buffer sink' with
          | (.ok (), sink'') => (.ok (), sink'')
          | (.error e, sink'') => (.error (.system e), sink'') := by
  have hempty : Writer.Expects ⟨.ofBytes [], none, sink⟩ n := fun _ hexpected => by cases hexpected
  have hrun : Answers n (feed offer _ _ _) _ := run_writeAll hrecords hempty
  unfold writeInto
  generalize (writeAll offer records).run.run ⟨.ofBytes [], none, sink⟩ = run at hrun
  dsimp only at hrun
  generalize feed offer _ _ _ = fed at hrun
  cases hrun with
  | done => rfl
  | refused => rfl

end

end TableFixture.Csv
