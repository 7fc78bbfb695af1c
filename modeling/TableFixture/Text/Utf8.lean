/-!
# UTF-8

A text is encoded character by character.  Decoding reads characters from the
front for as long as the bytes there are the encoding of one, and hands back what
it could not read, so the length of the valid beginning is known.

The character that the first bytes could encode is computed from their payload
bits; whether they do encode it is settled by encoding it again.  Overlong forms,
surrogates and truncated sequences all fail that comparison.

Main results:

- Theorem `encode_append`: encoding respects concatenation.
- Theorem `encode_decodeFrom`: what was read, encoded again, and what was not read are
  the bytes that were given.
- Theorem `encode_of_decode`: bytes that decode are the encoding of what was read.
-/

namespace TableFixture.Text.Utf8

/-! ## Encoding -/

/-- The bytes of a text. -/
def encode (cs : List Char) : List UInt8 := cs.flatMap String.utf8EncodeChar

@[simp] theorem encode_nil : encode [] = [] := rfl

@[simp] theorem encode_cons (c : Char) (cs : List Char) :
    encode (c :: cs) = String.utf8EncodeChar c ++ encode cs := rfl

/-- Encoding respects concatenation. -/
@[simp] theorem encode_append (cs ds : List Char) : encode (cs ++ ds) = encode cs ++ encode ds := by
  simp [encode]

/-- Every character takes at least one byte. -/
theorem length_utf8EncodeChar_pos (c : Char) : 0 < (String.utf8EncodeChar c).length := by
  unfold String.utf8EncodeChar
  dsimp only
  split
  · simp
  · split
    · simp
    · split <;> simp

/-! ## Decoding -/

/-- A beginning of a list is followed by a rest. -/
theorem exists_append_of_isPrefixOf {xs ys : List UInt8} (h : xs.isPrefixOf ys = true) :
    ∃ rest, xs ++ rest = ys :=
  List.isPrefixOf_iff_prefix.1 h

/-- The payload of the byte at the given place, six bits; zero where there is none. -/
def payload (bytes : List UInt8) (place : Nat) : Nat := (bytes[place]?.getD 0).toNat % 64

/-- The character that the first bytes could encode, by the length their first byte announces. -/
def leadingChar (bytes : List UInt8) : Char :=
  let lead := (bytes[0]?.getD 0).toNat
  Char.ofNat <|
    if lead < 128 then lead
    else if lead < 224 then lead % 32 * 64 + payload bytes 1
    else if lead < 240 then lead % 16 * 4096 + payload bytes 1 * 64 + payload bytes 2
    else lead % 8 * 262144 + payload bytes 1 * 4096 + payload bytes 2 * 64 + payload bytes 3

/-- Reads characters after those already read (kept in reverse), as long as the bytes
encode one; the second part is what could not be read. -/
def decodeFrom (read : List Char) (bytes : List UInt8) : List Char × List UInt8 :=
  if _h : (String.utf8EncodeChar (leadingChar bytes)).isPrefixOf bytes = true then
    decodeFrom (leadingChar bytes :: read)
      (bytes.drop (String.utf8EncodeChar (leadingChar bytes)).length)
  else (read.reverse, bytes)
termination_by bytes.length
decreasing_by
  obtain ⟨rest, hrest⟩ := exists_append_of_isPrefixOf _h
  have hlen := congrArg List.length hrest
  have hpos := length_utf8EncodeChar_pos (leadingChar bytes)
  rw [List.length_append] at hlen
  rw [List.length_drop]
  omega

/-- The text that the bytes encode, or the number of bytes before the first that
belongs to no character. -/
def decode (bytes : List UInt8) : Except Nat (List Char) :=
  match decodeFrom [] bytes with
  | (cs, []) => .ok cs
  | (_, rest) => .error (bytes.length - rest.length)

/-- What was read, encoded again, and what was not read are the bytes that were given. -/
theorem encode_decodeFrom (read : List Char) (bytes : List UInt8) :
    encode (decodeFrom read bytes).1 ++ (decodeFrom read bytes).2 = encode read.reverse ++ bytes := by
  fun_induction decodeFrom read bytes with
  | case1 read bytes h ih =>
    obtain ⟨rest, hrest⟩ := exists_append_of_isPrefixOf h
    rw [ih]
    generalize leadingChar bytes = c at hrest ⊢
    subst hrest
    simp
  | case2 read bytes h => rfl

/-- Bytes that decode are the encoding of what was read. -/
theorem encode_of_decode {bytes : List UInt8} {cs : List Char} (h : decode bytes = .ok cs) :
    encode cs = bytes := by
  have hall := encode_decodeFrom [] bytes
  unfold decode at h
  split at h
  next cs' heq =>
    obtain rfl := Except.ok.inj h
    simpa [heq] using hall
  next => exact absurd h (by simp)

end TableFixture.Text.Utf8
