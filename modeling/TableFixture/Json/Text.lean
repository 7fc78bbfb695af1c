import TableFixture.Column

/-!
# JSON texts of flat records

The JSON values of a table are a list of objects whose members are scalars.  The text
is compact.  Strings escape the quote, the backslash and the control characters below
the space, nothing else; numbers that are not finite have no form and become `null`.

Main results:

- Theorem `writeEscaped_of_plain`: a character that needs no escape stands for itself.
- Theorem `ofCell_float64_of_not_isFinite`: a float that is not finite is `null`.
-/

namespace TableFixture.Json

/-! ## Values -/

/-- A value without parts. -/
inductive Scalar where
  | null
  | integer (value : Int64)
  | number (value : Binary64)
  | text (value : String)
deriving DecidableEq, Repr

/-- The value of a cell; a float that is not finite has none and is `null`. -/
def Scalar.ofCell : Cell → Scalar
  | .int64 n => .integer n
  | .float64 x => if x.isFinite then .number x else .null
  | .string s => .text s

/-- The members of an object, in the order in which they are written. -/
abbrev Members := List (String × Scalar)

/-- A float that is not finite is `null`. -/
theorem ofCell_float64_of_not_isFinite {x : Binary64} (h : x.isFinite = false) :
    Scalar.ofCell (.float64 x) = .null := by
  simp [Scalar.ofCell, h]

/-! ## Strings -/

/-- The escapes of control characters that are a letter after a backslash. -/
def shortEscape? (c : Char) : Option Char :=
  if c = '"' then some '"'
  else if c = '\\' then some '\\'
  else if c = '\x08' then some 'b'
  else if c = '\x0c' then some 'f'
  else if c = '\n' then some 'n'
  else if c = '\r' then some 'r'
  else if c = '\t' then some 't'
  else none

/-- A character inside a string. -/
def writeEscaped (c : Char) : List Char :=
  match shortEscape? c with
  | some letter => ['\\', letter]
  | none =>
    if c.toNat < 32 then
      ['\\', 'u', '0', '0', Nat.digitChar (c.toNat / 16), Nat.digitChar (c.toNat % 16)]
    else [c]

/-- A string between quotes. -/
def writeString (cs : List Char) : List Char := '"' :: (cs.flatMap writeEscaped ++ ['"'])

/-- A character that needs no escape stands for itself. -/
theorem writeEscaped_of_plain {c : Char} (hspace : 32 ≤ c.toNat) (hquote : c ≠ '"')
    (hbackslash : c ≠ '\\') : writeEscaped c = [c] := by
  have hcontrol {d : Char} (h : d.toNat < 32) : c ≠ d := by
    rintro rfl
    omega
  simp [writeEscaped, shortEscape?, hquote, hbackslash,
    hcontrol (d := '\x08') (by decide), hcontrol (d := '\x0c') (by decide),
    hcontrol (d := '\n') (by decide), hcontrol (d := '\r') (by decide),
    hcontrol (d := '\t') (by decide), hspace]

/-! ## Texts -/

/-- The text of a scalar. -/
def Scalar.write : Scalar → List Char
  | .null => ['n', 'u', 'l', 'l']
  | .integer n => Decimal.writeInteger n.toInt
  | .number x => Decimal.Layout.json.write x
  | .text s => writeString s.toList

/-- The text of an object. -/
def writeObject (members : Members) : List Char :=
  '{' :: ([','].intercalate (members.map fun m => writeString m.1.toList ++ ':' :: m.2.write)
    ++ ['}'])

/-- The text of a list of objects. -/
def writeArray (objects : List Members) : List Char :=
  '[' :: ([','].intercalate (objects.map writeObject) ++ [']'])

end TableFixture.Json
