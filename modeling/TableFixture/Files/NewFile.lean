import TableFixture.Files.Store

/-!
# New files

A new file is written by calls of the system, one after the other: it is created, its
permission bits are set to what they should be, it gets its bytes, and these are brought to
the disk.  The system may refuse any of them.  The calls after a refused one are not made,
and what those before it did stays: a file without bytes, or one with the first bytes only.

Main definitions:

- `Refusals`: which of the calls for a new file are refused.
- `FileStore.writeNew`: writes a new file, as far as the system lets it.

Main results:

- Theorem `writeNew_of_createNew_error`: where no file can be created nothing changes.
-/

namespace TableFixture

/-- Which of the calls for a new file the system refuses, and why. -/
structure Refusals where
  /-- The file is not created. -/
  create : Option SystemError := none
  /-- Its permission bits are not set. -/
  setMode : Option SystemError := none
  /-- After so many bytes no more are written. -/
  write : Option (Nat × SystemError) := none
  /-- What was written is not brought to the disk. -/
  sync : Option SystemError := none
deriving DecidableEq, Repr

/-- The bytes that are written before writing is refused, and the refusal.  One that would
come after the last byte is never met. -/
def Refusals.cut? (r : Refusals) (bytes : List UInt8) : Option (List UInt8 × SystemError) :=
  match r.write with
  | none => none
  | some (size, e) => if size < bytes.length then some (bytes.take size, e) else none

namespace FileStore

/-- Creates an empty file and sets its permission bits, of which the mask may have taken
some. -/
def openNew (s : FileStore) (r : Refusals) (path : String) (mode : Nat) :
    Except SystemError Location × FileStore :=
  match s.createNew path mode with
  | .error e => (.error e, s)
  | .ok (l, s') =>
    match r.create with
    | some e => (.error e, s)
    | none =>
      match r.setMode with
      | some e => (.error e, s')
      | none => (.ok l, s'.setMode l mode)

/-- Writes bytes at the end of a file and brings them to the disk. -/
def appendAll (s : FileStore) (r : Refusals) (l : Location) (bytes : List UInt8) :
    Except SystemError Unit × FileStore :=
  match r.cut? bytes with
  | some (written, e) => (.error e, s.append l written)
  | none =>
    match r.sync with
    | some e => (.error e, s.append l bytes)
    | none => (.ok (), s.append l bytes)

/-- Writes a new file with the given permission bits and bytes. -/
def writeNew (s : FileStore) (r : Refusals) (path : String) (mode : Nat) (bytes : List UInt8) :
    Except SystemError Unit × FileStore :=
  match s.openNew r path mode with
  | (.error e, s') => (.error e, s')
  | (.ok l, s') => s'.appendAll r l bytes

/-- Where no file can be created nothing changes. -/
theorem writeNew_of_createNew_error {s : FileStore} {path : String} {mode : Nat} {e : SystemError}
    (h : s.createNew path mode = .error e) (r : Refusals) (bytes : List UInt8) :
    s.writeNew r path mode bytes = (.error e, s) := by
  simp [writeNew, openNew, h]

end FileStore

end TableFixture
