import TableFixture.Files.NewFile
import TableFixture.Test.Log

/-!
# The world of a test

A test runs among files, draws random name endings, and writes a log.  A fresh
directory gets a name that ends in the next endings drawn; a name that is taken already
is passed over, and any other refusal ends the attempt.  A new file is written as far as
the system lets it, which may refuse other calls for each of them.

Main results:

- Theorem `makeFresh_eq_ok`: a fresh directory stands where nothing stood before.
-/

namespace TableFixture

/-- What a test runs in. -/
structure World where
  /-- The files. -/
  files : FileStore
  /-- The random name endings, in the order in which they are drawn. -/
  endings : Nat → String
  /-- How many endings have been drawn. -/
  drawn : Nat
  /-- The directory of the system for temporary files. -/
  temporary : String
  /-- What has been logged, the oldest entry first. -/
  log : List LogEntry
  /-- What the system refuses of the calls for new files, one file after the other. -/
  refusals : Nat → Refusals := fun _ => {}
  /-- How many new files have been asked for. -/
  asked : Nat := 0

namespace World

/-- Logs an event. -/
def note (w : World) (e : LogEntry) : World := { w with log := w.log ++ [e] }

@[simp] theorem files_note (w : World) (e : LogEntry) : (w.note e).files = w.files := rfl

@[simp] theorem log_note (w : World) (e : LogEntry) : (w.note e).log = w.log ++ [e] := rfl

/-- How many names are tried for a fresh directory. -/
@[irreducible] def attempts : Nat := 65536

/-- Tries names for a fresh directory below a base, at most the given number of them. -/
def tryFresh (files : FileStore) (endings : Nat → String) (base leading : String) :
    Nat → Nat → Except SystemError (String × FileStore) × Nat
  | 0, drawn => (.error (.ofKind .alreadyExists), drawn)
  | tries + 1, drawn =>
    let path := Path.join base (leading ++ endings drawn)
    match files.makeDirectory path with
    | .ok files' => (.ok (path, files'), drawn + 1)
    | .error e =>
      if e.kind = .alreadyExists then tryFresh files endings base leading tries (drawn + 1)
      else (.error e, drawn + 1)

/-- Makes a fresh directory below a base, its name starting as given. -/
def makeFresh (w : World) (base leading : String) : Except SystemError String × World :=
  match tryFresh w.files w.endings base leading attempts w.drawn with
  | (.ok (path, files), drawn) => (.ok path, { w with files, drawn })
  | (.error e, drawn) => (.error e, { w with drawn })

/-- What the system refuses of the calls for the next new file. -/
def nextRefusals (w : World) : Refusals := w.refusals w.asked

/-- The world after a new file was asked for, with the files as they are then. -/
def afterAsking (w : World) (files : FileStore) : World := { w with files, asked := w.asked + 1 }

@[simp] theorem files_afterAsking (w : World) (files : FileStore) :
    (w.afterAsking files).files = files := rfl

@[simp] theorem log_afterAsking (w : World) (files : FileStore) :
    (w.afterAsking files).log = w.log := rfl

/-- Writes a new file with the given permission bits and bytes. -/
def writeNew (w : World) (path : String) (mode : Nat) (bytes : List UInt8) :
    Except SystemError Unit × World :=
  let (result, files) := w.files.writeNew w.nextRefusals path mode bytes
  (result, w.afterAsking files)

/-- A name that is tried with success is made of a drawn ending and is a new directory. -/
theorem tryFresh_eq_ok {files files' : FileStore} {endings : Nat → String}
    {base leading path : String} {tries drawn drawn' : Nat}
    (h : tryFresh files endings base leading tries drawn = (.ok (path, files'), drawn')) :
    ∃ i, path = Path.join base (leading ++ endings i) ∧ files.makeDirectory path = .ok files' := by
  induction tries generalizing drawn with
  | zero => cases h
  | succ tries ih =>
    unfold tryFresh at h
    dsimp only at h
    split at h
    next heq =>
      simp only [Prod.mk.injEq, Except.ok.injEq] at h
      obtain ⟨⟨rfl, rfl⟩, rfl⟩ := h
      exact ⟨drawn, rfl, heq⟩
    next =>
      split at h
      · exact ih h
      · simp at h

/-- A fresh directory stands where nothing stood before. -/
theorem makeFresh_eq_ok {w w' : World} {base leading path : String}
    (h : w.makeFresh base leading = (.ok path, w')) :
    ∃ i, path = Path.join base (leading ++ w.endings i)
      ∧ w.files.makeDirectory path = .ok w'.files := by
  unfold makeFresh at h
  split at h
  next heq =>
    simp only [Prod.mk.injEq, Except.ok.injEq] at h
    obtain ⟨rfl, rfl⟩ := h
    exact tryFresh_eq_ok heq
  next => simp at h

end World

end TableFixture
