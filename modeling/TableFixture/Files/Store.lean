import TableFixture.Error
import TableFixture.Files.Path

/-!
# File stores

A file store holds directories and files.  An entry stands at a location, the names
on the way down from the root directory, which always exists.  Paths are resolved part
by part: every part on the way must be a directory, one dot stays and two dots go up.

Creating is exclusive: where something exists already, nothing is created.  The
permission bits of a new file are those asked for without those of the mask of the
store; they can be set afterwards to what they should be.

Main results:

- Theorem `node?_put_self`, `node?_put_of_ne`: what is put at a location is found there,
  and nothing else changes.
- Theorem `node?_eraseTree`: erasing a tree erases what lies at or below its location.
- Theorem `node?_of_locateNew`: the location for something new is not taken.
-/

namespace TableFixture

/-- The names on the way from the root directory down to an entry. -/
abbrev Location := List String

/-- An entry of a file store. -/
inductive Node where
  | directory
  | file (bytes : List UInt8) (mode : Nat)
deriving DecidableEq, Repr

/-- Directories and files at their locations, and the mask of permission bits that new
files do not get. -/
structure FileStore where
  entries : List (Location × Node)
  mask : Nat
deriving DecidableEq, Repr

namespace FileStore

/-! ## Entries -/

/-- What stands at a location; the root directory always exists. -/
def node? (s : FileStore) (l : Location) : Option Node :=
  if l = [] then some .directory else s.entries.lookup l

/-- Whether a directory stands at a location. -/
def hasDirectory (s : FileStore) (l : Location) : Bool := s.node? l == some .directory

/-- Puts a node at a location. -/
def put (s : FileStore) (l : Location) (n : Node) : FileStore :=
  { s with entries := (l, n) :: s.entries.filter (·.1 ≠ l) }

/-- Erases what stands at a location or below it. -/
def eraseTree (s : FileStore) (l : Location) : FileStore :=
  { s with entries := s.entries.filter fun e => !l.isPrefixOf e.1 }

/-- What is put at a location is found there. -/
@[simp] theorem node?_put_self (s : FileStore) {l : Location} (n : Node) (h : l ≠ []) :
    (s.put l n).node? l = some n := by
  simp [node?, put, h]

/-- Putting a node changes nothing at other locations. -/
theorem node?_put_of_ne (s : FileStore) {l l' : Location} (n : Node) (h : l' ≠ l) :
    (s.put l n).node? l' = s.node? l' := by
  unfold node? put
  split
  · rfl
  · rw [List.lookup_cons, beq_false_of_ne h]
    simp only
    induction s.entries with
    | nil => rfl
    | cons e es ih =>
      obtain ⟨k, n'⟩ := e
      by_cases hk : k = l
      · subst hk
        simp [List.lookup_cons, beq_false_of_ne h] at ih ⊢
        exact ih
      · simp [List.lookup_cons, hk] at ih ⊢
        rw [ih]

/-- Erasing a tree erases what lies at or below its location, and nothing else. -/
theorem node?_eraseTree (s : FileStore) {l l' : Location} (h : l' ≠ []) :
    (s.eraseTree l).node? l' = if l.isPrefixOf l' then none else s.node? l' := by
  unfold node? eraseTree
  rw [if_neg h, if_neg h]
  induction s.entries with
  | nil => simp
  | cons e es ih =>
    obtain ⟨k, n⟩ := e
    by_cases hk : l.isPrefixOf k = true
    · rw [List.filter_cons_of_neg (by simp [hk]), ih]
      split
      · rfl
      next hl =>
        have hne : l' ≠ k := fun hlk => hl (hlk ▸ hk)
        rw [List.lookup_cons, beq_false_of_ne hne]
    · rw [List.filter_cons_of_pos (by simp [hk]), List.lookup_cons, List.lookup_cons, ih]
      by_cases hlk : l' = k
      · subst hlk
        simp [hk]
      · rw [beq_false_of_ne hlk]

/-! ## Resolving paths -/

/-- The greatest number of bytes in a name. -/
def nameLimit : Nat := 255

/-- The greatest number of bytes in a path. -/
def pathLimit : Nat := 4095

/-- Why a text is no path at all, if it is none. -/
def pathFault? (path : String) : Option SystemError.Kind :=
  if '\x00' ∈ path.toList then some .invalidInput
  else if path.isEmpty then some .notFound
  else if pathLimit < path.utf8ByteSize then some .invalidFilename
  else none

/-- The location reached from a location by the parts of a path. -/
def walk (s : FileStore) : Location → List String → Except SystemError.Kind Location
  | here, [] => .ok here
  | here, part :: rest =>
    match s.node? here with
    | none => .error .notFound
    | some (.file _ _) => .error .notADirectory
    | some .directory =>
      if part = "." then walk s here rest
      else if part = ".." then walk s here.dropLast rest
      else if nameLimit < part.utf8ByteSize then .error .invalidFilename
      else if (s.node? (here ++ [part])).isNone then .error .notFound
      else walk s (here ++ [part]) rest

/-- The location of what exists at a path; a relative path starts at the root. -/
def locate (s : FileStore) (path : String) : Except SystemError.Kind Location :=
  match pathFault? path with
  | some kind => .error kind
  | none =>
    match s.walk [] (Path.parts path) with
    | .error kind => .error kind
    | .ok l =>
      if Path.endsInSlash path && !s.hasDirectory l then .error .notADirectory else .ok l

/-- The location for a new entry of the given name in a directory: the name can be one,
and nothing stands there. -/
def locateIn (s : FileStore) (directory : Location) (name : String) :
    Except SystemError.Kind Location :=
  match s.node? directory with
  | none => .error .notFound
  | some (.file _ _) => .error .notADirectory
  | some .directory =>
    if name = "." || name = ".." then .error .alreadyExists
    else if nameLimit < name.utf8ByteSize then .error .invalidFilename
    else if (s.node? (directory ++ [name])).isSome then .error .alreadyExists
    else .ok (directory ++ [name])

/-- The location at a path at which something new can be created. -/
def locateNew (s : FileStore) (path : String) : Except SystemError.Kind Location :=
  match pathFault? path with
  | some kind => .error kind
  | none =>
    match (Path.parts path).getLast? with
    | none => .error .alreadyExists
    | some name =>
      match s.walk [] (Path.parts path).dropLast with
      | .error kind => .error kind
      | .ok directory => s.locateIn directory name

/-- A location for a new entry is not taken, and lies in an existing directory. -/
theorem locateIn_eq_ok {s : FileStore} {directory l : Location} {name : String}
    (h : s.locateIn directory name = .ok l) :
    l = directory ++ [name] ∧ s.node? l = none ∧ s.node? directory = some .directory := by
  unfold locateIn at h
  split at h
  · exact absurd h (by simp)
  · exact absurd h (by simp)
  next hdirectory =>
    split at h
    · exact absurd h (by simp)
    · split at h
      · exact absurd h (by simp)
      · split at h
        · exact absurd h (by simp)
        next hfree =>
          obtain rfl := Except.ok.inj h
          exact ⟨rfl, by simpa using hfree, hdirectory⟩

/-- The location for something new is not taken. -/
theorem node?_of_locateNew {s : FileStore} {path : String} {l : Location}
    (h : s.locateNew path = .ok l) : s.node? l = none := by
  unfold locateNew at h
  split at h
  · exact absurd h (by simp)
  · split at h
    · exact absurd h (by simp)
    · split at h
      · exact absurd h (by simp)
      · exact (locateIn_eq_ok h).2.1

/-! ## Operations -/

/-- Creates a directory. -/
def makeDirectory (s : FileStore) (path : String) : Except SystemError FileStore :=
  match s.locateNew path with
  | .error kind => .error (.ofKind kind)
  | .ok l => .ok (s.put l .directory)

/-- Creates an empty file with the given permission bits, less those of the mask. -/
def createNew (s : FileStore) (path : String) (mode : Nat) :
    Except SystemError (Location × FileStore) :=
  match s.locateNew path with
  | .error kind => .error (.ofKind kind)
  | .ok l =>
    if Path.endsInSlash path then .error (.ofKind .isADirectory)
    else .ok (l, s.put l (.file [] (mode - (mode &&& s.mask))))

/-- Sets the permission bits of a file. -/
def setMode (s : FileStore) (l : Location) (mode : Nat) : FileStore :=
  match s.node? l with
  | some (.file bytes _) => s.put l (.file bytes mode)
  | _ => s

/-- Writes bytes at the end of a file. -/
def append (s : FileStore) (l : Location) (bytes : List UInt8) : FileStore :=
  match s.node? l with
  | some (.file old mode) => s.put l (.file (old ++ bytes) mode)
  | _ => s

/-- What can be opened for reading at a path. -/
def open? (s : FileStore) (path : String) : Except SystemError Node :=
  match s.locate path with
  | .error kind => .error (.ofKind kind)
  | .ok l =>
    match s.node? l with
    | none => .error (.ofKind .notFound)
    | some node => .ok node

/-- Writes a whole file, in place of the bytes it held if it exists. -/
def overwrite (s : FileStore) (path : String) (bytes : List UInt8) : Except SystemError FileStore :=
  match s.locate path with
  | .ok l =>
    match s.node? l with
    | some (.file _ mode) => .ok (s.put l (.file bytes mode))
    | _ => .error (.ofKind .isADirectory)
  | .error .notFound =>
    match s.createNew path 0o666 with
    | .error e => .error e
    | .ok (l, s') => .ok (s'.append l bytes)
  | .error kind => .error (.ofKind kind)

/-- Removes a directory with all that lies below it. -/
def removeTree (s : FileStore) (path : String) : Except SystemError FileStore :=
  match s.locate path with
  | .error kind => .error (.ofKind kind)
  | .ok l =>
    if s.hasDirectory l then .ok (s.eraseTree l) else .error (.ofKind .notADirectory)

/-- Whether there is a directory at a path. -/
def isDirectory (s : FileStore) (path : String) : Bool :=
  match s.locate path with
  | .ok l => s.hasDirectory l
  | .error _ => false

/-- The entries strictly below a path, each with the names that lead to it from there. -/
def below (s : FileStore) (path : String) : List (Location × Node) :=
  match s.locate path with
  | .error _ => []
  | .ok l =>
    s.entries.filterMap fun (l', n) =>
      if l.isPrefixOf l' && l ≠ l' then some (l'.drop l.length, n) else none

end FileStore

end TableFixture
