/-!
# Paths

A path is a text whose parts are separated by slashes.  Joining a relative path to a
base puts it below the base; an absolute path stands alone.

Main results:

- Theorem `join_of_isAbsolute`: an absolute path replaces the base.
- Theorem `toList_join_of_relative`: a relative path is appended after a slash.
-/

namespace TableFixture.Path

/-- Whether a path starts at the root. -/
def isAbsolute (path : String) : Bool := path.toList.head? == some '/'

/-- Whether a path ends in a slash, and so asks for a directory. -/
def endsInSlash (path : String) : Bool := path.toList.getLast? == some '/'

/-- The path of `name` below `base`, or `name` itself if it is absolute. -/
def join (base name : String) : String :=
  if isAbsolute name then name
  else if base.isEmpty || endsInSlash base then base ++ name
  else base ++ "/" ++ name

/-- An absolute path replaces the base. -/
theorem join_of_isAbsolute {base name : String} (h : isAbsolute name = true) :
    join base name = name := by
  simp [join, h]

/-- A relative path is appended after a slash. -/
theorem toList_join_of_relative {base name : String} (hname : isAbsolute name = false)
    (hempty : base.isEmpty = false) (hslash : endsInSlash base = false) :
    (join base name).toList = base.toList ++ '/' :: name.toList := by
  simp [join, hname, hempty, hslash]

/-- The parts of a text between slashes, the part so far given in reverse. -/
def partsFrom (part : List Char) : List Char → List (List Char)
  | [] => [part.reverse]
  | c :: cs => if c = '/' then part.reverse :: partsFrom [] cs else partsFrom (c :: part) cs

/-- The parts of a path that are not empty. -/
def parts (path : String) : List String :=
  ((partsFrom [] path.toList).filter (· ≠ [])).map String.ofList

/-! ## Paths inside messages -/

/-- A character inside a quoted path: quotes, backslashes and control characters are
escaped. -/
def quoteChar (c : Char) : List Char :=
  if c = '"' || c = '\x27' then ['\\', c]
  else if c = '\\' then ['\\', '\\']
  else if c = '\x00' then ['\\', '0']
  else if c = '\t' then ['\\', 't']
  else if c = '\n' then ['\\', 'n']
  else if c = '\r' then ['\\', 'r']
  else if c.toNat < 32 || (127 ≤ c.toNat && c.toNat < 160) then
    ['\\', 'u', '\x7b'] ++ Nat.toDigits 16 c.toNat ++ ['\x7d']
  else [c]

/-- A path between quotes. -/
def quoted (path : String) : String :=
  String.ofList ('"' :: (path.toList.flatMap quoteChar ++ ['"']))

end TableFixture.Path
