import TableFixture.Csv.Reader
import TableFixture.Files.Store

/-!
# Reading tables from files

A table is read from a path by opening the file there.  A path at which nothing can be
opened is an error of the system; a directory can be opened, but refuses to be read,
which is an error of the table.

Main results:

- Theorem `ofCsvFile_of_open`: a file is read like the bytes it holds.
-/

namespace TableFixture.Frame

/-- The frame of the table in the file at a path. -/
def ofCsvFile (files : FileStore) (path : String) : Except Error Frame :=
  match files.open? path with
  | .error e => .error (.system e)
  | .ok .directory => .error (.csv (.system (.ofKind .isADirectory)))
  | .ok (.file bytes _) => ofCsvBytes bytes

/-- A file is read like the bytes it holds. -/
theorem ofCsvFile_of_open {files : FileStore} {path : String} {bytes : List UInt8} {mode : Nat}
    (h : files.open? path = .ok (.file bytes mode)) : ofCsvFile files path = ofCsvBytes bytes := by
  simp [ofCsvFile, h]

end TableFixture.Frame
