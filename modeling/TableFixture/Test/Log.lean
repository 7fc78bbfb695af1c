import TableFixture.Error
import TableFixture.Files.Path
import TableFixture.Test.Failure

/-!
# The log of a test

A test logs what happens to its directories and files, and what it reports.

Main definitions:

- `LogEntry`: the events that are logged.
- `LogEntry.level`, `LogEntry.text`: how an event is logged.
-/

namespace TableFixture

/-- The levels of log entries. -/
inductive LogLevel where
  | debug
  | info
  | warn
  | error
deriving DecidableEq, Repr

/-- The events that are logged. -/
inductive LogEntry where
  /-- A test was given a directory. -/
  | allocated (test path : String)
  /-- A fixture file was written. -/
  | wrote (size : Nat) (path : String)
  /-- A test recorded a failure. -/
  | recorded (test : String) (failure : Failure)
  /-- A test was stopped by a failure. -/
  | aborted (test : String) (failure : Failure)
  /-- A directory was left in place at the end of its test. -/
  | kept (path : String)
  /-- A directory could not be removed at the end of its test. -/
  | notRemoved (path : String) (cause : SystemError)
deriving DecidableEq, Repr

/-- The level at which an event is logged. -/
def LogEntry.level : LogEntry → LogLevel
  | .allocated _ _ => .debug
  | .wrote _ _ => .debug
  | .recorded _ _ => .warn
  | .aborted _ _ => .error
  | .kept _ => .info
  | .notRemoved _ _ => .warn

/-- The beginning of the entries that name their test. -/
def testLabel (test : String) : String := "test `" ++ test ++ "`"

/-- The text of an entry. -/
def LogEntry.text : LogEntry → String
  | .allocated test path => testLabel test ++ ": allocated " ++ path
  | .wrote size path => "wrote " ++ toString size ++ " bytes to " ++ path
  | .recorded test failure => testLabel test ++ ": " ++ failure.text
  | .aborted test failure => testLabel test ++ " aborted: " ++ failure.text
  | .kept path => "keeping fixture directory " ++ path
  | .notRemoved path cause =>
    "failed to remove " ++ path ++ ": " ++ cause.text ++ " at path " ++ Path.quoted path

end TableFixture
