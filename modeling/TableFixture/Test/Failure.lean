/-!
# Failures of tests

A failure is a message and the place that reports it.  It is reported with one of two
outcomes: the test goes on and fails at its end, or it stops at once.

Main definitions:

- `Failure`, `Failure.text`: what is reported and how it reads.
- `Outcome`: what a failure means for the test.
-/

namespace TableFixture

/-- What a failure means for the test that reports it. -/
inductive Outcome where
  /-- The test is marked as failed and goes on. -/
  | record
  /-- The test is marked as failed and stops. -/
  | abort
deriving DecidableEq, Repr

/-- A message and the place that reports it. -/
structure Failure where
  message : String
  site : String
deriving DecidableEq, Repr

/-- A failure as text. -/
def Failure.text (f : Failure) : String := f.message ++ " at " ++ f.site

end TableFixture
