import TableFixture.Test.World

/-!
# Contexts of tests

Helpers for tests never hand failures back.  They report them to the context they run
in, which also gives them directories.  A context has a state of its own beside the
world; every call may change both.

Main results:

- Theorem `fail_record`, `fail_abort`: a failure is reported by its outcome.
-/

namespace TableFixture

/-- The world of a test and the state of its context. -/
structure Scene (κ : Type) where
  world : World
  state : κ

/-- What helpers need from the test they run in. -/
structure TestContext (κ : Type) where
  /-- Allocates a fresh directory that lives until the test ends. -/
  tempDir : Scene κ → Except Error String × Scene κ
  /-- Reports a failure after which the test goes on. -/
  record : Failure → Scene κ → Scene κ
  /-- Reports a failure that stops the test, with the text it stops with. -/
  abort : Failure → Scene κ → String × Scene κ

namespace TestContext

variable {κ : Type}

/-- Reports a failure with the given outcome; the text is that with which the test stops. -/
def fail (ctx : TestContext κ) (outcome : Outcome) (f : Failure) (s : Scene κ) :
    Except String Unit × Scene κ :=
  match outcome with
  | .record => (.ok (), ctx.record f s)
  | .abort => (.error (ctx.abort f s).1, (ctx.abort f s).2)

/-- A recorded failure lets the test go on. -/
@[simp] theorem fail_record (ctx : TestContext κ) (f : Failure) (s : Scene κ) :
    ctx.fail .record f s = (.ok (), ctx.record f s) := rfl

/-- A failure that aborts stops the test. -/
@[simp] theorem fail_abort (ctx : TestContext κ) (f : Failure) (s : Scene κ) :
    ctx.fail .abort f s = (.error (ctx.abort f s).1, (ctx.abort f s).2) := rfl

end TestContext

end TableFixture
