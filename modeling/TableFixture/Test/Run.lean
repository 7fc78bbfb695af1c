import TableFixture.Test.Action
import TableFixture.Test.Case

/-!
# Runs of tests

A run performs the steps of a test one after the other.  It ends when the steps are
used up, at a step that finishes the test, or at a step that stops it; then the test
case is closed.  The run keeps, for every step that answered, the answer and the scene
after it.

Main results:

- Theorem `runSteps_append_of_answered`: a run that was not stopped can be continued.
- Theorem `panic_execute`: a test stops with the text of the step that stopped it, else
  with the summary of the failures that were left.
-/

namespace TableFixture

/-- The steps of a test. -/
inductive Step where
  /-- An action in the context of the test case. -/
  | act (action : Action)
  /-- Looks at the failures. -/
  | failures
  /-- Asks whether there are failures. -/
  | hasFailed
  /-- Takes the failures. -/
  | take
  /-- Looks around without doing anything. -/
  | observe
  /-- Removes an allocated directory, given by its number. -/
  | removeDirectory (number : Nat)
  /-- Writes a file into an allocated directory, given by its number. -/
  | addFile (number : Nat) (name : String) (bytes : List UInt8)
  /-- Ends the test. -/
  | finish
  /-- Stops the test for a reason of its own. -/
  | panic (text : String)

/-- How a step ends. -/
inductive StepEnd where
  | answered (answer : Answer)
  | finished
  | stopped (text : String)

namespace TestCase

/-- Changes the files, if the operating system does not refuse. -/
def changeFiles (s : Scene TestCase) (result : Except SystemError FileStore) :
    StepEnd × Scene TestCase :=
  match result with
  | .ok files => (.answered (.flag true), { s with world := { s.world with files } })
  | .error _ => (.answered (.flag false), s)

/-- Performs a step. -/
def perform : Step → Scene TestCase → StepEnd × Scene TestCase
  | .act action, s =>
    match action.perform context s with
    | (.ok answer, s') => (.answered answer, s')
    | (.error text, s') => (.stopped text, s')
  | .failures, s => (.answered (.failures s.state.failures), s)
  | .hasFailed, s => (.answered (.flag s.state.hasFailed), s)
  | .take, s => (.answered (.failures s.state.take.1), { s with state := s.state.take.2 })
  | .observe, s => (.answered .done, s)
  | .removeDirectory number, s =>
    match s.state.dirs[number]? with
    | none => (.answered (.flag false), s)
    | some path => changeFiles s (s.world.files.removeTree path)
  | .addFile number name bytes, s =>
    match s.state.dirs[number]? with
    | none => (.answered (.flag false), s)
    | some path => changeFiles s (s.world.files.overwrite (Path.join path name) bytes)
  | .finish, s => (.finished, s)
  | .panic text, s => (.stopped text, s)

/-- The steps that answered, the text with which a step stopped the test, and the scene
before the test case is closed. -/
structure Steps where
  trace : List (Answer × Scene TestCase)
  stop : Option String
  scene : Scene TestCase

/-- Performs steps until they are used up or one of them ends the test. -/
def runSteps : List Step → Scene TestCase → Steps
  | [], s => ⟨[], none, s⟩
  | step :: steps, s =>
    match perform step s with
    | (.answered answer, s') =>
      let rest := runSteps steps s'
      ⟨(answer, s') :: rest.trace, rest.stop, rest.scene⟩
    | (.finished, s') => ⟨[], none, s'⟩
    | (.stopped text, s') => ⟨[], some text, s'⟩

/-- A test after its test case was closed. -/
structure Run where
  trace : List (Answer × Scene TestCase)
  /-- The text with which the test stopped, if it did. -/
  panic : Option String
  world : World

/-- Runs a test to its end. -/
def execute (c : TestCase) (steps : List Step) (w : World) : Run :=
  let r := runSteps steps ⟨w, c⟩
  let closed := close r.stop.isSome r.scene
  ⟨r.trace, r.stop.or closed.1, closed.2⟩

/-- A step that answers is followed by the rest of the steps. -/
theorem runSteps_cons_of_answered {step : Step} {s s' : Scene TestCase} {answer : Answer}
    (h : perform step s = (.answered answer, s')) (steps : List Step) :
    runSteps (step :: steps) s
      = ⟨(answer, s') :: (runSteps steps s').trace, (runSteps steps s').stop,
        (runSteps steps s').scene⟩ := by
  simp [runSteps, h]

/-- A run all of whose steps answered is continued from the scene it ended in. -/
theorem runSteps_append_of_answered {steps : List Step} {s : Scene TestCase}
    (h : (runSteps steps s).trace.length = steps.length) (more : List Step) :
    runSteps (steps ++ more) s
      = ⟨(runSteps steps s).trace ++ (runSteps more (runSteps steps s).scene).trace,
        (runSteps more (runSteps steps s).scene).stop,
        (runSteps more (runSteps steps s).scene).scene⟩ := by
  induction steps generalizing s with
  | nil => rfl
  | cons step steps ih =>
    rw [runSteps] at h
    split at h
    next answer s' hstep =>
      have htail : (runSteps steps s').trace.length = steps.length := by simpa using h
      rw [List.cons_append, runSteps_cons_of_answered hstep, runSteps_cons_of_answered hstep,
        ih htail]
      rfl
    next => simp at h
    next => simp at h

/-- A test stops with the text of the step that stopped it, else with the summary of the
failures that were left. -/
theorem panic_execute (c : TestCase) (steps : List Step) (w : World) :
    (execute c steps w).panic
      = match (runSteps steps ⟨w, c⟩).stop with
        | some text => some text
        | none =>
          if (runSteps steps ⟨w, c⟩).scene.state.failures = [] then none
          else some (runSteps steps ⟨w, c⟩).scene.state.summary := by
  have hexecute : (execute c steps w).panic
      = (runSteps steps ⟨w, c⟩).stop.or
          (close (runSteps steps ⟨w, c⟩).stop.isSome (runSteps steps ⟨w, c⟩).scene).1 := rfl
  rw [hexecute]
  cases (runSteps steps ⟨w, c⟩).stop with
  | some text => rfl
  | none =>
    simp only [close_eq, Option.isSome_none, Option.none_or, Bool.false_or, List.isEmpty_iff]

end TestCase

end TableFixture
