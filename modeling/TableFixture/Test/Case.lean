import TableFixture.Test.Context

/-!
# Test cases

A test case is the context of one test.  It allocates directories below its root,
keeps the failures that were recorded, and stops the test on a failure that aborts.
When it is closed it releases its directories, oldest first, and then raises the
failures that nobody took, unless the test is stopping already.

Main results:

- Theorem `close_of_stopping`: a test that is stopping already raises nothing further.
- Theorem `close_eq_none_iff`: otherwise nothing is raised exactly if no failure is left.
- Theorem `world_close`: the directories are released in any case.
-/

namespace TableFixture

/-! ## Settings -/

/-- The settings of a test case. -/
structure TestCase.Config where
  /-- The directory below which directories are allocated; that of the system for
  temporary files if there is none. -/
  root : Option String
  /-- How the names of allocated directories start. -/
  leading : String
  /-- Whether allocated directories are left in place when the test case is closed. -/
  keep : Bool
deriving DecidableEq, Repr

/-- The settings unless others are given. -/
def TestCase.Config.standard : TestCase.Config := ⟨none, "pandrs_test_", false⟩

/-! ## Test cases -/

/-- The context of one test. -/
structure TestCase where
  name : String
  config : TestCase.Config
  /-- The directories that were allocated, oldest first. -/
  dirs : List String
  /-- The failures that were recorded and not taken, oldest first. -/
  failures : List Failure
deriving DecidableEq, Repr

namespace TestCase

/-- A test case with the given settings. -/
def withConfig (name : String) (config : Config) : TestCase := ⟨name, config, [], []⟩

/-- A test case with the standard settings. -/
def new (name : String) : TestCase := withConfig name .standard

/-- Whether a failure was recorded and not taken. -/
def hasFailed (c : TestCase) : Bool := !c.failures.isEmpty

/-- The failures of a test case, which has none afterwards. -/
def take (c : TestCase) : List Failure × TestCase := (c.failures, { c with failures := [] })

/-- A test case has failed exactly if it holds a failure. -/
theorem hasFailed_iff (c : TestCase) : c.hasFailed = true ↔ c.failures ≠ [] := by
  simp [hasFailed]

/-! ## As a context -/

/-- The directory below which a test case allocates. -/
def base (c : TestCase) (w : World) : String := c.config.root.getD w.temporary

/-- Allocates a fresh directory. -/
def allocate (s : Scene TestCase) : Except Error String × Scene TestCase :=
  match s.world.makeFresh (s.state.base s.world) s.state.config.leading with
  | (.error e, w) => (.error (.system e), { s with world := w })
  | (.ok path, w) =>
    (.ok path,
      ⟨w.note (.allocated s.state.name path), { s.state with dirs := s.state.dirs ++ [path] }⟩)

/-- Records a failure. -/
def recordFailure (f : Failure) (s : Scene TestCase) : Scene TestCase :=
  ⟨s.world.note (.recorded s.state.name f), { s.state with failures := s.state.failures ++ [f] }⟩

/-- The text with which a failure stops the test. -/
def abortText (c : TestCase) (f : Failure) : String :=
  testLabel c.name ++ " aborted: " ++ f.text

/-- Stops the test on a failure. -/
def abortOn (f : Failure) (s : Scene TestCase) : String × Scene TestCase :=
  (s.state.abortText f, { s with world := s.world.note (.aborted s.state.name f) })

/-- A test case as a context. -/
def context : TestContext TestCase := ⟨allocate, recordFailure, abortOn⟩

@[simp] theorem failures_recordFailure (f : Failure) (s : Scene TestCase) :
    (recordFailure f s).state.failures = s.state.failures ++ [f] := rfl

@[simp] theorem dirs_recordFailure (f : Failure) (s : Scene TestCase) :
    (recordFailure f s).state.dirs = s.state.dirs := rfl

@[simp] theorem state_abortOn (f : Failure) (s : Scene TestCase) :
    (abortOn f s).2.state = s.state := rfl

/-! ## Closing -/

/-- Releases one directory. -/
def releaseOne (keep : Bool) (w : World) (path : String) : World :=
  if keep then w.note (.kept path)
  else
    match w.files.removeTree path with
    | .ok files => { w with files }
    | .error e => w.note (.notRemoved path e)

/-- Releases the directories of a test case, oldest first. -/
def release (c : TestCase) (w : World) : World := c.dirs.foldl (releaseOne c.config.keep) w

/-- The text with which recorded failures are raised. -/
def summary (c : TestCase) : String :=
  testLabel c.name ++ " recorded " ++ toString c.failures.length ++ " failure(s):"
    ++ String.join (c.failures.map fun f => "\n  " ++ f.text)

/-- What closing does, one thing after the other: it releases the directories, and then it
raises the failures, unless the test is stopping already.  Nothing is done after raising. -/
def closing (stopping : Bool) : ExceptT String (StateM (Scene TestCase)) Unit := do
  modify fun s => ⟨s.state.release s.world, { s.state with dirs := [] }⟩
  let s ← get
  unless stopping || s.state.failures.isEmpty do
    throw s.state.summary

/-- Closes a test case: the text that is raised, if there is one, and the world then. -/
def close (stopping : Bool) (s : Scene TestCase) : Option String × World :=
  match (closing stopping).run.run s with
  | (.ok _, s') => (none, s'.world)
  | (.error text, s') => (some text, s'.world)

/-- Closing releases the directories, whether it raises anything or not. -/
theorem run_closing (stopping : Bool) (s : Scene TestCase) :
    (closing stopping).run.run s
      = (if stopping || s.state.failures.isEmpty then .ok () else .error s.state.summary,
        ⟨s.state.release s.world, { s.state with dirs := [] }⟩) := by
  let s' : Scene TestCase := ⟨s.state.release s.world, { s.state with dirs := [] }⟩
  change (if stopping || s.state.failures.isEmpty then
    (pure () : ExceptT String (StateM (Scene TestCase)) Unit)
    else throw s.state.summary).run.run s' = _
  split <;> rfl

/-- What closing comes to. -/
theorem close_eq (stopping : Bool) (s : Scene TestCase) :
    close stopping s
      = (if stopping || s.state.failures.isEmpty then none else some s.state.summary,
        s.state.release s.world) := by
  rw [close, run_closing]
  cases stopping || s.state.failures.isEmpty <;> rfl

/-- A test that is stopping already raises nothing further. -/
@[simp] theorem close_of_stopping (s : Scene TestCase) : (close true s).1 = none := by
  simp [close_eq]

/-- A test that is not stopping raises nothing exactly if no failure is left. -/
theorem close_eq_none_iff (s : Scene TestCase) :
    (close false s).1 = none ↔ s.state.failures = [] := by
  simp [close_eq]

/-- The directories are released in any case. -/
@[simp] theorem world_close (stopping : Bool) (s : Scene TestCase) :
    (close stopping s).2 = s.state.release s.world := by
  rw [close_eq]

end TestCase

end TableFixture
