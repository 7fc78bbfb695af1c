import TableFixture.Proofs.Files.NewFile
import TableFixture.Test.Run

/-!
# What steps do

An action of a test comes to one of four things: it allocates a directory, creates a fixture
file, reports failures, or aborts on one.  So every step of a test does one of a few things, and
each of them is told here with all that comes of it: the answer, or the text with which the test
stops, and the scene that is left.  What steps keep is shown elsewhere one thing at a time,
without looking at how a step is performed.

Main results:

- Theorem `Action.perform_eq`: an action does what it comes to.
- Theorem `TestCase.performs`: what a step does.
-/

namespace TableFixture

/-! ## What actions come to -/

/-- A fixture file to be created. -/
structure FixtureFile where
  name : String
  content : List UInt8
  site : String

/-- The failure of a fixture file that could not be created. -/
def FixtureFile.failure (file : FixtureFile) (e : Error) : Failure :=
  TestContext.creationFailure file.name e file.site

namespace Action

/-- What an action comes to. -/
inductive Effect where
  | allocate
  | create (file : FixtureFile)
  | report (failures : List Failure)
  | abort (failure : Failure)

/-- What an action comes to.  An assertion that holds reports no failure. -/
def effect : Action → Effect
  | .tempDir => .allocate
  | .createFile content extension site =>
      .create ⟨TestContext.fixtureName extension, content, site⟩
  | .createCsv content site => .create ⟨TestContext.fixtureName ".csv", content, site⟩
  | .createRowsCsv headers rows site =>
      .create ⟨TestContext.fixtureName ".csv",
        Text.Utf8.encode (TestContext.plainTable headers rows), site⟩
  | .createFrameCsv frame site =>
      .create ⟨TestContext.fixtureName ".csv", Text.Utf8.encode frame.toCsv.toList, site⟩
  | .floatNear expected actual tolerance site =>
      .report (if expected.near actual tolerance then []
        else [TestContext.floatFailure expected actual tolerance site])
  | .intEqual expected actual site =>
      .report (if expected = actual then [] else [TestContext.integerFailure expected actual site])
  | .record failure => .report [failure]
  | .fail .record failure => .report [failure]
  | .fail .abort failure => .abort failure
  | .abort failure => .abort failure

/-- The failures that are reported and let the test go on. -/
def Effect.reported : Effect → List Failure
  | .report failures => failures
  | _ => []

variable {κ : Type} (ctx : TestContext κ)

/-- Performs what an action comes to. -/
def Effect.perform (s : Scene κ) : Effect → Except String Answer × Scene κ
  | .allocate => (.ok (.directory (ctx.tempDir s).1), (ctx.tempDir s).2)
  | .create file =>
      match ctx.writeFixture file.name file.content s with
      | (.ok path, s') => (.ok (.file path), s')
      | (.error e, s') =>
          (.error (ctx.abort (file.failure e) s').1, (ctx.abort (file.failure e) s').2)
  | .report failures => (.ok .done, failures.foldl (fun s failure => ctx.record failure s) s)
  | .abort failure => (.error (ctx.abort failure s).1, (ctx.abort failure s).2)

/-- Creating a file writes it and stops the test if that fails. -/
theorem perform_createFile (content : List UInt8) (extension site : String) (s : Scene κ) :
    (Action.createFile content extension site).perform ctx s
      = (Effect.create ⟨TestContext.fixtureName extension, content, site⟩).perform ctx s := by
  have hpair : (Action.createFile content extension site).perform ctx s
      = ((ctx.createFile content extension site s).1.map .file,
        (ctx.createFile content extension site s).2) := rfl
  rw [hpair]
  unfold TestContext.createFile Effect.perform
  dsimp only
  rcases ctx.writeFixture (TestContext.fixtureName extension) content s with ⟨e | path, s'⟩ <;> rfl

/-- An action does what it comes to. -/
theorem perform_eq (action : Action) (s : Scene κ) :
    action.perform ctx s = action.effect.perform ctx s := by
  cases action with
  | tempDir => rfl
  | createFile content extension site => exact perform_createFile ctx content extension site s
  | createCsv content site => exact perform_createFile ctx content ".csv" site s
  | createRowsCsv headers rows site => exact perform_createFile ctx _ ".csv" site s
  | createFrameCsv frame site => exact perform_createFile ctx _ ".csv" site s
  | floatNear expected actual tolerance site =>
      simp only [Action.perform, TestContext.assertFloatNear, effect, Effect.perform]
      split <;> rfl
  | intEqual expected actual site =>
      simp only [Action.perform, TestContext.assertIntEqual, effect, Effect.perform]
      split <;> rfl
  | record failure => rfl
  | fail outcome failure => cases outcome <;> rfl
  | abort failure => rfl

end Action

/-! ## Writing fixture files -/

namespace Scene

variable {κ : Type}

/-- A scene after a new file was asked for, with the files as they are then. -/
def afterAsking (s : Scene κ) (files : FileStore) : Scene κ :=
  { s with world := s.world.afterAsking files }

@[simp] theorem world_afterAsking (s : Scene κ) (files : FileStore) :
    (s.afterAsking files).world = s.world.afterAsking files := rfl

@[simp] theorem state_afterAsking (s : Scene κ) (files : FileStore) :
    (s.afterAsking files).state = s.state := rfl

/-- A scene after a file was written. -/
def wrote (s : Scene κ) (files : FileStore) (size : Nat) (path : String) : Scene κ :=
  { s with world := (s.world.afterAsking files).note (.wrote size path) }

end Scene

namespace TestContext

variable {κ : Type} {ctx : TestContext κ} {s s' : Scene κ} {directory name : String}
  {content : List UInt8} {cause : SystemError} {files : FileStore}

theorem writeFixture_of_tempDir_error {e : Error} (h : ctx.tempDir s = (.error e, s'))
    (name : String) (content : List UInt8) : ctx.writeFixture name content s = (.error e, s') := by
  simp [writeFixture, h]

/-- A refusal ends the writing of a fixture file. -/
theorem writeFixture_of_error (hdir : ctx.tempDir s = (.ok directory, s'))
    (hwrite : s'.world.files.writeNew s'.world.nextRefusals (Path.join directory name) fixtureMode
      content = (.error cause, files)) :
    ctx.writeFixture name content s = (.error (.system cause), s'.afterAsking files) := by
  simp [writeFixture, World.writeNew, hdir, hwrite, Scene.afterAsking]

/-- A fixture file that was written is logged. -/
theorem writeFixture_of_ok (hdir : ctx.tempDir s = (.ok directory, s'))
    (hwrite : s'.world.files.writeNew s'.world.nextRefusals (Path.join directory name) fixtureMode
      content = (.ok (), files)) :
    ctx.writeFixture name content s
      = (.ok (Path.join directory name),
        s'.wrote files content.length (Path.join directory name)) := by
  simp [writeFixture, World.writeNew, hdir, hwrite, Scene.wrote]

end TestContext

/-! ## What steps do -/

namespace TestCase

/-- The files that actions create have the names of fixture files. -/
theorem exists_fixtureName {action : Action} {file : FixtureFile}
    (h : action.effect = .create file) : ∃ extension, file.name = TestContext.fixtureName extension
    := by
  cases action with
  | createFile content extension site =>
      obtain rfl := Action.Effect.create.inj h
      exact ⟨extension, rfl⟩
  | createCsv | createRowsCsv | createFrameCsv =>
      obtain rfl := Action.Effect.create.inj h
      exact ⟨".csv", rfl⟩
  | fail outcome failure => cases outcome <;> cases h
  | _ => cases h

/-- The names of fixture files start with a letter. -/
theorem exists_toList_of_create {action : Action} {file : FixtureFile}
    (heffect : action.effect = .create file) : ∃ cs, file.name.toList = 't' :: cs := by
  rcases exists_fixtureName heffect with ⟨extension, hname⟩
  exact ⟨_, hname ▸ TestContext.toList_fixtureName extension⟩

/-- A scene after failures were recorded. -/
def recordAll (failures : List Failure) (s : Scene TestCase) : Scene TestCase where
  world := { s.world with log := s.world.log ++ failures.map (.recorded s.state.name) }
  state := { s.state with failures := s.state.failures ++ failures }

/-- What a step does in a scene, with the end of the step and the scene that it leaves. -/
inductive Performs (s : Scene TestCase) : Step → StepEnd × Scene TestCase → Prop where
  /-- A directory was allocated. -/
  | allocated {action : Action} {path : String} {s' : Scene TestCase} :
      action.effect = .allocate → allocate s = (.ok path, s') →
      Performs s (.act action) (.answered (.directory (.ok path)), s')
  /-- No directory could be allocated. -/
  | notAllocated {action : Action} {e : Error} {s' : Scene TestCase} :
      action.effect = .allocate → allocate s = (.error e, s') →
      Performs s (.act action) (.answered (.directory (.error e)), s')
  /-- A fixture file was created in a directory that was allocated for it. -/
  | created {action : Action} {file : FixtureFile} {directory : String} {s' : Scene TestCase}
      {l : Location} : action.effect = .create file → allocate s = (.ok directory, s') →
      s'.world.files.locateNew (Path.join directory file.name) = .ok l →
      Path.endsInSlash (Path.join directory file.name) = false →
      Performs s (.act action) (.answered (.file (Path.join directory file.name)),
        s'.wrote (s'.world.files.put l (.file file.content TestContext.fixtureMode))
          file.content.length (Path.join directory file.name))
  /-- A directory was allocated for a fixture file, but there the file could not be created. -/
  | notCreated {action : Action} {file : FixtureFile} {directory : String} {s' : Scene TestCase}
      {cause : SystemError} : action.effect = .create file → allocate s = (.ok directory, s') →
      context.writeFixture file.name file.content s
        = (.error (.system cause), s'.afterAsking s'.world.files) →
      Performs s (.act action) (.stopped (s'.state.abortText (file.failure (.system cause))),
        (abortOn (file.failure (.system cause)) (s'.afterAsking s'.world.files)).2)
  /-- A fixture file was created in a directory that was allocated for it, and left unfinished. -/
  | unfinished {action : Action} {file : FixtureFile} {directory : String} {s' : Scene TestCase}
      {l : Location} {bytes : List UInt8} {mode : Nat} {cause : SystemError} :
      action.effect = .create file → allocate s = (.ok directory, s') →
      s'.world.files.locateNew (Path.join directory file.name) = .ok l →
      Path.endsInSlash (Path.join directory file.name) = false →
      context.writeFixture file.name file.content s
        = (.error (.system cause), s'.afterAsking (s'.world.files.put l (.file bytes mode))) →
      Performs s (.act action) (.stopped (s'.state.abortText (file.failure (.system cause))),
        (abortOn (file.failure (.system cause))
          (s'.afterAsking (s'.world.files.put l (.file bytes mode)))).2)
  /-- No directory could be allocated for a fixture file. -/
  | notHoused {action : Action} {file : FixtureFile} {e : Error} {s' : Scene TestCase} :
      action.effect = .create file → allocate s = (.error e, s') →
      Performs s (.act action) (.stopped (s'.state.abortText (file.failure e)),
        (abortOn (file.failure e) s').2)
  | recorded {action : Action} {failures : List Failure} : action.effect = .report failures →
      Performs s (.act action) (.answered .done, recordAll failures s)
  | aborted {action : Action} {failure : Failure} : action.effect = .abort failure →
      Performs s (.act action) (.stopped (s.state.abortText failure), (abortOn failure s).2)
  | listed : Performs s .failures (.answered (.failures s.state.failures), s)
  | asked : Performs s .hasFailed (.answered (.flag s.state.hasFailed), s)
  | taken : Performs s .take
      (.answered (.failures s.state.failures), ⟨s.world, { s.state with failures := [] }⟩)
  | observed : Performs s .observe (.answered .done, s)
  /-- A directory that the test case holds was removed. -/
  | removed {number : Nat} {path : String} {files : FileStore} :
      s.state.dirs[number]? = some path → s.world.files.removeTree path = .ok files →
      Performs s (.removeDirectory number)
        (.answered (.flag true), ⟨{ s.world with files }, s.state⟩)
  /-- The test case holds no such directory, or it could not be removed. -/
  | notRemoved {number : Nat} :
      (∀ path, s.state.dirs[number]? = some path →
        ∃ e, s.world.files.removeTree path = .error e) →
      Performs s (.removeDirectory number) (.answered (.flag false), s)
  /-- A file was written, its name joined to a directory that the test case holds. -/
  | written {number : Nat} {path name : String} {bytes : List UInt8} {files : FileStore} :
      s.state.dirs[number]? = some path →
      s.world.files.overwrite (Path.join path name) bytes = .ok files →
      Performs s (.addFile number name bytes)
        (.answered (.flag true), ⟨{ s.world with files }, s.state⟩)
  /-- The test case holds no such directory, or the file could not be written. -/
  | notWritten {number : Nat} {name : String} {bytes : List UInt8} :
      (∀ path, s.state.dirs[number]? = some path →
        ∃ e, s.world.files.overwrite (Path.join path name) bytes = .error e) →
      Performs s (.addFile number name bytes) (.answered (.flag false), s)
  | finished : Performs s .finish (.finished, s)
  | panicked {text : String} : Performs s (.panic text) (.stopped text, s)

theorem foldl_record (failures : List Failure) (s : Scene TestCase) :
    failures.foldl (fun s failure => context.record failure s) s = recordAll failures s := by
  induction failures generalizing s with
  | nil => simp [recordAll]
  | cons failure failures ih =>
      rw [List.foldl_cons, ih]
      simp [recordAll, context, recordFailure, World.note]

/-- What it comes to to create a fixture file. -/
theorem performs_create (s : Scene TestCase) {action : Action} {file : FixtureFile}
    (heffect : action.effect = .create file) :
    Performs s (.act action) (perform (.act action) s) := by
  have htemp : context.tempDir s = allocate s := rfl
  rw [perform, Action.perform_eq, heffect, Action.Effect.perform]
  rcases hallocate : allocate s with ⟨e | directory, s'⟩
  · rw [TestContext.writeFixture_of_tempDir_error (htemp.trans hallocate)]
    exact .notHoused heffect hallocate
  · have hdir := htemp.trans hallocate
    have hwrites := s'.world.files.writesNew s'.world.nextRefusals (Path.join directory file.name)
      TestContext.fixtureMode file.content
    generalize hwrite : s'.world.files.writeNew s'.world.nextRefusals
      (Path.join directory file.name) TestContext.fixtureMode file.content = written at hwrites
    cases hwrites with
    | notCreated =>
        have hfixture := TestContext.writeFixture_of_error hdir hwrite
        rw [hfixture]
        exact .notCreated heffect hallocate hfixture
    | written hlocate hslash _ =>
        rw [TestContext.writeFixture_of_ok hdir hwrite]
        exact .created heffect hallocate hlocate hslash
    | unfinished hlocate hslash _ _ =>
        have hfixture := TestContext.writeFixture_of_error hdir hwrite
        rw [hfixture]
        exact .unfinished heffect hallocate hlocate hslash hfixture

/-- What an action does. -/
theorem performs_act (s : Scene TestCase) (action : Action) :
    Performs s (.act action) (perform (.act action) s) := by
  cases heffect : action.effect with
  | allocate =>
      rw [perform, Action.perform_eq, heffect, Action.Effect.perform]
      have htemp : context.tempDir s = allocate s := rfl
      rw [htemp]
      rcases hallocate : allocate s with ⟨e | path, s'⟩
      · exact .notAllocated heffect hallocate
      · exact .allocated heffect hallocate
  | create file => exact performs_create s heffect
  | report failures =>
      rw [perform, Action.perform_eq, heffect, Action.Effect.perform, foldl_record]
      exact .recorded heffect
  | abort failure =>
      rw [perform, Action.perform_eq, heffect, Action.Effect.perform]
      exact .aborted heffect

/-- What a step does. -/
theorem performs (s : Scene TestCase) (step : Step) : Performs s step (perform step s) := by
  cases step with
  | act action => exact performs_act s action
  | failures => exact .listed
  | hasFailed => exact .asked
  | take => exact .taken
  | observe => exact .observed
  | removeDirectory number =>
      rw [perform]
      cases hnumber : s.state.dirs[number]? with
      | none => exact .notRemoved (by simp [hnumber])
      | some path =>
          dsimp only
          cases hremove : s.world.files.removeTree path with
          | error e => exact .notRemoved (by simp [hnumber, hremove])
          | ok files => exact .removed hnumber hremove
  | addFile number name bytes =>
      rw [perform]
      cases hnumber : s.state.dirs[number]? with
      | none => exact .notWritten (by simp [hnumber])
      | some path =>
          dsimp only
          cases hwrite : s.world.files.overwrite (Path.join path name) bytes with
          | error e => exact .notWritten (by simp [hnumber, hwrite])
          | ok files => exact .written hnumber hwrite
  | finish => exact .finished
  | panic text => exact .panicked

end TestCase

end TableFixture
