import TableFixture.Proofs.Files.EmptyDirectory
import TableFixture.Proofs.Test.Directories

/-!
# Creating fixture files

A context can be made to keep the calls that it gets.  Asked for a fixture file, a helper
calls for one directory.  If that is empty, the name of the file is one of a single file and
the path is not too long, the file is created there with its content and for everyone to
read; otherwise the helper calls for the test to be stopped, once, and no file has changed.
The test is stopped as well if the system refuses a call for the new file.  One that was
created by then stays in its directory, with a beginning of its content.  Whatever directory
the context answers with, a file is created where nothing stood or not at all.

Main results:

- Theorem `createFile_traced`: keeping the calls changes nothing else.
- Theorem `creates_createFile`: what a helper calls for and leaves behind.
- Theorem `creates_fixtures`: the same for each of the helpers that create fixture files.
-/

namespace TableFixture

/-! ## The calls of a context -/

/-- The calls that a context gets. -/
inductive Call where
  | tempDir
  | record (failure : Failure)
  | abort (failure : Failure)
deriving DecidableEq, Repr

namespace Scene

variable {κ : Type}

/-- A scene with the calls that its context got, the oldest first. -/
def withCalls (s : Scene κ) (calls : List Call) : Scene (κ × List Call) :=
  ⟨s.world, (s.state, calls)⟩

/-- A scene without the calls that its context got. -/
def withoutCalls (s : Scene (κ × List Call)) : Scene κ := ⟨s.world, s.state.1⟩

/-- The calls that the context of a scene got. -/
def calls (s : Scene (κ × List Call)) : List Call := s.state.2

end Scene

namespace TestContext

open TableFixture.Path (target)
open FileStore (IsFileName)

variable {κ : Type}

/-- The context that does the same and keeps the calls that it gets. -/
def traced (ctx : TestContext κ) : TestContext (κ × List Call) where
  tempDir s :=
    let (result, s') := ctx.tempDir s.withoutCalls
    (result, s'.withCalls (s.calls ++ [.tempDir]))
  record failure s := (ctx.record failure s.withoutCalls).withCalls (s.calls ++ [.record failure])
  abort failure s :=
    let (text, s') := ctx.abort failure s.withoutCalls
    (text, s'.withCalls (s.calls ++ [.abort failure]))

/-! ## How the creation of a file ends -/

/-- A file was added at a path where nothing stood, and nothing else was changed. -/
structure Added (files : FileStore) (path : String) (bytes : List UInt8) (mode : Nat)
    (files' : FileStore) : Prop where
  fresh : files.node? (target path) = none
  opened : files'.open? path = .ok (.file bytes mode)
  elsewhere : ∀ l, l ≠ target path → files'.node? l = files.node? l
  mask : files'.mask = files.mask

/-- A file can stand in a directory: it has the name of a single file, and its path is not
too long. -/
structure Fits (file : FixtureFile) (directory : String) : Prop where
  name : IsFileName file.name
  path : (Path.join directory file.name).utf8ByteSize ≤ FileStore.pathLimit

/-- The test goes on with the path of a file in the directory that was called for. -/
def answered (file : FixtureFile) (directory : String) (files : FileStore) (s : Scene κ) :
    Except String String × Scene (κ × List Call) :=
  (.ok (Path.join directory file.name),
    (s.wrote files file.content.length (Path.join directory file.name)).withCalls [.tempDir])

/-- The test is stopped after the directory was called for, by a failure that names the file
and ends in the text of the error. -/
def stopped (ctx : TestContext κ) (file : FixtureFile) (text : String) (s : Scene κ) :
    Except String String × Scene (κ × List Call) :=
  let failure : Failure :=
    ⟨"failed to create fixture file " ++ file.name ++ ": " ++ text, file.site⟩
  (.error (ctx.abort failure s).1, (ctx.abort failure s).2.withCalls [.tempDir, .abort failure])

theorem stopped_ne_ok (ctx : TestContext κ) (file : FixtureFile) (text : String) (s : Scene κ)
    (path : String) : (ctx.stopped file text s).1 ≠ .ok path := by
  simp [stopped]

/-- How a helper creates a fixture file in a context: what comes of it, and what comes of it
if the context keeps its calls. -/
structure Creates (ctx : TestContext κ) (file : FixtureFile) (s : Scene κ)
    (outcome : Except String String × Scene κ)
    (traced : Except String String × Scene (κ × List Call)) : Prop where
  /-- Keeping the calls changes nothing else. -/
  erased : outcome = (traced.1, traced.2.withoutCalls)
  /-- In an empty directory in which the file can stand it is created, as the only entry, if
  the system refuses no call for it. -/
  created : ∀ directory s', ctx.tempDir s = (.ok directory, s') →
    s'.world.files.EmptyDirectory directory → Fits file directory →
    s'.world.nextRefusals.Allows file.content →
      ∃ files, Added s'.world.files (Path.join directory file.name) file.content 0o644 files ∧
        files.below directory = [([file.name], .file file.content 0o644)] ∧
        traced = answered file directory files s'
  /-- In an empty directory in which it cannot stand it is not created. -/
  unfit : ∀ directory s', ctx.tempDir s = (.ok directory, s') →
    s'.world.files.EmptyDirectory directory → ¬ Fits file directory →
      (∃ cause,
        s'.world.files.createNew (Path.join directory file.name) 0o644 = .error cause) ∧
      traced = ctx.stopped file "I/O error" (s'.afterAsking s'.world.files)
  /-- Without a directory it is not created. -/
  refused : ∀ e s', ctx.tempDir s = (.error e, s') → traced = ctx.stopped file e.message s'
  refusedBySystem : ∀ cause s', ctx.tempDir s = (.error (.system cause), s') →
    traced = ctx.stopped file "I/O error" s'
  /-- In no directory is it created if the system refuses that. -/
  withheld : ∀ directory s' cause, ctx.tempDir s = (.ok directory, s') →
    s'.world.nextRefusals.create = some cause →
      traced = ctx.stopped file "I/O error" (s'.afterAsking s'.world.files)
  /-- If the system refuses a call after the file was created the test is stopped as well, and
  the file stays as it is then, as the only entry of its directory. -/
  unfinished : ∀ directory s' cause bytes mode, ctx.tempDir s = (.ok directory, s') →
    s'.world.files.EmptyDirectory directory → Fits file directory →
    s'.world.nextRefusals.create = none →
    s'.world.nextRefusals.Leaves s'.world.files.mask 0o644 file.content cause bytes mode →
      bytes <+: file.content ∧
      ∃ files, Added s'.world.files (Path.join directory file.name) bytes mode files ∧
        files.below directory = [([file.name], .file bytes mode)] ∧
        traced = ctx.stopped file "I/O error" (s'.afterAsking files)
  /-- In any directory it is created where nothing stood and completed, or left unfinished
  there, or not created at all. -/
  otherwise : ∀ directory s', ctx.tempDir s = (.ok directory, s') →
    (s'.world.nextRefusals.Allows file.content ∧
      ∃ files, Added s'.world.files (Path.join directory file.name) file.content 0o644 files ∧
        traced = answered file directory files s') ∨
    (s'.world.nextRefusals.create = none ∧ ∃ cause bytes mode files,
      s'.world.nextRefusals.Leaves s'.world.files.mask 0o644 file.content cause bytes mode ∧
      Added s'.world.files (Path.join directory file.name) bytes mode files ∧
      traced = ctx.stopped file "I/O error" (s'.afterAsking files)) ∨
    ((∃ cause, s'.world.files.createNew (Path.join directory file.name) 0o644 = .error cause ∨
        s'.world.nextRefusals.create = some cause) ∧
      traced = ctx.stopped file "I/O error" (s'.afterAsking s'.world.files))

/-! ## Creating one file -/

/-- Keeping the calls of a context changes nothing else. -/
theorem createFile_traced (ctx : TestContext κ) (content : List UInt8) (extension site : String)
    (s : Scene κ) (calls : List Call) :
    ctx.createFile content extension site s
      = ((ctx.traced.createFile content extension site (s.withCalls calls)).1,
        (ctx.traced.createFile content extension site (s.withCalls calls)).2.withoutCalls) := by
  have hdir : ctx.traced.tempDir (s.withCalls calls)
      = ((ctx.tempDir s).1, (ctx.tempDir s).2.withCalls (calls ++ [.tempDir])) := rfl
  unfold createFile writeFixture
  rw [hdir]
  rcases ctx.tempDir s with ⟨e | directory, s'⟩
  · rfl
  · have hworld : (s'.withCalls (calls ++ [.tempDir])).world = s'.world := rfl
    dsimp only
    rw [hworld]
    rcases s'.world.writeNew (Path.join directory (fixtureName extension)) fixtureMode content with
      ⟨cause | _, w⟩
    · rfl
    · rfl

section

variable {ctx : TestContext κ} {content : List UInt8} {extension site directory : String}
  {s s' : Scene κ} {files : FileStore} {cause : SystemError}

/-- A traced context is asked for a directory first. -/
theorem tempDir_traced {result : Except Error String} (hdir : ctx.tempDir s = (result, s')) :
    ctx.traced.tempDir (s.withCalls []) = (result, s'.withCalls [.tempDir]) := by
  change ((ctx.tempDir s).1, (ctx.tempDir s).2.withCalls [.tempDir]) = _
  rw [hdir]

/-- A file that was written is answered with. -/
theorem createFile_of_ok (hdir : ctx.tempDir s = (.ok directory, s'))
    (hwrite : s'.world.files.writeNew s'.world.nextRefusals
      (Path.join directory (fixtureName extension)) fixtureMode content = (.ok (), files)) :
    ctx.traced.createFile content extension site (s.withCalls [])
      = answered ⟨fixtureName extension, content, site⟩ directory files s' := by
  rw [createFile, writeFixture_of_ok (tempDir_traced hdir) hwrite]
  rfl

/-- A refusal of the system stops the test. -/
theorem createFile_of_error (hdir : ctx.tempDir s = (.ok directory, s'))
    (hwrite : s'.world.files.writeNew s'.world.nextRefusals
      (Path.join directory (fixtureName extension)) fixtureMode content = (.error cause, files)) :
    ctx.traced.createFile content extension site (s.withCalls [])
      = ctx.stopped ⟨fixtureName extension, content, site⟩ "I/O error" (s'.afterAsking files) := by
  rw [createFile_of_writeFixture_error (writeFixture_of_error (tempDir_traced hdir) hwrite)]
  rfl

/-- Without a directory the test is stopped. -/
theorem createFile_of_tempDir_error {e : Error} (hdir : ctx.tempDir s = (.error e, s')) :
    ctx.traced.createFile content extension site (s.withCalls [])
      = ctx.stopped ⟨fixtureName extension, content, site⟩ e.message s' := by
  rw [createFile_of_writeFixture_error (writeFixture_of_tempDir_error (tempDir_traced hdir) _ _)]
  rfl

end

/-- What a new file leaves behind. -/
theorem added_put {files : FileStore} {path : String} {l : Location}
    (hlocate : files.locateNew path = .ok l) (hslash : Path.endsInSlash path = false)
    (bytes : List UInt8) (mode : Nat) :
    Added files path bytes mode (files.put l (.file bytes mode)) := by
  obtain rfl := FileStore.eq_target_of_locateNew hlocate
  exact ⟨FileStore.node?_of_locateNew hlocate,
    FileStore.open?_put_of_locateNew hlocate hslash bytes mode,
    fun l hl => FileStore.node?_put_of_ne files _ hl, rfl⟩

/-- A fixture file is created completely, or the test is stopped; what is left then is nothing,
or the file as far as the system let it be written. -/
theorem creates_createFile (ctx : TestContext κ) (content : List UInt8) (extension site : String)
    (s : Scene κ) :
    Creates ctx ⟨fixtureName extension, content, site⟩ s
      (ctx.createFile content extension site s)
      (ctx.traced.createFile content extension site (s.withCalls [])) where
  erased := createFile_traced ctx content extension site s []
  created directory s' hdir hempty hfits hallows := by
    rcases hempty.locateNew_join (toList_fixtureName extension) (by decide) (by decide) hfits.name
      hfits.path with ⟨hlocate, hslash⟩
    exact ⟨_, added_put hlocate hslash content fixtureMode,
      hempty.below_put hlocate content fixtureMode,
      createFile_of_ok hdir (FileStore.writeNew_of_allows hlocate hslash hallows)⟩
  unfit directory s' hdir hempty hfits := by
    cases hnew : s'.world.files.createNew (Path.join directory (fixtureName extension))
        fixtureMode with
    | error cause =>
        exact ⟨⟨cause, hnew⟩,
          createFile_of_error hdir (FileStore.writeNew_of_createNew_error hnew _ content)⟩
    | ok created =>
        rcases FileStore.createNew_eq_ok hnew with ⟨hlocate, hslash, -⟩
        have hname := hempty.isFileName_of_locateNew (toList_fixtureName extension) (by decide)
          (by decide) hlocate hslash
        exact absurd ⟨hname.1, hname.2⟩ hfits
  refused e s' hdir := createFile_of_tempDir_error hdir
  refusedBySystem cause s' hdir := createFile_of_tempDir_error hdir
  withheld directory s' cause hdir hcreate := by
    have hwrites := s'.world.files.writesNew s'.world.nextRefusals
      (Path.join directory (fixtureName extension)) fixtureMode content
    generalize hwrite : s'.world.files.writeNew s'.world.nextRefusals
      (Path.join directory (fixtureName extension)) fixtureMode content = written at hwrites
    cases hwrites with
    | notCreated => exact createFile_of_error hdir hwrite
    | written _ _ hallows => exact absurd hallows.create (by simp [hcreate])
    | unfinished _ _ hnone => exact absurd hnone (by simp [hcreate])
  unfinished directory s' cause bytes mode hdir hempty hfits hcreate hleaves := by
    rcases hempty.locateNew_join (toList_fixtureName extension) (by decide) (by decide) hfits.name
      hfits.path with ⟨hlocate, hslash⟩
    exact ⟨hleaves.prefix_content, _, added_put hlocate hslash bytes mode,
      hempty.below_put hlocate bytes mode, createFile_of_error hdir (FileStore.writeNew_of_leaves hlocate hslash hcreate hleaves)⟩
  otherwise directory s' hdir := by
    have hwrites := s'.world.files.writesNew s'.world.nextRefusals
      (Path.join directory (fixtureName extension)) fixtureMode content
    generalize hwrite : s'.world.files.writeNew s'.world.nextRefusals
      (Path.join directory (fixtureName extension)) fixtureMode content = written at hwrites
    cases hwrites with
    | notCreated hcause => exact .inr (.inr ⟨⟨_, hcause⟩, createFile_of_error hdir hwrite⟩)
    | written hlocate hslash hallows =>
        exact .inl ⟨hallows, _, added_put hlocate hslash content fixtureMode,
          createFile_of_ok hdir hwrite⟩
    | unfinished hlocate hslash hcreate hleaves =>
        exact .inr (.inl ⟨hcreate, _, _, _, _, hleaves, added_put hlocate hslash _ _,
          createFile_of_error hdir hwrite⟩)

/-- Every helper that creates a fixture file creates it completely, or stops the test with
nothing created, or with what the system let it write. -/
theorem creates_fixtures (ctx : TestContext κ) (site : String) (s : Scene κ) :
    (∀ content extension, Creates ctx ⟨"test" ++ extension, content, site⟩ s
      (ctx.createFile content extension site s)
      (ctx.traced.createFile content extension site (s.withCalls []))) ∧
    (∀ content, Creates ctx ⟨"test.csv", content, site⟩ s
      (ctx.createCsv content site s)
      (ctx.traced.createCsv content site (s.withCalls []))) ∧
    (∀ headers rows,
      Creates ctx ⟨"test.csv", Text.Utf8.encode (plainTable headers rows), site⟩ s
        (ctx.createRowsCsv headers rows site s)
        (ctx.traced.createRowsCsv headers rows site (s.withCalls []))) ∧
    ∀ frame : Frame, Creates ctx ⟨"test.csv", Text.Utf8.encode frame.toCsv.toList, site⟩ s
      (ctx.createFrameCsv frame site s)
      (ctx.traced.createFrameCsv frame site (s.withCalls [])) := by
  have hcsv (content : List UInt8) : Creates ctx ⟨"test.csv", content, site⟩ s
      (ctx.createCsv content site s) (ctx.traced.createCsv content site (s.withCalls [])) := by
    have hname : fixtureName ".csv" = "test.csv" := by decide
    rw [← hname]
    exact creates_createFile ctx content ".csv" site s
  exact ⟨fun content extension => creates_createFile ctx content extension site s, hcsv,
    fun headers rows => hcsv _, fun frame => hcsv _⟩

end TestContext

namespace TestCase

open FileStore (IsFileName)

/-- A directory that a test case just allocated is empty. -/
theorem emptyDirectory_of_allocate {s s' : Scene TestCase} {directory : String}
    (h : s.world.files.Closed) (hallocate : allocate s = (.ok directory, s')) :
    s'.world.files.EmptyDirectory directory := by
  rcases allocate_eq_ok hallocate with ⟨-, -, i, -, hmake⟩
  exact FileStore.emptyDirectory_of_makeDirectory h hmake

/-- The directory that a test case allocates first in a small world. -/
theorem allocate_smallWorld :
    allocate ⟨smallWorld, new "t"⟩
      = (.ok "/tmp/pandrs_test_aaaaaa", (allocate ⟨smallWorld, new "t"⟩).2) :=
  Prod.ext (by decide +kernel) rfl

/-- A small world whose disk is full after the first byte of every file. -/
def fullWorld : World :=
  { smallWorld with refusals := fun _ => { write := some (1, .ofKind .storageFull) } }

theorem allocate_fullWorld :
    allocate ⟨fullWorld, new "t"⟩
      = (.ok "/tmp/pandrs_test_aaaaaa", (allocate ⟨fullWorld, new "t"⟩).2) :=
  Prod.ext (by decide +kernel) rfl

/-- In a small world nothing is refused. -/
theorem allows_smallWorld (content : List UInt8) :
    (allocate ⟨smallWorld, new "t"⟩).2.world.nextRefusals.Allows content := by
  rw [(frame_allocate _).2.2]
  exact Refusals.allows_nothing content

/-- What is left of a file of two bytes on the full disk. -/
theorem leaves_fullWorld :
    (allocate ⟨fullWorld, new "t"⟩).2.world.nextRefusals.create = none ∧
      (allocate ⟨fullWorld, new "t"⟩).2.world.nextRefusals.Leaves
        (allocate ⟨fullWorld, new "t"⟩).2.world.files.mask 0o644 [97, 10] (.ofKind .storageFull)
        [97] 0o644 := by
  have hwrite : fullWorld.nextRefusals.write = some (1, .ofKind .storageFull) := rfl
  rw [(frame_allocate _).2.2]
  exact ⟨rfl, .short rfl hwrite (by decide)⟩

theorem fits_csv (content : List UInt8) (site : String) :
    TestContext.Fits ⟨"test.csv", content, site⟩ "/tmp/pandrs_test_aaaaaa" := by
  have hname : IsFileName "test.csv" := ⟨by decide, by decide, by decide⟩
  have hpath : (Path.join "/tmp/pandrs_test_aaaaaa" "test.csv").utf8ByteSize
      ≤ FileStore.pathLimit := by decide
  exact ⟨hname, hpath⟩

/-- The first file of a test is created, one outside its directory is not, and one for which
there is no room is left with the bytes before. -/
theorem creates_smallWorld :
    (∃ files, files.below "/tmp/pandrs_test_aaaaaa" = [(["test.csv"], .file [97, 10] 0o644)] ∧
      context.traced.createFile [97, 10] ".csv" "f:1" (Scene.withCalls ⟨smallWorld, new "t"⟩ [])
        = TestContext.answered ⟨"test.csv", [97, 10], "f:1"⟩ "/tmp/pandrs_test_aaaaaa" files
          (allocate ⟨smallWorld, new "t"⟩).2) ∧
    context.traced.createFile [97, 10] "/../../x" "f:2" (Scene.withCalls ⟨smallWorld, new "t"⟩ [])
      = context.stopped ⟨"test/../../x", [97, 10], "f:2"⟩ "I/O error"
        ((allocate ⟨smallWorld, new "t"⟩).2.afterAsking
          (allocate ⟨smallWorld, new "t"⟩).2.world.files) ∧
    ∃ files, files.below "/tmp/pandrs_test_aaaaaa" = [(["test.csv"], .file [97] 0o644)] ∧
      context.traced.createFile [97, 10] ".csv" "f:3" (Scene.withCalls ⟨fullWorld, new "t"⟩ [])
        = context.stopped ⟨"test.csv", [97, 10], "f:3"⟩ "I/O error"
          ((allocate ⟨fullWorld, new "t"⟩).2.afterAsking files) := by
  have hempty := emptyDirectory_of_allocate closed_smallWorld allocate_smallWorld
  have hempty' := emptyDirectory_of_allocate closed_smallWorld allocate_fullWorld
  refine ⟨?_, ?_, ?_⟩
  · rcases ((TestContext.creates_fixtures context "f:1" ⟨smallWorld, new "t"⟩).1 [97, 10]
      ".csv").created _ _ allocate_smallWorld hempty (fits_csv _ _)
      (allows_smallWorld _) with ⟨files, -, hbelow, htraced⟩
    exact ⟨files, hbelow, htraced⟩
  · have hfits : ¬ TestContext.Fits ⟨"test/../../x", [97, 10], "f:2"⟩ "/tmp/pandrs_test_aaaaaa" :=
      fun h => h.name.no_slash (by decide)
    exact (((TestContext.creates_fixtures context "f:2" ⟨smallWorld, new "t"⟩).1 [97, 10]
      "/../../x").unfit _ _ allocate_smallWorld hempty hfits).2
  · rcases ((TestContext.creates_fixtures context "f:3" ⟨fullWorld, new "t"⟩).1 [97, 10]
      ".csv").unfinished _ _ _ _ _ allocate_fullWorld hempty' (fits_csv _ _)
      leaves_fullWorld.1 leaves_fullWorld.2 with ⟨-, files, -, hbelow, htraced⟩
    exact ⟨files, hbelow, htraced⟩

/-! ## Paths that are too long -/

/-- Parts that stay where they are. -/
def dots : Nat → String
  | 0 => ""
  | n + 1 => "./" ++ dots n

theorem utf8ByteSize_dots (n : Nat) : (dots n).utf8ByteSize = 2 * n := by
  induction n with
  | zero => rfl
  | succ n ih =>
      have hsize : "./".utf8ByteSize = 2 := by decide
      rw [dots, String.utf8ByteSize_append, ih, hsize]
      omega

theorem no_nul_dots (n : Nat) : '\x00' ∉ (dots n).toList := by
  induction n with
  | zero => simp [dots]
  | succ n ih => simp [dots, ih]

theorem parts_dots_append (n : Nat) (name : String) :
    Path.parts (dots n ++ name) = List.replicate n "." ++ Path.parts name := by
  induction n with
  | zero => simp [dots]
  | succ n ih =>
      have hdot : Path.parts "." = ["."] := by decide
      have hparts : Path.parts (dots (n + 1) ++ name)
          = Path.parts "." ++ Path.parts (dots n ++ name) := Path.parts_of_toList (by simp [dots])
      rw [hparts, ih, hdot, List.replicate_succ]
      rfl

/-- Dots lead nowhere else. -/
theorem walk_dots {files : FileStore} {here : Location} (h : files.node? here = some .directory)
    (n : Nat) : files.walk here (List.replicate n ".") = .ok here := by
  induction n with
  | zero => rfl
  | succ n ih =>
      rw [List.replicate_succ, FileStore.walk, h]
      exact ih

/-- What can be made with the next ending is allocated. -/
theorem exists_allocate {s : Scene TestCase} {files : FileStore}
    (hmake : s.world.files.makeDirectory (Path.join (s.state.base s.world)
      (s.state.config.leading ++ s.world.endings s.world.drawn)) = .ok files) :
    ∃ s', allocate s = (.ok (Path.join (s.state.base s.world)
      (s.state.config.leading ++ s.world.endings s.world.drawn)), s') := by
  have hattempts : ∃ tries, World.attempts = tries + 1 := ⟨65535, by unfold World.attempts; rfl⟩
  rcases hattempts with ⟨tries, htries⟩
  rw [allocate, World.makeFresh, htries]
  unfold World.tryFresh
  dsimp only
  rw [hmake]
  exact ⟨_, rfl⟩

/-- A test whose directories have long paths. -/
def longScene (n : Nat) : Scene TestCase := ⟨smallWorld, withConfig "long" ⟨none, dots n, false⟩⟩

/-- The directory that the test allocates first. -/
def longDirectory (n : Nat) : String := "/tmp/" ++ (dots n ++ "aaaaaa")

/-- A long extension. -/
def longExtension (n : Nat) : String := String.ofList ('.' :: List.replicate n 'x')

theorem utf8ByteSize_longDirectory (n : Nat) : (longDirectory n).utf8ByteSize = 2 * n + 11 := by
  have hsizes : "/tmp/".utf8ByteSize = 5 ∧ "aaaaaa".utf8ByteSize = 6 := by decide
  simp only [longDirectory, String.utf8ByteSize_append, utf8ByteSize_dots, hsizes]
  omega

theorem utf8ByteSize_longExtension (n : Nat) : (longExtension n).utf8ByteSize = n + 1 := by
  have hdot : (String.singleton '.').utf8ByteSize = 1 := by decide
  have hx : (String.singleton 'x').utf8ByteSize = 1 := by decide
  have hxs : (String.ofList (List.replicate n 'x')).utf8ByteSize = n := by
    induction n with
    | zero => rfl
    | succ n ih =>
        rw [List.replicate_succ, String.ofList_cons, String.utf8ByteSize_append, ih, hx]
        omega
  rw [longExtension, String.ofList_cons, String.utf8ByteSize_append, hxs, hdot]
  omega

/-- The directory can be made if its own path is not too long. -/
theorem makeDirectory_longDirectory {n : Nat} (h : 2 * n + 11 ≤ FileStore.pathLimit) :
    smallWorld.files.makeDirectory (longDirectory n)
      = .ok (smallWorld.files.put ["tmp", "aaaaaa"] .directory) := by
  have htmp : smallWorld.files.node? ["tmp"] = some .directory := by decide
  have hlocate : smallWorld.files.locateNew (longDirectory n) = .ok ["tmp", "aaaaaa"] := by
    refine FileStore.locateNew_eq_ok_iff.2
      ⟨["tmp"] ++ List.replicate n ".", "aaaaaa", ["tmp"], ?_, ?_, ?_, by decide⟩
    · refine FileStore.pathFault?_eq_none_iff.2 ⟨?_, ?_, ?_⟩
      · simp [longDirectory, no_nul_dots]
      · simp [longDirectory]
      · rwa [utf8ByteSize_longDirectory]
    · have hfirst : Path.parts "/tmp" = ["tmp"] := by decide
      have hlast : Path.parts "aaaaaa" = ["aaaaaa"] := by decide
      have hparts : Path.parts (longDirectory n)
          = Path.parts "/tmp" ++ Path.parts (dots n ++ "aaaaaa") :=
        Path.parts_of_toList (by simp [longDirectory])
      rw [hparts, hfirst, parts_dots_append, hlast, List.append_assoc]
    · rw [FileStore.walk_append]
      exact walk_dots htmp n
  rw [FileStore.makeDirectory, hlocate]

/-- The test allocates the directory, and it is empty. -/
theorem exists_allocate_longScene {n : Nat} (h : 2 * n + 11 ≤ FileStore.pathLimit) :
    ∃ s', allocate (longScene n) = (.ok (longDirectory n), s') ∧
      s'.world.files.EmptyDirectory (longDirectory n) := by
  have hrelative : Path.isAbsolute (dots n ++ "aaaaaa") = false := by
    cases n with
    | zero => decide
    | succ n => simp [Path.isAbsolute, dots]
  have hpath : Path.join "/tmp" (dots n ++ "aaaaaa") = longDirectory n := by
    rw [← String.toList_inj, Path.toList_join_of_relative hrelative (by decide) (by decide)]
    simp [longDirectory]
  have hmake := makeDirectory_longDirectory h
  rw [← hpath] at hmake ⊢
  rcases exists_allocate (s := longScene n) hmake with ⟨s', hallocate⟩
  exact ⟨s', hallocate, emptyDirectory_of_allocate closed_smallWorld hallocate⟩

theorem isFileName_longExtension {n : Nat} (h : n + 5 ≤ FileStore.nameLimit) :
    IsFileName ("test" ++ longExtension n) := by
  refine ⟨by simp [longExtension], by simp [longExtension], ?_⟩
  have htest : "test".utf8ByteSize = 4 := by decide
  rw [String.utf8ByteSize_append, utf8ByteSize_longExtension, htest]
  omega

/-- In an empty directory no file is created if its path is too long, though it has the name
of a single file. -/
theorem createFile_longPath :
    ∃ s', context.tempDir (longScene 1990) = (.ok (longDirectory 1990), s') ∧
      s'.world.files.EmptyDirectory (longDirectory 1990) ∧
      IsFileName ("test" ++ longExtension 250) ∧
      ∀ path, (context.createFile [97, 10, 49, 10] (longExtension 250) "f:1" (longScene 1990)).1
        ≠ .ok path := by
  rcases exists_allocate_longScene (n := 1990) (by decide) with ⟨s', hallocate, hempty⟩
  refine ⟨s', hallocate, hempty, isFileName_longExtension (by decide), fun path => ?_⟩
  have hcreates := TestContext.creates_createFile context [97, 10, 49, 10] (longExtension 250) "f:1"
    (longScene 1990)
  have hfits : ¬ TestContext.Fits
      ⟨TestContext.fixtureName (longExtension 250), [97, 10, 49, 10], "f:1"⟩
      (longDirectory 1990) := by
    intro h
    have hrelative : Path.isAbsolute (TestContext.fixtureName (longExtension 250)) = false := by
      simp [Path.isAbsolute, TestContext.fixtureName]
    have hsum := Nat.le_trans (Path.le_utf8ByteSize_join hrelative (longDirectory 1990)) h.path
    rw [TestContext.fixtureName, String.utf8ByteSize_append, utf8ByteSize_longDirectory,
      utf8ByteSize_longExtension] at hsum
    exact absurd hsum (by decide)
  rw [hcreates.erased, (hcreates.unfit _ _ hallocate hempty hfits).2]
  exact TestContext.stopped_ne_ok _ _ _ _ path

/-- In an empty directory an incomplete file is left if there is no room for more, though its
path is short. -/
theorem createFile_fullWorld :
    ∃ s', context.tempDir ⟨fullWorld, new "t"⟩ = (.ok "/tmp/pandrs_test_aaaaaa", s') ∧
      s'.world.files.EmptyDirectory "/tmp/pandrs_test_aaaaaa" ∧ IsFileName "test.csv" ∧
      (∀ path, (context.createFile [97, 10] ".csv" "f:1" ⟨fullWorld, new "t"⟩).1 ≠ .ok path) ∧
      (context.createFile [97, 10] ".csv" "f:1" ⟨fullWorld, new "t"⟩).2.world.files.below
        "/tmp/pandrs_test_aaaaaa" = [(["test.csv"], .file [97] 0o644)] := by
  have hempty := emptyDirectory_of_allocate closed_smallWorld allocate_fullWorld
  have hfits := fits_csv [97, 10] "f:1"
  have hcreates := TestContext.creates_createFile context [97, 10] ".csv" "f:1" ⟨fullWorld, new "t"⟩
  rcases hcreates.unfinished _ _ _ _ _ allocate_fullWorld hempty hfits leaves_fullWorld.1
    leaves_fullWorld.2 with ⟨-, files, -, hbelow, htraced⟩
  refine ⟨_, allocate_fullWorld, hempty, hfits.name, fun path => ?_, ?_⟩
  · rw [hcreates.erased, htraced]
    exact TestContext.stopped_ne_ok _ _ _ _ path
  · rw [hcreates.erased, htraced]
    exact hbelow

/-- Neither the name of a single file nor an empty directory makes sure that a file is created
there, nor that nothing is left there if it is not. -/
theorem createFile_longPath_and_fullWorld :
    (∃ s', context.tempDir (longScene 1990) = (.ok (longDirectory 1990), s') ∧
      s'.world.files.EmptyDirectory (longDirectory 1990) ∧
      IsFileName ("test" ++ longExtension 250) ∧
      ∀ path, (context.createFile [97, 10, 49, 10] (longExtension 250) "f:1" (longScene 1990)).1
        ≠ .ok path) ∧
    ∃ s', context.tempDir ⟨fullWorld, new "t"⟩ = (.ok "/tmp/pandrs_test_aaaaaa", s') ∧
      s'.world.files.EmptyDirectory "/tmp/pandrs_test_aaaaaa" ∧ IsFileName "test.csv" ∧
      (∀ path, (context.createFile [97, 10] ".csv" "f:1" ⟨fullWorld, new "t"⟩).1 ≠ .ok path) ∧
      (context.createFile [97, 10] ".csv" "f:1" ⟨fullWorld, new "t"⟩).2.world.files.below
        "/tmp/pandrs_test_aaaaaa" = [(["test.csv"], .file [97] 0o644)] :=
  ⟨createFile_longPath, createFile_fullWorld⟩

end TestCase

end TableFixture
