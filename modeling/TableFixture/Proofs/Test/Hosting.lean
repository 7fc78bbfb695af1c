import TableFixture.Proofs.Files.Subtree
import TableFixture.Proofs.Test.Creation

/-!
# Hosting the directories of a test

At every moment the files of a test host the directories that its test case holds, whatever else
the test does to files: it may write beside them, or over what existed before.  So these
directories are found where they name as long as they stand, none of them lies in another one,
and a fixture file is created in the very directory that was allocated for it.

Main results:

- Theorem `Performs.hosted`: a step keeps the directories hosted.
- Theorem `Reaches.hosted`: so they are in every scene that a test reaches.
- Theorem `Hosted.not_prefix`: directories do not overlap.
- Theorem `location_of_created`: where a fixture file lies.
-/

namespace TableFixture.TestCase

open TableFixture.Path (target)
open FileStore (Hosts IsFileName)

/-- The files of a scene host the directories that its test case holds, below the directory in
which a test case with the given settings allocates. -/
structure Hosted (w₀ : World) (config : Config) (s : Scene TestCase) : Prop
    extends Settled w₀ config s where
  files : Hosts w₀.files (config.root.getD w₀.temporary) config.leading s.state.dirs s.world.files

variable {w₀ : World} {config : Config} {s s' : Scene TestCase} {directory : String}

theorem Hosted.start (h₀ : w₀.files.Closed) (name : String) (config : Config) :
    Hosted w₀ config ⟨w₀, withConfig name config⟩ :=
  ⟨⟨rfl, rfl, rfl⟩, .refl h₀ _ _⟩

/-- Files that go on hosting the directories can be exchanged; the log and the failures do not
matter. -/
theorem Hosted.of_files (h : Hosted w₀ config s) {files : FileStore}
    (hfiles : Hosts w₀.files (config.root.getD w₀.temporary) config.leading s.state.dirs files)
    (log : List LogEntry) (asked : Nat) (failures : List Failure) :
    Hosted w₀ config ⟨{ s.world with files, log, asked }, { s.state with failures }⟩ :=
  ⟨⟨h.endings, h.temporary, h.settings⟩, hfiles⟩

/-- Allocating a directory, whether it succeeds or not, keeps directories hosted. -/
theorem Hosted.allocate (h : Hosted w₀ config s) (hendings : ∀ i, Path.IsEnding (w₀.endings i))
    {result : Except Error String} (hallocate : TestCase.allocate s = (result, s')) :
    Hosted w₀ config s' := by
  refine ⟨h.toSettled.allocate hallocate, ?_⟩
  rw [dirs_allocate hallocate]
  cases result with
  | error e =>
      rcases allocate_eq_error hallocate with ⟨hfresh, -, hfiles⟩
      rw [hfresh, List.append_nil, hfiles]
      exact h.files
  | ok path =>
      rcases allocate_eq_ok hallocate with ⟨hfresh, -, -, -, hmake⟩
      rw [hfresh]
      exact h.files.makeDirectory (h.ends hendings hallocate) hmake

/-- A file that is put into a directory that was allocated for it keeps directories hosted. -/
theorem Hosted.put (h : Hosted w₀ config s) (hendings : ∀ i, Path.IsEnding (w₀.endings i))
    (hallocate : TestCase.allocate s = (.ok directory, s')) {name : String} {l : Location}
    (hlocate : s'.world.files.locateNew (Path.join directory name) = .ok l) (bytes : List UInt8)
    (mode : Nat) (log : List LogEntry) (asked : Nat) :
    Hosted w₀ config
      ⟨{ s'.world with files := s'.world.files.put l (.file bytes mode), log, asked },
        s'.state⟩ := by
  have hs' := h.allocate hendings hallocate
  have hfree := FileStore.node?_of_locateNew hlocate
  have hne : l ≠ [] := FileStore.ne_nil_of_ne_directory (by rw [hfree]; simp)
  refine hs'.of_files (hs'.files.writes ?_ (FileStore.writes_put _ hne _ _) ?_ ?_) _ _ _
  · simp [(allocate_eq_ok hallocate).2.1]
  · simp [hfree]
  · exact fun _ _ => FileStore.parent_of_locateNew hlocate

/-- A step keeps directories hosted, however it ends. -/
theorem Performs.hosted {step : Step} {result : StepEnd × Scene TestCase}
    (hperforms : Performs s step result) (h : Hosted w₀ config s) (h₀ : w₀.files.Closed)
    (hendings : ∀ i, Path.IsEnding (w₀.endings i)) : Hosted w₀ config result.2 := by
  cases hperforms with
  | allocated _ hallocate => exact h.allocate hendings hallocate
  | notAllocated _ hallocate => exact h.allocate hendings hallocate
  | created _ hallocate hlocate _ => exact h.put hendings hallocate hlocate _ _ _ _
  | unfinished _ hallocate hlocate _ _ => exact h.put hendings hallocate hlocate _ _ _ _
  | notCreated _ hallocate _ =>
      have hs' := h.allocate hendings hallocate
      exact hs'.of_files hs'.files _ _ _
  | notHoused _ hallocate =>
      have hs' := h.allocate hendings hallocate
      exact hs'.of_files hs'.files _ _ _
  | removed hnumber hremove =>
      exact h.of_files (h.files.removeTree h₀ (List.mem_of_getElem? hnumber) hremove) _ _ _
  | written hnumber hwrite =>
      have hdirs := List.ne_nil_of_mem (List.mem_of_getElem? hnumber)
      exact h.of_files (h.files.overwrite hdirs hwrite) _ _ _
  | recorded | aborted | listed | asked | taken | observed | notRemoved | notWritten | finished
  | panicked => exact h.of_files h.files _ _ _

/-- Directories are hosted in every scene that a test reaches. -/
theorem Reaches.hosted {start : Scene TestCase} {before : List Step} {answers : List Answer}
    (hreaches : Reaches start before answers s) (h : Hosted w₀ config start)
    (h₀ : w₀.files.Closed) (hendings : ∀ i, Path.IsEnding (w₀.endings i)) :
    Hosted w₀ config s := by
  induction hreaches with
  | start => exact h
  | @step before answers s s' step answer _ hstep ih =>
      have hnext := (performs s step).hosted ih h₀ hendings
      rwa [hstep] at hnext

/-! ## Directories and fixture files side by side -/

/-- Of two directories that a test case holds none lies in the other. -/
theorem Hosted.not_prefix (h : Hosted w₀ config s) {path : String}
    (hheld : directory ∈ s.state.dirs) (hpath : path ∈ s.state.dirs) (hne : directory ≠ path) :
    ¬ target directory <+: target path := fun hbelow =>
  hne ((h.files.ends directory hheld).eq_of_below (h.files.ends path hpath) hbelow)

theorem Hosted.target_ne_nil (h : Hosted w₀ config s) (hheld : directory ∈ s.state.dirs) :
    target directory ≠ [] :=
  FileStore.ne_nil_of_ne_directory (s := w₀.files)
    (by rw [FileStore.node?_of_locateNew (h.files.creatable directory hheld)]; simp)

/-- What is allocated is none of the directories that stand. -/
theorem ne_of_allocate {path : String} (hallocate : allocate s = (.ok path, s'))
    (hstands : s.world.files.node? (target directory) = some .directory) : directory ≠ path := by
  rintro rfl
  rcases allocate_eq_ok hallocate with ⟨-, -, -, -, hmake⟩
  rw [FileStore.node?_of_locateNew (FileStore.makeDirectory_eq_ok hmake).1] at hstands
  cases hstands

/-- Where a fixture file is created: under the name of a single file, in the directory that was
allocated for it. -/
theorem location_of_created (hclosed : s.world.files.Closed) {action : Action} {file : FixtureFile}
    (heffect : action.effect = .create file) (hallocate : allocate s = (.ok directory, s'))
    {l : Location} (hlocate : s'.world.files.locateNew (Path.join directory file.name) = .ok l)
    (hslash : Path.endsInSlash (Path.join directory file.name) = false) :
    IsFileName file.name ∧ l = target directory ++ [file.name] := by
  rcases exists_toList_of_create heffect with ⟨cs, hname⟩
  have hempty := emptyDirectory_of_allocate hclosed hallocate
  have hfile := (hempty.isFileName_of_locateNew hname (by decide) (by decide) hlocate hslash).1
  refine ⟨hfile, ?_⟩
  rw [FileStore.eq_target_of_locateNew hlocate]
  exact (FileStore.target_join_of_isFileName hname (by decide) (by decide) hfile directory).1

end TableFixture.TestCase
