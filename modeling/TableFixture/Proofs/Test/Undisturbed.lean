import TableFixture.Proofs.Files.Subtree
import TableFixture.Proofs.Test.FixtureTables
import TableFixture.Proofs.Test.Hosting

/-!
# Fixture files do not disturb each other

Every directory that a test is given is a new one, and empty.  The directories that exist side by
side do not overlap, so that a step which neither removes a directory nor writes into it leaves
all of its entries as they were, whatever else the step creates, writes or removes.  Along a run
of such steps a fixture file stays the only one in its directory, and holds what it was created
with.

Main results:

- Theorem `Performs.keeps`: a step leaves the directories alone that it does not disturb.
- Theorem `Hosted.keeps_runSteps`: so does a run.
- Theorem `undisturbed_runs`: new directories are new and empty, and fixture files last.
-/

namespace TableFixture

open TableFixture.Path (target)

/-- Whether a step removes a directory or writes into it. -/
def Step.disturbs (directory : String) (s : Scene TestCase) : Step → Bool
  | .removeDirectory number => s.state.dirs[number]? == some directory
  | .addFile number name bytes =>
      match s.state.dirs[number]? with
      | none => false
      | some other =>
          (s.world.files.overwrite (Path.join other name) bytes).isOk &&
            (target directory).isPrefixOf (target (Path.join other name))
  | _ => false

namespace TestCase

open FileStore (IsFileName HoldsOnly)

/-- Whether one of the steps of a run removes a directory or writes into it. -/
def disturbed (directory : String) : List Step → Scene TestCase → Bool
  | [], _ => false
  | step :: steps, s =>
      step.disturbs directory s ||
        match perform step s with
        | (.answered _, s') => disturbed directory steps s'
        | _ => false

/-- A test case goes on holding a directory, of which no entry has changed. -/
structure Keeps (directory : String) (s s' : Scene TestCase) : Prop where
  held : directory ∈ s'.state.dirs
  tree : s'.world.files.tree (target directory) = s.world.files.tree (target directory)

/-- The directory of a fixture file holds this file, and the table that is read from it is that
of its content. -/
structure Lasts (action : Action) (file : FixtureFile) (directory : String) (files : FileStore) :
    Prop where
  holds : files.HoldsOnly directory file.name file.content 0o644
  bytes : Frame.ofCsvFile files (Path.join directory file.name) = Frame.ofCsvBytes file.content
  text : ∀ text : String, file.content = Text.Utf8.encode text.toList →
    Frame.ofCsvFile files (Path.join directory file.name) = Frame.ofCsv text
  frame : ∀ frame site, action = .createFrameCsv frame site →
    Frame.ofCsvFile files (Path.join directory file.name) = Frame.ofCsv frame.toCsv

/-- Directories and fixture files of the tests in a world do not disturb each other. -/
structure Undisturbed (name : String) (config : Config) (w : World) : Prop where
  /-- Where a directory is handed out nothing stood, and it is empty. -/
  fresh : ∀ {before answers s path s'}, Reaches ⟨w, withConfig name config⟩ before answers s →
    context.tempDir s = (.ok path, s') →
      (∀ other, s.world.files.isDirectory other = true → target other ≠ target path) ∧
      s.world.files.node? (target path) = none ∧ s'.world.files.EmptyDirectory path
  /-- A fixture file lies in a directory that was handed out for it, and lasts for as long as
  none of the later steps disturbs this directory. -/
  lasts : ∀ {before answers s action file path s'},
    Reaches ⟨w, withConfig name config⟩ before answers s → action.effect = .create file →
    perform (.act action) s = (.answered (.file path), s') →
      ∃ directory, (∃ s₁, context.tempDir s = (.ok directory, s₁)) ∧
        path = Path.join directory file.name ∧
        ∀ later, disturbed directory later s' = false →
          Lasts action file directory
            (runSteps (before ++ .act action :: later)
              ⟨w, withConfig name config⟩).scene.world.files

section

variable {w₀ : World} {config : Config} {s s' : Scene TestCase} {directory : String}

/-! ## What is left alone -/

/-- Allocating a directory leaves those alone that stand. -/
theorem Hosted.keeps_allocate (h : Hosted w₀ config s)
    (hendings : ∀ i, Path.IsEnding (w₀.endings i)) (hheld : directory ∈ s.state.dirs)
    (hstands : s.world.files.node? (target directory) = some .directory)
    {result : Except Error String} (hallocate : TestCase.allocate s = (result, s')) :
    Keeps directory s s' := by
  have hs' := h.allocate hendings hallocate
  cases result with
  | error e =>
      rcases allocate_eq_error hallocate with ⟨-, hstate, hfiles⟩
      exact ⟨hstate ▸ hheld, by rw [hfiles]⟩
  | ok path =>
      rcases allocate_eq_ok hallocate with ⟨-, hstate, -, -, hmake⟩
      have hdirs : s'.state.dirs = s.state.dirs ++ [path] := by rw [hstate]
      have hheld' : directory ∈ s'.state.dirs := by simp [hdirs, hheld]
      have hpath : path ∈ s'.state.dirs := by simp [hdirs]
      refine ⟨hheld', ?_⟩
      rw [(FileStore.makeDirectory_eq_ok hmake).2]
      exact FileStore.tree_put (hs'.not_prefix hheld' hpath (ne_of_allocate hallocate hstands)) _

/-- A file that is put into a directory that was allocated for it leaves those alone that stand:
the new directory neither contains nor is in another one. -/
theorem Hosted.keeps_put (h : Hosted w₀ config s) (hendings : ∀ i, Path.IsEnding (w₀.endings i))
    (hheld : directory ∈ s.state.dirs)
    (hstands : s.world.files.node? (target directory) = some .directory) {action : Action}
    {file : FixtureFile} {path : String} {l : Location} (heffect : action.effect = .create file)
    (hallocate : TestCase.allocate s = (.ok path, s'))
    (hlocate : s'.world.files.locateNew (Path.join path file.name) = .ok l)
    (hslash : Path.endsInSlash (Path.join path file.name) = false) (node : Node)
    (log : List LogEntry) (asked : Nat) :
    Keeps directory s
      ⟨{ s'.world with files := s'.world.files.put l node, log, asked }, s'.state⟩ := by
  have hs' := h.allocate hendings hallocate
  have hkeeps := h.keeps_allocate hendings hheld hstands hallocate
  have hne := ne_of_allocate hallocate hstands
  have hpath : path ∈ s'.state.dirs := by simp [(allocate_eq_ok hallocate).2.1]
  obtain rfl := (location_of_created h.files.closed heffect hallocate hlocate hslash).2
  have helsewhere : ¬ target directory <+: target path ++ [file.name] := by
    rw [List.prefix_concat_iff]
    rintro (heq | hbelow)
    · exact hs'.not_prefix hpath hkeeps.held hne.symm (heq ▸ List.prefix_append _ _)
    · exact hs'.not_prefix hkeeps.held hpath hne hbelow
  exact ⟨hkeeps.held, (FileStore.tree_put helsewhere _).trans hkeeps.tree⟩

/-- A step leaves a directory that stands alone, unless it disturbs it. -/
theorem Performs.keeps {step : Step} {result : StepEnd × Scene TestCase}
    (hperforms : Performs s step result) (h : Hosted w₀ config s)
    (hendings : ∀ i, Path.IsEnding (w₀.endings i)) (hheld : directory ∈ s.state.dirs)
    (hstands : s.world.files.node? (target directory) = some .directory)
    (hstep : step.disturbs directory s = false) : Keeps directory s result.2 := by
  cases hperforms with
  | allocated _ hallocate => exact h.keeps_allocate hendings hheld hstands hallocate
  | notAllocated _ hallocate => exact h.keeps_allocate hendings hheld hstands hallocate
  | notCreated _ hallocate _ =>
      have hkeeps := h.keeps_allocate hendings hheld hstands hallocate
      exact ⟨hkeeps.held, hkeeps.tree⟩
  | notHoused _ hallocate =>
      have hkeeps := h.keeps_allocate hendings hheld hstands hallocate
      exact ⟨hkeeps.held, hkeeps.tree⟩
  | created heffect hallocate hlocate hslash =>
      exact h.keeps_put hendings hheld hstands heffect hallocate hlocate hslash _ _ _
  | unfinished heffect hallocate hlocate hslash _ =>
      exact h.keeps_put hendings hheld hstands heffect hallocate hlocate hslash _ _ _
  | @removed number path files hnumber hremove =>
      rcases FileStore.removeTree_eq_ok hremove with ⟨-, -, rfl⟩
      have hpath := List.mem_of_getElem? hnumber
      have hne : directory ≠ path := by
        rintro rfl
        simp [Step.disturbs, hnumber] at hstep
      exact ⟨hheld, FileStore.tree_eraseTree (h.not_prefix hheld hpath hne)
        (h.not_prefix hpath hheld hne.symm)⟩
  | @written number path name bytes files hnumber hwrite =>
      have helsewhere : (target directory).isPrefixOf (target (Path.join path name)) = false := by
        simpa [Step.disturbs, hnumber, hwrite, Except.isOk, Except.toBool] using hstep
      rw [Bool.eq_false_iff, ne_eq, List.isPrefixOf_iff_prefix] at helsewhere
      exact ⟨hheld, FileStore.tree_overwrite helsewhere hwrite⟩
  | recorded | aborted | listed | asked | taken | observed | notRemoved | notWritten | finished
  | panicked => exact ⟨hheld, rfl⟩

/-- A directory of which no entry has changed still stands. -/
theorem Keeps.stands (hkeeps : Keeps directory s s') (hne : target directory ≠ [])
    (hstands : s.world.files.node? (target directory) = some .directory) :
    s'.world.files.node? (target directory) = some .directory := by
  rw [FileStore.node?_eq_of_tree hne hkeeps.tree (List.prefix_refl _), hstands]

/-- A run leaves a directory that stands alone, unless one of its steps disturbs it. -/
theorem Hosted.keeps_runSteps (h : Hosted w₀ config s) (h₀ : w₀.files.Closed)
    (hendings : ∀ i, Path.IsEnding (w₀.endings i)) (hheld : directory ∈ s.state.dirs)
    (hstands : s.world.files.node? (target directory) = some .directory) {steps : List Step}
    (hsteps : disturbed directory steps s = false) :
    Hosted w₀ config (runSteps steps s).scene ∧ Keeps directory s (runSteps steps s).scene := by
  induction steps generalizing s with
  | nil => exact ⟨h, hheld, rfl⟩
  | cons step steps ih =>
      rw [disturbed, Bool.or_eq_false_iff] at hsteps
      have hhosted := (performs s step).hosted h h₀ hendings
      have hkeeps := (performs s step).keeps h hendings hheld hstands hsteps.1
      rw [runSteps]
      rcases hend : perform step s with ⟨answer | _ | text, s'⟩
      · rw [hend] at hsteps hhosted hkeeps
        rcases ih hhosted hkeeps.held (hkeeps.stands (h.target_ne_nil hheld) hstands) hsteps.2 with
          ⟨hhosted', hkeeps'⟩
        exact ⟨hhosted', hkeeps'.held, hkeeps'.tree.trans hkeeps.tree⟩
      · rw [hend] at hhosted hkeeps
        exact ⟨hhosted, hkeeps⟩
      · rw [hend] at hhosted hkeeps
        exact ⟨hhosted, hkeeps⟩

/-! ## Fixture files last -/

/-- What is read from a file that holds the content of a fixture file. -/
theorem lasts_of_holds {action : Action} {file : FixtureFile} {files : FileStore}
    (heffect : action.effect = .create file)
    (hholds : files.HoldsOnly directory file.name file.content 0o644) :
    Lasts action file directory files := by
  have hbytes := Frame.ofCsvFile_of_open hholds.opened
  refine ⟨hholds, hbytes, fun text htext => ?_, fun frame site haction => ?_⟩
  · rw [hbytes, htext, Frame.ofCsv]
  · subst haction
    obtain rfl := Action.Effect.create.inj heffect
    rw [hbytes, Frame.ofCsv]

/-- A fixture file that was created is the only one in its directory. -/
theorem holdsOnly_of_created (hclosed : s.world.files.Closed) {action : Action}
    {file : FixtureFile} (heffect : action.effect = .create file)
    (hallocate : allocate s = (.ok directory, s')) {l : Location}
    (hlocate : s'.world.files.locateNew (Path.join directory file.name) = .ok l)
    (hslash : Path.endsInSlash (Path.join directory file.name) = false) :
    (s'.world.files.put l (.file file.content 0o644)).HoldsOnly directory file.name
      file.content 0o644 := by
  have hempty := emptyDirectory_of_allocate hclosed hallocate
  obtain rfl := (location_of_created hclosed heffect hallocate hlocate hslash).2
  exact ⟨FileStore.open?_put_of_locateNew hlocate hslash _ _, hempty.below_put hlocate _ _⟩

/-- A fixture file that was created lasts for as long as its directory is not disturbed. -/
theorem Hosted.lasts_of_created (h : Hosted w₀ config s) (h₀ : w₀.files.Closed)
    (hendings : ∀ i, Path.IsEnding (w₀.endings i)) {action : Action} {file : FixtureFile}
    (heffect : action.effect = .create file)
    (hallocate : TestCase.allocate s = (.ok directory, s')) {l : Location}
    (hlocate : s'.world.files.locateNew (Path.join directory file.name) = .ok l)
    (hslash : Path.endsInSlash (Path.join directory file.name) = false) {s'' : Scene TestCase}
    (hs'' : s'' = s'.wrote (s'.world.files.put l (.file file.content 0o644)) file.content.length
      (Path.join directory file.name))
    {later : List Step} (hlater : disturbed directory later s'' = false) :
    Lasts action file directory (runSteps later s'').scene.world.files := by
  subst hs''
  have hhosted := (Performs.created heffect hallocate hlocate hslash).hosted h h₀ hendings
  have hheld : directory ∈ s'.state.dirs := by simp [(allocate_eq_ok hallocate).2.1]
  have hclosed := h.files.closed
  have hholds := holdsOnly_of_created hclosed heffect hallocate hlocate hslash
  have hstands : (s'.world.files.put l (.file file.content 0o644)).node? (target directory)
      = some .directory :=
    FileStore.directories_put_of_locateNew hlocate _ _
      (emptyDirectory_of_allocate hclosed hallocate).node?_target
  rcases hhosted.keeps_runSteps h₀ hendings hheld hstands hlater with ⟨hhosted', hkeeps⟩
  have hne := hhosted.target_ne_nil hheld
  have hstands' := hkeeps.stands hne hstands
  rcases exists_toList_of_create heffect with ⟨cs, hname⟩
  have hfile := (location_of_created hclosed heffect hallocate hlocate hslash).1
  exact lasts_of_holds heffect (hholds.of_tree hname (by decide) (by decide) hfile hne
    (hhosted.files.locate hheld hstands) (hhosted'.files.locate hkeeps.held hstands')
    hkeeps.tree hstands')

/-- Where a directory is handed out nothing stood, and it is empty. -/
theorem fresh_of_allocate (hclosed : s.world.files.Closed) {path : String}
    (hallocate : allocate s = (.ok path, s')) :
    (∀ other, s.world.files.isDirectory other = true → target other ≠ target path) ∧
      s.world.files.node? (target path) = none ∧ s'.world.files.EmptyDirectory path := by
  rcases allocate_eq_ok hallocate with ⟨-, -, -, -, hmake⟩
  have hfree := FileStore.node?_of_locateNew (FileStore.makeDirectory_eq_ok hmake).1
  refine ⟨fun other hother heq => ?_, hfree, emptyDirectory_of_allocate hclosed hallocate⟩
  unfold FileStore.isDirectory at hother
  split at hother
  next l hlocate =>
    obtain rfl := FileStore.eq_target_of_locate hlocate
    rw [FileStore.hasDirectory, heq, hfree] at hother
    cases hother
  next => cases hother

end

/-- Every directory that a test is given is a new one, and empty; and whatever a test does, the
fixture files last whose directories it does not disturb. -/
theorem undisturbed_runs (name : String) (config : Config) (w : World)
    (hclosed : w.files.Closed) (hendings : ∀ i, Path.IsEnding (w.endings i)) :
    Undisturbed name config w := by
  have hstart := Hosted.start hclosed name config
  constructor
  · intro before answers s path s' hreaches hallocate
    exact fresh_of_allocate (hreaches.hosted hstart hclosed hendings).files.closed hallocate
  · intro before answers s action file path s' hreaches heffect hperform
    have hhosted := hreaches.hosted hstart hclosed hendings
    have hperforms := performs s (.act action)
    rw [hperform] at hperforms
    cases hperforms with
    | @created _ file' directory s₁ l heffect' hallocate hlocate hslash =>
        obtain rfl := Action.Effect.create.inj (heffect.symm.trans heffect')
        refine ⟨directory, ⟨s₁, hallocate⟩, rfl, fun later hlater => ?_⟩
        rcases hreaches.runSteps_append (.act action :: later) with ⟨trace, -, hrun⟩
        rw [hrun, runSteps_cons_of_answered hperform]
        exact hhosted.lasts_of_created hclosed hendings heffect hallocate hlocate hslash rfl hlater

/-- What a test does after it created a fixture file: it uses another directory, removes it, and
is stopped because a second fixture file cannot be created. -/
def laterSteps : List Step :=
  [.act .tempDir, .addFile 1 "x" [1], .act (.record ⟨"a", "f:2"⟩), .removeDirectory 1,
    .act (.createFile [] "/x" "f:3")]

/-- The fixture file lasts through these steps. -/
theorem lasts_laterSteps :
    Lasts (.createCsv [97, 10, 49, 10] "f:1") ⟨"test.csv", [97, 10, 49, 10], "f:1"⟩
      "/tmp/pandrs_test_aaaaaa"
      (runSteps (.act (.createCsv [97, 10, 49, 10] "f:1") :: laterSteps)
        ⟨smallWorld, new "t"⟩).scene.world.files := by
  have hundisturbed := undisturbed_runs "t" .standard smallWorld closed_smallWorld
    isEnding_smallWorld
  rcases exists_createCsv_smallWorld [97, 10, 49, 10] "f:1" with ⟨path, s', hcreate⟩
  have hperform : perform (.act (.createCsv [97, 10, 49, 10] "f:1")) ⟨smallWorld, new "t"⟩
      = (.answered (.file path), s') := by
    simp [perform, Action.perform, hcreate, Except.map]
  rcases hundisturbed.lasts .start rfl hperform with ⟨directory, ⟨s₁, hdirectory⟩, -, hlasts⟩
  have hallocate : allocate ⟨smallWorld, new "t"⟩ = (.ok directory, s₁) := hdirectory
  rw [allocate_smallWorld] at hallocate
  obtain rfl := Except.ok.inj (Prod.mk.inj hallocate).1
  have hlater : disturbed "/tmp/pandrs_test_aaaaaa" laterSteps
      (context.createCsv [97, 10, 49, 10] "f:1" ⟨smallWorld, new "t"⟩).2 = false := by
    decide +kernel
  rw [hcreate] at hlater
  have hfiles := hlasts laterSteps hlater
  rwa [List.nil_append] at hfiles

end TestCase

end TableFixture
