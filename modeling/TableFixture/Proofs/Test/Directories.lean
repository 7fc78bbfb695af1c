import TableFixture.Proofs.Files.Confined
import TableFixture.Proofs.Test.History

/-!
# The directories of a test

A ledger follows a test: it lists the directories that its steps allocate, whatever becomes
of the steps, and those of them that the test did not remove again.  A test case holds the
directories in its ledger at every moment, and what the test does is confined to them.  So
once they are released nothing of the test is left, and if they are to be kept they stay as
they are.

Main results:

- Theorem `Performs.tracks`: every step agrees with the ledger.
- Theorem `Tracks.runSteps`: so does every run.
- Theorem `lifetimes_execute`: directories live exactly as long as their test case.
-/

namespace TableFixture

/-- Files that a step adds to a directory are inside it. -/
def Step.IsInside : Step → Prop
  | .addFile _ name _ => Path.IsInside name
  | _ => True

namespace World

/-- Making a directory draws no other endings, has no other place for them and asks for no new
file. -/
theorem frame_makeFresh (w : World) (base leading : String) :
    (w.makeFresh base leading).2.endings = w.endings ∧
      (w.makeFresh base leading).2.temporary = w.temporary ∧
      (w.makeFresh base leading).2.nextRefusals = w.nextRefusals := by
  unfold makeFresh
  split <;> exact ⟨rfl, rfl, rfl⟩

theorem files_makeFresh_of_error {w w' : World} {base leading : String} {e : SystemError}
    (h : w.makeFresh base leading = (.error e, w')) : w'.files = w.files := by
  unfold makeFresh at h
  split at h
  · cases h
  · simp only [Prod.mk.injEq] at h
    rw [← h.2]

end World

namespace TestCase

open FileStore (Confined)

/-! ## What allocating does -/

/-- The directory that can be made freshly in a scene, if there is one. -/
def fresh (s : Scene TestCase) : List String :=
  match (s.world.makeFresh (s.state.base s.world) s.state.config.leading).1 with
  | .ok path => [path]
  | .error _ => []

section

variable {w₀ : World} {config : Config} {s s' : Scene TestCase}

/-- What is allocated is a directory that can be made freshly, and that then exists. -/
theorem allocate_eq_ok {path : String} (h : allocate s = (.ok path, s')) :
    fresh s = [path] ∧ s'.state = { s.state with dirs := s.state.dirs ++ [path] } ∧
      ∃ i, path = Path.join (s.state.base s.world) (s.state.config.leading ++ s.world.endings i) ∧
        s.world.files.makeDirectory path = .ok s'.world.files := by
  unfold allocate at h
  unfold fresh
  rcases hmake : s.world.makeFresh (s.state.base s.world) s.state.config.leading with
    ⟨e | path', w⟩
  · rw [hmake] at h
    cases h
  · rcases World.makeFresh_eq_ok hmake with ⟨i, hpath, hdirectory⟩
    rw [hmake] at h
    cases h
    exact ⟨rfl, rfl, i, hpath, hdirectory⟩

/-- If nothing can be allocated, neither files nor directories change. -/
theorem allocate_eq_error {e : Error} (h : allocate s = (.error e, s')) :
    fresh s = [] ∧ s'.state = s.state ∧ s'.world.files = s.world.files := by
  unfold allocate at h
  unfold fresh
  rcases hmake : s.world.makeFresh (s.state.base s.world) s.state.config.leading with
    ⟨e' | path, w⟩
  · rw [hmake] at h
    cases h
    exact ⟨rfl, rfl, World.files_makeFresh_of_error hmake⟩
  · rw [hmake] at h
    cases h

theorem frame_allocate (s : Scene TestCase) :
    (allocate s).2.world.endings = s.world.endings ∧
      (allocate s).2.world.temporary = s.world.temporary ∧
      (allocate s).2.world.nextRefusals = s.world.nextRefusals := by
  have hframe := s.world.frame_makeFresh (s.state.base s.world) s.state.config.leading
  unfold allocate
  rcases hmake : s.world.makeFresh (s.state.base s.world) s.state.config.leading with
    ⟨e | path, w⟩
  · rw [hmake] at hframe
    exact hframe
  · rw [hmake] at hframe
    exact hframe

/-- A test case holds the directory that is allocated, if there is one. -/
theorem dirs_allocate {result : Except Error String} (h : allocate s = (result, s')) :
    s'.state.dirs = s.state.dirs ++ fresh s := by
  cases result with
  | error e =>
      rcases allocate_eq_error h with ⟨hfresh, hstate, -⟩
      rw [hfresh, hstate, List.append_nil]
  | ok path =>
      rcases allocate_eq_ok h with ⟨hfresh, hstate, -⟩
      rw [hfresh, hstate]

/-! ## What no step changes -/

/-- Where, and under which names, the directories of a test are allocated. -/
structure Settled (w₀ : World) (config : Config) (s : Scene TestCase) : Prop where
  endings : s.world.endings = w₀.endings
  temporary : s.world.temporary = w₀.temporary
  settings : s.state.config = config

/-- What can be allocated is a name with an ending, below the directory in which to allocate. -/
theorem Settled.ends (h : Settled w₀ config s) (hendings : ∀ i, Path.IsEnding (w₀.endings i))
    {path : String} (hallocate : TestCase.allocate s = (.ok path, s')) :
    Path.Ends (config.root.getD w₀.temporary) config.leading path := by
  rcases allocate_eq_ok hallocate with ⟨-, -, i, hpath, -⟩
  exact ⟨w₀.endings i, hendings i, by rw [hpath, base, h.settings, h.temporary, h.endings]⟩

theorem Settled.allocate (h : Settled w₀ config s) {result : Except Error String}
    (hallocate : TestCase.allocate s = (result, s')) : Settled w₀ config s' := by
  have hframe := frame_allocate s
  rcases state_allocate hallocate with ⟨dirs, hstate⟩
  rw [hallocate] at hframe
  exact ⟨hframe.1.trans h.endings, hframe.2.1.trans h.temporary, hstate ▸ h.settings⟩

end

/-! ## The ledger of a test -/

/-- The directories that a test allocated, and those that it did not remove again. -/
structure Ledger where
  allocated : List String
  standing : List String

/-- The directory that an action allocates, if there is one.  To create a fixture file is
to allocate a directory, whether the file can be written or not. -/
def allocatedBy (s : Scene TestCase) (action : Action) : List String :=
  match action.effect with
  | .allocate | .create _ => fresh s
  | _ => []

/-- The ledger after a step. -/
def Ledger.after (s : Scene TestCase) (ledger : Ledger) : Step → Ledger
  | .act action =>
      ⟨ledger.allocated ++ allocatedBy s action, ledger.standing ++ allocatedBy s action⟩
  | .removeDirectory number =>
      match ledger.allocated[number]? with
      | none => ledger
      | some path => { ledger with standing := ledger.standing.filter (· ≠ path) }
  | _ => ledger

/-- The ledger of a run, the steps that end it included. -/
def ledgerFrom : List Step → Scene TestCase → Ledger → Ledger
  | [], _, ledger => ledger
  | step :: steps, s, ledger =>
      match perform step s with
      | (.answered _, s') => ledgerFrom steps s' (ledger.after s step)
      | _ => ledger.after s step

/-- The ledger of a test. -/
def ledger (c : TestCase) (steps : List Step) (w : World) : Ledger :=
  ledgerFrom steps ⟨w, c⟩ ⟨[], []⟩

/-! ## What a step does to directories -/

/-- A scene agrees with a ledger: the test case holds the directories that were allocated,
and what happened to the files since the start is confined to them. -/
structure Tracks (w₀ : World) (config : Config) (ledger : Ledger) (s : Scene TestCase) :
    Prop where
  endings : s.world.endings = w₀.endings
  temporary : s.world.temporary = w₀.temporary
  settings : s.state.config = config
  dirs : s.state.dirs = ledger.allocated
  files : Confined w₀.files (config.root.getD w₀.temporary) config.leading ledger.allocated
    ledger.standing s.world.files

variable {w₀ : World} {config : Config} {l : Ledger} {s s' : Scene TestCase}

theorem Tracks.start (h₀ : w₀.files.Closed) (name : String) (config : Config) :
    Tracks w₀ config ⟨[], []⟩ ⟨w₀, withConfig name config⟩ :=
  ⟨rfl, rfl, rfl, rfl, .refl h₀ _ _⟩

theorem Tracks.settled (h : Tracks w₀ config l s) : Settled w₀ config s :=
  ⟨h.endings, h.temporary, h.settings⟩

/-- Only files, settings and directories matter. -/
theorem Tracks.of_files (h : Tracks w₀ config l s) {files : FileStore}
    (hfiles : Confined w₀.files (config.root.getD w₀.temporary) config.leading l.allocated
      l.standing files) (log : List LogEntry) (asked : Nat) (failures : List Failure) :
    Tracks w₀ config l ⟨{ s.world with files, log, asked }, { s.state with failures }⟩ :=
  ⟨h.endings, h.temporary, h.settings, h.dirs, hfiles⟩

/-- A directory that is allocated is entered into the ledger. -/
theorem Tracks.allocate (h : Tracks w₀ config l s) (h₀ : w₀.files.Closed)
    (hendings : ∀ i, Path.IsEnding (w₀.endings i)) {result : Except Error String}
    (hallocate : TestCase.allocate s = (result, s')) :
    Tracks w₀ config ⟨l.allocated ++ fresh s, l.standing ++ fresh s⟩ s' := by
  have hsettled := h.settled.allocate hallocate
  refine ⟨hsettled.endings, hsettled.temporary, hsettled.settings, ?_, ?_⟩
  · rw [(dirs_allocate hallocate), h.dirs]
  · cases result with
    | error e =>
        rcases allocate_eq_error hallocate with ⟨hfresh, -, hfiles⟩
        rw [hfresh, List.append_nil, List.append_nil, hfiles]
        exact h.files
    | ok path =>
        rcases allocate_eq_ok hallocate with ⟨hfresh, -, -, -, hmake⟩
        rw [hfresh]
        exact h.files.makeDirectory h₀ (h.settled.ends hendings hallocate) hmake

/-- A fixture file stays in the directory that is allocated for it, whatever its bytes are. -/
theorem Tracks.create (h : Tracks w₀ config l s) (h₀ : w₀.files.Closed)
    (hendings : ∀ i, Path.IsEnding (w₀.endings i)) {action : Action} {file : FixtureFile}
    {directory : String} (heffect : action.effect = .create file)
    (hallocate : TestCase.allocate s = (.ok directory, s')) {location : Location}
    (hlocate : s'.world.files.locateNew (Path.join directory file.name) = .ok location)
    (bytes : List UInt8) (mode : Nat) (log : List LogEntry) (asked : Nat) :
    Tracks w₀ config ⟨l.allocated ++ fresh s, l.standing ++ fresh s⟩
      ⟨{ s'.world with files := s'.world.files.put location (.file bytes mode), log, asked },
        s'.state⟩ := by
  have htracks := h.allocate h₀ hendings hallocate
  rcases allocate_eq_ok hallocate with ⟨hfresh, -, -, -, hmake⟩
  rcases exists_toList_of_create heffect with ⟨cs, hname⟩
  have hmem : directory ∈ l.allocated ++ fresh s := by simp [hfresh]
  have hne : location ≠ [] :=
    FileStore.ne_nil_of_ne_directory (by rw [FileStore.node?_of_locateNew hlocate]; simp)
  have hwritten := FileStore.writes_put s'.world.files hne bytes mode
  obtain rfl := FileStore.eq_target_of_locateNew hlocate
  exact htracks.of_files (htracks.files.createNew hmem hname (by decide) (by decide)
    (h.files.closed.empty_of_makeDirectory hmake) hlocate hwritten) _ _ _

/-- A step agrees with the ledger, however it ends. -/
theorem Performs.tracks {step : Step} {result : StepEnd × Scene TestCase}
    (hperforms : Performs s step result) (h : Tracks w₀ config l s) (h₀ : w₀.files.Closed)
    (hendings : ∀ i, Path.IsEnding (w₀.endings i)) (hinside : step.IsInside) :
    Tracks w₀ config (l.after s step) result.2 := by
  cases hperforms with
  | allocated heffect hallocate =>
      simp only [Ledger.after, allocatedBy, heffect]
      exact h.allocate h₀ hendings hallocate
  | notAllocated heffect hallocate =>
      simp only [Ledger.after, allocatedBy, heffect]
      exact h.allocate h₀ hendings hallocate
  | created heffect hallocate hlocate _ =>
      simp only [Ledger.after, allocatedBy, heffect]
      exact h.create h₀ hendings heffect hallocate hlocate _ _ _ _
  | unfinished heffect hallocate hlocate _ _ =>
      simp only [Ledger.after, allocatedBy, heffect]
      exact h.create h₀ hendings heffect hallocate hlocate _ _ _ _
  | notCreated heffect hallocate _ =>
      simp only [Ledger.after, allocatedBy, heffect]
      have htracks := h.allocate h₀ hendings hallocate
      exact htracks.of_files htracks.files _ _ _
  | notHoused heffect hallocate =>
      simp only [Ledger.after, allocatedBy, heffect]
      have htracks := h.allocate h₀ hendings hallocate
      exact htracks.of_files htracks.files _ _ _
  | recorded heffect =>
      simp only [Ledger.after, allocatedBy, heffect, List.append_nil]
      exact h.of_files h.files _ _ _
  | aborted heffect =>
      simp only [Ledger.after, allocatedBy, heffect, List.append_nil]
      exact h.of_files h.files _ _ _
  | @removed number path files hnumber hremove =>
      rw [h.dirs] at hnumber
      have hcleared : s.world.files.cleared path = files := by simp [FileStore.cleared, hremove]
      have hfiles := h.files.cleared h₀ (List.mem_of_getElem? hnumber)
      rw [hcleared] at hfiles
      simp only [Ledger.after, hnumber]
      exact ⟨h.endings, h.temporary, h.settings, h.dirs, hfiles⟩
  | @notRemoved number hnot =>
      rw [h.dirs] at hnot
      cases hnumber : l.allocated[number]? with
      | none =>
          simp only [Ledger.after, hnumber]
          exact h
      | some path =>
          -- The directory was gone already, so that the ledger does not change.
          rcases hnot path hnumber with ⟨e, hremove⟩
          have hcleared : s.world.files.cleared path = s.world.files := by
            simp [FileStore.cleared, hremove]
          have hfiles := h.files.cleared h₀ (List.mem_of_getElem? hnumber)
          rw [hcleared] at hfiles
          simp only [Ledger.after, hnumber]
          exact ⟨h.endings, h.temporary, h.settings, h.dirs, hfiles⟩
  | written hnumber hwrite =>
      rw [h.dirs] at hnumber
      exact h.of_files (h.files.overwrite (List.mem_of_getElem? hnumber) hinside hwrite) _ _ _
  | listed | asked | taken | observed | notWritten | finished | panicked =>
      exact h.of_files h.files _ _ _

/-- A run agrees with its ledger. -/
theorem Tracks.runSteps (h : Tracks w₀ config l s) (h₀ : w₀.files.Closed)
    (hendings : ∀ i, Path.IsEnding (w₀.endings i)) {steps : List Step}
    (hinside : ∀ step ∈ steps, step.IsInside) :
    Tracks w₀ config (ledgerFrom steps s l) (runSteps steps s).scene := by
  induction steps generalizing l s with
  | nil => exact h
  | cons step steps ih =>
      have hstep := (performs s step).tracks h h₀ hendings (hinside step List.mem_cons_self)
      rw [ledgerFrom, TestCase.runSteps]
      rcases hend : TestCase.perform step s with ⟨answer | _ | text, s'⟩
      · rw [hend] at hstep
        exact ih hstep fun step' hmem => hinside step' (List.mem_cons_of_mem step hmem)
      · rw [hend] at hstep
        exact hstep
      · rw [hend] at hstep
        exact hstep

/-! ## Releasing directories -/

/-- Without removal releasing changes no files. -/
theorem files_release_of_keep {c : TestCase} (hkeep : c.config.keep = true) (w : World) :
    (c.release w).files = w.files := by
  have hfold (paths : List String) (w : World) :
      (paths.foldl (releaseOne true) w).files = w.files := by
    induction paths generalizing w with
    | nil => rfl
    | cons path paths ih => exact ih (w.note (.kept path))
  rw [release, hkeep]
  exact hfold c.dirs w

theorem files_releaseOne (w : World) (path : String) :
    (releaseOne false w path).files = w.files.cleared path := by
  cases hremove : w.files.removeTree path with
  | ok files => simp [releaseOne, FileStore.cleared, hremove]
  | error e => simp [releaseOne, FileStore.cleared, hremove]

/-- Releasing removes every directory, also after one that is gone already. -/
theorem confined_releaseAll {s₀ : FileStore} {base leading : String} {made standing : List String}
    (h₀ : s₀.Closed) (paths : List String) (hpaths : ∀ p ∈ paths, p ∈ made) {w : World}
    (h : Confined s₀ base leading made standing w.files) :
    ∃ standing', (∀ p ∈ standing', p ∈ standing ∧ p ∉ paths) ∧
      Confined s₀ base leading made standing' (paths.foldl (releaseOne false) w).files := by
  induction paths generalizing w standing with
  | nil => exact ⟨standing, fun p hp => ⟨hp, List.not_mem_nil⟩, h⟩
  | cons path paths ih =>
      have hcleared := h.cleared h₀ (hpaths path List.mem_cons_self)
      rw [← files_releaseOne] at hcleared
      rcases ih (fun p hp => hpaths p (List.mem_cons_of_mem path hp)) hcleared with
        ⟨standing', hstanding, hconfined⟩
      refine ⟨standing', fun p hp => ?_, hconfined⟩
      rcases hstanding p hp with ⟨hmem, hpaths'⟩
      simp only [List.mem_filter, decide_not, Bool.not_eq_eq_eq_not, Bool.not_true,
        decide_eq_false_iff_not] at hmem
      exact ⟨hmem.1, by simp [hmem.2, hpaths']⟩

/-! ## The lifetime of directories -/

/-- How long the directories of a test live. -/
structure Lifetimes (name : String) (config : Config) (w : World) (steps : List Step) : Prop where
  /-- A test case holds the directories that its steps allocated, also by one that stopped
  the test. -/
  dirs_eq : (runSteps steps ⟨w, withConfig name config⟩).scene.state.dirs
    = (ledger (withConfig name config) steps w).allocated
  /-- As long as the test case is not closed, those that the test did not remove exist. -/
  alive : ∀ path ∈ (ledger (withConfig name config) steps w).allocated,
    ((runSteps steps ⟨w, withConfig name config⟩).scene.world.files.isDirectory path = true ↔
      path ∈ (ledger (withConfig name config) steps w).standing)
  /-- Unless they are kept, none of them exists any more, and nothing else has been created,
  changed or removed. -/
  removed : config.keep = false →
    (∀ path ∈ (ledger (withConfig name config) steps w).allocated,
      (execute (withConfig name config) steps w).world.files.locate path = .error .notFound) ∧
    ∀ location, (execute (withConfig name config) steps w).world.files.node? location
      = w.files.node? location
  /-- If they are kept, those that the test did not remove exist with all that they held. -/
  kept : config.keep = true →
    (execute (withConfig name config) steps w).world.files
      = (runSteps steps ⟨w, withConfig name config⟩).scene.world.files ∧
    ∀ path ∈ (ledger (withConfig name config) steps w).allocated,
      ((execute (withConfig name config) steps w).world.files.isDirectory path = true ↔
        path ∈ (ledger (withConfig name config) steps w).standing)
  /-- Whether they are kept or not, nothing outside them has been created, changed or
  removed. -/
  outside : ∀ location,
    (∀ path ∈ (ledger (withConfig name config) steps w).allocated,
      ¬ Path.target path <+: location) →
    (execute (withConfig name config) steps w).world.files.node? location
      = w.files.node? location
  /-- When the test case raises its failures they are released already. -/
  released_first : ∀ stopping text s,
    (closing stopping).run.run (runSteps steps ⟨w, withConfig name config⟩).scene
      = (.error text, s) →
    s.state.dirs = [] ∧ s.world = (execute (withConfig name config) steps w).world

/-- Once a test case that does not keep its directories is closed, all of them are gone. -/
theorem Tracks.release (h : Tracks w₀ config l s) (h₀ : w₀.files.Closed)
    (hkeep : config.keep = false) :
    (∀ path ∈ l.allocated,
      (s.state.release s.world).files.locate path = .error .notFound) ∧
    ∀ location, (s.state.release s.world).files.node? location = w₀.files.node? location := by
  have hrelease : s.state.release s.world = l.allocated.foldl (releaseOne false) s.world := by
    rw [TestCase.release, h.dirs, h.settings, hkeep]
  rcases confined_releaseAll h₀ l.allocated (fun p hp => hp) h.files with
    ⟨standing, hstanding, hconfined⟩
  have hremoved : ∀ p ∈ l.allocated, p ∉ standing := fun p hp hmem => (hstanding p hmem).2 hp
  rw [hrelease]
  exact ⟨fun path hpath => hconfined.locate_of_removed h₀ hpath (hremoved path hpath),
    hconfined.node?_eq h₀ hremoved⟩

/-- The directories that were allocated and not removed are found, and no others. -/
theorem Tracks.isDirectory_iff (h : Tracks w₀ config l s) (h₀ : w₀.files.Closed) {path : String}
    (hpath : path ∈ l.allocated) :
    s.world.files.isDirectory path = true ↔ path ∈ l.standing := by
  by_cases hstanding : path ∈ l.standing
  · rcases h.files.locate_of_standing h₀ hpath hstanding with ⟨hlocate, hdirectory⟩
    simp [FileStore.isDirectory, hlocate, hdirectory, hstanding]
  · have hlocate := h.files.locate_of_removed h₀ hpath hstanding
    simp [FileStore.isDirectory, hlocate, hstanding]

theorem world_execute (c : TestCase) (steps : List Step) (w : World) :
    (execute c steps w).world
      = (TestCase.runSteps steps ⟨w, c⟩).scene.state.release
          (TestCase.runSteps steps ⟨w, c⟩).scene.world :=
  world_close _ _

/-- The directories of every test live exactly as long as its test case, whatever its steps
are and however it ends. -/
theorem lifetimes_execute (name : String) (config : Config) (w : World) (steps : List Step)
    (hclosed : w.files.Closed) (hendings : ∀ i, Path.IsEnding (w.endings i))
    (hinside : ∀ step ∈ steps, step.IsInside) : Lifetimes name config w steps := by
  have htracks := (Tracks.start hclosed name config).runSteps hclosed hendings hinside
  have hremoved := htracks.release hclosed
  have hkept (hkeep : config.keep = true) :
      (execute (withConfig name config) steps w).world.files
        = (TestCase.runSteps steps ⟨w, withConfig name config⟩).scene.world.files := by
    rw [world_execute]
    exact files_release_of_keep (by rw [htracks.settings, hkeep]) _
  rw [← world_execute] at hremoved
  refine ⟨htracks.dirs, fun path => htracks.isDirectory_iff hclosed, hremoved, ?_, ?_, ?_⟩
  · intro hkeep
    refine ⟨hkept hkeep, fun path hpath => ?_⟩
    rw [hkept hkeep]
    exact htracks.isDirectory_iff hclosed hpath
  · intro location hlocation
    cases hkeep : config.keep with
    | false => exact (hremoved hkeep).2 location
    | true =>
        rw [hkept hkeep]
        exact htracks.files.outside location hlocation
  · intro stopping text s hraise
    rw [run_closing] at hraise
    obtain ⟨-, rfl⟩ := Prod.mk.inj hraise
    exact ⟨rfl, (world_execute _ _ _).symm⟩

/-- A world with one directory, in which endings are drawn in turn. -/
def smallWorld : World where
  files := ⟨[(["tmp"], .directory)], 0o022⟩
  endings n := if n = 0 then "aaaaaa" else "bbbbbb"
  drawn := 0
  temporary := "/tmp"
  log := []

/-- A test that is stopped because a fixture file cannot be created. -/
def stoppedSteps : List Step :=
  [.act .tempDir, .addFile 0 "x" [], .act (.record ⟨"a", "f:1"⟩), .removeDirectory 0,
    .act (.createFile [] "/x" "f:2"), .act .tempDir]

theorem closed_smallWorld : smallWorld.files.Closed := by
  intro l name hsome
  have hlocation : l ++ [name] = ["tmp"] := by
    by_contra hne
    apply hsome
    simp [FileStore.node?, smallWorld, List.lookup_cons, beq_false_of_ne hne]
  have hl : l = [] := by
    cases l with
    | nil => rfl
    | cons first rest => simp at hlocation
  rw [hl, FileStore.node?_nil]

theorem isEnding_smallWorld (i : Nat) : Path.IsEnding (smallWorld.endings i) := by
  have hletters (ending : String) (hlength : ending.toList.length = 6)
      (hall : ending.toList.all Char.isAlphanum = true) : Path.IsEnding ending :=
    ⟨hlength, List.all_eq_true.1 hall⟩
  unfold smallWorld
  dsimp only
  split
  · exact hletters "aaaaaa" (by decide) (by decide)
  · exact hletters "bbbbbb" (by decide) (by decide)

theorem isInside_stoppedSteps : ∀ step ∈ stoppedSteps, step.IsInside := by
  have hparts : Path.parts "x" = ["x"] := by decide
  have hname : Path.IsInside "x" :=
    ⟨by decide, hparts ▸ .down (by decide) (by decide) (.nil 1)⟩
  simp [stoppedSteps, Step.IsInside, hname]

/-- The directory of the file that could not be created is gone as well. -/
theorem lifetimes_stoppedSteps :
    (ledger (withConfig "t" .standard) stoppedSteps smallWorld).allocated
        = ["/tmp/pandrs_test_aaaaaa", "/tmp/pandrs_test_bbbbbb"] ∧
      Lifetimes "t" .standard smallWorld stoppedSteps :=
  ⟨by decide +kernel, lifetimes_execute "t" .standard smallWorld stoppedSteps closed_smallWorld
    isEnding_smallWorld isInside_stoppedSteps⟩

end TestCase

end TableFixture
