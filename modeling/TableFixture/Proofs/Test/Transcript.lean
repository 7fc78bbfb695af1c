import TableFixture.Proofs.Test.Directories
import TableFixture.Proofs.Test.Verdict

/-!
# The log is a transcript of the run

What a step logs is told by how it ends and by the directories that the test case has got in it.
A run logs what its steps log, one after the other, and a step that does not answer is the last
one.  After that only the release of the directories is logged, in the order in which they were
allocated: every one of them if they are kept, and else those that could not be removed.

So the log names every directory that is released, once, and every failure that was recorded,
also those that nobody saw because the test was stopped.

Main results:

- Theorem `Performs.logs`: what a step logs.
- Theorem `log_release`: what the release of directories logs.
- Theorem `Transcript.allocations`, `Transcript.failures`, `Transcript.error_last`: what can be
  read from a transcript.
- Theorem `transcribed_execute`: the log of every run.
-/

namespace TableFixture

/-- An event as it is logged, with its level. -/
def LogEntry.leveled (e : LogEntry) : LogLevel × LogEntry := (e.level, e)

/-- The directory that an entry says was allocated, if it does. -/
def LogEntry.directory? : LogEntry → Option String
  | .allocated _ path => some path
  | _ => none

/-- The failure that an entry says was recorded, if it does. -/
def LogEntry.failure? : LogEntry → Option Failure
  | .recorded _ failure => some failure
  | _ => none

namespace World

/-- Making a directory is not logged. -/
theorem log_makeFresh (w : World) (base leading : String) :
    (w.makeFresh base leading).2.log = w.log := by
  unfold makeFresh
  split <;> rfl

end World

namespace TestCase

/-- What a step of the test with the given name logs that ends in the given way, the test case
having got the given directories in it. -/
inductive Logs (name : String) :
    Step → StepEnd → List String → List (LogLevel × LogEntry) → Prop where
  | directory {action : Action} {path : String} : action.effect = .allocate →
      Logs name (.act action) (.answered (.directory (.ok path))) [path]
        [(.debug, .allocated name path)]
  | noDirectory {action : Action} {e : Error} : action.effect = .allocate →
      Logs name (.act action) (.answered (.directory (.error e))) [] []
  /-- A fixture file was written in a directory that was allocated for it. -/
  | file {action : Action} {file : FixtureFile} {directory path : String} :
      action.effect = .create file → path = Path.join directory file.name →
      Logs name (.act action) (.answered (.file path)) [directory]
        [(.debug, .allocated name directory), (.debug, .wrote file.content.length path)]
  /-- A directory was allocated for a fixture file that could not be created or completed. -/
  | noFile {action : Action} {file : FixtureFile} {directory : String} {e : Error} :
      action.effect = .create file →
      Logs name (.act action) (.stopped (LogEntry.aborted name (file.failure e)).text) [directory]
        [(.debug, .allocated name directory), (.error, .aborted name (file.failure e))]
  /-- No directory could be allocated for a fixture file. -/
  | nowhere {action : Action} {file : FixtureFile} {e : Error} : action.effect = .create file →
      Logs name (.act action) (.stopped (LogEntry.aborted name (file.failure e)).text) []
        [(.error, .aborted name (file.failure e))]
  | failures {action : Action} {failures : List Failure} : action.effect = .report failures →
      Logs name (.act action) (.answered .done) []
        (failures.map fun failure => (.warn, .recorded name failure))
  | abort {action : Action} {failure : Failure} : action.effect = .abort failure →
      Logs name (.act action) (.stopped (LogEntry.aborted name failure).text) []
        [(.error, .aborted name failure)]
  /-- Only actions in the context of the test case are logged. -/
  | quiet {step : Step} {result : StepEnd} : (∀ action, step ≠ .act action) →
      Logs name step result [] []

/-- What a run of steps logs from one scene to another, step by step.  A step that does not
answer ends it. -/
inductive Transcript (name : String) :
    List Step → Scene TestCase → List (LogLevel × LogEntry) → Scene TestCase → Prop where
  | done (s : Scene TestCase) : Transcript name [] s [] s
  | answered {step : Step} {steps : List Step} {s s' s'' : Scene TestCase} {answer : Answer}
      {allocated : List String} {entries more : List (LogLevel × LogEntry)} :
      perform step s = (.answered answer, s') → s'.state.dirs = s.state.dirs ++ allocated →
      Logs name step (.answered answer) allocated entries → Transcript name steps s' more s'' →
      Transcript name (step :: steps) s (entries ++ more) s''
  | ended {step : Step} {steps : List Step} {s s' : Scene TestCase} {result : StepEnd}
      {allocated : List String} {entries : List (LogLevel × LogEntry)} :
      perform step s = (result, s') → (∀ answer, result ≠ .answered answer) →
      s'.state.dirs = s.state.dirs ++ allocated → Logs name step result allocated entries →
      Transcript name (step :: steps) s entries s'

/-- The directories that cannot be removed, one after the other, and why. -/
def refusals : FileStore → List String → List (String × SystemError)
  | _, [] => []
  | files, path :: paths =>
      match files.removeTree path with
      | .ok files' => refusals files' paths
      | .error e => (path, e) :: refusals files paths

/-- What the release of directories logs. -/
def releases (keep : Bool) (files : FileStore) (dirs : List String) :
    List (LogLevel × LogEntry) :=
  if keep then dirs.map fun path => (.info, .kept path)
  else (refusals files dirs).map fun (path, e) => (.warn, .notRemoved path e)

/-- The log of a run, from its start until its test case is closed. -/
structure Transcribed (name : String) (config : Config) (w : World) (steps : List Step)
    (entries : List (LogLevel × LogEntry)) : Prop where
  /-- The entries are those of the steps, in order. -/
  transcript : Transcript name steps ⟨w, withConfig name config⟩ entries
    (runSteps steps ⟨w, withConfig name config⟩).scene
  /-- They are logged, and after them the release of the directories that the test case holds. -/
  log : (execute (withConfig name config) steps w).world.log.map LogEntry.leveled
    = w.log.map LogEntry.leveled ++ entries
        ++ releases config.keep (runSteps steps ⟨w, withConfig name config⟩).scene.world.files
          (runSteps steps ⟨w, withConfig name config⟩).scene.state.dirs
  /-- The directories that are released are those that were logged as allocated, in order. -/
  allocations : entries.filterMap (LogEntry.directory? ∘ Prod.snd)
    = (runSteps steps ⟨w, withConfig name config⟩).scene.state.dirs
  /-- Every failure is logged that was recorded by the steps that answered, in order. -/
  failures : entries.filterMap (LogEntry.failure? ∘ Prod.snd)
    = recorded (steps.take (runSteps steps ⟨w, withConfig name config⟩).trace.length)
  /-- An error is the last entry of the steps. -/
  error_last : ∀ e, (.error, e) ∉ entries.dropLast

variable {s s' : Scene TestCase}

/-! ## What a step logs -/

/-- A directory that is allocated is held and logged. -/
theorem log_allocate {result : Except Error String} (h : allocate s = (result, s')) :
    s'.state.name = s.state.name ∧ s'.state.dirs = s.state.dirs ++ fresh s ∧
      s'.world.log = s.world.log ++ (fresh s).map (.allocated s.state.name) := by
  rcases state_allocate h with ⟨dirs, hstate⟩
  refine ⟨by rw [hstate], dirs_allocate h, ?_⟩
  have hlog := s.world.log_makeFresh (s.state.base s.world) s.state.config.leading
  unfold allocate at h
  unfold fresh
  rcases hmake : s.world.makeFresh (s.state.base s.world) s.state.config.leading with
    ⟨e | path, w⟩
  · rw [hmake] at h hlog
    cases h
    simpa using hlog
  · rw [hmake] at h hlog
    cases h
    exact congrArg (· ++ _) hlog

/-- A test stops with the text that is logged. -/
theorem abortText_eq (hname : s'.state.name = s.state.name) (failure : Failure) :
    s'.state.abortText failure = (LogEntry.aborted s.state.name failure).text := by
  rw [abortText, hname]
  rfl

/-- What is logged if a directory is allocated for a fixture file and the file is not written,
or not completely. -/
theorem logs_of_unwritten {action : Action} {file : FixtureFile} {directory : String}
    (heffect : action.effect = .create file) (hallocate : allocate s = (.ok directory, s'))
    (files : FileStore) (e : Error) :
    (abortOn (file.failure e) (s'.afterAsking files)).2.state.name = s.state.name ∧
      ∃ allocated entries,
      (abortOn (file.failure e) (s'.afterAsking files)).2.state.dirs = s.state.dirs ++ allocated ∧
      Logs s.state.name (.act action) (.stopped (s'.state.abortText (file.failure e))) allocated
        entries ∧
      (abortOn (file.failure e) (s'.afterAsking files)).2.world.log.map LogEntry.leveled
        = s.world.log.map LogEntry.leveled ++ entries := by
  rcases log_allocate hallocate with ⟨hname, hdirs, hlog⟩
  rw [(allocate_eq_ok hallocate).1] at hdirs hlog
  rw [abortText_eq hname]
  refine ⟨hname, _, _, hdirs, .noFile heffect, ?_⟩
  simp [abortOn, hname, hlog, LogEntry.leveled, LogEntry.level]

/-- A step logs what its end and the directories tell that the test case has got in it, and the
test case keeps its name. -/
theorem Performs.logs {step : Step} {result : StepEnd × Scene TestCase}
    (h : Performs s step result) :
    result.2.state.name = s.state.name ∧ ∃ allocated entries,
      result.2.state.dirs = s.state.dirs ++ allocated ∧
      Logs s.state.name step result.1 allocated entries ∧
      result.2.world.log.map LogEntry.leveled
        = s.world.log.map LogEntry.leveled ++ entries := by
  cases h with
  | @allocated action path s' heffect hallocate =>
      rcases log_allocate hallocate with ⟨hname, hdirs, hlog⟩
      rw [(allocate_eq_ok hallocate).1] at hdirs hlog
      refine ⟨hname, _, _, hdirs, .directory heffect, ?_⟩
      simp [hlog, LogEntry.leveled, LogEntry.level]
  | @notAllocated action e s' heffect hallocate =>
      rcases log_allocate hallocate with ⟨hname, hdirs, hlog⟩
      rw [(allocate_eq_error hallocate).1] at hdirs hlog
      exact ⟨hname, _, _, hdirs, .noDirectory heffect, by simp [hlog]⟩
  | @created action file directory s' l heffect hallocate _ _ =>
      rcases log_allocate hallocate with ⟨hname, hdirs, hlog⟩
      rw [(allocate_eq_ok hallocate).1] at hdirs hlog
      refine ⟨hname, _, _, hdirs, .file heffect rfl, ?_⟩
      simp [Scene.wrote, hlog, LogEntry.leveled, LogEntry.level]
  | notCreated heffect hallocate _ => exact logs_of_unwritten heffect hallocate _ _
  | unfinished heffect hallocate _ _ _ => exact logs_of_unwritten heffect hallocate _ _
  | @notHoused action file e s' heffect hallocate =>
      rcases log_allocate hallocate with ⟨hname, hdirs, hlog⟩
      rw [(allocate_eq_error hallocate).1] at hdirs hlog
      rw [abortText_eq hname]
      refine ⟨hname, _, _, hdirs, .nowhere heffect, ?_⟩
      simp [abortOn, hname, hlog, LogEntry.leveled, LogEntry.level]
  | recorded heffect =>
      refine ⟨rfl, _, _, by simp [recordAll], .failures heffect, ?_⟩
      simp [recordAll, LogEntry.leveled, LogEntry.level, Function.comp_def]
  | aborted heffect =>
      refine ⟨rfl, _, _, by simp, .abort heffect, ?_⟩
      simp [abortOn, LogEntry.leveled, LogEntry.level]
  | listed | asked | taken | observed | removed | notRemoved | written | notWritten | finished
  | panicked => exact ⟨rfl, [], [], by simp, .quiet (by simp), by simp⟩

/-- A run keeps the settings of the test case. -/
theorem config_runSteps (steps : List Step) (s : Scene TestCase) :
    (runSteps steps s).scene.state.config = s.state.config := by
  induction steps generalizing s with
  | nil => rfl
  | cons step steps ih =>
      rcases state_perform step s with ⟨dirs, hstate⟩
      have hconfig := congrArg config hstate
      rw [runSteps]
      rcases hend : perform step s with ⟨answer | _ | text, s'⟩
      · rw [hend] at hconfig
        exact (ih s').trans hconfig
      · rw [hend] at hconfig
        exact hconfig
      · rw [hend] at hconfig
        exact hconfig

/-- A run logs what its steps log. -/
theorem exists_transcript (steps : List Step) (s : Scene TestCase) :
    ∃ entries, Transcript s.state.name steps s entries (runSteps steps s).scene ∧
      (runSteps steps s).scene.world.log.map LogEntry.leveled
        = s.world.log.map LogEntry.leveled ++ entries := by
  induction steps generalizing s with
  | nil => exact ⟨[], .done s, by simp [runSteps]⟩
  | cons step steps ih =>
      rcases (performs s step).logs with ⟨hname, allocated, entries, hdirs, hlogs, hlog⟩
      rw [runSteps]
      rcases hend : perform step s with ⟨answer | _ | text, s'⟩
      · rw [hend] at hname hdirs hlogs hlog
        rcases ih s' with ⟨more, hmore, hlog'⟩
        rw [hname] at hmore
        refine ⟨entries ++ more, .answered hend hdirs hlogs hmore, ?_⟩
        simp only [hlog', hlog, List.append_assoc]
      · rw [hend] at hdirs hlogs hlog
        exact ⟨entries, .ended hend (by simp) hdirs hlogs, hlog⟩
      · rw [hend] at hdirs hlogs hlog
        exact ⟨entries, .ended hend (by simp) hdirs hlogs, hlog⟩

/-! ## What is logged at the end -/

theorem log_releaseAll (keep : Bool) (paths : List String) (w : World) :
    (paths.foldl (releaseOne keep) w).log.map LogEntry.leveled
      = w.log.map LogEntry.leveled ++ releases keep w.files paths := by
  induction paths generalizing w with
  | nil => cases keep <;> simp [releases, refusals]
  | cons path paths ih =>
      rw [List.foldl_cons, ih]
      cases keep with
      | true => simp [releaseOne, releases, LogEntry.leveled, LogEntry.level]
      | false =>
          cases hremove : w.files.removeTree path with
          | ok files => simp [releaseOne, releases, refusals, hremove]
          | error e =>
              simp [releaseOne, releases, refusals, hremove, LogEntry.leveled, LogEntry.level]

/-- What the release of the directories of a test case logs. -/
theorem log_release (c : TestCase) (w : World) :
    (c.release w).log.map LogEntry.leveled
      = w.log.map LogEntry.leveled ++ releases c.config.keep w.files c.dirs :=
  log_releaseAll c.config.keep c.dirs w

/-! ## What can be read from a transcript -/

section

variable {name : String} {step : Step} {result : StepEnd} {allocated : List String}
  {entries : List (LogLevel × LogEntry)} {steps : List Step}

/-- A step logs the directories as allocated that the test case has got in it. -/
theorem Logs.allocations (h : Logs name step result allocated entries) :
    entries.filterMap (LogEntry.directory? ∘ Prod.snd) = allocated := by
  cases h with
  | failures => simp [LogEntry.directory?]
  | directory | noDirectory | file | noFile | nowhere | abort | quiet =>
      simp [LogEntry.directory?]

/-- A step that answers logs the failures that it records. -/
theorem Logs.failures_of_answered {answer : Answer}
    (h : Logs name step (.answered answer) allocated entries) :
    entries.filterMap (LogEntry.failure? ∘ Prod.snd) = step.recorded := by
  cases h with
  | failures heffect =>
      simp [LogEntry.failure?, Step.recorded, Action.Effect.reported, heffect, List.filterMap_map,
        Function.comp_def]
  | directory heffect | noDirectory heffect | file heffect =>
      simp [LogEntry.failure?, Step.recorded, Action.Effect.reported, heffect]
  | quiet hquiet =>
      cases step with
      | act action => exact absurd rfl (hquiet action)
      | _ => rfl

/-- A step that does not answer logs no failure as recorded. -/
theorem Logs.failures_of_ended (hresult : ∀ answer, result ≠ .answered answer)
    (h : Logs name step result allocated entries) :
    entries.filterMap (LogEntry.failure? ∘ Prod.snd) = [] := by
  cases h with
  | noFile | nowhere | abort | quiet => simp [LogEntry.failure?]
  | directory | noDirectory | file | failures => exact absurd rfl (hresult _)

/-- A step that answers logs no error. -/
theorem Logs.no_error {answer : Answer}
    (h : Logs name step (.answered answer) allocated entries) :
    ∀ e, (LogLevel.error, e) ∉ entries := by
  cases h <;> simp

/-- An error is the last entry of a step. -/
theorem Logs.error_last (h : Logs name step result allocated entries) (e : LogEntry) :
    (.error, e) ∉ entries.dropLast := by
  intro hmem
  cases h with
  | failures => simpa using (List.dropLast_sublist _).subset hmem
  | directory | noDirectory | file | noFile | nowhere | abort | quiet => simp at hmem

theorem Transcript.allocations (h : Transcript name steps s entries s') :
    s'.state.dirs = s.state.dirs ++ entries.filterMap (LogEntry.directory? ∘ Prod.snd) := by
  induction h with
  | done s => simp
  | answered _ hdirs hlogs _ ih =>
      rw [ih, hdirs, List.filterMap_append, hlogs.allocations, List.append_assoc]
  | ended _ _ hdirs hlogs => rw [hdirs, hlogs.allocations]

theorem Transcript.failures (h : Transcript name steps s entries s') :
    entries.filterMap (LogEntry.failure? ∘ Prod.snd)
      = recorded (steps.take (runSteps steps s).trace.length) := by
  induction h with
  | done s => rfl
  | answered hend _ hlogs _ ih =>
      rw [runSteps_cons_of_answered hend, List.filterMap_append, hlogs.failures_of_answered, ih]
      simp [recorded]
  | @ended step steps s s' result allocated entries hend hresult _ hlogs =>
      have htrace : (runSteps (step :: steps) s).trace = [] := by
        rw [runSteps, hend]
        cases result with
        | answered answer => exact absurd rfl (hresult answer)
        | finished | stopped => rfl
      rw [htrace, hlogs.failures_of_ended hresult]
      rfl

/-- An error is the last entry of a run. -/
theorem Transcript.error_last (h : Transcript name steps s entries s') (e : LogEntry) :
    (.error, e) ∉ entries.dropLast := by
  induction h with
  | done s => simp
  | ended _ _ _ hlogs => exact hlogs.error_last e
  | @answered step steps s s' s'' answer allocated entries more _ _ hlogs _ ih =>
      intro hmem
      by_cases hmore : more = []
      · rw [hmore, List.append_nil] at hmem
        exact hlogs.no_error e ((List.dropLast_sublist _).subset hmem)
      · rw [List.dropLast_append_of_ne_nil hmore, List.mem_append] at hmem
        exact hmem.elim (hlogs.no_error e) ih

end

/-- The log of every run is a transcript of it, whatever its steps are and however it ends. -/
theorem transcribed_execute (name : String) (config : Config) (w : World) (steps : List Step) :
    ∃ entries, Transcribed name config w steps entries := by
  rcases exists_transcript steps ⟨w, withConfig name config⟩ with ⟨entries, hsteps, hlog⟩
  have hconfig := config_runSteps steps ⟨w, withConfig name config⟩
  refine ⟨entries, hsteps, ?_, hsteps.allocations.symm, hsteps.failures, ?_⟩
  · rw [world_execute, log_release, hlog, hconfig]
    rfl
  · exact hsteps.error_last

example :
    (execute (new "t") [.act .tempDir, .removeDirectory 0, .act (.record ⟨"a", "f:1"⟩), .panic "b"]
        smallWorld).world.log.map LogEntry.leveled
      = [(.debug, .allocated "t" "/tmp/pandrs_test_aaaaaa"), (.warn, .recorded "t" ⟨"a", "f:1"⟩),
        (.warn, .notRemoved "/tmp/pandrs_test_aaaaaa" (.ofKind .notFound))] := by
  decide +kernel

end TestCase

end TableFixture
