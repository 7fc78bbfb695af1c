import TableFixture.Proofs.Test.Steps

/-!
# Histories of tests

However a step ends, a test case keeps its name and its settings, and only steps that record or
take failures change those.  A test reaches a scene by steps that all answered; what it does
afterwards is what it does from that scene.  Every test is such a history, followed by nothing
or by a step that finishes the test or stops it.

Main results:

- Theorem `TestCase.state_perform`: what a step does to a test case, its directories apart.
- Theorem `TestCase.perform_of_aborts`, `TestCase.perform_ends`: which steps end a test, and
  with which text.
- Theorem `TestCase.Reaches.runSteps_append`: a run goes on from the scene its steps reached.
- Theorem `TestCase.exists_reaches`: every run is a history up to its end.
-/

namespace TableFixture

namespace Step

/-- The failures that a step records. -/
def recorded : Step → List Failure
  | .act action => action.effect.reported
  | _ => []

/-- Whether a step takes the failures. -/
def isTake : Step → Bool
  | .take => true
  | _ => false

end Step

namespace TestCase

/-! ## What steps do to test cases -/

/-- Allocating changes nothing but the directories of a test case. -/
theorem state_allocate {s s' : Scene TestCase} {result : Except Error String}
    (h : allocate s = (result, s')) : ∃ dirs, s'.state = { s.state with dirs } := by
  unfold allocate at h
  split at h
  · cases h
    exact ⟨s.state.dirs, rfl⟩
  · cases h
    exact ⟨_, rfl⟩

/-- However a step ends, a test case keeps its name and its settings; its failures are
taken, or those that the step records are added to them. -/
theorem state_perform (step : Step) (s : Scene TestCase) :
    ∃ dirs, (perform step s).2.state = { s.state with
      dirs, failures := if step.isTake then [] else s.state.failures ++ step.recorded } := by
  have hperforms := performs s step
  generalize perform step s = result at hperforms
  have hquiet (dirs : List String) (hrecorded : step.recorded = [])
      (htake : step.isTake = false) : { s.state with dirs } = { s.state with
        dirs, failures := if step.isTake then [] else s.state.failures ++ step.recorded } := by
    simp [hrecorded, htake]
  have hallocated {action : Action} {r : Except Error String} {s' : Scene TestCase}
      (hstep : step = .act action) (hreported : action.effect.reported = [])
      (hallocate : allocate s = (r, s')) : ∃ dirs, s'.state = { s.state with
        dirs, failures := if step.isTake then [] else s.state.failures ++ step.recorded } := by
    subst hstep
    rcases state_allocate hallocate with ⟨dirs, hdirs⟩
    exact ⟨dirs, hdirs.trans (hquiet dirs hreported rfl)⟩
  cases hperforms with
  | allocated heffect hallocate => exact hallocated rfl (by rw [heffect]; rfl) hallocate
  | notAllocated heffect hallocate => exact hallocated rfl (by rw [heffect]; rfl) hallocate
  | created heffect hallocate _ _ =>
      rcases hallocated rfl (by rw [heffect]; rfl) hallocate with ⟨dirs, hdirs⟩
      exact ⟨dirs, hdirs⟩
  | notCreated heffect hallocate _ =>
      rcases hallocated rfl (by rw [heffect]; rfl) hallocate with ⟨dirs, hdirs⟩
      exact ⟨dirs, hdirs⟩
  | unfinished heffect hallocate _ _ _ =>
      rcases hallocated rfl (by rw [heffect]; rfl) hallocate with ⟨dirs, hdirs⟩
      exact ⟨dirs, hdirs⟩
  | notHoused heffect hallocate =>
      rcases hallocated rfl (by rw [heffect]; rfl) hallocate with ⟨dirs, hdirs⟩
      exact ⟨dirs, hdirs⟩
  | recorded heffect =>
      refine ⟨s.state.dirs, ?_⟩
      simp only [Step.recorded, heffect]
      rfl
  | aborted heffect => exact ⟨s.state.dirs, hquiet _ (by rw [Step.recorded, heffect]; rfl) rfl⟩
  | taken => exact ⟨s.state.dirs, rfl⟩
  | listed | asked | observed | removed | notRemoved | written | notWritten | finished
  | panicked => exact ⟨s.state.dirs, hquiet _ rfl rfl⟩

/-! ## Steps that stop a test -/

/-- A step aborts on a failure: it was told to, or it could not write a fixture file. -/
inductive Aborts (s : Scene TestCase) : Step → Failure → Prop where
  | abort {action : Action} {failure : Failure} :
      action.effect = .abort failure → Aborts s (.act action) failure
  | create {action : Action} {file : FixtureFile} {e : Error} {s' : Scene TestCase} :
      action.effect = .create file →
      context.writeFixture file.name file.content s = (.error e, s') →
      Aborts s (.act action) (file.failure e)

/-- A step that aborts stops the test with the text of its failure. -/
theorem perform_of_aborts {s : Scene TestCase} {step : Step} {failure : Failure}
    (h : Aborts s step failure) :
    ∃ s', perform step s
      = (.stopped (testLabel s.state.name ++ " aborted: " ++ failure.text), s') := by
  cases h with
  | @abort action failure heffect =>
      refine ⟨(context.abort failure s).2, ?_⟩
      simp only [perform, Action.perform_eq, heffect, Action.Effect.perform]
      rfl
  | @create action file e s' heffect hwrite =>
      have hperform : perform (.act action) s
          = (.stopped (s'.state.abortText (file.failure e)), (abortOn (file.failure e) s').2) := by
        simp only [perform, Action.perform_eq, heffect, Action.Effect.perform, hwrite]
        rfl
      rcases state_perform (.act action) s with ⟨dirs, hstate⟩
      have hname : s'.state.name = s.state.name := by
        rw [hperform, state_abortOn] at hstate
        rw [hstate]
      exact ⟨_, by rw [hperform, abortText, hname]⟩

/-- A step answers, unless it finishes the test, panics or aborts on a failure. -/
theorem perform_ends (step : Step) (s : Scene TestCase) :
    (∃ answer, (perform step s).1 = .answered answer) ∨ step = .finish ∨
      (∃ text, step = .panic text) ∨ ∃ failure, Aborts s step failure := by
  have hperforms := performs s step
  generalize perform step s = result at hperforms
  cases hperforms with
  | notCreated heffect _ hwrite => exact .inr (.inr (.inr ⟨_, .create heffect hwrite⟩))
  | unfinished heffect _ _ _ hwrite => exact .inr (.inr (.inr ⟨_, .create heffect hwrite⟩))
  | notHoused heffect hallocate =>
      exact .inr (.inr (.inr ⟨_, .create heffect
        (TestContext.writeFixture_of_tempDir_error hallocate _ _)⟩))
  | aborted heffect => exact .inr (.inr (.inr ⟨_, .abort heffect⟩))
  | finished => exact .inr (.inl rfl)
  | panicked => exact .inr (.inr (.inl ⟨_, rfl⟩))
  | allocated | notAllocated | created | recorded | listed | asked | taken | observed | removed
  | notRemoved | written | notWritten => exact .inl ⟨_, rfl⟩

/-! ## Reaching scenes -/

/-- The scenes that steps lead to which all answered, with their answers. -/
inductive Reaches (start : Scene TestCase) : List Step → List Answer → Scene TestCase → Prop where
  | start : Reaches start [] [] start
  | step {before : List Step} {answers : List Answer} {s s' : Scene TestCase} {step : Step}
      {answer : Answer} : Reaches start before answers s → perform step s = (.answered answer, s') →
      Reaches start (before ++ [step]) (answers ++ [answer]) s'

variable {start s : Scene TestCase} {before : List Step} {answers : List Answer}

theorem Reaches.length_answers (h : Reaches start before answers s) :
    answers.length = before.length := by
  induction h with
  | start => rfl
  | step _ _ ih => simp [ih]

/-- After a history a run goes on from the scene that was reached. -/
theorem Reaches.runSteps_append (h : Reaches start before answers s) (rest : List Step) :
    ∃ trace, trace.map Prod.fst = answers ∧
      runSteps (before ++ rest) start
        = ⟨trace ++ (runSteps rest s).trace, (runSteps rest s).stop, (runSteps rest s).scene⟩ := by
  induction h generalizing rest with
  | start => exact ⟨[], rfl, rfl⟩
  | @step before answers s s' step answer _ hstep ih =>
      rcases ih (step :: rest) with ⟨trace, htrace, hrun⟩
      refine ⟨trace ++ [(answer, s')], by simp [htrace], ?_⟩
      rw [List.append_assoc, List.singleton_append, hrun, runSteps_cons_of_answered hstep]
      simp

/-- Every run is a history up to its end: the steps are used up, or the next one does not
answer. -/
theorem exists_reaches (start : Scene TestCase) (steps : List Step) :
    ∃ before answers s rest, steps = before ++ rest ∧ Reaches start before answers s ∧
      (rest = [] ∨ ∃ step after, rest = step :: after ∧
        ∀ answer, (perform step s).1 ≠ .answered answer) := by
  suffices hfrom : ∀ (rest before : List Step) (answers : List Answer) (s : Scene TestCase),
      steps = before ++ rest → Reaches start before answers s →
      ∃ before answers s rest, steps = before ++ rest ∧ Reaches start before answers s ∧
        (rest = [] ∨ ∃ step after, rest = step :: after ∧
          ∀ answer, (perform step s).1 ≠ .answered answer) from
    hfrom steps [] [] start rfl .start
  intro rest
  induction rest with
  | nil => exact fun before answers s hsteps h => ⟨before, answers, s, [], hsteps, h, .inl rfl⟩
  | cons step rest ih =>
      intro before answers s hsteps h
      by_cases hanswer : ∃ answer, (perform step s).1 = .answered answer
      · rcases hanswer with ⟨answer, hanswer⟩
        have hstep : perform step s = (.answered answer, (perform step s).2) := by
          rw [← hanswer]
        exact ih (before ++ [step]) _ _ (by simp [hsteps]) (h.step hstep)
      · exact ⟨before, answers, s, step :: rest, hsteps, h,
          .inr ⟨step, rest, rfl, fun answer heq => hanswer ⟨answer, heq⟩⟩⟩

end TestCase

end TableFixture
