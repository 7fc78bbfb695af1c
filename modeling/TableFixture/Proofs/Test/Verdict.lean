import TableFixture.Proofs.Test.History

/-!
# The verdict of a test

At every point of a test its failures are those that were recorded since failures were
last taken.  A test that is stopped raises the text of what stopped it and nothing else,
whatever was recorded.  Any other test raises exactly the failures that nobody took, and
every failure that was recorded has then been taken or raised once, in order.

Main results:

- Theorem `Reaches.failures_eq`: the failures at a point of a test.
- Theorem `Reaches.taken_append_untaken`: no failure is lost and none is seen twice.
- Theorem `verdict_execute`: how every test ends.
-/

namespace TableFixture.TestCase

/-! ## Recorded, taken and untaken failures -/

/-- The steps after the last one that takes the failures. -/
def sinceTake (steps : List Step) : List Step :=
  (steps.reverse.takeWhile (!·.isTake)).reverse

/-- The failures that steps record, in order. -/
def recorded (steps : List Step) : List Failure := steps.flatMap Step.recorded

/-- The failures that are recorded and not taken, in order. -/
def untaken (steps : List Step) : List Failure := recorded (sinceTake steps)

/-- The failures with which a step that takes failures answers. -/
def takenBy : Step × Answer → List Failure
  | (.take, .failures taken) => taken
  | _ => []

/-- The failures with which the steps that take failures answer, in order. -/
def taken (steps : List Step) (answers : List Answer) : List Failure :=
  (steps.zip answers).flatMap takenBy

/-- Taking leaves no failure; any other step adds those that it records. -/
theorem untaken_concat (steps : List Step) (step : Step) :
    untaken (steps ++ [step]) = if step.isTake then [] else untaken steps ++ step.recorded := by
  cases htake : step.isTake with
  | true => simp [untaken, sinceTake, recorded, htake]
  | false => simp [untaken, sinceTake, recorded, htake]

@[simp] theorem recorded_concat (steps : List Step) (step : Step) :
    recorded (steps ++ [step]) = recorded steps ++ step.recorded := by
  simp [recorded]

theorem taken_concat {steps : List Step} {answers : List Answer}
    (h : answers.length = steps.length) (step : Step) (answer : Answer) :
    taken (steps ++ [step]) (answers ++ [answer])
      = taken steps answers ++ takenBy (step, answer) := by
  simp [taken, List.zip_append h.symm]

variable {start s : Scene TestCase} {before : List Step} {answers : List Answer}

/-- A test case keeps its name. -/
theorem Reaches.name_eq (h : Reaches start before answers s) :
    s.state.name = start.state.name := by
  induction h with
  | start => rfl
  | @step before answers s s' step answer _ hstep ih =>
      rcases state_perform step s with ⟨dirs, hstate⟩
      rw [hstep] at hstate
      rw [hstate]
      exact ih

/-- At every point the failures are those that were recorded since failures were taken. -/
theorem Reaches.failures_eq (h : Reaches start before answers s)
    (hstart : start.state.failures = []) : s.state.failures = untaken before := by
  induction h with
  | start => exact hstart
  | @step before answers s s' step answer _ hstep ih =>
      rcases state_perform step s with ⟨dirs, hstate⟩
      rw [hstep] at hstate
      rw [hstate, untaken_concat, ← ih]

/-- At every point the failures that were taken and those that were not are all that were
recorded, in order. -/
theorem Reaches.taken_append_untaken (h : Reaches start before answers s)
    (hstart : start.state.failures = []) :
    taken before answers ++ untaken before = recorded before := by
  induction h with
  | start => rfl
  | @step before answers s s' step answer hbefore hstep ih =>
      have hlength := hbefore.length_answers
      rw [taken_concat hlength, untaken_concat, recorded_concat, ← ih]
      cases htake : step.isTake with
      | true =>
          -- The answer to taking is what was untaken so far.
          have hstep' : step = .take := by
            cases step <;> simp [Step.isTake] at htake ⊢
          subst hstep'
          have hanswer : answer = .failures (untaken before) := by
            simp only [perform, Prod.mk.injEq, StepEnd.answered.injEq] at hstep
            rw [← hstep.1, ← hbefore.failures_eq hstart]
            rfl
          subst hanswer
          simp [takenBy, Step.recorded]
      | false =>
          have hnone : takenBy (step, answer) = [] := by
            cases step <;> simp [Step.isTake, takenBy] at htake ⊢
          simp [hnone]

/-! ## The end of a test -/

/-- What a test raises, in order: the text with which a step stopped it, and what closing
its test case raises. -/
def raised (c : TestCase) (steps : List Step) (w : World) : List String :=
  let r := runSteps steps ⟨w, c⟩
  r.stop.toList ++ (close r.stop.isSome r.scene).1.toList

/-- The text with which the failures of a test are raised at its end: their number, and a line
for each of them, with its message and its place. -/
def verdictText (name : String) (failures : List Failure) : String :=
  "test `" ++ name ++ "`" ++ " recorded " ++ toString failures.length ++ " failure(s):"
    ++ String.join (failures.map fun failure =>
      "\n  " ++ (failure.message ++ " at " ++ failure.site))

/-- How a test ends, and what it says of its failures until then. -/
structure Verdict (name : String) (config : Config) (w : World) (steps : List Step) : Prop where
  /-- At every point the failures that are seen are the untaken ones, and looking at them
  changes nothing. -/
  observed : ∀ before answers s after, steps = before ++ after →
    Reaches ⟨w, withConfig name config⟩ before answers s →
    perform .failures s = (.answered (.failures (untaken before)), s) ∧
      ∃ failed, perform .hasFailed s = (.answered (.flag failed), s) ∧
        (failed = true ↔ untaken before ≠ [])
  /-- A step that aborts on a failure raises its message and its place, and nothing else is
  raised. -/
  aborted : ∀ before answers s step failure after, steps = before ++ step :: after →
    Reaches ⟨w, withConfig name config⟩ before answers s → Aborts s step failure →
    raised (withConfig name config) steps w
      = ["test `" ++ name ++ "`" ++ " aborted: " ++ (failure.message ++ " at " ++ failure.site)]
  /-- A step that panics raises its text, and nothing else is raised. -/
  panicked : ∀ before answers s text after, steps = before ++ .panic text :: after →
    Reaches ⟨w, withConfig name config⟩ before answers s →
    raised (withConfig name config) steps w = [text]
  /-- A test that comes to its end raises the untaken failures, if there are any, and
  every recorded failure was either taken or is raised. -/
  ended : ∀ before answers s rest, steps = before ++ rest →
    Reaches ⟨w, withConfig name config⟩ before answers s →
    (rest = [] ∨ ∃ after, rest = .finish :: after) →
    raised (withConfig name config) steps w
        = (if untaken before = [] then [] else [verdictText name (untaken before)]) ∧
      taken before answers ++ untaken before = recorded before ∧
      (execute (withConfig name config) steps w).trace.map Prod.fst = answers
  /-- Every test ends in one of these ways. -/
  exhaustive : ∃ before answers s rest, steps = before ++ rest ∧
    Reaches ⟨w, withConfig name config⟩ before answers s ∧
    (rest = [] ∨ (∃ after, rest = .finish :: after) ∨ (∃ text after, rest = .panic text :: after) ∨
      ∃ step failure after, rest = step :: after ∧ Aborts s step failure)
  /-- The panic of a run is what the test raises. -/
  reported : (execute (withConfig name config) steps w).panic.toList
    = raised (withConfig name config) steps w

/-- A test that a step stops raises the text of that step and nothing else. -/
theorem Reaches.raised_of_stopped {c : TestCase} {w : World} {step : Step} {text : String}
    {s' : Scene TestCase} (h : Reaches ⟨w, c⟩ before answers s)
    (hstep : perform step s = (.stopped text, s')) (after : List Step) :
    raised c (before ++ step :: after) w = [text] := by
  rcases h.runSteps_append (step :: after) with ⟨trace, -, hrun⟩
  have hrest : runSteps (step :: after) s = ⟨[], some text, s'⟩ := by
    rw [runSteps, hstep]
  rw [raised, hrun, hrest]
  rfl

/-- A test that is not stopped raises the failures that nobody took. -/
theorem Reaches.raised_of_ended {c : TestCase} {w : World} {rest : List Step}
    (h : Reaches ⟨w, c⟩ before answers s) (hempty : c.failures = [])
    (hrest : rest = [] ∨ ∃ after, rest = .finish :: after) :
    raised c (before ++ rest) w
      = if untaken before = [] then [] else [verdictText c.name (untaken before)] := by
  have hend : runSteps rest s = ⟨[], none, s⟩ := by
    rcases hrest with rfl | ⟨after, rfl⟩ <;> rfl
  rcases h.runSteps_append rest with ⟨trace, -, hrun⟩
  have hfailures : s.state.failures = untaken before := h.failures_eq hempty
  have hname : s.state.name = c.name := h.name_eq
  rw [raised, hrun, hend]
  simp only [close_eq, hfailures, summary, hname, Option.isSome_none, Bool.false_or,
    List.isEmpty_iff, Option.toList_none, List.nil_append, verdictText]
  split <;> rfl

/-- Every test has this verdict, whatever its steps are. -/
theorem verdict_execute (name : String) (config : Config) (w : World) (steps : List Step) :
    Verdict name config w steps where
  observed := by
    rintro before answers s after - h
    have hfailures : s.state.failures = untaken before := h.failures_eq rfl
    refine ⟨by rw [← hfailures]; rfl, s.state.hasFailed, rfl, ?_⟩
    rw [hasFailed_iff, hfailures]
  aborted := by
    rintro before answers s step failure after rfl h haborts
    rcases perform_of_aborts haborts with ⟨s', hstep⟩
    rw [h.raised_of_stopped hstep, h.name_eq]
    rfl
  panicked := by
    rintro before answers s text after rfl h
    exact h.raised_of_stopped rfl after
  ended := by
    rintro before answers s rest rfl h hrest
    refine ⟨h.raised_of_ended rfl hrest, h.taken_append_untaken rfl, ?_⟩
    rcases h.runSteps_append rest with ⟨trace, htrace, hrun⟩
    have hend : runSteps rest s = ⟨[], none, s⟩ := by
      rcases hrest with rfl | ⟨after, rfl⟩ <;> rfl
    simp only [execute, hrun, hend, List.append_nil, htrace]
  exhaustive := by
    rcases exists_reaches ⟨w, withConfig name config⟩ steps with
      ⟨before, answers, s, rest, hsteps, h, hrest⟩
    refine ⟨before, answers, s, rest, hsteps, h, ?_⟩
    rcases hrest with rfl | ⟨step, after, rfl, hstep⟩
    · exact .inl rfl
    · rcases perform_ends step s with ⟨answer, hanswer⟩ | rfl | ⟨text, rfl⟩ | ⟨failure, haborts⟩
      · exact absurd hanswer (hstep answer)
      · exact .inr (.inl ⟨after, rfl⟩)
      · exact .inr (.inr (.inl ⟨text, after, rfl⟩))
      · exact .inr (.inr (.inr ⟨step, failure, after, rfl, haborts⟩))
  reported := by
    simp only [execute, raised]
    cases (runSteps steps ⟨w, withConfig name config⟩).stop with
    | none => rfl
    | some text => rfl

example (w : World) :
    raised (new "t") [.act (.record ⟨"a", "f:1"⟩), .take, .act (.record ⟨"b", "f:2"⟩), .finish] w
      = [verdictText "t" [⟨"b", "f:2"⟩]] := by
  rfl

end TableFixture.TestCase
