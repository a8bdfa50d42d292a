import Qualifier.Session

/-!
# Evaluators over time

Evaluators that have names and are made, limited, copied and run in any order, each run in an
environment and a state of the world of its own. What has become of an evaluator is told by its
`Life`, the steps that made it what it is, and a copy has the life of what it was copied from. A
life knows a source, a limit and the outcomes there have been, and from these alone it follows what
the evaluator is and what it answers: the same as one that is newly made
(`Life.evaluate_evaluator_fst`). No evaluator sees a step on another one, so a roster has at each
name what the life there says (`Roster.follows_after`). The main statement is
`Roster.step_history_free`.

A session keeps its evaluators as a roster that runs them in the scope of the moment
(`Session.evaluators_step`).
-/

namespace Qualifier

/-! ### Rosters -/

/-- Evaluators by name. -/
abbrev Roster := Dict Evaluator

namespace Roster

/-- A step on evaluators that are run in worlds with states `σ`. -/
inductive Step (σ : Type) where
  /-- Makes an evaluator. -/
  | create (id source : String)
  /-- Limits the nesting that an evaluator accepts. -/
  | limit (id : String) (limit : Nat)
  /-- Copies an evaluator. -/
  | copy (id target : String)
  /-- Runs an evaluator. -/
  | evaluate (id : String) (env : Environment σ) (world : σ)

variable {σ : Type}

/-- The name at which a step leaves an evaluator. -/
def Step.target : Step σ → String
  | .create id _ | .limit id _ | .copy _ id | .evaluate id _ _ => id

/-- Carries a step out: the report, if an evaluator has been run, and the roster afterwards. A step
on a name that no evaluator has does nothing. -/
def step (roster : Roster) : Step σ → Option (Report σ) × Roster
  | .create id source => (none, roster.insert id (.ofSource source))
  | .limit id limit =>
    match roster.find? id with
    | some evaluator => (none, roster.insert id (evaluator.limitedTo limit))
    | none => (none, roster)
  | .copy id target =>
    match roster.find? id with
    | some evaluator => (none, roster.insert target evaluator)
    | none => (none, roster)
  | .evaluate id env world =>
    match roster.find? id with
    | some evaluator =>
      let (report, evaluator) := evaluator.evaluate env world
      (some report, roster.insert id evaluator)
    | none => (none, roster)

/-- The roster after some steps. -/
def after (steps : List (Step σ)) : Roster :=
  steps.foldl (fun roster step ↦ (roster.step step).2) ∅

end Roster

/-! ### Lives -/

/-- What has been done to an evaluator. -/
inductive Life (σ : Type) where
  /-- It was made of a source. -/
  | made (source : String)
  /-- It was limited, after the life before. -/
  | limited (life : Life σ) (limit : Nat)
  /-- It was run, after the life before. -/
  | evaluated (life : Life σ) (env : Environment σ) (world : σ)

namespace Life

variable {σ : Type}

/-- The source that the evaluator was made of. -/
def source : Life σ → String
  | .made source => source
  | .limited life _ | .evaluated life _ _ => life.source

/-- The last limit that it was given. -/
def limit : Life σ → Nat
  | .made _ => Evaluator.defaultLimit
  | .limited _ limit => limit
  | .evaluated life _ _ => life.limit

/-- An evaluator that is newly made of the source and has the limit. -/
def renewed (life : Life σ) : Evaluator :=
  (Evaluator.ofSource life.source).limitedTo life.limit

/-- The outcomes that a newly made evaluator would have had each time, the last at the end. -/
def outcomes : Life σ → List Outcome
  | .made _ => []
  | .limited life _ => life.outcomes
  | .evaluated life env world =>
    life.outcomes ++ (life.renewed.evaluate env world).1.answer.toOption.toList

/-- The label of the last outcome, or the source if there has been none. -/
def label (life : Life σ) : String :=
  (life.outcomes.getLast?.map Outcome.label).getD life.source

/-- The evaluator with this life. -/
def evaluator (life : Life σ) : Evaluator where
  source := life.source
  lexemes := Lexeme.scan life.source
  label := life.label
  limit := life.limit

theorem label_evaluated (life : Life σ) (env : Environment σ) (world : σ) :
    (evaluated life env world).label =
      ((life.renewed.evaluate env world).1.answer.toOption.map Outcome.label).getD life.label := by
  rw [label, outcomes, source]
  cases (life.renewed.evaluate env world).1.answer.toOption with
  | none => rw [Option.toList_none, List.append_nil, Option.map_none, Option.getD_none, label]
  | some outcome =>
    rw [Option.toList_some, List.getLast?_concat]
    rfl

/-- The evaluator answers as if it were newly made, -/
theorem evaluate_evaluator_fst (life : Life σ) (env : Environment σ) (world : σ) :
    (life.evaluator.evaluate env world).1 = (life.renewed.evaluate env world).1 := by
  rw [Evaluator.evaluate_fst, Evaluator.evaluate_fst]
  rfl

/-- and goes on with its life. -/
theorem evaluate_evaluator_snd (life : Life σ) (env : Environment σ) (world : σ) :
    (life.evaluator.evaluate env world).2 = (evaluated life env world).evaluator := by
  rw [Evaluator.evaluate_snd, evaluate_evaluator_fst, evaluator, evaluator, label_evaluated]
  rfl

end Life

namespace Roster

variable {σ : Type}

/-- What a step does to the lives at the names. -/
def live (lives : Dict (Life σ)) : Step σ → Dict (Life σ)
  | .create id source => lives.insert id (.made source)
  | .limit id limit =>
    match lives.find? id with
    | some life => lives.insert id (.limited life limit)
    | none => lives
  | .copy id target =>
    match lives.find? id with
    | some life => lives.insert target life
    | none => lives
  | .evaluate id env world =>
    match lives.find? id with
    | some life => lives.insert id (.evaluated life env world)
    | none => lives

/-- The lives at the names after some steps. -/
def lives (steps : List (Step σ)) : Dict (Life σ) :=
  steps.foldl live ∅

/-- At each name is the evaluator that has the life at the name. -/
def Follows (roster : Roster) (lives : Dict (Life σ)) : Prop :=
  ∀ id, roster.find? id = (lives.find? id).map Life.evaluator

variable {roster : Roster} {lives : Dict (Life σ)}

theorem Follows.insert (h : roster.Follows lives) (id : String) (life : Life σ) :
    Follows (Dict.insert roster id life.evaluator) (lives.insert id life) := by
  intro name
  rw [Dict.find?_insert, Dict.find?_insert, apply_ite (Option.map Life.evaluator), h name]
  rfl

/-- A step does to an evaluator what it does to its life. -/
theorem Follows.step (h : roster.Follows lives) (step : Step σ) :
    Follows (roster.step step).2 (live lives step) := by
  cases step with
  | create id source => exact h.insert id (.made source)
  | limit id limit =>
    rw [Roster.step, live, h id]
    cases lives.find? id with
    | none => exact h
    | some life => exact h.insert id (.limited life limit)
  | copy id target =>
    rw [Roster.step, live, h id]
    cases lives.find? id with
    | none => exact h
    | some life => exact h.insert target life
  | evaluate id env world =>
    rw [Roster.step, live, h id]
    cases lives.find? id with
    | none => exact h
    | some life =>
      have hnext := h.insert id (.evaluated life env world)
      rwa [← life.evaluate_evaluator_snd env world] at hnext

/-- And so it goes on from the beginning. -/
theorem follows_after (steps : List (Step σ)) : (after steps).Follows (Roster.lives steps) := by
  have hsteps (roster : Roster) (lives : Dict (Life σ)) (h : roster.Follows lives) :
      Follows (steps.foldl (fun roster step ↦ (roster.step step).2) roster)
        (steps.foldl live lives) := by
    induction steps generalizing roster lives with
    | nil => exact h
    | cons step rest ih => exact ih _ _ (h.step step)
  exact hsteps ∅ ∅ fun _ ↦ rfl

/-! ### Steps -/

/-- A step leaves an evaluator at its target and touches no other. -/
theorem find?_step_of_ne (step : Step σ) {id : String} (h : id ≠ step.target) :
    (roster.step step).2.find? id = roster.find? id := by
  have hinsert (evaluator : Evaluator) :
      (roster.insert step.target evaluator).find? id = roster.find? id := by
    rw [Dict.find?_insert, if_neg (Ne.symm h)]
  cases step with
  | create _ source => exact hinsert (.ofSource source)
  | limit id limit =>
    rw [Roster.step]
    cases roster.find? id with
    | none => rfl
    | some evaluator => exact hinsert (evaluator.limitedTo limit)
  | copy id _ =>
    rw [Roster.step]
    cases roster.find? id with
    | none => rfl
    | some evaluator => exact hinsert evaluator
  | evaluate id env world =>
    rw [Roster.step]
    cases roster.find? id with
    | none => rfl
    | some evaluator => exact hinsert (evaluator.evaluate env world).2

theorem step_evaluate {id : String} {evaluator : Evaluator} (h : roster.find? id = some evaluator)
    (env : Environment σ) (world : σ) :
    roster.step (.evaluate id env world) =
      (some (evaluator.evaluate env world).1,
        Dict.insert roster id (evaluator.evaluate env world).2) := by
  rw [step, h]

/-- Only running an evaluator is reported. -/
theorem exists_of_step_eq_some {step : Step σ} {report : Report σ}
    (h : (roster.step step).1 = some report) :
    ∃ id env world evaluator, step = .evaluate id env world ∧ roster.find? id = some evaluator ∧
      (evaluator.evaluate env world).1 = report := by
  cases step with
  | create => cases h
  | limit id | copy id =>
    rw [Roster.step] at h
    cases hfind : roster.find? id with
    | none => simp [hfind] at h
    | some => simp [hfind] at h
  | evaluate id env world =>
    cases hfind : roster.find? id with
    | none => simp [Roster.step, hfind] at h
    | some evaluator =>
      rw [step_evaluate hfind] at h
      exact ⟨id, env, world, evaluator, rfl, hfind, Option.some.inj h⟩

/-- An evaluation without an outcome leaves everything as it was. -/
theorem find?_step_of_error {step : Step σ} {report : Report σ} {e : Error}
    (h : (roster.step step).1 = some report) (herror : report.answer = .error e) (id : String) :
    (roster.step step).2.find? id = roster.find? id := by
  obtain ⟨name, env, world, evaluator, rfl, hfind, rfl⟩ := exists_of_step_eq_some h
  have hsame : (evaluator.evaluate env world).2 = evaluator := by
    rw [Evaluator.evaluate_snd, herror]
    rfl
  rw [step_evaluate hfind, hsame, Dict.find?_insert]
  split
  · next hid => rw [← hid, hfind]
  · rfl

/-- Evaluators remember nothing but their labels. Whatever has been done before a step: after it
each evaluator is what its life says; running one answers as an evaluator newly made of its source,
with its limit, would; an evaluation without an outcome leaves everything as it was; and a step
touches no evaluator but the one at its target. -/
theorem step_history_free (steps : List (Step σ)) (step : Step σ) :
    let roster := after steps
    let reply := (roster.step step).1
    let next := (roster.step step).2
    (∀ id, next.find? id = ((Roster.lives (steps ++ [step])).find? id).map Life.evaluator) ∧
    (∀ id env world evaluator, step = .evaluate id env world → roster.find? id = some evaluator →
      reply = some (((Evaluator.ofSource evaluator.source).limitedTo evaluator.limit).evaluate env
        world).1 ∧
      (evaluator.limit = Evaluator.defaultLimit →
        reply = some (Qualifier.evaluate evaluator.source env world))) ∧
    (∀ report e, reply = some report → report.answer = .error e →
      ∀ id, next.find? id = roster.find? id) ∧
    ∀ id, id ≠ step.target → next.find? id = roster.find? id := by
  intro roster reply next
  have hfollows := follows_after steps
  refine ⟨?_, ?_, ?_, ?_⟩
  · rw [Roster.lives, List.foldl_append]
    exact hfollows.step step
  · rintro id env world evaluator rfl hfind
    have hlife := hfollows id
    rw [hfind] at hlife
    obtain ⟨life, -, hevaluator⟩ := Option.map_eq_some_iff.1 hlife.symm
    have hreply : reply = some (((Evaluator.ofSource evaluator.source).limitedTo
        evaluator.limit).evaluate env world).1 := by
      show (roster.step (.evaluate id env world)).1 = _
      rw [step_evaluate hfind, ← hevaluator, life.evaluate_evaluator_fst]
      rfl
    refine ⟨hreply, fun hlimit ↦ ?_⟩
    rw [hreply, hlimit]
    rfl
  · intro report e
    exact find?_step_of_error
  · intro id
    exact find?_step_of_ne step

end Roster

/-! ### Sessions -/

namespace Session

/-- What a step of a session does to evaluators: they are run in the scope of the session. -/
def Step.onRoster? (session : Session) : Step → Option (Roster.Step (Dict Callback))
  | .create id source => some (.create id source)
  | .limit id depth => some (.limit id depth)
  | .copy id target => some (.copy id target)
  | .evaluate id => some (.evaluate id session.scope.environment session.scope.callbacks)
  | _ => none

/-- A session keeps its evaluators as a roster. -/
theorem evaluators_step (session : Session) (step : Step) :
    (session.step step).2.evaluators =
      match step.onRoster? session with
      | some step => (Roster.step session.evaluators step).2
      | none => session.evaluators := by
  cases step with
  | create | look | inspect | register | bind => rfl
  | bindRecord name pairs =>
    rw [Session.step]
    cases session.scope.bindRecord name (.ofPairs pairs) <;> rfl
  | call name =>
    rw [Session.step]
    cases session.scope.call? name <;> rfl
  | limit id | copy id | query id | evaluate id =>
    simp only [Session.step, Step.onRoster?, Roster.step]
    cases session.evaluators.find? id <;> rfl

/-- So the evaluators of a script are those after some steps of a roster. -/
theorem exists_evaluators_run (script : List Step) :
    ∃ steps : List (Roster.Step (Dict Callback)),
      (start.run script).2.evaluators = Roster.after steps := by
  have hrun (session : Session) : ∃ steps : List (Roster.Step (Dict Callback)),
      (session.run script).2.evaluators =
        steps.foldl (fun roster step ↦ (Roster.step roster step).2) session.evaluators := by
    induction script generalizing session with
    | nil => exact ⟨[], rfl⟩
    | cons step rest ih =>
      obtain ⟨steps, hsteps⟩ := ih (session.step step).2
      rw [evaluators_step] at hsteps
      cases hstep : step.onRoster? session with
      | none =>
        rw [hstep] at hsteps
        exact ⟨steps, hsteps⟩
      | some first =>
        rw [hstep] at hsteps
        exact ⟨first :: steps, hsteps⟩
  exact hrun start

end Session

end Qualifier
