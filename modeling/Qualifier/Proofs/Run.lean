import Qualifier.Environment

/-!
# Running computations

What a computation that keeps its state on failure does when it is run on a state: sequencing,
read forwards (`run_bind_of_ok`, `run_bind_of_error`) and backwards (`run_bind_eq_ok`,
`run_bind_eq_error`), folds, by what their steps keep (`run_foldlM_induction`) and by where they
fail (`run_foldlM_eq_error`), and the primitives that read or write the state.
`Reduction.run_within` says that a computation with operators leaves the world of an evaluation
alone.
-/

namespace Qualifier

section

variable {ε s α β : Type} {m : ExceptT ε (StateM s) α} {f : α → ExceptT ε (StateM s) β}

/-! ### Sequencing -/

/-- After a success the computation goes on from the state that was left. -/
theorem run_bind_of_ok {x y : s} {a : α} (h : m.run x = (.ok a, y)) :
    (m >>= f).run x = (f a).run y := by
  change (match m.run x with
    | (answer, z) => (ExceptT.bindCont f answer : StateM s _) z) = _
  rw [h]
  rfl

/-- After a failure nothing more is done. -/
theorem run_bind_of_error {x y : s} {e : ε} (h : m.run x = (.error e, y)) :
    (m >>= f).run x = (.error e, y) := by
  change (match m.run x with
    | (answer, z) => (ExceptT.bindCont f answer : StateM s _) z) = _
  rw [h]
  rfl

/-- A sequence succeeds only if both of its parts do. -/
theorem run_bind_eq_ok {x y : s} {b : β} (h : (m >>= f).run x = (.ok b, y)) :
    ∃ a z, m.run x = (.ok a, z) ∧ (f a).run z = (.ok b, y) := by
  rcases hm : m.run x with ⟨e | a, z⟩
  · rw [run_bind_of_error hm] at h
    cases h
  · exact ⟨a, z, rfl, run_bind_of_ok hm ▸ h⟩

/-- A sequence fails in its first part, or in its second after the first has succeeded. -/
theorem run_bind_eq_error {x y : s} {e : ε} (h : (m >>= f).run x = (.error e, y)) :
    m.run x = (.error e, y) ∨
      ∃ a z, m.run x = (.ok a, z) ∧ (f a).run z = (.error e, y) := by
  rcases hm : m.run x with ⟨e' | a, z⟩
  · rw [run_bind_of_error hm] at h
    cases h
    exact .inl rfl
  · exact .inr ⟨a, z, rfl, run_bind_of_ok hm ▸ h⟩

/-- How a sequence goes on matters only after what its first part can return. -/
theorem bind_congr_of_run {g : α → ExceptT ε (StateM s) β}
    (h : ∀ x a y, m.run x = (.ok a, y) → f a = g a) : m >>= f = m >>= g := by
  refine ExceptT.ext (funext fun x ↦ ?_)
  rcases hm : m.run x with ⟨e | a, y⟩
  · exact (run_bind_of_error hm).trans (run_bind_of_error hm).symm
  · exact (run_bind_of_ok hm).trans (h x a y hm ▸ (run_bind_of_ok hm).symm)

/-- A fold that fails does so at an element, and has got through all elements before it. -/
theorem run_foldlM_eq_error {f : β → α → ExceptT ε (StateM s) β} {l : List α} {b : β} {x y : s}
    {e : ε} (h : (l.foldlM f b).run x = (.error e, y)) :
    ∃ before a after reached z, l = before ++ a :: after ∧
      (before.foldlM f b).run x = (.ok reached, z) ∧ (f reached a).run z = (.error e, y) := by
  induction l generalizing b x with
  | nil => cases h
  | cons a rest ih =>
    rw [List.foldlM_cons] at h
    obtain hfirst | ⟨next, z, hfirst, hrest⟩ := run_bind_eq_error h
    · exact ⟨[], a, rest, b, x, rfl, rfl, hfirst⟩
    · obtain ⟨before, last, after, reached, z', rfl, hbefore, hlast⟩ := ih hrest
      refine ⟨a :: before, last, after, reached, z', rfl, ?_, hlast⟩
      rw [List.foldlM_cons, run_bind_of_ok hfirst]
      exact hbefore

/-- What holds at the start of a fold and is kept by each of its steps holds where it gets to. -/
theorem run_foldlM_induction {f : β → α → ExceptT ε (StateM s) β} (Holds : List α → β → s → Prop)
    (hstep : ∀ {before a b b' x y}, Holds before b x → (f b a).run x = (.ok b', y) →
      Holds (before ++ [a]) b' y)
    {l : List α} {b b' : β} {x y : s} (h : Holds [] b x)
    (hrun : (l.foldlM f b).run x = (.ok b', y)) : Holds l b' y := by
  have hfold {before l : List α} {b : β} {x : s} (h : Holds before b x)
      (hrun : (l.foldlM f b).run x = (.ok b', y)) : Holds (before ++ l) b' y := by
    induction l generalizing before b x with
    | nil =>
      cases hrun
      rwa [List.append_nil]
    | cons a rest ih =>
      rw [List.foldlM_cons] at hrun
      obtain ⟨next, z, hfirst, hrest⟩ := run_bind_eq_ok hrun
      rw [List.append_cons]
      exact ih (hstep h hfirst) hrest
  exact hfold h hrun

/-! ### Primitives -/

theorem run_pure (a : α) (x : s) : (pure a : ExceptT ε (StateM s) α).run x = (.ok a, x) :=
  rfl

theorem run_modifyGet (g : s → α × s) (x : s) :
    (modifyGet g : ExceptT ε (StateM s) α).run x = (.ok (g x).1, (g x).2) :=
  rfl

end

/-- As part of an evaluation, a computation with operators acts on the ledger alone. -/
theorem Reduction.run_within {σ α : Type} (reduction : Reduction α) (progress : Progress σ) :
    (reduction.within : Evaluation σ α).run progress =
      ((reduction.run progress.toLedger).1,
        { progress with toLedger := (reduction.run progress.toLedger).2 }) :=
  rfl

end Qualifier
