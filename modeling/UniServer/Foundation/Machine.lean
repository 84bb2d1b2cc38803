/-
  Foundation/Machine.lean --- machines that take step after step and may fail.

  A machine is its step function.  A run is over when a step fails, so that every
  state of a run is reached by an initial part of the inputs that does not.

  The rules for runs are `run_invariant`, for what every step keeps, and
  `along_iff_each`: when a step keeps a property exactly where the step is a good
  one, then the property holds all along a run exactly when every step of the run
  is good.  `run_filterMap` is the rule for a machine that refines another, which
  sees some of its inputs.  `Since` is for properties of what has happened so far:
  one thing did, and another has not happened after it.
-/
import Mathlib.Data.List.Induction

set_option autoImplicit false

namespace UniServer.Foundation.Machine

variable {σ ε α : Type} (step : σ → ε → Except α σ)

/-- The state after these inputs. -/
def run (s : σ) (es : List ε) : Except α σ := es.foldlM step s

/-- `P` holds in every state of the run. -/
def Along (P : σ → Prop) (s : σ) (es : List ε) : Prop :=
  ∀ before after t, es = before ++ after → run step s before = .ok t → P t

/-- Every input is one that `good` allows in the state in which it comes. -/
def Each (good : σ → ε → Prop) (s : σ) (es : List ε) : Prop :=
  ∀ before e after t, es = before ++ e :: after → run step s before = .ok t →
    good t e

@[simp] theorem run_nil (s : σ) : run step s [] = .ok s := rfl

theorem run_cons {step : σ → ε → Except α σ} {s s' : σ} {e : ε}
    (h : step s e = .ok s') (es : List ε) :
    run step s (e :: es) = run step s' es := by
  rw [run, List.foldlM_cons, h]
  rfl

/-- The first step of a run that does not fail. -/
theorem run_cons_eq_ok {s t : σ} {e : ε} {es : List ε} :
    run step s (e :: es) = .ok t ↔
      ∃ s', step s e = .ok s' ∧ run step s' es = .ok t := by
  rw [run, List.foldlM_cons]
  cases step s e with
  | ok s' =>
    simp only [Except.ok.injEq, exists_eq_left']
    exact Iff.rfl
  | error a =>
    simp only [reduceCtorEq, false_and, exists_false, iff_false]
    exact fun h => by cases h

theorem run_append {s u : σ} {es : List ε} (h : run step s es = .ok u)
    (es' : List ε) : run step s (es ++ es') = run step u es' := by
  rw [run] at h
  rw [run, List.foldlM_append, h]
  rfl

/-- A run that does not fail has a first part that does not. -/
theorem run_append_eq_ok {s t : σ} {es es' : List ε} :
    run step s (es ++ es') = .ok t ↔
      ∃ u, run step s es = .ok u ∧ run step u es' = .ok t := by
  cases hes : run step s es with
  | ok u =>
    rw [run_append step hes]
    simp
  | error a =>
    rw [run] at hes
    rw [run, List.foldlM_append, hes]
    simp only [reduceCtorEq, false_and, exists_false, iff_false]
    exact fun h => by cases h

/-- The last step of a run that does not fail. -/
theorem run_snoc_eq_ok {s t : σ} {es : List ε} {e : ε} :
    run step s (es ++ [e]) = .ok t ↔
      ∃ u, run step s es = .ok u ∧ step u e = .ok t := by
  simp [run_append_eq_ok, run_cons_eq_ok]

theorem Each.left {step : σ → ε → Except α σ} {good : σ → ε → Prop} {s : σ}
    {es es' : List ε} (h : Each step good s (es ++ es')) : Each step good s es := by
  intro before e after t hsplit hrun
  refine h before e (after ++ es') t ?_ hrun
  rw [hsplit, List.append_assoc, List.cons_append]

theorem along_cons {P : σ → Prop} {s s' : σ} {e : ε} (hstep : step s e = .ok s')
    (es : List ε) : Along step P s (e :: es) ↔ P s ∧ Along step P s' es := by
  constructor
  · intro h
    refine ⟨h [] (e :: es) s rfl rfl, ?_⟩
    intro before after t hsplit hrun
    exact h (e :: before) after t (by rw [hsplit, List.cons_append])
      ((run_cons hstep before).trans hrun)
  · rintro ⟨hs, h⟩ before after t hsplit hrun
    cases before with
    | nil =>
      rw [run_nil, Except.ok.injEq] at hrun
      exact hrun ▸ hs
    | cons e' before =>
      rw [List.cons_append, List.cons.injEq] at hsplit
      obtain ⟨rfl, hrest⟩ := hsplit
      exact h before after t hrest ((run_cons hstep before).symm.trans hrun)

theorem each_cons {good : σ → ε → Prop} {s s' : σ} {e : ε}
    (hstep : step s e = .ok s') (es : List ε) :
    Each step good s (e :: es) ↔ good s e ∧ Each step good s' es := by
  constructor
  · intro h
    refine ⟨h [] e es s rfl rfl, ?_⟩
    intro before e' after t hsplit hrun
    exact h (e :: before) e' after t (by rw [hsplit, List.cons_append])
      ((run_cons hstep before).trans hrun)
  · rintro ⟨hs, h⟩ before e' after t hsplit hrun
    cases before with
    | nil =>
      rw [run_nil, Except.ok.injEq] at hrun
      rw [List.nil_append, List.cons.injEq] at hsplit
      rw [← hrun, ← hsplit.1]
      exact hs
    | cons e₁ before =>
      rw [List.cons_append, List.cons.injEq] at hsplit
      obtain ⟨rfl, hrest⟩ := hsplit
      exact h before e' after t hrest ((run_cons hstep before).symm.trans hrun)

/-- The exact invariant rule. -/
theorem along_iff_each {P : σ → Prop} {good : σ → ε → Prop}
    (hkeeps : ∀ s e s', P s → step s e = .ok s' → (P s' ↔ good s e))
    {s t : σ} {es : List ε} (hs : P s) (hrun : run step s es = .ok t) :
    Along step P s es ↔ Each step good s es := by
  induction es generalizing s with
  | nil =>
    constructor
    · intro _ before e after t hsplit
      cases before <;> cases hsplit
    · intro _ before after u hsplit hu
      obtain ⟨rfl, rfl⟩ := List.append_eq_nil_iff.mp hsplit.symm
      rw [run_nil, Except.ok.injEq] at hu
      exact hu ▸ hs
  | cons e es ih =>
    obtain ⟨s', hstep, hrest⟩ := (run_cons_eq_ok step).mp hrun
    rw [along_cons step hstep, each_cons step hstep]
    constructor
    · rintro ⟨_, halong⟩
      have hs' : P s' := halong [] es s' rfl rfl
      exact ⟨(hkeeps s e s' hs hstep).mp hs', (ih hs' hrest).mp halong⟩
    · rintro ⟨hgood, heach⟩
      have hs' : P s' := (hkeeps s e s' hs hstep).mpr hgood
      exact ⟨hs, (ih hs' hrest).mpr heach⟩

/-- The invariant rule. -/
theorem run_invariant {step : σ → ε → Except α σ} (inv : σ → Prop)
    (hkeeps : ∀ s e s', inv s → step s e = .ok s' → inv s') {s t : σ} {es : List ε}
    (hs : inv s) (hrun : run step s es = .ok t) : inv t := by
  induction es generalizing s with
  | nil =>
    rw [run_nil, Except.ok.injEq] at hrun
    exact hrun ▸ hs
  | cons e es ih =>
    obtain ⟨s', hstep, hrest⟩ := (run_cons_eq_ok step).mp hrun
    exact ih (hkeeps s e s' hs hstep) hrest

/-- A machine that keeps more in its state than another, and steps as that does. -/
theorem run_erase {τ : Type} {step : σ → ε → Except α σ}
    {step' : τ → ε → Except α τ} (erase : τ → σ)
    (hstep : ∀ t e, (step' t e).map erase = step (erase t) e) (t : τ)
    (es : List ε) : (run step' t es).map erase = run step (erase t) es := by
  induction es generalizing t with
  | nil => rfl
  | cons e es ih =>
    have hfirst := hstep t e
    cases hnext : step' t e with
    | error a =>
      rw [hnext] at hfirst
      rw [run, List.foldlM_cons, hnext, run, List.foldlM_cons, ← hfirst]
      rfl
    | ok t' =>
      rw [hnext] at hfirst
      rw [run_cons hnext, run_cons hfirst.symm, ih]

/-- A machine whose steps are each a step of another, seen through `view`, or not
seen by it. -/
theorem run_filterMap {τ δ β : Type} {step : σ → ε → Except α σ}
    {step' : τ → δ → Except β τ} (view : σ → τ) (seen : ε → Option δ)
    (inv : σ → Prop)
    (hkeeps : ∀ s e s', inv s → step s e = .ok s' → inv s')
    (hstep : ∀ s e s', inv s → step s e = .ok s' →
      run step' (view s) (seen e).toList = .ok (view s'))
    {s t : σ} {es : List ε} (hs : inv s) (hrun : run step s es = .ok t) :
    run step' (view s) (es.filterMap seen) = .ok (view t) := by
  induction es generalizing s with
  | nil =>
    rw [run_nil, Except.ok.injEq] at hrun
    rw [List.filterMap_nil, run_nil, hrun]
  | cons e es ih =>
    obtain ⟨s', hfirst, hrest⟩ := (run_cons_eq_ok step).mp hrun
    have hhead := hstep s e s' hs hfirst
    have htail := ih (hkeeps s e s' hs hfirst) hrest
    cases hseen : seen e with
    | none =>
      rw [hseen, Option.toList_none, run_nil, Except.ok.injEq] at hhead
      rw [List.filterMap_cons_none hseen, hhead]
      exact htail
    | some d =>
      rw [hseen, Option.toList_some] at hhead
      rw [List.filterMap_cons_some hseen, ← List.singleton_append,
        run_append step' hhead]
      exact htail

/-- A run is not over before its end when no step of it fails. -/
theorem run_isOk_iff_each {s : σ} {es : List ε} :
    (∃ t, run step s es = .ok t) ↔
      Each step (fun s e => ∃ s', step s e = .ok s') s es := by
  constructor
  · rintro ⟨t, hrun⟩ before e after u hsplit hu
    rw [hsplit, run_append step hu] at hrun
    obtain ⟨s', hstep, _⟩ := (run_cons_eq_ok step).mp hrun
    exact ⟨s', hstep⟩
  · intro heach
    induction es generalizing s with
    | nil => exact ⟨s, rfl⟩
    | cons e es ih =>
      obtain ⟨s', hstep⟩ := heach [] e es s rfl rfl
      obtain ⟨t, hrun⟩ := ih ((each_cons step hstep es).mp heach).2
      exact ⟨t, (run_cons hstep es).trans hrun⟩

/-- The invariant rule for what is said about the inputs so far: a good input keeps
it. -/
theorem history_invariant {step : σ → ε → Except α σ} {good : σ → ε → Prop} {s : σ}
    (inv : List ε → σ → Prop) (hs : inv [] s)
    (hkeeps : ∀ before u e u', inv before u → good u e → step u e = .ok u' →
      inv (before ++ [e]) u')
    {es : List ε} {t : σ} (heach : Each step good s es)
    (hrun : run step s es = .ok t) : inv es t := by
  induction es using List.reverseRecOn generalizing t with
  | nil =>
    rw [run_nil, Except.ok.injEq] at hrun
    exact hrun ▸ hs
  | append_singleton es e ih =>
    obtain ⟨u, hu, hstep⟩ := (run_snoc_eq_ok step).mp hrun
    exact hkeeps es u e t (ih heach.left hu) (heach es e [] u rfl hu) hstep

/-- What is good of an input has to be known in the states of the run only. -/
theorem each_congr {step : σ → ε → Except α σ} {good good' : σ → ε → Prop} {s : σ}
    {es : List ε}
    (h : ∀ before e after t, es = before ++ e :: after → run step s before = .ok t →
      (good t e ↔ good' t e)) :
    Each step good s es ↔ Each step good' s es := by
  constructor
  · intro heach before e after t hsplit hrun
    exact (h before e after t hsplit hrun).mp (heach before e after t hsplit hrun)
  · intro heach before e after t hsplit hrun
    exact (h before e after t hsplit hrun).mpr (heach before e after t hsplit hrun)

/-- Inputs that are good by themselves. -/
theorem each_iff_forall {step : σ → ε → Except α σ} {good : ε → Prop} {s t : σ}
    {es : List ε} (hrun : run step s es = .ok t) :
    Each step (fun _ e => good e) s es ↔ ∀ e ∈ es, good e := by
  constructor
  · intro heach e he
    obtain ⟨before, after, hsplit⟩ := List.append_of_mem he
    rw [hsplit] at hrun
    obtain ⟨u, hu, _⟩ := (run_append_eq_ok step).mp hrun
    exact heach before e after u hsplit hu
  · intro hgood before e after u hsplit _
    exact hgood e (by simp [hsplit])

/-! ## Histories -/

section Histories

variable {ι : Type} {starts ends : ι → Prop}

/-- Something that starts the matter has happened, and nothing that ends it has
happened after. -/
def Since (starts ends : ι → Prop) (history : List ι) : Prop :=
  ∃ before i after, history = before ++ i :: after ∧ starts i ∧
    ∀ j ∈ after, ¬ ends j

theorem not_since_nil : ¬ Since starts ends [] := by
  rintro ⟨before, i, after, hsplit, _⟩
  cases before <;> cases hsplit

/-- The latest thing that happened starts the matter, or does not end it. -/
theorem since_snoc {history : List ι} {i : ι} :
    Since starts ends (history ++ [i]) ↔
      starts i ∨ Since starts ends history ∧ ¬ ends i := by
  constructor
  · rintro ⟨before, i', after, hsplit, hstarts, hafter⟩
    induction after using List.reverseRecOn with
    | nil =>
      obtain ⟨_, hlast⟩ := List.append_inj' hsplit rfl
      cases hlast
      exact Or.inl hstarts
    | append_singleton after j _ =>
      rw [← List.cons_append, ← List.append_assoc] at hsplit
      obtain ⟨hinit, hlast⟩ := List.append_inj' hsplit rfl
      cases hlast
      refine Or.inr ⟨⟨before, i', after, hinit, hstarts, ?_⟩, ?_⟩
      · intro j hj
        exact hafter j (List.mem_append_left _ hj)
      · exact hafter i (by simp)
  · rintro (hstarts | ⟨⟨before, i', after, rfl, hstarts, hafter⟩, hends⟩)
    · exact ⟨history, i, [], rfl, hstarts, by simp⟩
    · refine ⟨before, i', after ++ [i], by simp, hstarts, ?_⟩
      intro j hj
      rcases List.mem_append.mp hj with hj | hj
      · exact hafter j hj
      · rw [List.mem_singleton.mp hj]
        exact hends

end Histories

end UniServer.Foundation.Machine
