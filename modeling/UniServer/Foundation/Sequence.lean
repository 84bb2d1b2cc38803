/-
  Foundation/Sequence.lean --- one loop after another.

  The first loop has no test at its head; what it leaves is either a result of the
  whole or a task, and each task has a loop of its own.  The outcomes of the two
  loops are told apart by `Sum`; an outcome of a call that is not being made leaves
  the state alone.

  `run_andThen` is the run on the outcomes of the first loop and then of the
  second; `goes_andThen` is what any mixture of outcomes comes to.
-/
import Mathlib.Data.List.Basic
import UniServer.Foundation.Loop

set_option autoImplicit false

namespace UniServer.Foundation

namespace Loop

variable {σ σ' ε ε' ρ ρ' α : Type}

/-- A loop whose result is translated. -/
def mapResult (l : Loop σ ε ρ) (f : ρ → ρ') : Loop σ ε ρ' where
  exit s := (l.exit s).map f
  turn s e :=
    match l.turn s e with
    | .next s' => .next s'
    | .stop r => .stop (f r)

theorem run_mapResult (l : Loop σ ε ρ) (f : ρ → ρ') (s : σ) (es : List ε) :
    (l.mapResult f).run s es = (l.run s es).map f := by
  induction es generalizing s with
  | nil => rfl
  | cons e es ih =>
    cases hexit : l.exit s with
    | some r =>
      have hexit' : (l.mapResult f).exit s = some (f r) := by
        simp [mapResult, hexit]
      rw [run_exit hexit, run_exit hexit', Option.map_some]
    | none =>
      have hexit' : (l.mapResult f).exit s = none := by simp [mapResult, hexit]
      cases hturn : l.turn s e with
      | next s' =>
        have hturn' : (l.mapResult f).turn s e = .next s' := by
          simp [mapResult, hturn]
        rw [run_next hexit hturn, run_next hexit' hturn', ih]
      | stop r =>
        have hturn' : (l.mapResult f).turn s e = .stop (f r) := by
          simp [mapResult, hturn]
        rw [run_stop hexit hturn, run_stop hexit' hturn', Option.map_some]

theorem goes_mapResult (l : Loop σ ε ρ) (f : ρ → ρ') (s : σ) (es : List ε) :
    (l.mapResult f).goes s es = l.goes s es := by
  induction es generalizing s with
  | nil => rfl
  | cons e es ih =>
    rw [goes, goes]
    simp only [mapResult]
    cases l.exit s with
    | some r => rfl
    | none =>
      cases l.turn s e with
      | stop r => rfl
      | next s' => exact ih s'

/-- A `while (true)` loop, and then the loop of the task that its result leaves. -/
def andThen (turn : σ → ε → Turn σ ρ) (leave : ρ → Turn α ρ')
    (task : α → Loop σ' ε' ρ') (start : α → σ') :
    Loop (σ ⊕ α × σ') (ε ⊕ ε') ρ' where
  exit
    | .inl _ => none
    | .inr (a, s) => (task a).exit s
  turn
    | .inl s, .inl e =>
        match turn s e with
        | .next s' => .next (.inl s')
        | .stop r =>
          match leave r with
          | .next a => .next (.inr (a, start a))
          | .stop out => .stop out
    | .inr (a, s), .inr e =>
        match (task a).turn s e with
        | .next s' => .next (.inr (a, s'))
        | .stop out => .stop out
    | s, _ => .next s

/-- A `while (true)` loop alone. -/
def forever (turn : σ → ε → Turn σ ρ) : Loop σ ε ρ where
  exit _ := none
  turn := turn

section AndThen

variable {turn : σ → ε → Turn σ ρ} {leave : ρ → Turn α ρ'}
  {task : α → Loop σ' ε' ρ'} {start : α → σ'}

/-! ## The second loop -/

theorem run_second (a : α) (s : σ') (es : List ε') :
    (andThen turn leave task start).run (.inr (a, s)) (es.map .inr) =
      (task a).run s es := by
  induction es generalizing s with
  | nil => rfl
  | cons e es ih =>
    rw [List.map_cons, run, run]
    simp only [andThen]
    cases (task a).exit s with
    | some r => rfl
    | none =>
      cases (task a).turn s e with
      | next s' => exact ih s'
      | stop r => rfl

/-- It does not look at what is left of the outcomes of the first. -/
theorem run_second_left (a : α) (s : σ') (es : List ε) (rest : List (ε ⊕ ε')) :
    (andThen turn leave task start).run (.inr (a, s)) (es.map .inl ++ rest) =
      (andThen turn leave task start).run (.inr (a, s)) rest := by
  cases hexit : (andThen turn leave task start).exit (.inr (a, s)) with
  | some r => rw [run_exit hexit, run_exit hexit]
  | none =>
    induction es with
    | nil => rfl
    | cons e es ih =>
      rw [List.map_cons, List.cons_append, run_next hexit rfl, ih]

/-! ## Both loops -/

/-- The first loop on its outcomes, and what it leaves on the others. -/
theorem run_andThen (s : σ) (es : List ε) (es' : List ε') :
    (andThen turn leave task start).run (.inl s) (es.map .inl ++ es'.map .inr) =
      match (forever turn).run s es with
      | none => none
      | some r =>
        match leave r with
        | .next a => (task a).run (start a) es'
        | .stop out => some out := by
  induction es generalizing s with
  | nil =>
    have hwaits : ∀ es' : List ε',
        (andThen turn leave task start).run (.inl s) (es'.map .inr) = none := by
      intro es'
      induction es' with
      | nil => rfl
      | cons e es' ih =>
        rw [List.map_cons, run_next rfl rfl]
        exact ih
    exact hwaits es'
  | cons e es ih =>
    rw [List.map_cons, List.cons_append]
    cases hturn : turn s e with
    | next s' =>
      have hboth : (andThen turn leave task start).turn (.inl s) (.inl e) =
          .next (.inl s') := by
        simp [andThen, hturn]
      have hfirst : (forever turn).turn s e = .next s' := hturn
      rw [run_next rfl hboth, run_next rfl hfirst]
      exact ih s'
    | stop r =>
      have hfirst : (forever turn).turn s e = .stop r := hturn
      rw [run_stop rfl hfirst]
      cases hleave : leave r with
      | next a =>
        have hboth : (andThen turn leave task start).turn (.inl s) (.inl e) =
            .next (.inr (a, start a)) := by
          simp [andThen, hturn, hleave]
        rw [run_next rfl hboth, run_second_left, run_second]
        simp only [hleave]
      | stop out =>
        have hboth : (andThen turn leave task start).turn (.inl s) (.inl e) =
            .stop out := by
          simp [andThen, hturn, hleave]
        rw [run_stop rfl hboth]
        simp only [hleave]

/-! ## Any mixture of outcomes -/

/-- The outcomes of the first loop. -/
def lefts (es : List (ε ⊕ ε')) : List ε := es.filterMap Sum.getLeft?

/-- The outcomes of the second loop. -/
def rights (es : List (ε ⊕ ε')) : List ε' := es.filterMap Sum.getRight?

theorem lefts_append (es es' : List (ε ⊕ ε')) :
    lefts (es ++ es') = lefts es ++ lefts es' :=
  List.filterMap_append

theorem lefts_inl (e : ε) (es : List (ε ⊕ ε')) :
    lefts (.inl e :: es) = e :: lefts es := rfl

theorem rights_inr (e : ε') (es : List (ε ⊕ ε')) :
    rights (.inr e :: es) = e :: rights es := rfl

theorem mem_lefts {e : ε} {es : List (ε ⊕ ε')} : e ∈ lefts es ↔ .inl e ∈ es := by
  simp [lefts, List.mem_filterMap]

theorem mem_rights {e : ε'} {es : List (ε ⊕ ε')} : e ∈ rights es ↔ .inr e ∈ es := by
  simp [rights, List.mem_filterMap]

theorem goes_second {a : α} {s : σ'} {es : List (ε ⊕ ε')} {t : σ ⊕ α × σ'}
    (h : (andThen turn leave task start).goes (.inr (a, s)) es = some t) :
    ∃ t', t = .inr (a, t') ∧ (task a).goes s (rights es) = some t' := by
  induction es generalizing s with
  | nil =>
    rw [goes_nil, Option.some_inj] at h
    exact ⟨s, h.symm, rfl⟩
  | cons e es ih =>
    obtain ⟨hexit, s', hturn, hgoes⟩ := goes_cons_eq_some h
    cases e with
    | inl e =>
      cases hturn
      exact ih hgoes
    | inr e =>
      have htask : (task a).exit s = none := hexit
      cases hstep : (task a).turn s e with
      | next s'' =>
        simp only [andThen, hstep] at hturn
        cases hturn
        obtain ⟨t', rfl, ht'⟩ := ih hgoes
        refine ⟨t', rfl, ?_⟩
        rw [rights_inr, goes_next htask hstep]
        exact ht'
      | stop out =>
        simp only [andThen, hstep] at hturn
        cases hturn

/-- A sequence that goes on is in its first loop, where that has gone through its
own outcomes; or it is in the loop of the task that the first loop has left at one
of them, and that loop has gone through its own outcomes since. -/
theorem goes_andThen {s : σ} {es : List (ε ⊕ ε')} {t : σ ⊕ α × σ'}
    (h : (andThen turn leave task start).goes (.inl s) es = some t) :
    (∃ t', t = .inl t' ∧ (forever turn).goes s (lefts es) = some t') ∨
      ∃ before e after s' r a t', es = before ++ .inl e :: after ∧
        (forever turn).goes s (lefts before) = some s' ∧ turn s' e = .stop r ∧
        leave r = .next a ∧ t = .inr (a, t') ∧
        (task a).goes (start a) (rights after) = some t' := by
  induction es generalizing s with
  | nil =>
    rw [goes_nil, Option.some_inj] at h
    exact Or.inl ⟨s, h.symm, rfl⟩
  | cons e es ih =>
    obtain ⟨_, s', hturn, hgoes⟩ := goes_cons_eq_some h
    cases e with
    | inr e =>
      cases hturn
      rcases ih hgoes with hfirst | ⟨before, e', after, s', r, a, t', rfl, hrest⟩
      · exact Or.inl hfirst
      · exact Or.inr ⟨.inr e :: before, e', after, s', r, a, t', rfl, hrest⟩
    | inl e =>
      cases hstep : turn s e with
      | next s'' =>
        simp only [andThen, hstep] at hturn
        cases hturn
        have hfirst : (forever turn).turn s e = .next s'' := hstep
        rcases ih hgoes with
          ⟨t', rfl, ht'⟩ | ⟨before, e', after, s', r, a, t', rfl, hs', hrest⟩
        · refine Or.inl ⟨t', rfl, ?_⟩
          rw [lefts_inl, goes_next rfl hfirst]
          exact ht'
        · refine Or.inr ⟨.inl e :: before, e', after, s', r, a, t', rfl, ?_, hrest⟩
          rw [lefts_inl, goes_next rfl hfirst]
          exact hs'
      | stop r =>
        simp only [andThen, hstep] at hturn
        cases hleave : leave r with
        | stop out =>
          rw [hleave] at hturn
          cases hturn
        | next a =>
          rw [hleave] at hturn
          cases hturn
          obtain ⟨t', rfl, ht'⟩ := goes_second hgoes
          exact Or.inr
            ⟨[], e, es, s, r, a, t', rfl, rfl, hstep, hleave, rfl, ht'⟩

end AndThen

end Loop

end UniServer.Foundation
