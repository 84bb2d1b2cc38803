/-
  Foundation/Loop.lean --- loops that are driven by the outcomes of calls.

  A loop of this kind looks at its state, makes one call to the outside, and
  either goes on with a new state or stops with a result.  The outcomes of the
  calls are an arbitrary list; `run` is `none` when the list ends while the loop
  still wants to make a call.

  The rules: what a run does on the first outcome (`run_next`, `run_stop`), that
  outcomes which leave the state alone can be dropped (`run_filter`), that two
  loops which go on and stop together give related results (`run_related`), and,
  through the states a loop goes through (`goes`), where a run stops
  (`run_eq_some_iff`) and what holds all along it (`goes_invariant`).  An outcome
  that is put in anywhere (`Inserted`) leaves the run alone when the loop is idle on
  it (`run_inserted`); any other loop may notice it only where it comes to it
  (`run_inserted_cases`).
-/
import Mathlib.Data.List.Basic

set_option autoImplicit false

namespace UniServer.Foundation

/-- How one turn of a loop ends. -/
inductive Turn (σ ρ : Type) where
  /-- go on with this state -/
  | next (s : σ)
  /-- leave the loop with this result -/
  | stop (r : ρ)
  deriving DecidableEq, Repr

/-- A loop with state `σ`, outcomes `ε` and results `ρ`. -/
structure Loop (σ ε ρ : Type) where
  /-- the test at the head of the loop -/
  exit : σ → Option ρ
  /-- the body, given the outcome of its call -/
  turn : σ → ε → Turn σ ρ

namespace Loop

variable {σ ε ρ : Type}

/-- Run a loop on a list of outcomes. -/
def run (l : Loop σ ε ρ) : σ → List ε → Option ρ
  | s, [] => l.exit s
  | s, e :: es =>
      match l.exit s with
      | some r => some r
      | none =>
          match l.turn s e with
          | .next s' => run l s' es
          | .stop r => some r

theorem run_exit {l : Loop σ ε ρ} {s : σ} {r : ρ} (h : l.exit s = some r)
    (es : List ε) :
    l.run s es = some r := by
  cases es with
  | nil => exact h
  | cons e es => simp [run, h]

theorem run_next {l : Loop σ ε ρ} {s s' : σ} {e : ε} (hexit : l.exit s = none)
    (h : l.turn s e = .next s') (es : List ε) :
    l.run s (e :: es) = l.run s' es := by
  simp [run, hexit, h]

theorem run_stop {l : Loop σ ε ρ} {s : σ} {e : ε} {r : ρ} (hexit : l.exit s = none)
    (h : l.turn s e = .stop r) (es : List ε) : l.run s (e :: es) = some r := by
  simp [run, hexit, h]

/-- Outcomes on which the loop just turns round again leave no trace. -/
theorem run_filter {l : Loop σ ε ρ} (busy : ε → Bool)
    (hidle : ∀ s e, busy e = false → l.turn s e = .next s) (s : σ) (es : List ε) :
    l.run s es = l.run s (es.filter busy) := by
  induction es generalizing s with
  | nil => rfl
  | cons e es ih =>
    cases hexit : l.exit s with
    | some r => rw [run_exit hexit, run_exit hexit]
    | none =>
      cases hbusy : busy e with
      | false =>
        rw [List.filter_cons_of_neg (by simp [hbusy]),
          run_next hexit (hidle s e hbusy), ih]
      | true =>
        rw [List.filter_cons_of_pos hbusy]
        cases hturn : l.turn s e with
        | next s' => rw [run_next hexit hturn, run_next hexit hturn, ih]
        | stop r => rw [run_stop hexit hturn, run_stop hexit hturn]

/-- A loop that translates the outcomes it is given. -/
def comap {ε' : Type} (l : Loop σ ε ρ) (f : ε' → ε) : Loop σ ε' ρ where
  exit := l.exit
  turn s e := l.turn s (f e)

theorem run_comap {ε' : Type} (l : Loop σ ε ρ) (f : ε' → ε) (s : σ) (es : List ε') :
    (l.comap f).run s es = l.run s (es.map f) := by
  induction es generalizing s with
  | nil => rfl
  | cons e es ih =>
    rw [List.map_cons, run, run]
    simp only [comap]
    cases l.exit s with
    | some r => rfl
    | none =>
      cases l.turn s (f e) with
      | next s' => exact ih s'
      | stop r => rfl

/-- Results related by `post`: both loops are still waiting, or both have
stopped with related results. -/
def Related {ρ' : Type} (post : ρ → ρ' → Prop) : Option ρ → Option ρ' → Prop
  | none, none => True
  | some r, some r' => post r r'
  | _, _ => False

/-- Turns that go on in related states, or stop with related results. -/
def TurnRelated {σ' ρ' : Type} (inv : σ → σ' → Prop) (post : ρ → ρ' → Prop) :
    Turn σ ρ → Turn σ' ρ' → Prop
  | .next t, .next t' => inv t t'
  | .stop r, .stop r' => post r r'
  | _, _ => False

/-- Two loops whose turns keep an invariant between their states, and which stop
together, give related results on the same outcomes. -/
theorem run_related {σ' ρ' : Type} {l : Loop σ ε ρ} {l' : Loop σ' ε ρ'}
    (inv : σ → σ' → Prop) (post : ρ → ρ' → Prop)
    (hexit : ∀ s s', inv s s' → Related post (l.exit s) (l'.exit s'))
    (hturn : ∀ s s' e, inv s s' → TurnRelated inv post (l.turn s e) (l'.turn s' e))
    {s : σ} {s' : σ'} (hinv : inv s s') (es : List ε) :
    Related post (l.run s es) (l'.run s' es) := by
  induction es generalizing s s' with
  | nil => exact hexit s s' hinv
  | cons e es ih =>
    have hexits := hexit s s' hinv
    cases hl : l.exit s with
    | some r =>
      cases hl' : l'.exit s' with
      | some r' =>
        rw [run_exit hl, run_exit hl']
        rw [hl, hl'] at hexits
        exact hexits
      | none =>
        rw [hl, hl'] at hexits
        exact False.elim hexits
    | none =>
      cases hl' : l'.exit s' with
      | some r' =>
        rw [hl, hl'] at hexits
        exact False.elim hexits
      | none =>
        have hturns := hturn s s' e hinv
        cases ht : l.turn s e with
        | next t =>
          cases ht' : l'.turn s' e with
          | next t' =>
            rw [run_next hl ht, run_next hl' ht']
            rw [ht, ht'] at hturns
            exact ih hturns
          | stop r' =>
            rw [ht, ht'] at hturns
            exact False.elim hturns
        | stop r =>
          cases ht' : l'.turn s' e with
          | next t' =>
            rw [ht, ht'] at hturns
            exact False.elim hturns
          | stop r' =>
            rw [run_stop hl ht, run_stop hl' ht']
            rw [ht, ht'] at hturns
            exact hturns

/-! ## The states a loop goes through -/

/-- The state after these outcomes, if the loop goes on through all of them. -/
def goes (l : Loop σ ε ρ) : σ → List ε → Option σ
  | s, [] => some s
  | s, e :: es =>
      match l.exit s with
      | some _ => none
      | none =>
          match l.turn s e with
          | .next s' => goes l s' es
          | .stop _ => none

@[simp] theorem goes_nil (l : Loop σ ε ρ) (s : σ) : l.goes s [] = some s := rfl

theorem goes_next {l : Loop σ ε ρ} {s s' : σ} {e : ε} (hexit : l.exit s = none)
    (h : l.turn s e = .next s') (es : List ε) :
    l.goes s (e :: es) = l.goes s' es := by
  simp [goes, hexit, h]

/-- The first turn of a loop that goes on. -/
theorem goes_cons_eq_some {l : Loop σ ε ρ} {s t : σ} {e : ε} {es : List ε}
    (h : l.goes s (e :: es) = some t) :
    l.exit s = none ∧ ∃ s', l.turn s e = .next s' ∧ l.goes s' es = some t := by
  unfold goes at h
  cases hexit : l.exit s with
  | some r => simp [hexit] at h
  | none =>
    cases hturn : l.turn s e with
    | stop r => simp [hexit, hturn] at h
    | next s' =>
      simp only [hexit, hturn] at h
      exact ⟨rfl, s', rfl, h⟩

/-- A run that has gone through some outcomes is the run from there. -/
theorem run_of_goes {l : Loop σ ε ρ} {s t : σ} {es : List ε}
    (h : l.goes s es = some t) (rest : List ε) :
    l.run s (es ++ rest) = l.run t rest := by
  induction es generalizing s with
  | nil =>
    rw [goes_nil, Option.some_inj] at h
    rw [h, List.nil_append]
  | cons e es ih =>
    obtain ⟨hexit, s', hturn, hgoes⟩ := goes_cons_eq_some h
    rw [List.cons_append, run_next hexit hturn, ih hgoes]

/-- A run has stopped where the loop first leaves: at its head, or in its body on
some outcome. -/
theorem run_eq_some_iff {l : Loop σ ε ρ} {s : σ} {es : List ε} {r : ρ} :
    l.run s es = some r ↔
      ∃ before after t, es = before ++ after ∧ l.goes s before = some t ∧
        (l.exit t = some r ∨
          l.exit t = none ∧ ∃ e rest, after = e :: rest ∧
            l.turn t e = .stop r) := by
  constructor
  · intro h
    induction es generalizing s with
    | nil => exact ⟨[], [], s, rfl, rfl, Or.inl h⟩
    | cons e es ih =>
      cases hexit : l.exit s with
      | some r' =>
        rw [run_exit hexit] at h
        exact ⟨[], e :: es, s, rfl, rfl, Or.inl (hexit.trans h)⟩
      | none =>
        cases hturn : l.turn s e with
        | stop r' =>
          rw [run_stop hexit hturn, Option.some_inj] at h
          exact ⟨[], e :: es, s, rfl, rfl,
            Or.inr ⟨hexit, e, es, rfl, hturn.trans (congrArg _ h)⟩⟩
        | next s' =>
          rw [run_next hexit hturn] at h
          obtain ⟨before, after, t, hsplit, hgoes, hleave⟩ := ih h
          exact ⟨e :: before, after, t, by rw [hsplit, List.cons_append],
            (goes_next hexit hturn before).trans hgoes, hleave⟩
  · rintro ⟨before, after, t, rfl, hgoes, hexit | ⟨hexit, e, rest, rfl, hturn⟩⟩
    · rw [run_of_goes hgoes, run_exit hexit]
    · rw [run_of_goes hgoes, run_stop hexit hturn]

/-- Every outcome that the loop uses is one that `ok` allows in the state in
which it comes. -/
def Permitted (l : Loop σ ε ρ) (ok : σ → ε → Prop) (s : σ) (es : List ε) : Prop :=
  ∀ before e after t, es = before ++ e :: after → l.goes s before = some t →
    l.exit t = none → ok t e

theorem Permitted.head {l : Loop σ ε ρ} {ok : σ → ε → Prop} {s : σ} {e : ε}
    {es : List ε} (h : l.Permitted ok s (e :: es)) (hexit : l.exit s = none) :
    ok s e :=
  h [] e es s rfl rfl hexit

theorem Permitted.tail {l : Loop σ ε ρ} {ok : σ → ε → Prop} {s s' : σ} {e : ε}
    {es : List ε} (h : l.Permitted ok s (e :: es)) (hexit : l.exit s = none)
    (hturn : l.turn s e = .next s') : l.Permitted ok s' es := by
  intro before e' after t hsplit hgoes
  exact h (e :: before) e' after t (by rw [hsplit, List.cons_append])
    ((goes_next hexit hturn before).trans hgoes)

/-- A property of the outcomes alone permits them wherever they come. -/
theorem permitted_of_forall {l : Loop σ ε ρ} {ok : ε → Prop} {es : List ε}
    (h : ∀ e ∈ es, ok e) (s : σ) : l.Permitted (fun _ => ok) s es := by
  intro before e after t hsplit _ _
  apply h
  rw [hsplit]
  exact List.mem_append_right _ List.mem_cons_self

theorem permitted_of_exit {l : Loop σ ε ρ} {ok : σ → ε → Prop} {s : σ} {r : ρ}
    (hexit : l.exit s = some r) (es : List ε) : l.Permitted ok s es := by
  intro before e after t hsplit hgoes htail
  cases before with
  | nil =>
    rw [goes_nil, Option.some_inj] at hgoes
    rw [← hgoes, hexit] at htail
    cases htail
  | cons e' before =>
    rw [(goes_cons_eq_some hgoes).1] at hexit
    cases hexit

theorem permitted_of_next {l : Loop σ ε ρ} {ok : σ → ε → Prop} {s s' : σ} {e : ε}
    {es : List ε} (hok : ok s e) (hturn : l.turn s e = .next s')
    (h : l.Permitted ok s' es) : l.Permitted ok s (e :: es) := by
  intro before e' after t hsplit hgoes htail
  cases before with
  | nil =>
    rw [goes_nil, Option.some_inj] at hgoes
    rw [List.nil_append, List.cons.injEq] at hsplit
    rw [← hgoes, ← hsplit.1]
    exact hok
  | cons e₁ before =>
    rw [List.cons_append, List.cons.injEq] at hsplit
    obtain ⟨rfl, hrest⟩ := hsplit
    obtain ⟨_, s₁, hs₁, hgoes⟩ := goes_cons_eq_some hgoes
    rw [hturn] at hs₁
    cases hs₁
    exact h before e' after t hrest hgoes htail

/-- The invariant rule: what every permitted turn keeps holds in every state the
loop goes through. -/
theorem goes_invariant {l : Loop σ ε ρ} {ok : σ → ε → Prop} (inv : σ → Prop)
    (hturn : ∀ s e s', inv s → l.exit s = none → ok s e →
      l.turn s e = .next s' → inv s')
    {s t : σ} {es rest : List ε} (hok : l.Permitted ok s (es ++ rest))
    (hinv : inv s) (h : l.goes s es = some t) : inv t := by
  induction es generalizing s with
  | nil =>
    rw [goes_nil, Option.some_inj] at h
    exact h ▸ hinv
  | cons e es ih =>
    obtain ⟨hexit, s', hs', hgoes⟩ := goes_cons_eq_some h
    rw [List.cons_append] at hok
    exact ih (hok.tail hexit hs')
      (hturn s e s' hinv hexit (hok.head hexit) hs') hgoes

/-! ## One outcome put in -/

/-- The second list is the first with any number of `x` put in, anywhere. -/
inductive Inserted (x : ε) : List ε → List ε → Prop where
  | nil : Inserted x [] []
  | keep (e : ε) {es es' : List ε} :
      Inserted x es es' → Inserted x (e :: es) (e :: es')
  | insert {es es' : List ε} : Inserted x es es' → Inserted x es (x :: es')

/-- A run notices what was put in only where it comes to it. -/
theorem run_inserted_cases (l : Loop σ ε ρ) {x : ε} {es es' : List ε}
    (h : Inserted x es es') (s : σ) :
    l.run s es' = l.run s es ∨
      ∃ before after t, es' = before ++ x :: after ∧ l.goes s before = some t ∧
        l.exit t = none := by
  induction h generalizing s with
  | nil => exact Or.inl rfl
  | keep e h ih =>
    cases hexit : l.exit s with
    | some r => exact Or.inl (by rw [run_exit hexit, run_exit hexit])
    | none =>
      cases hturn : l.turn s e with
      | stop r =>
        exact Or.inl (by rw [run_stop hexit hturn, run_stop hexit hturn])
      | next s' =>
        rcases ih s' with hsame | ⟨before, after, t, rfl, hgoes, ht⟩
        · exact Or.inl (by rw [run_next hexit hturn, run_next hexit hturn, hsame])
        · exact Or.inr ⟨e :: before, after, t, rfl,
            (goes_next hexit hturn before).trans hgoes, ht⟩
  | @insert es es' h ih =>
    cases hexit : l.exit s with
    | some r => exact Or.inl (by rw [run_exit hexit, run_exit hexit])
    | none => exact Or.inr ⟨[], es', s, rfl, rfl, hexit⟩

/-- On an outcome that leaves every state alone, it never does. -/
theorem run_inserted {l : Loop σ ε ρ} {x : ε} (hidle : ∀ s, l.turn s x = .next s)
    {es es' : List ε} (h : Inserted x es es') (s : σ) :
    l.run s es' = l.run s es := by
  induction h generalizing s with
  | nil => rfl
  | keep e h ih =>
    rw [run, run]
    cases l.exit s with
    | some r => rfl
    | none =>
      cases l.turn s e with
      | stop r => rfl
      | next s' => exact ih s'
  | insert h ih =>
    cases hexit : l.exit s with
    | some r => rw [run_exit hexit, run_exit hexit]
    | none => rw [run_next hexit (hidle s), ih]

/-- While the run is still waiting, it waits in the same state. -/
theorem goes_inserted {l : Loop σ ε ρ} {x : ε} (hidle : ∀ s, l.turn s x = .next s)
    {es es' : List ε} (h : Inserted x es es') {s : σ} (hwaits : l.run s es = none) :
    l.goes s es' = l.goes s es := by
  induction h generalizing s with
  | nil => rfl
  | keep e h ih =>
    cases hexit : l.exit s with
    | some r =>
      rw [run_exit hexit] at hwaits
      cases hwaits
    | none =>
      cases hturn : l.turn s e with
      | stop r =>
        rw [run_stop hexit hturn] at hwaits
        cases hwaits
      | next s' =>
        rw [run_next hexit hturn] at hwaits
        rw [goes_next hexit hturn, goes_next hexit hturn, ih hwaits]
  | @insert es es' h ih =>
    cases hexit : l.exit s with
    | some r =>
      rw [run_exit hexit] at hwaits
      cases hwaits
    | none => rw [goes_next hexit (hidle s), ih hwaits]

end Loop

end UniServer.Foundation
