/-
  Foundation/Traced.lean --- calls that make records on the way.

  A record once made stays made: the trace of a call that fails is what it has
  recorded before.  The rules say what a sequence of calls records
  (`each_bind`) and that records do not change what is computed
  (`result_bind`).
-/
import Mathlib.Data.List.Basic

set_option autoImplicit false

namespace UniServer.Foundation

/-- What a call has recorded, and what it comes to. -/
structure Traced (τ ε α : Type) where
  trace : List τ
  result : Except ε α

namespace Traced

variable {τ ε α β : Type}

instance : Monad (Traced τ ε) where
  pure a := { trace := [], result := .ok a }
  bind x f :=
    match x.result with
    | .error e => { trace := x.trace, result := .error e }
    | .ok a => { trace := x.trace ++ (f a).trace, result := (f a).result }

/-- Make one record. -/
def emit (r : τ) : Traced τ ε Unit := { trace := [r], result := .ok () }

/-- A call that records nothing. -/
def lift (x : Except ε α) : Traced τ ε α := { trace := [], result := x }

@[simp] theorem result_emit (r : τ) : (emit r : Traced τ ε Unit).result = .ok () :=
  rfl

@[simp] theorem result_lift (x : Except ε α) : (lift x : Traced τ ε α).result = x :=
  rfl

@[simp] theorem result_bind (x : Traced τ ε α) (f : α → Traced τ ε β) :
    (x >>= f).result = x.result >>= fun a => (f a).result := by
  obtain ⟨trace, result⟩ := x
  cases result with
  | error e => rfl
  | ok a => rfl

/-- A sequence comes to what its parts come to. -/
theorem result_bind_eq {x : Traced τ ε α} {f : α → Traced τ ε β} {r : Except ε α}
    {g : α → Except ε β} (hx : x.result = r) (h : ∀ a, (f a).result = g a) :
    (x >>= f).result = r >>= g := by
  rw [result_bind, hx]
  exact bind_congr h

/-! ## What is recorded -/

/-- Every record is of this kind. -/
def Each (P : τ → Prop) (x : Traced τ ε α) : Prop := ∀ r ∈ x.trace, P r

variable {P : τ → Prop}

theorem each_pure (a : α) : Each P (pure a : Traced τ ε α) := by
  intro r hr
  cases hr

theorem each_lift (x : Except ε α) : Each P (lift x : Traced τ ε α) := by
  intro r hr
  cases hr

theorem each_emit {r : τ} : Each P (emit r : Traced τ ε Unit) ↔ P r := by
  unfold Each emit
  exact List.forall_mem_singleton

/-- A sequence records what its parts record, as far as it comes. -/
theorem each_bind {x : Traced τ ε α} {f : α → Traced τ ε β} :
    Each P (x >>= f) ↔ Each P x ∧ ∀ a, x.result = .ok a → Each P (f a) := by
  obtain ⟨trace, result⟩ := x
  cases result with
  | error e =>
    refine ⟨fun h => ⟨h, fun a ha => ?_⟩, fun h => h.1⟩
    cases ha
  | ok a =>
    constructor
    · intro h
      refine ⟨fun r hr => h r (List.mem_append_left _ hr), fun a' ha' r hr => ?_⟩
      cases ha'
      exact h r (List.mem_append_right _ hr)
    · intro h r hr
      rcases List.mem_append.mp hr with hr | hr
      · exact h.1 r hr
      · exact h.2 a rfl r hr

/-- Behind a call that records nothing. -/
theorem each_lift_bind {x : Except ε α} {f : α → Traced τ ε β} :
    Each P (lift x >>= f) ↔ ∀ a, x = .ok a → Each P (f a) := by
  rw [each_bind]
  exact and_iff_right (each_lift x)

/-- Behind one record. -/
theorem each_emit_bind {r : τ} {f : Unit → Traced τ ε β} :
    Each P (emit r >>= f) ↔ P r ∧ Each P (f ()) := by
  rw [each_bind, each_emit]
  refine and_congr_right fun _ => ⟨fun h => h () rfl, fun h a _ => h⟩

/-! ## Records that a call answers for

A call may check what it records and fail when the check does. -/

variable {e : ε}

/-- Every record is of this kind, or the call fails with `e`. -/
def Guarded (P : τ → Prop) (e : ε) (x : Traced τ ε α) : Prop :=
  x.Each P ∨ x.result = .error e

theorem guarded_pure (a : α) : Guarded P e (pure a : Traced τ ε α) :=
  Or.inl (each_pure a)

theorem guarded_lift (x : Except ε α) : Guarded P e (lift x : Traced τ ε α) :=
  Or.inl (each_lift x)

theorem guarded_emit {r : τ} (h : P r) : Guarded P e (emit r : Traced τ ε Unit) :=
  Or.inl (each_emit.mpr h)

/-- A sequence of guarded calls is guarded. -/
theorem guarded_bind {x : Traced τ ε α} {f : α → Traced τ ε β}
    (hx : Guarded P e x) (hf : ∀ a, x.result = .ok a → Guarded P e (f a)) :
    Guarded P e (x >>= f) := by
  rcases hx with heach | hfails
  · cases hresult : x.result with
    | error e' =>
      refine Or.inl (each_bind.mpr ⟨heach, fun a ha => ?_⟩)
      rw [hresult] at ha
      cases ha
    | ok a =>
      rcases hf a hresult with hlater | hlater
      · refine Or.inl (each_bind.mpr ⟨heach, fun a' ha' => ?_⟩)
        rw [hresult] at ha'
        rw [← Except.ok.inj ha']
        exact hlater
      · refine Or.inr ?_
        rw [result_bind, hresult]
        exact hlater
  · refine Or.inr ?_
    rw [result_bind, hfails]
    rfl

/-! ## Records of one kind -/

section Selected

variable {σ : Type} (select : τ → Option σ)

/-- The records that are selected, in order. -/
def selected (x : Traced τ ε α) : List σ := x.trace.filterMap select

theorem selected_bind (x : Traced τ ε α) (f : α → Traced τ ε β) :
    (x >>= f).selected select = x.selected select ++
      match x.result with
      | .ok a => (f a).selected select
      | .error _ => [] := by
  obtain ⟨trace, result⟩ := x
  cases result with
  | error e => exact (List.append_nil _).symm
  | ok a => exact List.filterMap_append

@[simp] theorem selected_pure (a : α) :
    (pure a : Traced τ ε α).selected select = [] :=
  rfl

@[simp] theorem selected_lift (x : Except ε α) :
    (lift x : Traced τ ε α).selected select = [] :=
  rfl

/-- Behind a call whose records are not selected, a property that no record
refutes is one of what comes next. -/
theorem selected_bind_of_nil {Q : List σ → Prop} {x : Traced τ ε α}
    {f : α → Traced τ ε β} (hnil : Q []) (hx : x.selected select = [])
    (hf : ∀ a, x.result = .ok a → Q ((f a).selected select)) :
    Q ((x >>= f).selected select) := by
  rw [selected_bind, hx, List.nil_append]
  cases hresult : x.result with
  | error e => exact hnil
  | ok a => exact hf a hresult

/-- Where nothing behind a call is selected, the call alone counts. -/
theorem selected_bind_of_nil_right {x : Traced τ ε α} {f : α → Traced τ ε β}
    (hf : ∀ a, x.result = .ok a → (f a).selected select = []) :
    (x >>= f).selected select = x.selected select := by
  rw [selected_bind]
  cases hresult : x.result with
  | error e => exact List.append_nil _
  | ok a =>
    simp only [hf a hresult, List.append_nil]

end Selected

end Traced

end UniServer.Foundation
