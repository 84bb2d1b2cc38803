/-
  Foundation/Register.lean --- registers that are written to now and then.

  A register holds one value.  Each input writes a value into it or leaves it
  alone, so that after a run it holds the last value written, or what it held at
  first when nothing was written.
-/
import Mathlib.Data.List.Induction

set_option autoImplicit false

namespace UniServer.Foundation.Register

variable {V ι : Type}

/-- The last value that these inputs write. -/
def lastWrite (write : ι → Option V) (inputs : List ι) : Option V :=
  (inputs.filterMap write).getLast?

@[simp] theorem lastWrite_nil (write : ι → Option V) : lastWrite write [] = none :=
  rfl

theorem lastWrite_snoc (write : ι → Option V) (inputs : List ι) (i : ι) :
    lastWrite write (inputs ++ [i]) = (write i).or (lastWrite write inputs) := by
  unfold lastWrite
  rw [List.filterMap_append]
  cases hwrite : write i with
  | none => rw [List.filterMap_cons_none hwrite]; simp
  | some v => rw [List.filterMap_cons_some hwrite]; simp

theorem lastWrite_cons (write : ι → Option V) (inputs : List ι) (i : ι) :
    lastWrite write (i :: inputs) = (lastWrite write inputs).or (write i) := by
  induction inputs using List.reverseRecOn with
  | nil => rw [← List.nil_append [i], lastWrite_snoc]; simp
  | append_singleton inputs j ih =>
    rw [← List.cons_append, lastWrite_snoc, lastWrite_snoc, ih, Option.or_assoc]

theorem lastWrite_map {W : Type} (write : ι → Option V) (f : V → W)
    (inputs : List ι) :
    lastWrite (fun i => (write i).map f) inputs =
      (lastWrite write inputs).map f := by
  induction inputs using List.reverseRecOn with
  | nil => rfl
  | append_singleton inputs i ih =>
    rw [lastWrite_snoc, lastWrite_snoc, ih, Option.map_or]

/-- A machine each of whose steps writes a register holds, after any run, the last
value written. -/
theorem read_foldl {σ : Type} (read : σ → V) (step : σ → ι → σ)
    (write : ι → Option V)
    (hstep : ∀ s i, read (step s i) = (write i).getD (read s)) (inputs : List ι)
    (s : σ) :
    read (inputs.foldl step s) = (lastWrite write inputs).getD (read s) := by
  induction inputs using List.reverseRecOn with
  | nil => rfl
  | append_singleton inputs i ih =>
    rw [List.foldl_append, List.foldl_cons, List.foldl_nil, hstep, ih,
      lastWrite_snoc]
    cases write i <;> rfl

end UniServer.Foundation.Register
