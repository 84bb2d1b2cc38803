/-
  Foundation/Registry.lean --- first-registration-wins maps.

  A registry holds at most one value under a key.  Offering a value fills an
  empty place and never replaces what is there; an empty offer changes nothing.
  `offers_apply` says what a registry holds after any run of offers, and
  `view_foldl` carries that to an implementation: it is enough that one step of
  the implementation offers what the registry is offered.  Where the offers agree
  (`Agree`) their order does not matter.
-/
import Mathlib.Data.List.Basic

set_option autoImplicit false

namespace UniServer.Foundation

/-- What is registered under each key. -/
abbrev Registry (K V : Type) : Type := K → Option V

namespace Registry

variable {K V : Type} [DecidableEq K]

/-- Offer a value, or nothing, under a key. -/
def offer (r : Registry K V) (key : K) (value : Option V) : Registry K V :=
  fun k => if k = key then (r k).or value else r k

/-- A run of offers. -/
def offers (r : Registry K V) (calls : List (K × Option V)) : Registry K V :=
  calls.foldl (fun r call => r.offer call.1 call.2) r

/-- The earliest value offered under a key. -/
def firstOffer (calls : List (K × Option V)) (key : K) : Option V :=
  calls.findSome? fun call => if call.1 = key then call.2 else none

theorem offer_apply (r : Registry K V) (key k : K) (value : Option V) :
    r.offer key value k = (r k).or (if key = k then value else none) := by
  unfold offer
  by_cases h : key = k
  · simp [h]
  · simp [h, Ne.symm h]

theorem firstOffer_cons (call : K × Option V) (calls : List (K × Option V))
    (key : K) :
    firstOffer (call :: calls) key =
      (if call.1 = key then call.2 else none).or (firstOffer calls key) := by
  unfold firstOffer
  rw [List.findSome?_cons]
  cases (if call.1 = key then call.2 else none) <;> rfl

/-- What is there stays; else the earliest value offered under the key counts. -/
theorem offers_apply (calls : List (K × Option V)) (r : Registry K V) (key : K) :
    r.offers calls key = (r key).or (firstOffer calls key) := by
  induction calls generalizing r with
  | nil => simp [offers, firstOffer]
  | cons call calls ih =>
    have hstep :
        r.offers (call :: calls) = (r.offer call.1 call.2).offers calls := rfl
    rw [hstep, ih, offer_apply, firstOffer_cons, Option.or_assoc]

/-! ## Implementations -/

section Implementation

variable {σ ι : Type} (view : σ → Registry K V) (step : σ → ι → σ)
  (request : ι → Option (K × Option V))

/-- An implementation each of whose steps makes the registry the offer of its
input, or none, holds after any run what the registry holds after the offers. -/
theorem view_foldl
    (hstep : ∀ s i, view (step s i) =
      (request i).elim (view s) fun call => (view s).offer call.1 call.2)
    (inputs : List ι) (s : σ) :
    view (inputs.foldl step s) = (view s).offers (inputs.filterMap request) := by
  induction inputs generalizing s with
  | nil => rfl
  | cons i inputs ih =>
    rw [List.foldl_cons, ih, hstep]
    cases hrequest : request i with
    | none => rw [List.filterMap_cons_none hrequest, Option.elim_none]
    | some call =>
      rw [List.filterMap_cons_some hrequest, Option.elim_some]
      rfl

end Implementation

/-- Offers filtered from a longer list of inputs. -/
theorem firstOffer_filterMap {ι : Type} (request : ι → Option (K × Option V))
    (inputs : List ι) (key : K) :
    firstOffer (inputs.filterMap request) key =
      inputs.findSome? fun i =>
        (request i).bind fun call => if call.1 = key then call.2 else none := by
  induction inputs with
  | nil => rfl
  | cons i inputs ih =>
    cases hrequest : request i with
    | none =>
      rw [List.filterMap_cons_none hrequest, ih, List.findSome?_cons, hrequest]
      rfl
    | some call =>
      rw [List.filterMap_cons_some hrequest, firstOffer_cons, ih,
        List.findSome?_cons, hrequest, Option.bind_some]
      cases (if call.1 = key then call.2 else none) <;> rfl

/-! ## The order of the offers -/

/-- No two offers have different values under one key. -/
def Agree (calls : List (K × Option V)) : Prop :=
  ∀ key v v', (key, some v) ∈ calls → (key, some v') ∈ calls → v = v'

theorem mem_of_firstOffer {calls : List (K × Option V)} {key : K} {v : V}
    (h : firstOffer calls key = some v) : (key, some v) ∈ calls := by
  obtain ⟨⟨k, value⟩, hmem, hcall⟩ := List.exists_of_findSome?_eq_some h
  simp only at hcall
  split at hcall
  · rename_i hkey
    rw [← hkey, ← hcall]
    exact hmem
  · cases hcall

/-- When the offers agree, which one comes first does not matter. -/
theorem firstOffer_eq_some_iff {calls : List (K × Option V)} (hagree : Agree calls)
    {key : K} {v : V} : firstOffer calls key = some v ↔ (key, some v) ∈ calls := by
  refine ⟨mem_of_firstOffer, fun hmem => ?_⟩
  cases hfirst : firstOffer calls key with
  | none =>
    have hnone := List.findSome?_eq_none_iff.mp hfirst _ hmem
    rw [if_pos rfl] at hnone
    cases hnone
  | some v' => rw [hagree key v' v (mem_of_firstOffer hfirst) hmem]

theorem firstOffer_congr {calls calls' : List (K × Option V)} (hagree : Agree calls)
    (hsame : ∀ call, call ∈ calls' ↔ call ∈ calls) (key : K) :
    firstOffer calls' key = firstOffer calls key := by
  have hagree' : Agree calls' := fun key v v' h h' =>
    hagree key v v' ((hsame _).mp h) ((hsame _).mp h')
  refine Option.ext fun v => ?_
  rw [firstOffer_eq_some_iff hagree', firstOffer_eq_some_iff hagree, hsame]

/-- An offer that is made first counts, so where every order comes to the same, any
two offers under the key have one value. -/
theorem eq_of_firstOffer_perm {ι : Type} {request : ι → Option (K × Option V)}
    {inputs : List ι} {key : K}
    (hperm : ∀ inputs' : List ι, inputs'.Perm inputs →
      firstOffer (inputs'.filterMap request) key =
        firstOffer (inputs.filterMap request) key)
    {i i' : ι} {v v' : V} (hi : i ∈ inputs) (hi' : i' ∈ inputs)
    (hrequest : request i = some (key, some v))
    (hrequest' : request i' = some (key, some v')) : v = v' := by
  have hcounts : ∀ {j : ι} {w : V}, j ∈ inputs → request j = some (key, some w) →
      firstOffer (inputs.filterMap request) key = some w := by
    intro j w hj hw
    obtain ⟨before, after, rfl⟩ := List.append_of_mem hj
    rw [← hperm (j :: (before ++ after)) List.perm_middle.symm,
      List.filterMap_cons_some hw, firstOffer_cons, if_pos rfl, Option.some_or]
  exact Option.some.inj ((hcounts hi hrequest).symm.trans (hcounts hi' hrequest'))

end Registry

end UniServer.Foundation
