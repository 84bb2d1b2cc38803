/-
  Foundation/Assoc.lean --- hash maps as association lists.

  A hash map is used through three operations: look a key up, assign to a key,
  iterate.  Two keys are the same key when they have the same normal form: the
  identity for a map of plain strings, the lower-cased text for a map that
  ignores case.  The list holds the entries in iteration order, which the
  standard leaves open; `NormMap` adds that no two entries share a normal form.

  Assigning to a key that is present keeps the key as it was first spelled, as
  `operator[]` does.
-/
import Mathlib.Data.List.Nodup

set_option autoImplicit false

namespace UniServer.Foundation

namespace Assoc

variable {K V N : Type} [DecidableEq N] (norm : K → N)

/-- The entry of a key. -/
def find (entries : List (K × V)) (key : K) : Option (K × V) :=
  entries.find? fun entry => norm entry.1 = norm key

/-- Assign to a key: overwrite the value in place, or add an entry at the end. -/
def assign : List (K × V) → K → V → List (K × V)
  | [], key, value => [(key, value)]
  | entry :: entries, key, value =>
      if norm entry.1 = norm key then (entry.1, value) :: entries
      else entry :: assign entries key value

@[simp] theorem find_nil (key : K) : find norm ([] : List (K × V)) key = none := rfl

theorem find_cons_self {entry : K × V} {key : K} (h : norm entry.1 = norm key)
    (entries : List (K × V)) : find norm (entry :: entries) key = some entry := by
  simp [find, h]

theorem find_cons_ne {entry : K × V} {key : K} (h : norm entry.1 ≠ norm key)
    (entries : List (K × V)) :
    find norm (entry :: entries) key = find norm entries key := by
  simp [find, h]

/-- Keys with one normal form are the same key. -/
theorem find_congr {key key' : K} (h : norm key = norm key')
    (entries : List (K × V)) :
    find norm entries key = find norm entries key' := by
  simp [find, h]

/-- A key that was assigned holds the value, under its first spelling. -/
theorem find_assign_self (entries : List (K × V)) (key : K) (value : V) :
    find norm (assign norm entries key value) key =
      some (((find norm entries key).map (·.1)).getD key, value) := by
  induction entries with
  | nil => simp [assign, find]
  | cons entry entries ih =>
    by_cases h : norm entry.1 = norm key
    · simp [assign, h, find]
    · rw [assign, if_neg h, find_cons_ne norm h, find_cons_ne norm h, ih]

/-- Assigning to one key leaves every other key alone. -/
theorem find_assign_ne {key key' : K} (h : norm key' ≠ norm key)
    (entries : List (K × V)) (value : V) :
    find norm (assign norm entries key value) key' = find norm entries key' := by
  induction entries with
  | nil => simp [assign, find, Ne.symm h]
  | cons entry entries ih =>
    by_cases heq : norm entry.1 = norm key
    · have hentry : norm entry.1 ≠ norm key' := fun he => h (he.symm.trans heq)
      have hentry' : norm (entry.1, value).1 ≠ norm key' := hentry
      rw [assign, if_pos heq, find_cons_ne norm hentry, find_cons_ne norm hentry']
    · rw [assign, if_neg heq]
      by_cases hentry : norm entry.1 = norm key'
      · rw [find_cons_self norm hentry, find_cons_self norm hentry]
      · rw [find_cons_ne norm hentry, find_cons_ne norm hentry, ih]

theorem norm_keys_assign (entries : List (K × V)) (key : K) (value : V) :
    ∀ n ∈ (assign norm entries key value).map (fun entry => norm entry.1),
      n = norm key ∨ n ∈ entries.map fun entry => norm entry.1 := by
  induction entries with
  | nil => simp [assign]
  | cons entry entries ih =>
    intro n hn
    rw [assign] at hn
    split at hn
    · exact Or.inr (by simpa using hn)
    · rw [List.map_cons, List.mem_cons] at hn
      rcases hn with rfl | hn
      · simp
      · rcases ih n hn with h | h
        · exact Or.inl h
        · exact Or.inr (by simp only [List.map_cons, List.mem_cons]; exact Or.inr h)

theorem assign_forall {P : K → Prop} {Q : V → Prop} {entries : List (K × V)}
    (h : ∀ entry ∈ entries, P entry.1 ∧ Q entry.2) {key : K} {value : V}
    (hkey : P key) (hvalue : Q value) :
    ∀ entry ∈ assign norm entries key value, P entry.1 ∧ Q entry.2 := by
  induction entries with
  | nil => simpa [assign] using ⟨hkey, hvalue⟩
  | cons entry entries ih =>
    obtain ⟨hentry, hrest⟩ := List.forall_mem_cons.mp h
    rw [assign]
    split
    · exact List.forall_mem_cons.mpr ⟨⟨hentry.1, hvalue⟩, hrest⟩
    · exact List.forall_mem_cons.mpr ⟨hentry, ih hrest⟩

theorem nodup_assign {entries : List (K × V)}
    (h : (entries.map fun entry => norm entry.1).Nodup) (key : K) (value : V) :
    ((assign norm entries key value).map fun entry => norm entry.1).Nodup := by
  induction entries with
  | nil => simp [assign]
  | cons entry entries ih =>
    rw [List.map_cons, List.nodup_cons] at h
    rw [assign]
    split
    · rw [List.map_cons, List.nodup_cons]
      exact h
    · rename_i hne
      rw [List.map_cons, List.nodup_cons]
      refine ⟨fun hmem => ?_, ih h.2⟩
      rcases norm_keys_assign norm entries key value _ hmem with heq | hmem'
      · exact hne heq
      · exact h.1 hmem'

/-- Assigning to a key what it holds changes nothing. -/
theorem assign_find {entries : List (K × V)} {key : K} {entry : K × V}
    (h : find norm entries key = some entry) :
    assign norm entries key entry.2 = entries := by
  induction entries with
  | nil => cases h
  | cons other entries ih =>
    by_cases heq : norm other.1 = norm key
    · rw [find_cons_self norm heq, Option.some_inj] at h
      rw [assign, if_pos heq, ← h]
    · rw [find_cons_ne norm heq] at h
      rw [assign, if_neg heq, ih h]

/-- A key that is not there is added at the end. -/
theorem assign_of_notMem {entries : List (K × V)} {key : K}
    (h : norm key ∉ entries.map fun entry => norm entry.1) (value : V) :
    assign norm entries key value = entries ++ [(key, value)] := by
  induction entries with
  | nil => rfl
  | cons entry entries ih =>
    rw [List.map_cons, List.mem_cons, not_or] at h
    rw [assign, if_neg (Ne.symm h.1), ih h.2, List.cons_append]

end Assoc

/-! ## Maps with distinct keys -/

/-- A hash map keyed up to `norm`: entries in iteration order, no two of them
under the same normal form. -/
structure NormMap {K N : Type} (norm : K → N) (V : Type) where
  entries : List (K × V)
  distinct : (entries.map fun entry => norm entry.1).Nodup

namespace NormMap

variable {K V N : Type} [DecidableEq N] {norm : K → N}

def empty : NormMap norm V := ⟨[], List.nodup_nil⟩

/-- `find`: the stored key and its value. -/
def find (m : NormMap norm V) (key : K) : Option (K × V) :=
  Assoc.find norm m.entries key

/-- `count`, which is 0 or 1 here. -/
def contains (m : NormMap norm V) (key : K) : Bool := (m.find key).isSome

/-- `m[key] = value`. -/
def assign (m : NormMap norm V) (key : K) (value : V) : NormMap norm V :=
  ⟨Assoc.assign norm m.entries key value,
    Assoc.nodup_assign norm m.distinct key value⟩

/-- Two maps with the same entries, in whatever order they are iterated. -/
def Same (m₁ m₂ : NormMap norm V) : Prop := ∀ key, m₁.find key = m₂.find key

@[simp] theorem find_empty (key : K) : (empty : NormMap norm V).find key = none :=
  rfl

theorem find_assign_self (m : NormMap norm V) (key : K) (value : V) :
    (m.assign key value).find key =
      some (((m.find key).map (·.1)).getD key, value) :=
  Assoc.find_assign_self norm m.entries key value

theorem find_assign_ne (m : NormMap norm V) {key key' : K}
    (h : norm key' ≠ norm key) (value : V) :
    (m.assign key value).find key' = m.find key' :=
  Assoc.find_assign_ne norm h m.entries value

theorem find_congr (m : NormMap norm V) {key key' : K} (h : norm key = norm key') :
    m.find key = m.find key' :=
  Assoc.find_congr norm h m.entries

/-- Every entry is found under its own key. -/
theorem find_of_mem (m : NormMap norm V) {entry : K × V} (h : entry ∈ m.entries) :
    m.find entry.1 = some entry := by
  obtain ⟨entries, distinct⟩ := m
  unfold find
  induction entries with
  | nil => cases h
  | cons first entries ih =>
    rw [List.map_cons, List.nodup_cons] at distinct
    rcases List.mem_cons.mp h with rfl | hrest
    · exact Assoc.find_cons_self norm rfl entries
    · have hne : norm first.1 ≠ norm entry.1 := by
        intro heq
        exact distinct.1 (heq ▸ List.mem_map_of_mem hrest)
      rw [Assoc.find_cons_ne norm hne]
      exact ih distinct.2 hrest

/-- What holds of all values is what holds of every value that is found. -/
theorem forall_values_iff (m : NormMap norm V) (P : V → Prop) :
    (∀ entry ∈ m.entries, P entry.2) ↔
      ∀ key value, (m.find key).map (·.2) = some value → P value := by
  constructor
  · intro h key value hvalue
    obtain ⟨entry, hentry, rfl⟩ := Option.map_eq_some_iff.mp hvalue
    exact h entry (List.mem_of_find?_eq_some hentry)
  · intro h entry hentry
    exact h entry.1 entry.2 (by rw [find_of_mem m hentry, Option.map_some])

/-! ## Maps built from a list of assignments

`collect` is the map after a run of assignments.  What it holds under a key is a
matter of the list alone: the spelling of the first assignment to the key and
the value of the last (`find_collect`). -/

/-- Assign the pairs of a list, in order. -/
def collect (m : NormMap norm V) (fields : List (K × V)) : NormMap norm V :=
  fields.foldl (fun m field => m.assign field.1 field.2) m

@[simp] theorem collect_nil (m : NormMap norm V) : m.collect [] = m := rfl

@[simp] theorem collect_cons (m : NormMap norm V) (field : K × V)
    (fields : List (K × V)) :
    m.collect (field :: fields) = (m.assign field.1 field.2).collect fields := rfl

theorem collect_append (m : NormMap norm V) (fields more : List (K × V)) :
    m.collect (fields ++ more) = (m.collect fields).collect more :=
  List.foldl_append

/-- What all assigned keys and all assigned values have in common holds of the keys
and the values of the map. -/
theorem collect_forall (P : K → Prop) (Q : V → Prop) (m : NormMap norm V)
    (fields : List (K × V)) (hm : ∀ entry ∈ m.entries, P entry.1 ∧ Q entry.2)
    (hfields : ∀ field ∈ fields, P field.1 ∧ Q field.2) :
    ∀ entry ∈ (m.collect fields).entries, P entry.1 ∧ Q entry.2 := by
  induction fields generalizing m with
  | nil => exact hm
  | cons field fields ih =>
    obtain ⟨hfield, hrest⟩ := List.forall_mem_cons.mp hfields
    rw [collect_cons]
    exact ih _ (Assoc.assign_forall norm hm hfield.1 hfield.2) hrest

/-- Assigning to new keys only lists the entries one behind the other. -/
theorem collect_entries (m : NormMap norm V) (fields : List (K × V))
    (h : ((m.entries ++ fields).map fun entry => norm entry.1).Nodup) :
    (m.collect fields).entries = m.entries ++ fields := by
  induction fields generalizing m with
  | nil => rw [collect_nil, List.append_nil]
  | cons field fields ih =>
    have hnew : norm field.1 ∉ m.entries.map fun entry => norm entry.1 := by
      rw [List.map_append, List.nodup_append] at h
      intro hmem
      exact h.2.2 _ hmem _ (by simp) rfl
    have hstep : (m.assign field.1 field.2).entries = m.entries ++ [field] :=
      Assoc.assign_of_notMem norm hnew field.2
    rw [collect_cons, ih _ (by rw [hstep]; simpa using h), hstep, List.append_assoc,
      List.singleton_append]

theorem find_collect_distinct {fields : List (K × V)}
    (h : (fields.map fun field => norm field.1).Nodup) (key : K) :
    ((empty : NormMap norm V).collect fields).find key =
      Assoc.find norm fields key := by
  have hentries : ((empty : NormMap norm V).collect fields).entries = fields :=
    collect_entries empty fields h
  rw [find, hentries]

/-- The first spelling of a key among the fields. -/
def firstName (norm : K → N) (fields : List (K × V)) (key : K) : Option K :=
  (Assoc.find norm fields key).map (·.1)

/-- The last value given to a key among the fields. -/
def lastValue (norm : K → N) (fields : List (K × V)) (key : K) : Option V :=
  (Assoc.find norm fields.reverse key).map (·.2)

theorem lastValue_cons (field : K × V) (fields : List (K × V)) (key : K) :
    lastValue norm (field :: fields) key =
      (lastValue norm fields key).or (if norm field.1 = norm key then some field.2
        else none) := by
  simp only [lastValue, Assoc.find, List.reverse_cons, List.find?_append]
  cases (fields.reverse.find? fun entry => norm entry.1 = norm key) with
  | some entry => rfl
  | none =>
    by_cases h : norm field.1 = norm key
    · simp [h]
    · simp [h]

theorem lastValue_append (fields more : List (K × V)) (key : K) :
    lastValue norm (fields ++ more) key =
      (lastValue norm more key).or (lastValue norm fields key) := by
  simp only [lastValue, Assoc.find, List.reverse_append, List.find?_append]
  cases (more.reverse.find? fun entry => norm entry.1 = norm key) <;> rfl

theorem firstName_append (fields more : List (K × V)) (key : K) :
    firstName norm (fields ++ more) key =
      (firstName norm fields key).or (firstName norm more key) := by
  simp only [firstName, Assoc.find, List.find?_append]
  cases (fields.find? fun entry => norm entry.1 = norm key) <;> rfl

/-- A key has a first spelling exactly when it has a last value. -/
theorem firstName_isSome_eq_lastValue (fields : List (K × V)) (key : K) :
    (firstName norm fields key).isSome = (lastValue norm fields key).isSome := by
  rw [Bool.eq_iff_iff]
  simp [firstName, lastValue, Assoc.find]

/-- What the map holds under a key after a run of assignments. -/
theorem find_collect (m : NormMap norm V) (fields : List (K × V)) (key : K) :
    (m.collect fields).find key =
      (((lastValue norm fields key).or ((m.find key).map (·.2))).map fun value =>
        ((((m.find key).map (·.1)).or (firstName norm fields key)).getD key,
          value)) := by
  induction fields generalizing m with
  | nil =>
    cases h : m.find key <;> simp [h, lastValue, firstName]
  | cons field fields ih =>
    rw [collect_cons, ih, lastValue_cons]
    by_cases h : norm field.1 = norm key
    · rw [← find_congr _ h, find_assign_self]
      simp only [h, if_true, firstName, Assoc.find_cons_self norm h]
      cases hm : m.find field.1 <;> cases hl : lastValue norm fields key <;>
        simp [find_congr m h.symm, hm]
    · rw [find_assign_ne _ (Ne.symm h)]
      simp only [h, if_false, Option.or_none, firstName, Assoc.find_cons_ne norm h]

theorem find_collect_empty (fields : List (K × V)) (key : K) :
    ((empty : NormMap norm V).collect fields).find key =
      (lastValue norm fields key).map fun value =>
        ((firstName norm fields key).getD key, value) := by
  rw [find_collect]
  simp

/-- Two runs of assignments give the same map when they agree, for every key, on
its last value and on its first spelling. -/
theorem collect_same_iff (fields fields' : List (K × V)) :
    ((empty : NormMap norm V).collect fields).Same (empty.collect fields') ↔
      ∀ key, lastValue norm fields key = lastValue norm fields' key ∧
        firstName norm fields key = firstName norm fields' key := by
  unfold Same
  apply forall_congr'
  intro key
  rw [find_collect_empty, find_collect_empty]
  have hsome : (firstName norm fields key).isSome =
      (lastValue norm fields key).isSome :=
    firstName_isSome_eq_lastValue fields key
  have hsome' : (firstName norm fields' key).isSome =
      (lastValue norm fields' key).isSome :=
    firstName_isSome_eq_lastValue fields' key
  cases hlast : lastValue norm fields key <;>
    cases hlast' : lastValue norm fields' key <;>
    cases hname : firstName norm fields key <;> cases hname' :
      firstName norm fields' key <;>
    simp_all [and_comm]

theorem contains_collect_empty (fields : List (K × V)) (key : K) :
    ((empty : NormMap norm V).collect fields).contains key =
      fields.any fun field => decide (norm field.1 = norm key) := by
  rw [contains, find_collect_empty, Option.isSome_map,
    ← firstName_isSome_eq_lastValue, firstName, Option.isSome_map, Assoc.find,
    Bool.eq_iff_iff]
  simp

end NormMap

end UniServer.Foundation
