/-
  Foundation/Trie.lean --- tries: a map from lists of keys, one level for each
  key.

  A forest is the children of a node, under their keys; a trie is a node with a
  value that may be missing.  `offer` walks down a list of keys, makes the nodes
  that are not there, and fills the value at the end of the walk if it is
  missing.  What a forest holds after an offer is said for every list of keys at
  once (`lookup_offer`): nodes made on the way hold nothing.
-/
import UniServer.Foundation.Assoc

set_option autoImplicit false

namespace UniServer.Foundation

/-- A node: its value, if it has one, and its children. -/
inductive Trie (K V : Type) where
  | node (value : Option V) (children : List (K × Trie K V))

namespace Trie

variable {K V : Type}

def value : Trie K V → Option V
  | node value _ => value

def children : Trie K V → List (K × Trie K V)
  | node _ children => children

/-- A node with nothing in it. -/
def bare : Trie K V := node none []

@[simp] theorem value_node (v : Option V) (cs : List (K × Trie K V)) :
    (node v cs).value = v := rfl

@[simp] theorem children_node (v : Option V) (cs : List (K × Trie K V)) :
    (node v cs).children = cs := rfl

@[simp] theorem value_bare : (bare : Trie K V).value = none := rfl

@[simp] theorem children_bare : (bare : Trie K V).children = [] := rfl

end Trie

/-- The children of a node. -/
abbrev Forest (K V : Type) : Type := List (K × Trie K V)

namespace Forest

variable {K V : Type} [DecidableEq K]

/-- The child under a key. -/
def child (f : Forest K V) (k : K) : Option (Trie K V) :=
  (Assoc.find id f k).map (·.2)

/-- The child under a key, or a bare one where there is none. -/
def childOrBare (f : Forest K V) (k : K) : Trie K V := (child f k).getD .bare

/-- Put a child under a key. -/
def setChild (f : Forest K V) (k : K) (t : Trie K V) : Forest K V :=
  Assoc.assign id f k t

theorem child_setChild_self (f : Forest K V) (k : K) (t : Trie K V) :
    child (setChild f k t) k = some t := by
  rw [child, setChild, Assoc.find_assign_self]
  rfl

theorem child_setChild_ne {k k' : K} (h : k' ≠ k) (f : Forest K V) (t : Trie K V) :
    child (setChild f k t) k' = child f k' := by
  rw [child, setChild, Assoc.find_assign_ne id h]
  rfl

theorem setChild_child {f : Forest K V} {k : K} {t : Trie K V}
    (h : child f k = some t) :
    setChild f k t = f := by
  obtain ⟨entry, hentry, rfl⟩ := Option.map_eq_some_iff.mp h
  exact Assoc.assign_find id hentry

/-- The value at the end of a walk; no value stands at the root. -/
def lookup : Forest K V → List K → Option V
  | _, [] => none
  | f, [k] => (child f k).bind Trie.value
  | f, k :: k' :: ks =>
      match child f k with
      | none => none
      | some t => lookup t.children (k' :: ks)

/-- Offer a value, or nothing, at the end of a walk. -/
def offer : Forest K V → List K → Option V → Forest K V
  | f, [], _ => f
  | f, [k], v =>
      setChild f k (.node ((childOrBare f k).value.or v) (childOrBare f k).children)
  | f, k :: k' :: ks, v =>
      setChild f k (.node (childOrBare f k).value
        (offer (childOrBare f k).children (k' :: ks) v))

@[simp] theorem lookup_empty (ks : List K) :
    lookup ([] : Forest K V) ks = none := by
  rcases ks with _ | ⟨k, _ | ⟨k', ks⟩⟩ <;> rfl

/-- Looking up through a child that may be missing. -/
theorem lookup_cons (f : Forest K V) (k k' : K) (ks : List K) :
    lookup f (k :: k' :: ks) = lookup (childOrBare f k).children (k' :: ks) := by
  rw [lookup, childOrBare]
  cases child f k <;> simp

theorem lookup_singleton (f : Forest K V) (k : K) :
    lookup f [k] = (childOrBare f k).value := by
  rw [lookup, childOrBare]
  cases child f k <;> rfl

theorem childOrBare_setChild_self (f : Forest K V) (k : K) (t : Trie K V) :
    childOrBare (setChild f k t) k = t := by
  rw [childOrBare, child_setChild_self, Option.getD_some]

theorem childOrBare_setChild_ne {k k' : K} (h : k' ≠ k) (f : Forest K V)
    (t : Trie K V) :
    childOrBare (setChild f k t) k' = childOrBare f k' := by
  rw [childOrBare, child_setChild_ne h, childOrBare]

/-- A walk that does not start with `k` does not see what is put under it. -/
theorem lookup_setChild_ne {k k' : K} (h : k' ≠ k) (f : Forest K V)
    (t : Trie K V) (ks : List K) :
    lookup (setChild f k t) (k' :: ks) = lookup f (k' :: ks) := by
  cases ks with
  | nil => rw [lookup_singleton, lookup_singleton, childOrBare_setChild_ne h]
  | cons k'' ks => rw [lookup_cons, lookup_cons, childOrBare_setChild_ne h]

/-- An offer changes the value at the end of its own walk only, and that one only
if it was missing. -/
theorem lookup_offer {ks : List K} (hks : ks ≠ []) (f : Forest K V)
    (v : Option V) (ks' : List K) :
    lookup (offer f ks v) ks' = if ks' = ks then (lookup f ks).or v
      else lookup f ks' := by
  induction ks generalizing f ks' with
  | nil => exact absurd rfl hks
  | cons k rest ih =>
    cases ks' with
    | nil => simp [lookup]
    | cons l rest' =>
      by_cases hl : l = k
      · subst hl
        cases rest with
        | nil =>
          cases rest' with
          | nil =>
            rw [offer, lookup_singleton, childOrBare_setChild_self,
              lookup_singleton]
            simp
          | cons l' rest' =>
            rw [offer, lookup_cons, childOrBare_setChild_self, lookup_cons]
            simp
        | cons k' rest =>
          cases rest' with
          | nil =>
            rw [offer, lookup_singleton, childOrBare_setChild_self,
              lookup_singleton]
            simp
          | cons l' rest' =>
            have hrec :=
              ih (List.cons_ne_nil k' rest) (childOrBare f l).children (l' :: rest')
            rw [offer, lookup_cons, childOrBare_setChild_self, Trie.children_node,
              hrec, lookup_cons, lookup_cons]
            simp
      · have hne : l :: rest' ≠ k :: rest := fun heq => hl (List.cons.inj heq).1
        rw [if_neg hne]
        cases rest with
        | nil => rw [offer, lookup_setChild_ne hl]
        | cons k' rest => rw [offer, lookup_setChild_ne hl]

/-- An offer to a place that is taken leaves the forest as it is. -/
theorem offer_of_taken {ks : List K} {f : Forest K V} (h : (lookup f ks).isSome)
    (v : Option V) :
    offer f ks v = f := by
  induction ks generalizing f with
  | nil => rfl
  | cons k rest ih =>
    cases hchild : child f k with
    | none =>
      have hbare : childOrBare f k = .bare := by
        rw [childOrBare, hchild, Option.getD_none]
      cases rest with
      | nil =>
        rw [lookup_singleton, hbare] at h
        cases h
      | cons k' rest =>
        rw [lookup_cons, hbare, Trie.children_bare, lookup_empty] at h
        cases h
    | some t =>
      have ht : childOrBare f k = t := by rw [childOrBare, hchild, Option.getD_some]
      obtain ⟨held, cs⟩ := t
      cases rest with
      | nil =>
        rw [lookup_singleton, ht, Trie.value_node] at h
        rw [offer, ht, Trie.value_node, Trie.children_node, Option.or_of_isSome h]
        exact setChild_child hchild
      | cons k' rest =>
        rw [lookup_cons, ht, Trie.children_node] at h
        rw [offer, ht, Trie.value_node, Trie.children_node, ih h]
        exact setChild_child hchild

end Forest

end UniServer.Foundation
