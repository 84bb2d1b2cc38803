/-
  Foundation/Ledger.lean --- resources that are acquired, held and released.

  The books list what was acquired and what was released, in order.  They are
  reconciled with what is held when everything that was acquired was released or is
  held, each as often as it was acquired.

  Owners hold resources, and what they hold together does not depend on their order.
  `Reconciled.update` is the rule for one owner that changes: when its own account
  comes out, the books stay reconciled, whatever the others hold.
-/
import Mathlib.Data.List.Perm.Basic

set_option autoImplicit false

namespace UniServer.Foundation

variable {α β : Type}

/-! ## Owners -/

/-- What the owners hold together. -/
def holdings (held : α → List β) (owners : List α) : List β := owners.flatMap held

section Owners

variable {held : α → List β} {owners : List α} {i : Nat} {a : α}

/-- One owner, and the others. -/
theorem holdings_getElem? (ha : owners[i]? = some a) :
    (holdings held owners).Perm (held a ++ holdings held (owners.eraseIdx i)) := by
  obtain ⟨hi, rfl⟩ := List.getElem?_eq_some_iff.mp ha
  exact ((List.getElem_cons_eraseIdx_perm hi).flatMap_right held).symm

theorem holdings_set (hi : i < owners.length) (b : α) :
    (holdings held (owners.set i b)).Perm
      (held b ++ holdings held (owners.eraseIdx i)) :=
  (List.set_perm_cons_eraseIdx hi b).flatMap_right held

theorem holdings_snoc (b : α) :
    holdings held (owners ++ [b]) = holdings held owners ++ held b := by
  simp [holdings]

/-- What an owner holds is among what the owners hold. -/
theorem mem_holdings {x : β} (ha : owners[i]? = some a) (hx : x ∈ held a) :
    x ∈ holdings held owners :=
  List.mem_flatMap.mpr ⟨a, List.mem_of_getElem? ha, hx⟩

/-- A change to an owner that leaves what it holds. -/
theorem holdings_set_same (ha : owners[i]? = some a) {b : α}
    (hsame : held b = held a) :
    (holdings held (owners.set i b)).Perm (holdings held owners) := by
  have hi : i < owners.length := (List.getElem?_eq_some_iff.mp ha).1
  have hset := @holdings_set α β held owners i hi b
  rw [hsame] at hset
  exact hset.trans (holdings_getElem? ha).symm

/-- Two owners that exchange what they hold. -/
theorem holdings_exchange {j : Nat} {b a' b' : α} (hij : i ≠ j)
    (ha : owners[i]? = some a) (hb : owners[j]? = some b) (ha' : held a' = held b)
    (hb' : held b' = held a) :
    (holdings held ((owners.set i a').set j b')).Perm (holdings held owners) := by
  have hi : i < owners.length := (List.getElem?_eq_some_iff.mp ha).1
  have hj : (owners.set i a')[j]? = some b := by
    rw [List.getElem?_set_ne hij]
    exact hb
  have hfirst := @holdings_set α β held owners i hi a'
  have hbefore := @holdings_getElem? α β held _ _ _ ha
  have hsecond := @holdings_set α β held (owners.set i a') j
    (List.getElem?_eq_some_iff.mp hj).1 b'
  have hbetween := @holdings_getElem? α β held _ _ _ hj
  rw [ha'] at hfirst
  rw [hb'] at hsecond
  -- with `held b` in front both sides are the list in between, with `held a`
  have hfront : (held b ++ holdings held ((owners.set i a').set j b')).Perm
      (held b ++ holdings held owners) := by
    calc (held b ++ holdings held ((owners.set i a').set j b')).Perm
          (held b ++ (held a ++ holdings held ((owners.set i a').eraseIdx j))) :=
          hsecond.append_left _
      _ |>.Perm
        (held a ++ (held b ++ holdings held ((owners.set i a').eraseIdx j))) :=
          by
            rw [← List.append_assoc, ← List.append_assoc]
            exact List.perm_append_comm.append_right _
      _ |>.Perm (held a ++ holdings held (owners.set i a')) :=
          hbetween.symm.append_left _
      _ |>.Perm (held a ++ (held b ++ holdings held (owners.eraseIdx i))) :=
          hfirst.append_left _
      _ |>.Perm (held b ++ (held a ++ holdings held (owners.eraseIdx i))) := by
            rw [← List.append_assoc, ← List.append_assoc]
            exact List.perm_append_comm.append_right _
      _ |>.Perm (held b ++ holdings held owners) := hbefore.symm.append_left _
  exact (List.perm_append_left_iff _).mp hfront

end Owners

/-! ## Books -/

/-- Everything that was acquired was released, or is held. -/
def Reconciled (acquired released holds : List β) : Prop :=
  acquired.Perm (released ++ holds)

namespace Reconciled

variable {acquired released holds holds' : List β}

theorem congr (h : Reconciled acquired released holds) (hsame : holds'.Perm holds) :
    Reconciled acquired released holds' :=
  List.Perm.trans h (hsame.symm.append_left _)

/-- What is acquired may be kept, and what was held may be released; the rest stays
as it is. -/
theorem update (h : Reconciled acquired released holds) {before after rest : List β}
    (hbefore : holds.Perm (before ++ rest)) {acquires releases : List β}
    (hown : (before ++ acquires).Perm (releases ++ after))
    (hafter : holds'.Perm (after ++ rest)) :
    Reconciled (acquired ++ acquires) (released ++ releases) holds' := by
  have hmiddle :
      (before ++ rest ++ acquires).Perm (releases ++ (after ++ rest)) := by
    calc (before ++ rest ++ acquires).Perm (before ++ acquires ++ rest) := by
            rw [List.append_assoc, List.append_assoc]
            exact List.perm_append_comm.append_left _
      _ |>.Perm (releases ++ after ++ rest) := hown.append_right _
      _ |>.Perm (releases ++ (after ++ rest)) := by
            rw [List.append_assoc]
  calc (acquired ++ acquires).Perm (released ++ holds ++ acquires) :=
        List.Perm.append_right _ h
    _ |>.Perm (released ++ (before ++ rest ++ acquires)) := by
          rw [List.append_assoc]
          exact (hbefore.append_right _).append_left _
    _ |>.Perm (released ++ (releases ++ (after ++ rest))) := hmiddle.append_left _
    _ |>.Perm (released ++ releases ++ holds') := by
          rw [List.append_assoc]
          exact (hafter.symm.append_left _).append_left _

/-- One more, which is held. -/
theorem acquire (h : Reconciled acquired released holds) (x : β) :
    Reconciled (acquired ++ [x]) released (x :: holds) := by
  have hlast := List.Perm.append_right [x] h
  rw [List.append_assoc] at hlast
  exact hlast.trans ((List.perm_append_singleton x holds).append_left _)

/-- One of what is held is given back. -/
theorem release {x : β} (h : Reconciled acquired released (x :: holds)) :
    Reconciled acquired (released ++ [x]) holds := by
  refine List.Perm.trans h ?_
  rw [List.append_assoc]
  exact .refl _

/-- Where each resource is acquired once, it is released once at most, and not while
it is held. -/
theorem nodup (h : Reconciled acquired released holds) (honce : acquired.Nodup) :
    (released ++ holds).Nodup :=
  h.nodup_iff.mp honce

end Reconciled

/-! ## Numbered resources -/

/-- Resources that are numbered as they are acquired: how many there were, and which
of them were released. -/
structure Ledger where
  acquired : Nat := 0
  released : List Nat := []
  deriving DecidableEq

namespace Ledger

def acquire (l : Ledger) : Nat × Ledger :=
  (l.acquired, { l with acquired := l.acquired + 1 })

def release (l : Ledger) (n : Nat) : Ledger :=
  { l with released := l.released ++ [n] }

/-- An owner that may hold nothing lets go. -/
def reset (l : Ledger) : Option Nat → Ledger
  | none => l
  | some n => l.release n

/-- What was acquired was released, or is among these. -/
def Holds (l : Ledger) (held : List Nat) : Prop :=
  Reconciled (List.range l.acquired) l.released held

/-- What happens to the ledger while an owner that holds `before` comes to hold
`after`. -/
def Change (before after : List Nat) (l l' : Ledger) : Prop :=
  ∀ rest, l.Holds (before ++ rest) → l'.Holds (after ++ rest)

variable {l l' l'' : Ledger} {before after : List Nat}

theorem Holds.nodup {held : List Nat} (h : l.Holds held) :
    (l.released ++ held).Nodup :=
  Reconciled.nodup h List.nodup_range

theorem Change.refl (held : List Nat) (l : Ledger) : Change held held l l :=
  fun _ h => h

theorem Change.trans {between : List Nat} (h : Change before between l l')
    (h' : Change between after l' l'') : Change before after l l'' :=
  fun rest hrest => h' rest (h rest hrest)

theorem Change.congr (h : Change before after l l') {before' after' : List Nat}
    (hbefore : before'.Perm before) (hafter : after.Perm after') :
    Change before' after' l l' := by
  intro rest hrest
  have hfirst : Reconciled _ _ (before ++ rest) :=
    Reconciled.congr hrest (hbefore.symm.append_right rest)
  exact Reconciled.congr (h rest hfirst) (hafter.symm.append_right rest)

/-- What else the owner holds stays. -/
theorem Change.frame (h : Change before after l l') (kept : List Nat) :
    Change (before ++ kept) (after ++ kept) l l' := by
  intro rest hrest
  rw [List.append_assoc] at hrest ⊢
  exact h _ hrest

theorem change_acquire (l : Ledger) : Change [] [l.acquire.1] l l.acquire.2 := by
  intro rest h
  have hnew := Reconciled.acquire h l.acquired
  rw [← List.range_succ] at hnew
  exact hnew

theorem change_release (l : Ledger) (n : Nat) : Change [n] [] l (l.release n) :=
  fun _ h => Reconciled.release h

theorem change_reset (l : Ledger) (p : Option Nat) :
    Change p.toList [] l (l.reset p) := by
  cases p with
  | none => exact .refl [] l
  | some n => exact change_release l n

end Ledger

end UniServer.Foundation
