/-
  Foundation/Forks.lean --- a process that starts others.

  The parent takes iterations of its own, and an iteration may start a child: a
  copy of what the parent holds then, which runs one of a family of loops.  Parent
  and children share nothing afterwards, and the events of all of them come in any
  order.

  `parent_run` and `children_run` say what that order leaves open: nothing.  The
  parent is where its own iterations bring it, and each child is where its loop is
  on its own outcomes since it was started.  `birth_of_getElem?` finds the iteration
  that has started a child.
-/
import Mathlib.Data.List.Induction
import UniServer.Foundation.Loop

set_option autoImplicit false

namespace UniServer.Foundation

/-! ## Where a loop is -/

/-- A loop that waits for the outcome of a call, or has left. -/
inductive Status (σ ρ : Type) where
  | waits (s : σ)
  | left (r : ρ)
  deriving DecidableEq, Repr

namespace Loop

variable {σ ε ρ κ : Type}

/-- The test at the head. -/
def settle (l : Loop σ ε ρ) (s : σ) : Status σ ρ :=
  match l.exit s with
  | some r => .left r
  | none => .waits s

/-- One outcome; a loop that has left takes no notice. -/
def advance (l : Loop σ ε ρ) : Status σ ρ → ε → Status σ ρ
  | .waits s, e =>
      match l.turn s e with
      | .next s' => l.settle s'
      | .stop r => .left r
  | .left r, _ => .left r

/-- Where the loop is after these outcomes. -/
def after (l : Loop σ ε ρ) (s : σ) (es : List ε) : Status σ ρ :=
  es.foldl l.advance (l.settle s)

theorem foldl_advance_left (l : Loop σ ε ρ) (r : ρ) (es : List ε) :
    es.foldl l.advance (.left r) = .left r := by
  induction es with
  | nil => rfl
  | cons e es ih => exact ih

/-- It has left when the run has stopped, and else waits where the run has gone. -/
theorem after_cases (l : Loop σ ε ρ) (s : σ) (es : List ε) :
    (∃ r, l.after s es = .left r ∧ l.run s es = some r) ∨
      ∃ t, l.after s es = .waits t ∧ l.run s es = none ∧ l.goes s es = some t := by
  induction es generalizing s with
  | nil =>
    cases hexit : l.exit s with
    | some r => exact Or.inl ⟨r, by simp [after, settle, hexit], hexit⟩
    | none => exact Or.inr ⟨s, by simp [after, settle, hexit], hexit, rfl⟩
  | cons e es ih =>
    cases hexit : l.exit s with
    | some r =>
      refine Or.inl ⟨r, ?_, run_exit hexit _⟩
      rw [after, settle, hexit]
      exact foldl_advance_left l r _
    | none =>
      cases hturn : l.turn s e with
      | stop r =>
        refine Or.inl ⟨r, ?_, run_stop hexit hturn es⟩
        rw [after, settle, hexit, List.foldl_cons, advance, hturn]
        exact foldl_advance_left l r es
      | next s' =>
        have hafter : l.after s (e :: es) = l.after s' es := by
          rw [after, settle, hexit, List.foldl_cons, advance, hturn]
          rfl
        rw [hafter, run_next hexit hturn, goes_next hexit hturn]
        exact ih s'

theorem after_eq_left_iff {l : Loop σ ε ρ} {s : σ} {es : List ε} {r : ρ} :
    l.after s es = .left r ↔ l.run s es = some r := by
  rcases after_cases l s es with ⟨r', hafter, hrun⟩ | ⟨t, hafter, hrun, _⟩
  · rw [hafter, hrun, Status.left.injEq, Option.some_inj]
  · rw [hafter, hrun]
    exact iff_of_false (by simp) (by simp)

/-- A family of loops as one: which of them runs stands in the state. -/
def family (l : κ → Loop σ ε ρ) : Loop (κ × σ) ε (κ × ρ) where
  exit s := ((l s.1).exit s.2).map fun r => (s.1, r)
  turn s e :=
    match (l s.1).turn s.2 e with
    | .next s' => .next (s.1, s')
    | .stop r => .stop (s.1, r)

/-- The status of one of the family. -/
def tagged (k : κ) : Status σ ρ → Status (κ × σ) (κ × ρ)
  | .waits s => .waits (k, s)
  | .left r => .left (k, r)

/-- Which of the family it is. -/
def tag : Status (κ × σ) (κ × ρ) → κ
  | .waits s => s.1
  | .left r => r.1

@[simp] theorem tag_tagged (k : κ) (c : Status σ ρ) : tag (tagged k c) = k := by
  cases c <;> rfl

theorem after_family (l : κ → Loop σ ε ρ) (k : κ) (s : σ) (es : List ε) :
    (family l).after (k, s) es = tagged k ((l k).after s es) := by
  have hadvance : ∀ (c : Status σ ρ) (e : ε),
      (family l).advance (tagged k c) e = tagged k ((l k).advance c e) := by
    intro c e
    cases c with
    | left r => rfl
    | waits s =>
      simp only [tagged, advance, family]
      cases (l k).turn s e with
      | stop r => rfl
      | next s' =>
        simp only [settle]
        cases (l k).exit s' <;> rfl
  have hsettle : (family l).settle (k, s) = tagged k ((l k).settle s) := by
    simp only [settle, family]
    cases (l k).exit s <;> rfl
  rw [after, after, hsettle]
  generalize (l k).settle s = c
  induction es generalizing c with
  | nil => rfl
  | cons e es ih => rw [List.foldl_cons, List.foldl_cons, hadvance, ih]

end Loop

/-! ## A parent and its children -/

/-- An event of the parent, or of the child with this number. -/
inductive ForkEvent (ε δ : Type) where
  | parent (e : ε)
  | child (i : Nat) (d : δ)
  deriving DecidableEq, Repr

/-- An iteration of the parent, with the child that it starts, and the loop of the
children. -/
structure Forks (σ ε τ δ ρ : Type) where
  turn : σ → ε → σ × Option τ
  child : Loop τ δ ρ

/-- All processes; children in the order in which they were started. -/
structure Forks.State (σ τ ρ : Type) where
  parent : σ
  children : List (Status τ ρ)

namespace Forks

variable {σ ε τ δ ρ : Type} (f : Forks σ ε τ δ ρ)

/-- One event; a child that is not there takes no notice. -/
def step (s : State σ τ ρ) : ForkEvent ε δ → State σ τ ρ
  | .parent e =>
      { parent := (f.turn s.parent e).1,
        children :=
          s.children ++ ((f.turn s.parent e).2.map f.child.settle).toList }
  | .child i d =>
      { s with children := s.children.modify i fun c => f.child.advance c d }

/-- No child yet. -/
def alone (p : σ) : State σ τ ρ := { parent := p, children := [] }

/-- All processes after these events. -/
def run (p : σ) (events : List (ForkEvent ε δ)) : State σ τ ρ :=
  events.foldl f.step (alone p)

/-- The iterations of the parent. -/
def iterations (events : List (ForkEvent ε δ)) : List ε :=
  events.filterMap fun
    | .parent e => some e
    | .child _ _ => none

/-- The outcomes of a child. -/
def own (i : Nat) (events : List (ForkEvent ε δ)) : List δ :=
  events.filterMap fun
    | .parent _ => none
    | .child j d => if j = i then some d else none

/-- The parent after these iterations. -/
def iterated (p : σ) (es : List ε) : σ := es.foldl (fun p e => (f.turn p e).1) p

/-- The children that these iterations start, as they are then. -/
def births (p : σ) : List ε → List τ
  | [] => []
  | e :: es => (f.turn p e).2.toList ++ births (f.turn p e).1 es

/-- Every event of a child comes after the child was started. -/
def Scheduled (p : σ) (events : List (ForkEvent ε δ)) : Prop :=
  ∀ before i d after, events = before ++ .child i d :: after →
    i < (f.run p before).children.length

variable {f} {p : σ} {events : List (ForkEvent ε δ)}

theorem run_snoc (e : ForkEvent ε δ) :
    f.run p (events ++ [e]) = f.step (f.run p events) e := by
  rw [run, run, List.foldl_append]
  rfl

theorem births_append (p : σ) (es es' : List ε) :
    f.births p (es ++ es') = f.births p es ++ f.births (f.iterated p es) es' := by
  induction es generalizing p with
  | nil => rfl
  | cons e es ih =>
    rw [List.cons_append, births, births, ih, List.append_assoc]
    rfl

theorem iterated_snoc (p : σ) (es : List ε) (e : ε) :
    f.iterated p (es ++ [e]) = (f.turn (f.iterated p es) e).1 := by
  rw [iterated, iterated, List.foldl_append]
  rfl

theorem births_singleton (p : σ) (e : ε) :
    f.births p [e] = (f.turn p e).2.toList := by
  rw [births, births, List.append_nil]

theorem iterations_append (events more : List (ForkEvent ε δ)) :
    iterations (events ++ more) = iterations events ++ iterations more :=
  List.filterMap_append

theorem own_append (i : Nat) (events more : List (ForkEvent ε δ)) :
    own i (events ++ more) = own i events ++ own i more :=
  List.filterMap_append

theorem iterations_snoc_parent (e : ε) :
    iterations (events ++ [.parent e]) = iterations events ++ [e] :=
  iterations_append events [.parent e]

theorem iterations_snoc_child (i : Nat) (d : δ) :
    iterations (events ++ [.child i d]) = iterations events := by
  rw [iterations_append]
  exact List.append_nil _

theorem own_snoc_parent (i : Nat) (e : ε) :
    own i (events ++ [.parent e]) = own i events := by
  rw [own_append]
  exact List.append_nil _

theorem own_snoc_child (i j : Nat) (d : δ) :
    own i (events ++ [.child j d]) = own i events ++ if j = i then [d] else [] := by
  rw [own_append]
  by_cases h : j = i <;> simp [own, h]

theorem mem_own {i : Nat} {d : δ} : d ∈ own i events ↔ .child i d ∈ events := by
  unfold own
  rw [List.mem_filterMap]
  constructor
  · rintro ⟨e, he, hd⟩
    cases e with
    | parent e => cases hd
    | child j d' =>
      by_cases hj : j = i
      · simp only [if_pos hj, Option.some_inj] at hd
        rw [← hj, ← hd]
        exact he
      · simp [hj] at hd
  · intro h
    exact ⟨_, h, by simp⟩

/-- The parent is where its own iterations bring it. -/
theorem parent_run (p : σ) (events : List (ForkEvent ε δ)) :
    (f.run p events).parent = f.iterated p (iterations events) := by
  induction events using List.reverseRecOn with
  | nil => rfl
  | append_singleton events e ih =>
    rw [run_snoc]
    cases e with
    | parent e =>
      rw [iterations_snoc_parent, iterated_snoc, ← ih]
      rfl
    | child i d =>
      rw [iterations_snoc_child, ← ih]
      rfl

/-- There are the children that its iterations have started. -/
theorem length_children (p : σ) (events : List (ForkEvent ε δ)) :
    (f.run p events).children.length = (f.births p (iterations events)).length := by
  induction events using List.reverseRecOn with
  | nil => rfl
  | append_singleton events e ih =>
    rw [run_snoc]
    cases e with
    | parent e =>
      rw [iterations_snoc_parent, births_append, List.length_append, ← ih,
        ← parent_run, births_singleton]
      simp only [step, List.length_append]
      cases (f.turn (f.run p events).parent e).2 <;> rfl
    | child i d =>
      rw [iterations_snoc_child, ← ih]
      exact List.length_modify _ _ _

theorem Scheduled.init {e : ForkEvent ε δ} (h : f.Scheduled p (events ++ [e])) :
    f.Scheduled p events := by
  intro before i d after hsplit
  exact h before i d (after ++ [e]) (by rw [hsplit, List.append_assoc]; rfl)

theorem scheduled_nil (f : Forks σ ε τ δ ρ) (p : σ) : f.Scheduled p [] := by
  intro before i d after hsplit
  cases before <;> cases hsplit

theorem Scheduled.snoc_parent (h : f.Scheduled p events) (e : ε) :
    f.Scheduled p (events ++ [.parent e]) := by
  intro before i d after hsplit
  rcases List.eq_nil_or_concat after with rfl | ⟨after, last, rfl⟩
  · cases (List.append_inj' hsplit rfl).2
  · rw [List.concat_eq_append, ← List.cons_append, ← List.append_assoc] at hsplit
    exact h before i d after (List.append_inj' hsplit rfl).1

theorem Scheduled.snoc_child (h : f.Scheduled p events) {i : Nat}
    (hi : i < (f.run p events).children.length) (d : δ) :
    f.Scheduled p (events ++ [.child i d]) := by
  intro before j d' after hsplit
  rcases List.eq_nil_or_concat after with rfl | ⟨after, last, rfl⟩
  · obtain ⟨rfl, hlast⟩ := List.append_inj' hsplit rfl
    cases hlast
    exact hi
  · rw [List.concat_eq_append, ← List.cons_append, ← List.append_assoc] at hsplit
    exact h before j d' after (List.append_inj' hsplit rfl).1

/-- No child goes away. -/
theorem length_children_snoc (p : σ) (events : List (ForkEvent ε δ))
    (e : ForkEvent ε δ) :
    (f.run p events).children.length ≤
      (f.run p (events ++ [e])).children.length := by
  rw [run_snoc]
  cases e with
  | parent e => simp [step]
  | child j d => exact Nat.le_of_eq (List.length_modify _ _ _).symm

theorem length_children_append (p : σ) (events more : List (ForkEvent ε δ)) :
    (f.run p events).children.length ≤
      (f.run p (events ++ more)).children.length := by
  induction more using List.reverseRecOn with
  | nil => exact Nat.le_of_eq (by rw [List.append_nil])
  | append_singleton more e ih =>
    rw [← List.append_assoc]
    exact Nat.le_trans ih (length_children_snoc p (events ++ more) e)

/-- Events of children that are there already can come at any time, with others of
the parent between them. -/
theorem Scheduled.append (h : f.Scheduled p events)
    {more : List (ForkEvent ε δ)}
    (hmore : ∀ i d, .child i d ∈ more → i < (f.run p events).children.length) :
    f.Scheduled p (events ++ more) := by
  induction more using List.reverseRecOn with
  | nil =>
    rw [List.append_nil]
    exact h
  | append_singleton more e ih =>
    have hprior := ih fun i d hd => hmore i d (List.mem_append_left _ hd)
    rw [← List.append_assoc]
    cases e with
    | parent e => exact hprior.snoc_parent e
    | child i d =>
      have hi := hmore i d (by simp)
      exact hprior.snoc_child
        (Nat.lt_of_lt_of_le hi (length_children_append p events more)) d

/-- A child has had no outcome before it was started. -/
theorem own_eq_nil (h : f.Scheduled p events) {i : Nat}
    (hi : (f.run p events).children.length ≤ i) : own i events = [] := by
  induction events using List.reverseRecOn with
  | nil => rfl
  | append_singleton events e ih =>
    have hlength :=
      Nat.le_trans (length_children_snoc p events e) hi
    have hprior := ih h.init hlength
    cases e with
    | parent e => rw [own_snoc_parent, hprior]
    | child j d =>
      have hj : j < (f.run p events).children.length := h events j d [] rfl
      have hne : j ≠ i := by omega
      rw [own_snoc_child, hprior, if_neg hne, List.append_nil]

/-- Each child is where its loop is on its own outcomes, whatever the others and the
parent have done since. -/
theorem children_run (h : f.Scheduled p events) (i : Nat) :
    (f.run p events).children[i]? =
      (f.births p (iterations events))[i]?.map fun b =>
        f.child.after b (own i events) := by
  induction events using List.reverseRecOn with
  | nil => rfl
  | append_singleton events e ih =>
    have hprior := ih h.init
    have hlength := length_children (f := f) p events
    rw [run_snoc]
    cases e with
    | child j d =>
      rw [iterations_snoc_child, own_snoc_child]
      simp only [step]
      rw [List.getElem?_modify, hprior]
      cases (f.births p (iterations events))[i]? with
      | none => rfl
      | some b =>
        by_cases hj : j = i
        · simp [hj, Loop.after, List.foldl_append]
        · simp [hj]
    | parent e =>
      rw [iterations_snoc_parent, own_snoc_parent, births_append, ← parent_run]
      simp only [step]
      rcases Nat.lt_or_ge i (f.run p events).children.length with hlt | hge
      · rw [List.getElem?_append_left hlt, hprior,
          List.getElem?_append_left (hlength ▸ hlt)]
      · -- the child that is started now has had no outcome
        rw [List.getElem?_append_right hge, own_eq_nil h.init hge,
          List.getElem?_append_right (hlength ▸ hge), hlength, births_singleton]
        cases (f.turn (f.run p events).parent e).2 with
        | none => rfl
        | some b =>
          rw [Option.map_some, Option.toList_some, Option.toList_some,
            ← List.getElem?_map]
          rfl

/-- The iteration that has started a child, and the parent before it. -/
theorem birth_of_getElem? {es : List ε} {i : Nat} {b : τ}
    (h : (f.births p es)[i]? = some b) :
    ∃ before e after, es = before ++ e :: after ∧
      (f.turn (f.iterated p before) e).2 = some b ∧
      (f.births p before).length = i := by
  induction es generalizing p i with
  | nil => cases h
  | cons e es ih =>
    rw [births] at h
    cases hborn : (f.turn p e).2 with
    | none =>
      rw [hborn] at h
      obtain ⟨before, e', after, rfl, hturn, hlength⟩ := ih h
      refine ⟨e :: before, e', after, rfl, hturn, ?_⟩
      rw [births, hborn]
      exact hlength
    | some c =>
      rw [hborn] at h
      cases i with
      | zero => exact ⟨[], e, es, rfl, hborn.trans h, rfl⟩
      | succ i =>
        obtain ⟨before, e', after, rfl, hturn, hlength⟩ := ih h
        refine ⟨e :: before, e', after, rfl, hturn, ?_⟩
        rw [births, hborn]
        exact congrArg (· + 1) hlength

/-- A child that runs one of a family of loops: the iteration that has started it,
which loop it runs, and where that is on the outcomes of the child. -/
theorem child_of_family {κ : Type} {f : Forks σ ε (κ × τ) δ (κ × ρ)}
    {l : κ → Loop τ δ ρ} (hchild : f.child = Loop.family l)
    (h : f.Scheduled p events) {i : Nat} {status : Status (κ × τ) (κ × ρ)}
    (hstatus : (f.run p events).children[i]? = some status) :
    ∃ before e after k s, iterations events = before ++ e :: after ∧
      (f.turn (f.iterated p before) e).2 = some (k, s) ∧
      (f.births p before).length = i ∧
      status = Loop.tagged k ((l k).after s (own i events)) := by
  rw [children_run h, hchild] at hstatus
  obtain ⟨⟨k, s⟩, hbirth, rfl⟩ := Option.map_eq_some_iff.mp hstatus
  obtain ⟨before, e, after, hsplit, hturn, hlength⟩ := birth_of_getElem? hbirth
  exact ⟨before, e, after, k, s, hsplit, hturn, hlength, Loop.after_family l k s _⟩

end Forks

end UniServer.Foundation
