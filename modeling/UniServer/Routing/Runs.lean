/-
  Routing/Runs.lean --- a `RoutingTree` after any run of `add` calls.

  What `get` finds is a matter of the calls alone: the earliest non-empty handler
  that was registered under the key of the path.  Two paths may share a key, so a
  path that is found need not be one that was registered; when it is, is the
  second result.
-/
import UniServer.Routing.Registrations

set_option autoImplicit false

namespace UniServer.Routing

open UniServer.Foundation UniServer.Http

/-- The arguments of a call of `add`. -/
structure AddCall (H : Type) where
  method : Method
  path : Bytes
  handler : Option H

variable {H : Type}

namespace RoutingTree

/-- The tree after some calls of `add`. -/
def addAll (tree : RoutingTree H) (calls : List (AddCall H)) : RoutingTree H :=
  calls.foldl
    (fun tree call => (tree.add call.method call.path call.handler).after) tree

/-- The handler of the earliest call for a method, under a key, that has one. -/
def earliest (calls : List (AddCall H)) (m : Method) (key : RouteKey) : Option H :=
  calls.findSome? fun call =>
    if call.method = m ∧ call.method ≠ .unknown ∧ Accepted call.path ∧
      routeKey call.path = key then
      call.handler
    else none

theorem index_lt_iff_ne_unknown (m : Method) :
    m.index < kNumHTTPMethods ↔ m ≠ .unknown :=
  m.index_lt_iff

/-- What a call of `add` offers to the registry. -/
def offered (call : AddCall H) : Option ((Method × RouteKey) × Option H) :=
  request call.method call.path call.handler

theorem view_addAll_eq_firstOffer (calls : List (AddCall H)) :
    (empty.addAll calls).view = Registry.firstOffer (calls.filterMap offered) := by
  have hrun := Registry.view_foldl view
    (fun (tree : RoutingTree H) (call : AddCall H) =>
      (tree.add call.method call.path call.handler).after)
    offered
    (fun tree call => view_add tree call.method call.path call.handler) calls empty
  funext key
  rw [addAll, hrun, Registry.offers_apply, view_empty, Option.none_or]

theorem view_addAll (calls : List (AddCall H)) (m : Method) (key : RouteKey) :
    (empty.addAll calls).view (m, key) = earliest calls m key := by
  rw [view_addAll_eq_firstOffer, Registry.firstOffer_filterMap, earliest]
  congr 1
  funext call
  simp only [offered, request, index_lt_iff_ne_unknown]
  by_cases hrequest : call.method ≠ .unknown ∧ Accepted call.path
  · simp [hrequest]
  · rw [if_neg hrequest, if_neg fun h => hrequest ⟨h.2.1, h.2.2.1⟩]
    rfl

/-- A call of `add` returns false when its method is out of range, its path is
not accepted, or `get` finds a handler in its place. -/
theorem add_ok_eq_false_iff (tree : RoutingTree H) (mtd : Method) (path : Bytes)
    (h : Option H) :
    (tree.add mtd path h).ok = false ↔
      mtd = .unknown ∨ ¬ Accepted path ∨ (tree.get mtd path).isSome := by
  rw [add_ok_eq, request]
  by_cases hmethod : mtd = .unknown
  · simp [index_lt_iff_ne_unknown, hmethod]
  · by_cases haccepted : Accepted path
    · rw [get_of_accepted tree mtd haccepted]
      simp [index_lt_iff_ne_unknown, hmethod, haccepted]
    · simp [haccepted]

/-- A tree that was built from nothing is a map in which the first registration
wins. -/
theorem addAll_first_wins (calls : List (AddCall H)) :
    (∀ m p, Accepted p →
      (empty.addAll calls).get m p = earliest calls m (routeKey p)) ∧
    ∀ before call after, calls = before ++ call :: after →
      (((empty.addAll before).add call.method call.path call.handler).ok = false ↔
        call.method = .unknown ∨ ¬ Accepted call.path ∨
          ((empty.addAll before).get call.method call.path).isSome) := by
  constructor
  · intro m p haccepted
    rw [get_of_accepted _ m haccepted, view_addAll]
  · intro before call after _
    exact add_ok_eq_false_iff (empty.addAll before) call.method call.path
      call.handler

/-! ## Paths that share a key -/

/-- The call registers for a method under the key that `get` looks `p` up with. -/
def Serves (m : Method) (p : Bytes) (call : AddCall H) : Prop :=
  call.method = m ∧ call.method ≠ .unknown ∧ Accepted call.path ∧
    lookupKey p = some (routeKey call.path)

instance (m : Method) (p : Bytes) (call : AddCall H) :
    Decidable (Serves m p call) := by
  unfold Serves
  infer_instance

theorem earliest_isSome_iff (calls : List (AddCall H)) (m : Method)
    (key : RouteKey) :
    (earliest calls m key).isSome ↔
      ∃ call ∈ calls,
        (call.method = m ∧ call.method ≠ .unknown ∧ Accepted call.path ∧
        routeKey call.path = key) ∧ call.handler.isSome := by
  rw [earliest, List.isSome_findSome?, List.any_eq_true]
  refine exists_congr fun call => and_congr_right fun _ => ?_
  split
  · rename_i hcall
    exact (and_iff_right hcall).symm
  · rename_i hcall
    simp only [Option.isSome_none, Bool.false_eq_true, false_iff, not_and]
    exact fun h => absurd h hcall

/-- `get` finds a handler when some call for the method has put one under the
key. -/
theorem get_isSome_iff (calls : List (AddCall H)) (m : Method) (p : Bytes) :
    ((empty.addAll calls).get m p).isSome ↔
      ∃ call ∈ calls, Serves m p call ∧ call.handler.isSome := by
  rw [get_eq_view]
  unfold Serves
  cases hkey : lookupKey p with
  | none => simp
  | some key =>
    rw [Option.bind_some, view_addAll, earliest_isSome_iff]
    simp only [Option.some.injEq, eq_comm]

/-- When `p` is found, an accepted call of `add` for the same method has had
literally the path `p`. -/
def LiterallyRouted (calls : List (AddCall H)) (m : Method) (p : Bytes) : Prop :=
  ((empty.addAll calls).get m p).isSome →
    ∃ before call after, calls = before ++ call :: after ∧ call.method = m ∧
      call.path = p ∧
      ((empty.addAll before).add call.method call.path call.handler).ok = true

/-- Of the calls that register under the key of `p`, up to the first one with a
handler, one has literally the path `p`, a path that can be registered. -/
def RegisteredLiterally (calls : List (AddCall H)) (m : Method) (p : Bytes) :
    Prop :=
  ∀ before call after, calls = before ++ call :: after →
    Serves m p call → call.handler.isSome →
    (∀ other ∈ before, Serves m p other → other.handler = none) →
    ∃ other ∈ before ++ [call], other.method = m ∧ other.path = p ∧ Accepted p

theorem add_ok_iff_of_path {calls : List (AddCall H)} {call : AddCall H}
    {m : Method} {p : Bytes} (hmethod : call.method = m) (hpath : call.path = p) :
    ((empty.addAll calls).add call.method call.path call.handler).ok = true ↔
      m ≠ .unknown ∧ Accepted p ∧ ¬ ∃ other ∈ calls, Serves m p other ∧
        other.handler.isSome := by
  rw [← get_isSome_iff, hmethod, hpath, ← Bool.not_eq_false, add_ok_eq_false_iff]
  simp only [not_or, not_not]

/-- Two places of one list: one is the other, or lies before it. -/
theorem places {before after before' after' : List (AddCall H)}
    {call call' : AddCall H}
    (h : before ++ call :: after = before' ++ call' :: after') :
    call ∈ before' ∨ call' ∈ before ++ [call] := by
  rcases List.append_eq_append_iff.mp h with
    ⟨gap, hbefore', hrest⟩ | ⟨gap, hbefore, hrest⟩
  · cases gap with
    | nil => exact Or.inr (by simp [(List.cons.inj hrest).1])
    | cons first gap =>
      rw [(List.cons.inj hrest).1]
      exact Or.inl (by simp [hbefore'])
  · cases gap with
    | nil => exact Or.inr (by simp [(List.cons.inj hrest).1])
    | cons first gap =>
      rw [(List.cons.inj hrest).1]
      exact Or.inr (by simp [hbefore])

/-- A path is routed literally as long as it was registered, under its own text,
no later than anything that shares its key. -/
theorem literallyRouted_iff (calls : List (AddCall H)) (m : Method) (p : Bytes) :
    LiterallyRouted calls m p ↔ RegisteredLiterally calls m p := by
  constructor
  · intro hrouted before call after hcalls hserves hhandler _
    have hfound : ((empty.addAll calls).get m p).isSome :=
      (get_isSome_iff calls m p).mpr ⟨call, by simp [hcalls], hserves, hhandler⟩
    obtain ⟨before', call', after', hcalls', hmethod, hpath, hok⟩ := hrouted hfound
    obtain ⟨_, haccepted, hfree⟩ := (add_ok_iff_of_path hmethod hpath).mp hok
    rcases places (hcalls.symm.trans hcalls') with hlater | hearlier
    · exact absurd ⟨call, hlater, hserves, hhandler⟩ hfree
    · exact ⟨call', hearlier, hmethod, hpath, haccepted⟩
  · intro hliteral hfound
    obtain ⟨served, hmem, hserves, hhandler⟩ := (get_isSome_iff calls m p).mp hfound
    -- the first call that puts a handler under the key
    have hsome :
        (calls.find? fun call => Serves m p call ∧ call.handler.isSome).isSome := by
      rw [List.find?_isSome]
      exact ⟨served, hmem, by simp [hserves, hhandler]⟩
    obtain ⟨first, hfirst⟩ := Option.isSome_iff_exists.mp hsome
    obtain ⟨hfirst, before, after, hcalls, hnone⟩ :=
      List.find?_eq_some_iff_append.mp hfirst
    simp only [decide_eq_true_eq] at hfirst
    have hbefore :
        ∀ other ∈ before, ¬ (Serves m p other ∧ other.handler.isSome) := by
      rintro other hother ⟨hserved, hhandled⟩
      have hno := hnone other hother
      simp [hserved, hhandled] at hno
    have hempty : ∀ other ∈ before, Serves m p other → other.handler = none := by
      intro other hother hserved
      have hno : ¬ other.handler.isSome :=
        fun h => hbefore other hother ⟨hserved, h⟩
      simpa using hno
    obtain ⟨other, hother, hmethod, hpath, haccepted⟩ :=
      hliteral before first after hcalls hfirst.1 hfirst.2 hempty
    have hrange : m ≠ .unknown := hfirst.1.1 ▸ hfirst.1.2.1
    rcases List.mem_append.mp hother with hother | hother
    · obtain ⟨front, back, hsplit⟩ := List.append_of_mem hother
      refine ⟨front, other, back ++ first :: after, ?_, hmethod, hpath, ?_⟩
      · rw [hcalls, hsplit, List.append_assoc, List.cons_append]
      · refine (add_ok_iff_of_path hmethod hpath).mpr ⟨hrange, haccepted, ?_⟩
        rintro ⟨earlier, hearlier, hserved⟩
        exact hbefore earlier (by simp [hsplit, hearlier]) hserved
    · rw [List.mem_singleton] at hother
      subst hother
      refine ⟨before, other, after, hcalls, hmethod, hpath, ?_⟩
      refine (add_ok_iff_of_path hmethod hpath).mpr ⟨hrange, haccepted, ?_⟩
      rintro ⟨earlier, hearlier, hserved⟩
      exact hbefore earlier hearlier hserved

/-- `get` takes the path `a` for `/a`. -/
theorem slashless_path_routed :
    ¬ ∀ (calls : List (AddCall Nat)) (m : Method) (p : Bytes),
      LiterallyRouted calls m p := by
  intro hclaim
  obtain ⟨before, call, after, hcalls, _, hpath, _⟩ :=
    hclaim [{ method := .get, path := ascii "/a", handler := some 1 }] .get
      (ascii "a")
      (by decide +kernel)
  have hmem :
      call ∈ [{ method := .get, path := ascii "/a", handler := some 1 }] := by
    rw [hcalls]
    simp
  rw [List.mem_singleton.mp hmem] at hpath
  exact absurd hpath (by decide +kernel)

end RoutingTree

end UniServer.Routing
