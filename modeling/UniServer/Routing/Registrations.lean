/-
  Routing/Registrations.lean --- what a `RoutingTree` is for: a map from methods
  and route keys to handlers, in which the first registration wins.

  The key of an accepted path is the root key or the list of its segments.  A
  segment holds no slash, so the one-character path "/", which the tree stores as
  a node of its own, cannot be mistaken for a list of segments.

  The refinement has three steps.  The loops of the source are the walks of a
  trie along the segments (`addLoop_eq`, `getLoop_eq`); one call of `add` is one
  offer to the registry that the tree stands for (`view_add`); and so a run of
  calls is a run of offers.  A call that is refused changes nothing at all, in the
  tree itself and not only in what it stands for.
-/
import UniServer.Foundation.Registry
import UniServer.Routing.Tree

set_option autoImplicit false

namespace UniServer.Routing

open UniServer.Foundation UniServer.Http

variable {H : Type}

/-! ## Keys -/

/-- A path segment. -/
abbrev Segment : Type := { text : Bytes // (47 : Byte) ∉ text }

/-- What an accepted path names. -/
inductive RouteKey where
  /-- the path "/" -/
  | root
  /-- the segments behind the first slash, empty ones included -/
  | segments (parts : List Segment)
  deriving DecidableEq

/-- The segments of the text behind a slash. -/
def segmentsOf (text : Bytes) : List Segment :=
  match hcut : cut slash text with
  | none => [⟨text, cut_singleton_eq_none_iff.mp hcut⟩]
  | some (elem, rest) =>
      ⟨elem, firstAt_singleton.mp (cut_eq_some_iff.mp hcut).2⟩ :: segmentsOf rest
termination_by text.length
decreasing_by exact length_behind_slash hcut

theorem segmentsOf_last {text : Bytes} (hcut : cut slash text = none) :
    (segmentsOf text).map (·.1) = [text] := by
  rw [segmentsOf]
  split
  · rfl
  · rename_i hsome
    rw [hcut] at hsome
    cases hsome

theorem segmentsOf_step {text elem rest : Bytes}
    (hcut : cut slash text = some (elem, rest)) :
    (segmentsOf text).map (·.1) = elem :: (segmentsOf rest).map (·.1) := by
  rw [segmentsOf]
  split
  · rename_i hnone
    rw [hcut] at hnone
    cases hnone
  · rename_i elem' rest' hsome
    rw [hcut, Option.some_inj] at hsome
    obtain ⟨rfl, rfl⟩ := Prod.mk.inj hsome
    rfl

theorem segmentsOf_ne_nil (text : Bytes) : (segmentsOf text).map (·.1) ≠ [] := by
  cases hcut : cut slash text with
  | none => rw [segmentsOf_last hcut]; exact List.cons_ne_nil _ _
  | some parts => rw [segmentsOf_step hcut]; exact List.cons_ne_nil _ _

/-- The nodes of the trie a key leads through. -/
def RouteKey.nodes : RouteKey → List Bytes
  | .root => [slash]
  | .segments parts => parts.map (·.1)

theorem RouteKey.nodes_injective {k k' : RouteKey} (h : k.nodes = k'.nodes) :
    k = k' := by
  have hslash : ∀ parts : List Segment, parts.map (·.1) ≠ [slash] := by
    intro parts heq
    obtain ⟨part, hpart, htext⟩ := List.mem_map.mp
      (show slash ∈ parts.map (·.1) from heq ▸ List.mem_singleton_self slash)
    exact part.2 (htext ▸ List.mem_singleton_self 47)
  cases k with
  | root =>
    cases k' with
    | root => rfl
    | segments parts => exact absurd h.symm (hslash parts)
  | segments parts =>
    cases k' with
    | root => exact absurd h (hslash parts)
    | segments parts' =>
      exact congrArg RouteKey.segments
        (List.map_injective_iff.mpr Subtype.val_injective h)

/-- A path that can be registered: "/", or at least two characters with a slash
among them. -/
def Accepted (path : Bytes) : Prop :=
  path = slash ∨ (2 ≤ path.length ∧ (47 : Byte) ∈ path)

instance (path : Bytes) : Decidable (Accepted path) := by
  unfold Accepted
  infer_instance

/-- Any path with a slash in it can be registered. -/
theorem accepted_of_mem {path : Bytes} (h : (47 : Byte) ∈ path) :
    Accepted path := by
  rcases path with _ | ⟨a, _ | ⟨b, path⟩⟩
  · cases h
  · rw [List.mem_singleton] at h
    exact Or.inl (by rw [← h]; rfl)
  · exact Or.inr ⟨by simp, h⟩

/-- The key of an accepted path. -/
def routeKey (path : Bytes) : RouteKey :=
  if path = slash then .root
  else
    match cut slash path with
    | none => .segments []
    | some (_, rest) => .segments (segmentsOf rest)

/-- The key under which `get` looks a path up: a single character other than the
slash is taken for a segment. -/
def lookupKey : Bytes → Option RouteKey
  | [] => none
  | [c] => some (if hc : (47 : Byte) ∉ [c] then .segments [⟨[c], hc⟩] else .root)
  | a :: b :: path =>
      match cut slash (a :: b :: path) with
      | none => none
      | some (_, rest) => some (.segments (segmentsOf rest))

/-- On the paths that can be registered the two keys agree. -/
theorem lookupKey_of_accepted {path : Bytes} (h : Accepted path) :
    lookupKey path = some (routeKey path) := by
  rcases h with rfl | ⟨hlen, hmem⟩
  · decide +kernel
  · have hroot : path ≠ slash := by
      rintro rfl
      exact absurd hlen (by decide)
    rw [routeKey, if_neg hroot]
    rcases path with _ | ⟨a, _ | ⟨b, path⟩⟩
    · exact absurd hlen (by decide)
    · exact absurd hlen (Nat.not_le.mpr (Nat.lt_succ_self 1))
    · rw [lookupKey]
      cases hcut : cut slash (a :: b :: path) with
      | none => exact absurd hmem (cut_singleton_eq_none_iff.mp hcut)
      | some parts => rfl

/-! ## The loops walk along the segments -/

theorem setElem_eq (map : HashMap H) (elem : Bytes) (h : Option H) :
    setElem map elem h =
      { ok := (map.lookup [elem]).isNone, moved := (map.lookup [elem]).isNone,
        after := map.offer [elem] h } := by
  rw [setElem, Forest.lookup, Forest.offer, Forest.childOrBare]
  cases hchild : map.child elem with
  | none => simp
  | some rnode =>
    obtain ⟨held, hm⟩ := rnode
    cases held with
    | none => simp
    | some held =>
      simp [Forest.setChild_child hchild]

theorem addLoop_eq (map : HashMap H) (text : Bytes) (h : Option H) :
    addLoop map text h =
      { ok := (map.lookup ((segmentsOf text).map (·.1))).isNone,
        moved := (map.lookup ((segmentsOf text).map (·.1))).isNone,
        after := map.offer ((segmentsOf text).map (·.1)) h } := by
  induction hn : text.length using Nat.strongRecOn generalizing map text with
  | _ n ih =>
    cases hcut : cut slash text with
    | none => rw [addLoop_last hcut, setElem_eq, segmentsOf_last hcut]
    | some parts =>
      obtain ⟨elem, rest⟩ := parts
      have hrec := ih rest.length (hn ▸ length_behind_slash hcut)
        (map.childOrBare elem).children rest rfl
      obtain ⟨k, ks, hks⟩ := List.exists_cons_of_ne_nil (segmentsOf_ne_nil rest)
      rw [addLoop_step hcut, hrec, segmentsOf_step hcut, hks, Forest.lookup_cons,
        Forest.offer]

theorem getLoop_eq (map : HashMap H) (text : Bytes) :
    getLoop map text = map.lookup ((segmentsOf text).map (·.1)) := by
  induction hn : text.length using Nat.strongRecOn generalizing map text with
  | _ n ih =>
    cases hcut : cut slash text with
    | none => rw [getLoop_last hcut, segmentsOf_last hcut, Forest.lookup]
    | some parts =>
      obtain ⟨elem, rest⟩ := parts
      have hrec := ih rest.length (hn ▸ length_behind_slash hcut)
        (map.childOrBare elem).children rest rfl
      obtain ⟨k, ks, hks⟩ := List.exists_cons_of_ne_nil (segmentsOf_ne_nil rest)
      rw [getLoop_step hcut, hrec, segmentsOf_step hcut, hks, Forest.lookup_cons]

namespace RoutingTree

/-- `add` on the map of a method: an accepted path is an offer under its key, any
other path changes nothing. -/
theorem addPath_eq (map : HashMap H) (path : Bytes) (h : Option H) :
    addPath map path h =
      if Accepted path then
        { ok := (map.lookup (routeKey path).nodes).isNone,
          moved := (map.lookup (routeKey path).nodes).isNone,
          after := map.offer (routeKey path).nodes h }
      else { ok := false, moved := false, after := map } := by
  rcases path with _ | ⟨a, _ | ⟨b, path⟩⟩
  · rw [if_neg (by decide)]
    rfl
  · by_cases ha : a = 47
    · subst ha
      have haccepted : Accepted [(47 : Byte)] := Or.inl rfl
      rw [if_pos haccepted, addPath, if_neg (by simp), setElem_eq]
      rfl
    · have hrejected : ¬ Accepted [a] := by
        simp [Accepted, slash, ha]
      rw [if_neg hrejected, addPath, if_pos ha]
  · rw [addPath]
    cases hcut : cut slash (a :: b :: path) with
    | none =>
      have hno : (47 : Byte) ∉ a :: b :: path := cut_singleton_eq_none_iff.mp hcut
      have hrejected : ¬ Accepted (a :: b :: path) := by
        rintro (hroot | ⟨_, hmem⟩)
        · simp [slash] at hroot
        · exact hno hmem
      simp only [if_neg hrejected]
    | some parts =>
      have hmem : (47 : Byte) ∈ a :: b :: path := by
        rw [split_of_cut hcut]
        simp [slash]
      have haccepted : Accepted (a :: b :: path) := Or.inr ⟨by simp, hmem⟩
      have hroot : a :: b :: path ≠ slash := by simp [slash]
      simp only [if_pos haccepted, addLoop_eq, routeKey, if_neg hroot, hcut,
        RouteKey.nodes]

/-- `get` on the map of a method. -/
theorem getPath_eq (map : HashMap H) (path : Bytes) :
    getPath map path = (lookupKey path).bind fun key => map.lookup key.nodes := by
  rcases path with _ | ⟨a, _ | ⟨b, path⟩⟩
  · rfl
  · by_cases ha : a = 47
    · subst ha
      rfl
    · have hno : (47 : Byte) ∉ [a] := by simpa using fun h => ha h.symm
      rw [getPath, lookupKey, dif_pos hno]
      rfl
  · rw [getPath, lookupKey]
    cases hcut : cut slash (a :: b :: path) with
    | none => rfl
    | some parts => exact getLoop_eq map parts.2

/-! ## The registry of a tree -/

/-- The handler registered for a method under a key. -/
def view (tree : RoutingTree H) : Registry (Method × RouteKey) H := fun key =>
  if hidx : key.1.index < kNumHTTPMethods then
    tree.root[key.1.index].lookup key.2.nodes
  else none

/-- What a call of `add` offers to the registry: something only with a method in
range and an accepted path. -/
def request (mtd : Method) (path : Bytes) (h : Option H) :
    Option ((Method × RouteKey) × Option H) :=
  if mtd.index < kNumHTTPMethods ∧ Accepted path then
    some ((mtd, routeKey path), h) else none

theorem view_empty : (empty : RoutingTree H).view = fun _ => none := by
  funext key
  unfold view
  split
  · simp [empty]
  · rfl

theorem nodes_ne_nil {path : Bytes} (h : Accepted path) :
    (routeKey path).nodes ≠ [] := by
  unfold routeKey
  split
  · exact List.cons_ne_nil _ _
  · rename_i hroot
    rcases h with hslash | ⟨_, hmem⟩
    · exact absurd hslash hroot
    · cases hcut : cut slash path with
      | none => exact absurd hmem (cut_singleton_eq_none_iff.mp hcut)
      | some parts => exact segmentsOf_ne_nil parts.2

/-- One call of `add` is one offer to the registry. -/
theorem view_add (tree : RoutingTree H) (mtd : Method) (path : Bytes)
    (h : Option H) :
    (tree.add mtd path h).after.view =
      (request mtd path h).elim tree.view fun call =>
        tree.view.offer call.1 call.2 := by
  rw [request, add]
  by_cases hidx : mtd.index < kNumHTTPMethods
  · rw [dif_pos hidx]
    by_cases haccepted : Accepted path
    · rw [if_pos ⟨hidx, haccepted⟩]
      funext ⟨m, key⟩
      simp only [addPath_eq, if_pos haccepted, view, Option.elim_some,
        Registry.offer]
      by_cases hm : m = mtd
      · subst hm
        rw [dif_pos hidx, dif_pos hidx, Vector.getElem_set_self,
          Forest.lookup_offer (nodes_ne_nil haccepted)]
        by_cases hkey : key = routeKey path
        · rw [hkey, if_pos rfl, if_pos rfl]
        · rw [if_neg fun hnodes => hkey (RouteKey.nodes_injective hnodes),
            if_neg fun hpair => hkey (Prod.mk.inj hpair).2]
      · have hindex : mtd.index ≠ m.index :=
          fun heq => hm (Method.index_injective heq).symm
        rw [if_neg fun hpair => hm (Prod.mk.inj hpair).1]
        split
        · rw [Vector.getElem_set_ne _ _ hindex]
        · rfl
    · rw [if_neg fun hboth => haccepted hboth.2]
      simp only [addPath_eq, if_neg haccepted, Vector.set_getElem_self,
        Option.elim_none]
  · rw [dif_neg hidx, if_neg fun hboth => hidx hboth.1, Option.elim_none]

/-- A call of `add` fails when it offers nothing, and when the place is taken. -/
theorem add_ok_eq (tree : RoutingTree H) (mtd : Method) (path : Bytes)
    (h : Option H) :
    (tree.add mtd path h).ok =
      (request mtd path h).elim false fun call => (tree.view call.1).isNone := by
  rw [request, add]
  by_cases hidx : mtd.index < kNumHTTPMethods
  · rw [dif_pos hidx]
    by_cases haccepted : Accepted path
    · rw [if_pos ⟨hidx, haccepted⟩]
      simp only [addPath_eq, if_pos haccepted, view, Option.elim_some, dif_pos hidx]
    · rw [if_neg fun hboth => haccepted hboth.2]
      simp only [addPath_eq, if_neg haccepted, Option.elim_none]
  · rw [dif_neg hidx, if_neg fun hboth => hidx hboth.1, Option.elim_none]

/-- `get` reads the registry under the key of the path. -/
theorem get_eq_view (tree : RoutingTree H) (mtd : Method) (path : Bytes) :
    tree.get mtd path = (lookupKey path).bind fun key => tree.view (mtd, key) := by
  unfold get
  split
  · rename_i hidx
    rw [getPath_eq]
    cases lookupKey path with
    | none => rfl
    | some key => rw [Option.bind_some, Option.bind_some, view, dif_pos hidx]
  · rename_i hidx
    cases lookupKey path with
    | none => rfl
    | some key => rw [Option.bind_some, view, dif_neg hidx]

theorem get_of_accepted (tree : RoutingTree H) (mtd : Method) {path : Bytes}
    (h : Accepted path) : tree.get mtd path = tree.view (mtd, routeKey path) := by
  rw [get_eq_view, lookupKey_of_accepted h, Option.bind_some]

/-! ## Refused registrations -/

/-- An insertion that is refused has made no node and taken no handler: a walk
that ends at a handler goes through nodes that are there. -/
theorem addPath_refused {map : HashMap H} {path : Bytes} {h : Option H}
    (hrefused : (addPath map path h).ok = false) :
    (addPath map path h).after = map ∧ (addPath map path h).moved = false := by
  rw [addPath_eq] at hrefused ⊢
  by_cases haccepted : Accepted path
  · rw [if_pos haccepted] at hrefused ⊢
    have htaken : (map.lookup (routeKey path).nodes).isSome := by
      rw [← Option.isNone_eq_false_iff]
      exact hrefused
    exact ⟨Forest.offer_of_taken htaken h, hrefused⟩
  · rw [if_neg haccepted]
    exact ⟨rfl, rfl⟩

/-- A call of `add` that returns false leaves the tree of every method, and the
handler of the caller, as they were. -/
theorem add_refused (tree : RoutingTree H) (mtd : Method) (path : Bytes)
    (h : Option H) (hrefused : (tree.add mtd path h).ok = false) :
    (tree.add mtd path h).after = tree ∧ (tree.add mtd path h).moved = false := by
  rw [add] at hrefused ⊢
  split at hrefused
  · rename_i hidx
    rw [dif_pos hidx]
    obtain ⟨hafter, hmoved⟩ := addPath_refused hrefused
    refine ⟨?_, hmoved⟩
    show (⟨tree.root.set mtd.index _⟩ : RoutingTree H) = tree
    rw [hafter, Vector.set_getElem_self]
  · rename_i hidx
    rw [dif_neg hidx]
    exact ⟨rfl, rfl⟩

/-- A tree with a handler for `/a/b`. -/
def oneRoute : RoutingTree Nat := (empty.add .get (ascii "/a/b") (some 1)).after

/-- The path is registered a second time. -/
theorem add_refused_oneRoute :
    (oneRoute.add .get (ascii "/a/b") (some 2)).after = oneRoute ∧
      (oneRoute.add .get (ascii "/a/b") (some 2)).moved = false :=
  add_refused oneRoute .get (ascii "/a/b") (some 2) (by decide +kernel)

end RoutingTree

end UniServer.Routing
