/-
  Routing/Tree.lean --- `RoutingTree`: one trie of path segments for each method.

  `add` and `get` walk a path by the positions of its slashes and never build the
  list of its segments; that list, and the refinement of both walks by it, are in
  `Routing/Registrations`.  A handler is a value of an arbitrary type `H`, and an
  empty `std::function` is `none`.

  The hash only picks a bucket, so it is left out: a hash map is the list of its
  entries.
-/
import UniServer.Foundation.Search
import UniServer.Foundation.Trie
import UniServer.Http.Message

set_option autoImplicit false

namespace UniServer.Routing

open UniServer.Foundation UniServer.Http

/-- `'/'`. -/
def slash : Bytes := [47]

/-- `kNumHTTPMethods`. -/
def kNumHTTPMethods : Nat := 5

/-- `RoutingNode`: a handler `h` and a map `hm` of further nodes. -/
abbrev RoutingNode (H : Type) : Type := Trie Bytes H

/-- `HashMap`. -/
abbrev HashMap (H : Type) : Type := Forest Bytes H

/-- What an insertion leaves: the value returned, whether the caller's handler
was moved from, and the container. -/
structure Insertion (α : Type) where
  ok : Bool
  moved : Bool
  after : α

variable {H : Type}

/-! ## Maps of nodes -/

/-- `set_elem`. -/
def setElem (map : HashMap H) (elem : Bytes) (h : Option H) :
    Insertion (HashMap H) :=
  match map.child elem with
  | some rnode =>
      if rnode.value.isSome then { ok := false, moved := false, after := map }
      else
        { ok := true, moved := true,
          after := map.setChild elem (.node h rnode.children) }
  | none => { ok := true, moved := true, after := map.setChild elem (.node h []) }

/-- The text behind a slash is shorter than the text it was cut from. -/
theorem length_behind_slash {text elem rest : Bytes}
    (h : cut slash text = some (elem, rest)) :
    rest.length < text.length := by
  have hlen : text.length = elem.length + 1 + rest.length := cut_length h
  omega

/-- The loop of `add`, and the `set_elem` behind it.  `text` is what stands behind
`slash_beg`; the loop runs while another slash is found in it, and the node it
goes through is made where it is missing. -/
def addLoop (targetMap : HashMap H) (text : Bytes) (h : Option H) :
    Insertion (HashMap H) :=
  match _hcut : cut slash text with
  | none => setElem targetMap text h
  | some (elem, rest) =>
      let node := (targetMap.child elem).getD (.node none [])
      let result := addLoop node.children rest h
      { result with
        after := targetMap.setChild elem (.node node.value result.after) }
termination_by text.length
decreasing_by exact length_behind_slash _hcut

/-- The loop of `get`, and the lookup behind it. -/
def getLoop (targetMap : HashMap H) (text : Bytes) : Option H :=
  match _hcut : cut slash text with
  | none => (targetMap.child text).bind fun res => res.value
  | some (elem, rest) =>
      match targetMap.child elem with
      | some node => getLoop node.children rest
      | none => none
termination_by text.length
decreasing_by exact length_behind_slash _hcut

theorem addLoop_last {text : Bytes} (hcut : cut slash text = none)
    (targetMap : HashMap H) (h : Option H) :
    addLoop targetMap text h = setElem targetMap text h := by
  rw [addLoop]
  split
  · rfl
  · rename_i hsome
    rw [hcut] at hsome
    cases hsome

theorem addLoop_step {text elem rest : Bytes}
    (hcut : cut slash text = some (elem, rest)) (targetMap : HashMap H)
    (h : Option H) :
    addLoop targetMap text h =
      { addLoop (targetMap.childOrBare elem).children rest h with
        after := targetMap.setChild elem (.node (targetMap.childOrBare elem).value
          (addLoop (targetMap.childOrBare elem).children rest h).after) } := by
  rw [addLoop]
  split
  · rename_i hnone
    rw [hcut] at hnone
    cases hnone
  · rename_i elem' rest' hsome
    rw [hcut, Option.some_inj] at hsome
    obtain ⟨rfl, rfl⟩ := Prod.mk.inj hsome
    rfl

theorem getLoop_last {text : Bytes} (hcut : cut slash text = none)
    (targetMap : HashMap H) :
    getLoop targetMap text = (targetMap.child text).bind fun res => res.value := by
  rw [getLoop]
  split
  · rfl
  · rename_i hsome
    rw [hcut] at hsome
    cases hsome

theorem getLoop_step {text elem rest : Bytes}
    (hcut : cut slash text = some (elem, rest)) (targetMap : HashMap H) :
    getLoop targetMap text =
      getLoop (targetMap.childOrBare elem).children rest := by
  rw [getLoop]
  split
  · rename_i hnone
    rw [hcut] at hnone
    cases hnone
  · rename_i elem' rest' hsome
    rw [hcut, Option.some_inj] at hsome
    obtain ⟨rfl, rfl⟩ := Prod.mk.inj hsome
    unfold Forest.childOrBare
    cases hchild : targetMap.child elem with
    | some node => simp
    | none =>
      -- a walk through a node that is not there finds nothing
      have hempty : ∀ text : Bytes, getLoop ([] : HashMap H) text = none := by
        intro text
        rw [getLoop]
        split <;> rfl
      simp [hempty]

/-! ## The tree -/

/-- `RoutingTree`: `root_`, one map for each method. -/
structure RoutingTree (H : Type) where
  root : Vector (HashMap H) kNumHTTPMethods

namespace RoutingTree

/-- A new tree. -/
def empty : RoutingTree H := ⟨Vector.replicate kNumHTTPMethods []⟩

/-- The `switch` of `add`, on the map of the method. -/
def addPath (map : HashMap H) (path : Bytes) (h : Option H) :
    Insertion (HashMap H) :=
  match path with
  | [] => { ok := false, moved := false, after := map }
  | [c] =>
      if c ≠ 47 then { ok := false, moved := false, after := map }
      else setElem map [c] h
  | a :: b :: path =>
      match cut slash (a :: b :: path) with
      | none => { ok := false, moved := false, after := map }
      | some (_, rest) => addLoop map rest h

/-- `add`. -/
def add (tree : RoutingTree H) (mtd : Method) (path : Bytes) (h : Option H) :
    Insertion (RoutingTree H) :=
  if hidx : mtd.index < kNumHTTPMethods then
    let result := addPath tree.root[mtd.index] path h
    { result with after := ⟨tree.root.set mtd.index result.after⟩ }
  else { ok := false, moved := false, after := tree }

/-- The `switch` of `get`.  A path of one character is looked up as it is. -/
def getPath (map : HashMap H) (path : Bytes) : Option H :=
  match path with
  | [] => none
  | [c] => (map.child [c]).bind fun node => node.value
  | a :: b :: path =>
      match cut slash (a :: b :: path) with
      | none => none
      | some (_, rest) => getLoop map rest

/-- `get`. -/
def get (tree : RoutingTree H) (mtd : Method) (path : Bytes) : Option H :=
  if hidx : mtd.index < kNumHTTPMethods then getPath tree.root[mtd.index] path
  else none

end RoutingTree

end UniServer.Routing
