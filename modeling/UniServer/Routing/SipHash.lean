/-
  Routing/SipHash.lean --- `SipHash`, the keyed hash of the routing tree.

  An object of the class owns a context of the library and has a share in its key.
  Objects are constructed, copied, moved, assigned and destroyed in any order, and
  any call of the library may fail.  An exception leaves the program going on.

  `run_owned` is about the contexts, `run_values` about what a hash comes to, and
  `run_whole` about when there is one: an object that was moved from has neither a
  context nor a key, and its hash is undefined.

  What the library computes from a key and a text is the parameter `mac`.
-/
import Mathlib.Data.Nat.Digits.Defs
import UniServer.Foundation.Bytes
import UniServer.Foundation.Ledger
import UniServer.Foundation.Machine

set_option autoImplicit false

namespace UniServer.Routing

open UniServer.Foundation

/-- `SipHashKey` -/
abbrev SipHashKey : Type := Vector Byte 16

/-- `SipHashTag` -/
abbrev SipHashTag : Type := Vector Byte 8

/-! ## The library -/

/-- The objects of the library, `EVP_MAC` and `EVP_MAC_CTX` alike: those that were
allocated, and those that were freed. -/
abbrev Evp : Type := Ledger

/-- What the calls of `make_ctx` come to: whether `EVP_MAC_fetch` finds the
algorithm, whether there is a new context, and whether it takes the length of a
tag. -/
structure MakeCtx where
  fetched : Bool
  created : Bool
  set : Bool

/-- They all succeed. -/
def MakeCtx.succeeds (calls : MakeCtx) : Bool :=
  calls.fetched && calls.created && calls.set

/-- `SipHash::make_ctx` -/
def makeCtx (calls : MakeCtx) (evp : Evp) : Option Nat × Evp :=
  if calls.fetched then
    let (mac, evp) := evp.acquire
    if calls.created then
      let (ctx, evp) := evp.acquire
      let evp := evp.release mac
      -- behind a failure the pointer frees the context
      if calls.set then (some ctx, evp) else (none, evp.reset (some ctx))
    else (none, evp.release mac)
  else (none, evp)

theorem makeCtx_isSome (calls : MakeCtx) (evp : Evp) :
    (makeCtx calls evp).1.isSome = calls.succeeds := by
  obtain ⟨fetched, created, set⟩ := calls
  cases fetched <;> cases created <;> cases set <;> rfl

/-- The context is all that is left of the calls. -/
theorem change_makeCtx (calls : MakeCtx) (evp : Evp) :
    Ledger.Change [] (makeCtx calls evp).1.toList evp (makeCtx calls evp).2 := by
  have hmac := Ledger.change_acquire evp
  -- with both allocated the one that is freed is not the last
  have hctx : Ledger.Change [] [evp.acquire.2.acquire.1] evp
      (evp.acquire.2.acquire.2.release evp.acquire.1) := by
    have hboth := hmac.trans ((Ledger.change_acquire evp.acquire.2).frame _)
    refine hboth.trans fun rest hrest => ?_
    exact Ledger.change_release _ _ _ (List.Perm.trans hrest
      ((List.Perm.swap _ _ _).append_left _))
  obtain ⟨fetched, created, set⟩ := calls
  cases fetched with
  | false => exact .refl [] evp
  | true =>
    cases created with
    | false => exact hmac.trans (Ledger.change_release _ _)
    | true =>
      cases set with
      | false => exact hctx.trans (Ledger.change_release _ _)
      | true => exact hctx

/-! ## Objects -/

/-- `SipHash`, with the key that `key_` points to. -/
structure SipHash where
  ctx : Option Nat := none
  key : Option SipHashKey := none
  deriving DecidableEq

namespace SipHash

/-- `SipHash()`; `drawn` is what `make_siphash_key_ptr` returns. -/
def new (calls : MakeCtx) (drawn : Option SipHashKey) (evp : Evp) : SipHash × Evp :=
  let (ctx, evp) := makeCtx calls evp
  ({ ctx := ctx, key := drawn }, evp)

/-- `SipHash(key)`, which makes two contexts and keeps the second; no object when it
throws. -/
def ofKey (key : Option SipHashKey) (first second : MakeCtx) (evp : Evp) :
    Option SipHash × Evp :=
  let (ctx, evp) := makeCtx first evp
  let (ctx', evp) := makeCtx second evp
  let evp := evp.reset ctx
  (ctx'.map fun ctx => { ctx := some ctx, key := key }, evp)

/-- `SipHash(const SipHash&)`, and `clone`. -/
def copy (h : SipHash) (calls : MakeCtx) (evp : Evp) : Option SipHash × Evp :=
  let (ctx, evp) := makeCtx calls evp
  (ctx.map fun ctx => { ctx := some ctx, key := h.key }, evp)

/-- `operator=(const SipHash&)` for another object; when it throws, the key is new
and the context is gone. -/
def assign (self h : SipHash) (calls : MakeCtx) (evp : Evp) : SipHash × Evp :=
  let (ctx, evp) := makeCtx calls evp
  ({ ctx := ctx, key := h.key }, evp.reset self.ctx)

/-! ### Their contexts -/

theorem change_new (calls : MakeCtx) (drawn : Option SipHashKey) (evp : Evp) :
    Ledger.Change [] (new calls drawn evp).1.ctx.toList evp
      (new calls drawn evp).2 :=
  change_makeCtx calls evp

theorem bind_ctx (ctx : Option Nat) (key : Option SipHashKey) :
    (ctx.map fun ctx => SipHash.mk (some ctx) key).bind SipHash.ctx = ctx := by
  cases ctx <;> rfl

theorem ofKey_ctx (key : Option SipHashKey) (first second : MakeCtx) (evp : Evp) :
    (ofKey key first second evp).1.bind ctx =
      (makeCtx second (makeCtx first evp).2).1 :=
  bind_ctx _ key

theorem copy_ctx (h : SipHash) (calls : MakeCtx) (evp : Evp) :
    (h.copy calls evp).1.bind ctx = (makeCtx calls evp).1 :=
  bind_ctx _ h.key

/-- The first context is freed, whatever comes of the second. -/
theorem change_ofKey (key : Option SipHashKey) (first second : MakeCtx)
    (evp : Evp) :
    Ledger.Change [] ((ofKey key first second evp).1.bind ctx).toList evp
      (ofKey key first second evp).2 := by
  have hfirst := change_makeCtx first evp
  have hsecond := (change_makeCtx second (makeCtx first evp).2).frame
    (makeCtx first evp).1.toList
  have hreset := (Ledger.change_reset (makeCtx second (makeCtx first evp).2).2
    (makeCtx first evp).1).frame (makeCtx second (makeCtx first evp).2).1.toList
  have hboth := (hfirst.trans hsecond).congr (.refl _) List.perm_append_comm
  rw [ofKey_ctx]
  exact hboth.trans hreset

theorem change_copy (h : SipHash) (calls : MakeCtx) (evp : Evp) :
    Ledger.Change [] ((h.copy calls evp).1.bind ctx).toList evp
      (h.copy calls evp).2 := by
  rw [copy_ctx]
  exact change_makeCtx calls evp

/-- The old context is freed, whatever comes of the new one. -/
theorem change_assign (self h : SipHash) (calls : MakeCtx) (evp : Evp) :
    Ledger.Change self.ctx.toList (self.assign h calls evp).1.ctx.toList evp
      (self.assign h calls evp).2 := by
  have hmade := (change_makeCtx calls evp).frame self.ctx.toList
  have hreset := (Ledger.change_reset (makeCtx calls evp).2 self.ctx).frame
    (makeCtx calls evp).1.toList
  exact (hmade.congr (.refl _) List.perm_append_comm).trans hreset

/-! ### Hashing -/

/-- What the calls on the context come to: whether `EVP_MAC_init` and
`EVP_MAC_update` succeed, and the length that `EVP_MAC_final` has written, if it
does. -/
structure MacCalls where
  init : Bool
  update : Bool
  final : Option Nat

/-- They all succeed, and there is a whole tag. -/
def MacCalls.succeed (calls : MacCalls) : Bool :=
  calls.init && calls.update && calls.final == some 8

variable (mac : SipHashKey → Bytes → SipHashTag)

/-- `fhash`, of an object with this key. -/
def fhash (key : SipHashKey) (v : Bytes) (calls : MacCalls) : Option SipHashTag :=
  if calls.succeed then some (mac key v) else none

/-- `tag_to_size_t`: the octets of a `size_t`, the lowest first. -/
def tagToSize (tag : Bytes) : Nat :=
  Nat.ofDigits 256 ((tag.take 8).map UInt8.toNat)

/-- `operator()` -/
def value (key : SipHashKey) (v : Bytes) (calls : MacCalls) : Nat :=
  match fhash mac key v calls with
  | none => 0
  | some tag => tagToSize tag.toList

/-- No two tags are the same `size_t`. -/
theorem tagToSize_inj {tag tag' : SipHashTag}
    (h : tagToSize tag.toList = tagToSize tag'.toList) : tag = tag' := by
  have hdigits : ∀ t : SipHashTag, ∀ d ∈ (t.toList.take 8).map UInt8.toNat,
      d < 256 := by
    intro t d hd
    obtain ⟨b, _, rfl⟩ := List.mem_map.mp hd
    exact b.toNat_lt
  have hlen : ∀ t : SipHashTag, t.toList.take 8 = t.toList := fun t =>
    List.take_of_length_le (Nat.le_of_eq t.length_toList)
  have hmap := Nat.ofDigits_inj_of_len_eq (by decide)
    (by rw [hlen, hlen]; simp) (hdigits tag) (hdigits tag') h
  rw [hlen, hlen] at hmap
  exact Vector.toList_inj.mp (List.map_injective_iff.mpr
    (fun _ _ hb => UInt8.toNat_inj.mp hb) hmap)

theorem value_eq (key : SipHashKey) (v : Bytes) (calls : MacCalls) :
    value mac key v calls =
      if calls.succeed then tagToSize (mac key v).toList else 0 := by
  unfold value fhash
  split
  · rename_i hnone
    split at hnone
    · cases hnone
    · rename_i hfails
      rw [if_neg hfails]
  · rename_i tag hsome
    split at hsome
    · rename_i hsucceeds
      rw [if_pos hsucceeds, Option.some_inj.mp hsome]
    · cases hsome

end SipHash

/-! ## Programs -/

/-- A call of the program. -/
inductive SipCall where
  | new (calls : MakeCtx) (drawn : Option SipHashKey)
  | ofKey (key : Option SipHashKey) (first second : MakeCtx)
  /-- a copy of an object, also by `clone` -/
  | copy (i : Nat) (calls : MakeCtx)
  /-- `SipHash(SipHash&&)` -/
  | move (i : Nat)
  | assign (i j : Nat) (calls : MakeCtx)
  /-- `operator=(SipHash&&)` -/
  | moveAssign (i j : Nat)
  | destroy (i : Nat)
  /-- `operator()` -/
  | hash (i : Nat) (v : Bytes) (calls : SipHash.MacCalls)

/-- Why a call is not a step. -/
inductive NoHash where
  /-- there is no such object, or it was destroyed -/
  | noObject
  /-- a null pointer is followed -/
  | undefined
  deriving DecidableEq

/-- What a call of `operator()` has returned, and whether all its calls of the
library had succeeded. -/
structure Hashed where
  text : Bytes
  succeeded : Bool
  value : Nat

/-- The objects in the order of their constructors, with none where there is no
object any more, or never was; the library; and what was hashed so far. -/
structure Hashes where
  objects : List (Option SipHash) := []
  evp : Evp := {}
  hashed : List Hashed := []

namespace Hashes

variable (mac : SipHashKey → Bytes → SipHashTag)

/-- A call for the object of that number. -/
def on (w : Hashes) (i : Nat) (f : SipHash → Except NoHash Hashes) :
    Except NoHash Hashes :=
  match w.objects[i]? with
  | some (some object) => f object
  | _ => .error .noObject

/-- A new object, or none. -/
def construct (w : Hashes) (made : Option SipHash × Evp) : Hashes :=
  { w with objects := w.objects ++ [made.1], evp := made.2 }

/-- The object of that number is replaced. -/
def replace (w : Hashes) (i : Nat) (slot : Option SipHash) (evp : Evp) : Hashes :=
  { w with objects := w.objects.set i slot, evp := evp }

/-- One call. -/
def step (w : Hashes) : SipCall → Except NoHash Hashes
  | .new calls drawn =>
      let (object, evp) := SipHash.new calls drawn w.evp
      .ok (w.construct (some object, evp))
  | .ofKey key first second =>
      .ok (w.construct (SipHash.ofKey key first second w.evp))
  | .copy i calls => w.on i fun object =>
      .ok (w.construct (object.copy calls w.evp))
  | .move i => w.on i fun object =>
      -- both members of the other one are null behind it
      .ok ((w.replace i (some {}) w.evp).construct (some object, w.evp))
  | .assign i j calls => w.on i fun self => w.on j fun other =>
      if i = j then .ok w
      else
        let (self, evp) := self.assign other calls w.evp
        .ok (w.replace i (some self) evp)
  | .moveAssign i j => w.on i fun self => w.on j fun other =>
      if i = j then .ok w
      else
        .ok ((w.replace i (some other) w.evp).replace j (some {})
          (w.evp.reset self.ctx))
  | .destroy i => w.on i fun object =>
      .ok (w.replace i none (w.evp.reset object.ctx))
  | .hash i v calls => w.on i fun object =>
      match object.ctx, object.key with
      | some _, some key =>
          let hashed : Hashed :=
            { text := v, succeeded := calls.succeed,
              value := SipHash.value mac key v calls }
          .ok { w with hashed := w.hashed ++ [hashed] }
      | _, _ => .error .undefined

/-- The state after these calls. -/
def run (calls : List SipCall) : Except NoHash Hashes :=
  Machine.run (step mac) {} calls

theorem on_eq_ok {w w' : Hashes} {i : Nat} {f : SipHash → Except NoHash Hashes} :
    w.on i f = .ok w' ↔
      ∃ object, w.objects[i]? = some (some object) ∧ f object = .ok w' := by
  unfold on
  split
  · rename_i object hobject
    simp [hobject]
  · rename_i hnone
    simp only [reduceCtorEq, false_iff, not_exists, not_and]
    exact fun object hobject => (hnone object hobject).elim

/-- What a call can do. -/
inductive Step (w : Hashes) : SipCall → Hashes → Prop where
  | new (calls : MakeCtx) (drawn : Option SipHashKey) :
      Step w (.new calls drawn)
        (w.construct
          (some (SipHash.new calls drawn w.evp).1,
            (SipHash.new calls drawn w.evp).2))
  | ofKey (key : Option SipHashKey) (first second : MakeCtx) :
      Step w (.ofKey key first second)
        (w.construct (SipHash.ofKey key first second w.evp))
  | copy {i : Nat} {object : SipHash} (calls : MakeCtx)
      (hobject : w.objects[i]? = some (some object)) :
      Step w (.copy i calls) (w.construct (object.copy calls w.evp))
  | move {i : Nat} {object : SipHash}
      (hobject : w.objects[i]? = some (some object)) :
      Step w (.move i)
        ((w.replace i (some {}) w.evp).construct (some object, w.evp))
  | self {i : Nat} {object : SipHash} {call : SipCall}
      (hobject : w.objects[i]? = some (some object))
      (hcall : (∃ calls, call = .assign i i calls) ∨ call = .moveAssign i i) :
      Step w call w
  | assign {i j : Nat} {self other : SipHash} (calls : MakeCtx) (hij : i ≠ j)
      (hself : w.objects[i]? = some (some self))
      (hother : w.objects[j]? = some (some other)) :
      Step w (.assign i j calls)
        (w.replace i (some (self.assign other calls w.evp).1)
          (self.assign other calls w.evp).2)
  | moveAssign {i j : Nat} {self other : SipHash} (hij : i ≠ j)
      (hself : w.objects[i]? = some (some self))
      (hother : w.objects[j]? = some (some other)) :
      Step w (.moveAssign i j)
        ((w.replace i (some other) w.evp).replace j (some {})
          (w.evp.reset self.ctx))
  | destroy {i : Nat} {object : SipHash}
      (hobject : w.objects[i]? = some (some object)) :
      Step w (.destroy i) (w.replace i none (w.evp.reset object.ctx))
  | hash {i : Nat} {ctx : Nat} {key : SipHashKey} (v : Bytes)
      (calls : SipHash.MacCalls)
      (hobject : w.objects[i]? = some (some { ctx := some ctx, key := some key })) :
      Step w (.hash i v calls)
        { w with
          hashed := w.hashed ++
            [{ text := v, succeeded := calls.succeed,
               value := SipHash.value mac key v calls }] }

variable {mac}

theorem step_cases {w w' : Hashes} {call : SipCall} (h : step mac w call = .ok w') :
    Step mac w call w' := by
  cases call with
  | new calls drawn =>
    cases h
    exact .new calls drawn
  | ofKey key first second =>
    cases h
    exact .ofKey key first second
  | copy i calls =>
    obtain ⟨object, hobject, heq⟩ := on_eq_ok.mp h
    cases heq
    exact .copy calls hobject
  | move i =>
    obtain ⟨object, hobject, heq⟩ := on_eq_ok.mp h
    cases heq
    exact .move hobject
  | assign i j calls =>
    obtain ⟨self, hself, hrest⟩ := on_eq_ok.mp h
    obtain ⟨other, hother, heq⟩ := on_eq_ok.mp hrest
    split at heq
    · rename_i hij
      cases heq
      subst hij
      exact .self hself (Or.inl ⟨calls, rfl⟩)
    · rename_i hij
      cases heq
      exact .assign calls hij hself hother
  | moveAssign i j =>
    obtain ⟨self, hself, hrest⟩ := on_eq_ok.mp h
    obtain ⟨other, hother, heq⟩ := on_eq_ok.mp hrest
    split at heq
    · rename_i hij
      cases heq
      subst hij
      exact .self hself (Or.inr rfl)
    · rename_i hij
      cases heq
      exact .moveAssign hij hself hother
  | destroy i =>
    obtain ⟨object, hobject, heq⟩ := on_eq_ok.mp h
    cases heq
    exact .destroy hobject
  | hash i v calls =>
    obtain ⟨⟨ctx, key⟩, hobject, heq⟩ := on_eq_ok.mp h
    cases ctx with
    | none => cases heq
    | some ctx =>
      cases key with
      | none => cases heq
      | some key =>
        cases heq
        exact .hash v calls hobject

/-! ## Runs and contexts -/

/-- The context of an object that is there. -/
def owned (slot : Option SipHash) : List Nat := (slot.bind SipHash.ctx).toList

/-- The contexts of all objects. -/
def held (w : Hashes) : List Nat := holdings owned w.objects

section

variable {w : Hashes} {i : Nat}

theorem holds_construct (h : w.evp.Holds w.held) {made : Option SipHash × Evp}
    (hchange : Ledger.Change [] (owned made.1) w.evp made.2) :
    (w.construct made).evp.Holds (w.construct made).held := by
  have hnew := hchange w.held h
  refine Reconciled.congr hnew ?_
  rw [held, construct, holdings_snoc]
  exact List.perm_append_comm

theorem holds_replace (h : w.evp.Holds w.held) {before : Option SipHash}
    (hslot : w.objects[i]? = some before) (slot : Option SipHash) {evp : Evp}
    (hchange : Ledger.Change (owned before) (owned slot) w.evp evp) :
    (w.replace i slot evp).evp.Holds (w.replace i slot evp).held := by
  have hi : i < w.objects.length := (List.getElem?_eq_some_iff.mp hslot).1
  have hfront : w.evp.Holds
      (owned before ++ holdings owned (w.objects.eraseIdx i)) :=
    Reconciled.congr h (holdings_getElem? hslot).symm
  exact Reconciled.congr (hchange _ hfront) (holdings_set hi slot)

/-- The object that was moved from holds nothing, and the new one what it held. -/
theorem held_move {object : SipHash}
    (hobject : w.objects[i]? = some (some object)) :
    ((w.replace i (some {}) w.evp).construct (some object, w.evp)).held.Perm
      w.held := by
  have hi : i < w.objects.length := (List.getElem?_eq_some_iff.mp hobject).1
  have hset : (holdings owned (w.objects.set i (some {}))).Perm
      (holdings owned (w.objects.eraseIdx i)) := holdings_set hi (some {})
  rw [held, construct, replace, holdings_snoc]
  exact ((hset.append_right _).trans List.perm_append_comm).trans
    (holdings_getElem? hobject).symm

theorem holds_moveAssign (h : w.evp.Holds w.held) {j : Nat} {self other : SipHash}
    (hij : i ≠ j) (hself : w.objects[i]? = some (some self))
    (hother : w.objects[j]? = some (some other)) :
    (w.evp.reset self.ctx).Holds
      ((w.replace i (some other) w.evp).replace j (some {})
        (w.evp.reset self.ctx)).held := by
  have hi : i < w.objects.length := (List.getElem?_eq_some_iff.mp hself).1
  have hj : j < w.objects.length := (List.getElem?_eq_some_iff.mp hother).1
  -- as if the two were exchanged, and then the old context of `i` were freed
  have hexchanged : w.evp.Holds
      ((w.replace i (some other) w.evp).replace j (some self) w.evp).held :=
    Reconciled.congr h (holdings_exchange hij hself hother rfl rfl)
  have hlast : ((w.replace i (some other) w.evp).replace j (some self)
      w.evp).objects[j]? = some (some self) := by
    refine List.getElem?_set_self ?_
    rw [replace, List.length_set]
    exact hj
  have hfreed := holds_replace hexchanged hlast (some {})
    (Ledger.change_reset w.evp self.ctx)
  rw [replace, replace, replace, List.set_set] at hfreed
  exact hfreed

end

theorem holds_step (w : Hashes) (call : SipCall) (w' : Hashes)
    (h : w.evp.Holds w.held) (hstep : step mac w call = .ok w') :
    w'.evp.Holds w'.held := by
  cases step_cases hstep with
  | new calls drawn =>
      exact holds_construct h (SipHash.change_new calls drawn w.evp)
  | ofKey key first second =>
    exact holds_construct h (SipHash.change_ofKey key first second w.evp)
  | @copy i object calls hobject =>
    exact holds_construct h (object.change_copy calls w.evp)
  | move hobject => exact Reconciled.congr h (held_move hobject)
  | self => exact h
  | @assign i j self other calls hij hself hother =>
    exact holds_replace h hself (some _) (self.change_assign other calls w.evp)
  | moveAssign hij hself hother => exact holds_moveAssign h hij hself hother
  | @destroy i object hobject =>
    exact holds_replace h hobject none (Ledger.change_reset w.evp object.ctx)
  | hash => exact h

/-- In every run, whatever fails: what the library has allocated was freed once, or
is the context of one object; and when there is no object left, all of it was
freed. -/
theorem run_owned {calls : List SipCall} {w : Hashes}
    (hrun : run mac calls = .ok w) :
    (List.range w.evp.acquired).Perm (w.evp.released ++ w.held) ∧
      (w.evp.released ++ w.held).Nodup ∧
      ((∀ slot ∈ w.objects, slot = none) →
        (List.range w.evp.acquired).Perm w.evp.released) := by
  have h : w.evp.Holds w.held :=
    Machine.run_invariant (fun w => w.evp.Holds w.held) holds_step (.refl []) hrun
  refine ⟨h, h.nodup, fun hgone => ?_⟩
  have hnone : w.held = [] := by
    refine List.flatMap_eq_nil_iff.mpr fun slot hslot => ?_
    rw [hgone slot hslot]
    rfl
  have hall := h
  rw [Ledger.Holds, Reconciled, hnone, List.append_nil] at hall
  exact hall

/-- Calls that all succeed. -/
def makes : MakeCtx where
  fetched := true
  created := true
  set := true

/-- So do these. -/
def tags : SipHash.MacCalls where
  init := true
  update := true
  final := some 8

def zeroKey : SipHashKey := Vector.replicate 16 0

/-- A tag of the first octets of a text. -/
def firstOctets (_ : SipHashKey) (v : Bytes) : SipHashTag :=
  Vector.ofFn fun i => v.getD i 0

/-- An object and a copy of it, which both hash. -/
def copies : List SipCall :=
  [.ofKey (some zeroKey) makes makes, .copy 0 makes, .hash 0 [1] tags,
    .hash 1 [1] { tags with update := false }]

/-- Then a constructor throws, the first object is moved from, and assigned over the
copy, and all of them are destroyed. -/
def moves : List SipCall :=
  copies ++ [.ofKey (some zeroKey) makes { makes with set := false }, .move 0,
    .moveAssign 1 3, .destroy 0, .destroy 1, .destroy 3]

theorem run_owned_moves :
    ∃ w, run firstOctets moves = .ok w ∧
      (List.range w.evp.acquired).Perm w.evp.released := by
  obtain ⟨w, hrun, hgone⟩ : ∃ w, run firstOctets moves = .ok w ∧
      ∀ slot ∈ w.objects, slot = none :=
    ⟨_, rfl, by decide⟩
  exact ⟨w, hrun, (run_owned hrun).2.2 hgone⟩

/-! ## Runs and values -/

/-- Every object that is there has this property. -/
def AllObjects (P : SipHash → Prop) (w : Hashes) : Prop :=
  ∀ object, some object ∈ w.objects → P object

section

variable {P : SipHash → Prop} {w : Hashes}

theorem AllObjects.of_getElem? (h : AllObjects P w) {i : Nat} {object : SipHash}
    (hobject : w.objects[i]? = some (some object)) : P object :=
  h object (List.mem_of_getElem? hobject)

theorem allObjects_construct (h : AllObjects P w) (made : Option SipHash × Evp) :
    AllObjects P (w.construct made) ↔ ∀ object, made.1 = some object →
      P object := by
  constructor
  · intro hall object hmade
    exact hall object (List.mem_append_right _ (by rw [hmade]; simp))
  · intro hmade object hmem
    rcases List.mem_append.mp hmem with hold | hnew
    · exact h object hold
    · exact hmade object (List.mem_singleton.mp hnew).symm

theorem allObjects_replace (h : AllObjects P w) {i : Nat} {before : Option SipHash}
    (hslot : w.objects[i]? = some before) (slot : Option SipHash) (evp : Evp) :
    AllObjects P (w.replace i slot evp) ↔ ∀ object, slot = some object →
      P object := by
  have hi : i < w.objects.length := (List.getElem?_eq_some_iff.mp hslot).1
  constructor
  · intro hall object heq
    exact hall object (heq ▸ List.mem_set hi slot)
  · intro hnew object hmem
    rcases List.mem_or_eq_of_mem_set hmem with hold | heq
    · exact h object hold
    · exact hnew object heq.symm

end

/-- The call brings no other key than this one. -/
def Keyed (k : SipHashKey) : SipCall → Prop
  | .new _ drawn => ∀ k' ∈ drawn, k' = k
  | .ofKey key _ _ => ∀ k' ∈ key, k' = k
  | _ => True

/-- Where there is no other key: every object that has one has this one, and every
hash is the tag under it, or zero where a call of the library has failed. -/
structure HashesUnder (mac : SipHashKey → Bytes → SipHashTag) (k : SipHashKey)
    (w : Hashes) : Prop where
  objects : AllObjects (fun object => ∀ k' ∈ object.key, k' = k) w
  hashed : ∀ r ∈ w.hashed, r.value =
    if r.succeeded then SipHash.tagToSize (mac k r.text).toList else 0

theorem hashesUnder_step {k : SipHashKey} {w : Hashes} {call : SipCall}
    {w' : Hashes} (h : HashesUnder mac k w) (hkeyed : Keyed k call)
    (hstep : step mac w call = .ok w') : HashesUnder mac k w' := by
  cases step_cases hstep with
  | new calls drawn =>
    refine ⟨(allObjects_construct h.objects _).mpr ?_, h.hashed⟩
    rintro object ⟨⟩
    exact hkeyed
  | ofKey key first second =>
    refine ⟨(allObjects_construct h.objects _).mpr ?_, h.hashed⟩
    intro object hobject
    obtain ⟨ctx, _, rfl⟩ := Option.map_eq_some_iff.mp hobject
    exact hkeyed
  | copy calls hobject =>
    refine ⟨(allObjects_construct h.objects _).mpr ?_, h.hashed⟩
    have hkey := h.objects.of_getElem? hobject
    intro object hcopied
    obtain ⟨ctx, _, rfl⟩ := Option.map_eq_some_iff.mp hcopied
    exact hkey
  | move hobject =>
    have hrest := (allObjects_replace h.objects hobject (some {}) w.evp).mpr
      (by rintro object ⟨⟩ k' ⟨⟩)
    refine ⟨(allObjects_construct hrest _).mpr ?_, h.hashed⟩
    rintro object ⟨⟩
    exact h.objects.of_getElem? hobject
  | self => exact h
  | assign calls hij hself hother =>
    have hkey := h.objects.of_getElem? hother
    refine ⟨(allObjects_replace h.objects hself _ _).mpr ?_, h.hashed⟩
    rintro object ⟨⟩
    exact hkey
  | @moveAssign i j self other hij hself hother =>
    have hfirst := (allObjects_replace h.objects hself (some other) w.evp).mpr
      (by rintro object ⟨⟩; exact h.objects.of_getElem? hother)
    have hlast : (w.replace i (some other) w.evp).objects[j]? = some (some other) :=
      (List.getElem?_set_ne hij).trans hother
    refine ⟨(allObjects_replace hfirst hlast (some {}) _).mpr ?_, h.hashed⟩
    rintro object ⟨⟩ k' ⟨⟩
  | destroy hobject =>
    refine ⟨(allObjects_replace h.objects hobject none _).mpr ?_, h.hashed⟩
    rintro object ⟨⟩
  | @hash i ctx key v calls hobject =>
    refine ⟨h.objects, fun r hr => ?_⟩
    rcases List.mem_append.mp hr with hold | hnew
    · exact h.hashed r hold
    · have hkey : key = k := h.objects.of_getElem? hobject key rfl
      rw [List.mem_singleton.mp hnew, ← hkey]
      exact SipHash.value_eq mac key v calls

/-- In a run with one key, through any copies, moves and assignments, an object
hashes as every other: two hashes whose calls of the library succeed are the same
exactly when the tags of their texts are, and a hash of which a call fails is zero,
whatever its text. -/
theorem run_values {k : SipHashKey} {calls : List SipCall} {w : Hashes}
    (hrun : run mac calls = .ok w) (hkeyed : ∀ call ∈ calls, Keyed k call) :
    (∀ r ∈ w.hashed, r.succeeded = false → r.value = 0) ∧
      ∀ r ∈ w.hashed, ∀ r' ∈ w.hashed, r.succeeded = true → r'.succeeded = true →
        (r.value = r'.value ↔ mac k r.text = mac k r'.text) := by
  have hstart : HashesUnder mac k {} :=
    ⟨fun _ hmem => (by cases hmem), fun _ hmem => (by cases hmem)⟩
  have heach : Machine.Each (step mac) (fun _ call => Keyed k call) {} calls :=
    (Machine.each_iff_forall hrun).mpr hkeyed
  have h : HashesUnder mac k w :=
    Machine.history_invariant (fun _ w => HashesUnder mac k w) hstart
      (fun _ _ _ _ h hcall hstep => hashesUnder_step h hcall hstep) heach hrun
  refine ⟨fun r hr hfailed => ?_, fun r hr r' hr' hsucceeded hsucceeded' => ?_⟩
  · rw [h.hashed r hr, hfailed]
    rfl
  · rw [h.hashed r hr, h.hashed r' hr', if_pos hsucceeded, if_pos hsucceeded']
    exact ⟨SipHash.tagToSize_inj, fun htag => by rw [htag]⟩

/-- The copy hashes the text of the first object again, and another one. -/
def hashes : List SipCall := copies ++ [.hash 1 [1] tags, .hash 1 [2] tags]

theorem keyed_hashes : ∀ call ∈ hashes, Keyed zeroKey call := by
  simp [hashes, copies, Keyed]

theorem run_values_hashes :
    ∃ w first failed again other, run firstOctets hashes = .ok w ∧
      w.hashed = [first, failed, again, other] ∧ failed.value = 0 ∧
      first.value = again.value ∧ first.value ≠ other.value := by
  obtain ⟨w, first, failed, again, other, hrun, hhashed, htexts, hsucceeded⟩ :
      ∃ w first failed again other, run firstOctets hashes = .ok w ∧
        w.hashed = [first, failed, again, other] ∧
        [first, again, other].map Hashed.text = [[1], [1], [2]] ∧
        [first, failed, again, other].map Hashed.succeeded =
          [true, false, true, true] := ⟨_, _, _, _, _, rfl, rfl, rfl, rfl⟩
  obtain ⟨hzero, hsame⟩ := run_values hrun keyed_hashes
  simp only [List.map_cons, List.map_nil, List.cons.injEq, and_true]
    at htexts hsucceeded
  obtain ⟨hfirst, hagain, hother⟩ := htexts
  obtain ⟨hdone, hfails, hdone', hdone''⟩ := hsucceeded
  refine ⟨w, first, failed, again, other, hrun, hhashed,
    hzero failed (by simp [hhashed]) hfails, ?_, ?_⟩
  · refine (hsame first (by simp [hhashed]) again (by simp [hhashed]) hdone
      hdone').mpr ?_
    rw [hfirst, hagain]
  · intro hvalue
    have htags := (hsame first (by simp [hhashed]) other (by simp [hhashed]) hdone
      hdone'').mp hvalue
    rw [hfirst, hother] at htags
    exact absurd htags (by decide +kernel)

/-! ## Runs and null pointers -/

/-- The object has a context and a key. -/
structure Whole (object : SipHash) : Prop where
  ctx : object.ctx.isSome = true
  key : object.key.isSome = true

theorem hash_isOk_iff {w : Hashes} {i : Nat} {object : SipHash}
    (hobject : w.objects[i]? = some (some object)) (v : Bytes)
    (calls : SipHash.MacCalls) :
    (∃ w', step mac w (.hash i v calls) = .ok w') ↔ Whole object := by
  constructor
  · rintro ⟨w', hstep⟩
    cases step_cases hstep with
    | self _ hcall =>
      rcases hcall with ⟨_, hcall⟩ | hcall
      · cases hcall
      · cases hcall
    | hash _ _ hsame =>
      cases hobject.symm.trans hsame
      exact ⟨rfl, rfl⟩
  · rintro ⟨hctx, hkey⟩
    obtain ⟨ctx, key⟩ := object
    obtain ⟨ctx, rfl⟩ := Option.isSome_iff_exists.mp hctx
    obtain ⟨key, rfl⟩ := Option.isSome_iff_exists.mp hkey
    exact ⟨_, on_eq_ok.mpr ⟨_, hobject, rfl⟩⟩

/-- The call leaves every object whole. -/
def KeepsWhole : SipCall → Prop
  | .new calls drawn => calls.succeeds = true ∧ drawn.isSome = true
  | .ofKey key _ second => second.succeeds = true → key.isSome = true
  | .copy _ _ => True
  | .move _ => False
  | .assign i j calls => i = j ∨ calls.succeeds = true
  | .moveAssign i j => i = j
  | .destroy _ => True
  | .hash _ _ _ => True

theorem not_whole_moved : ¬ Whole {} := fun h => by cases h.ctx

theorem whole_step (w : Hashes) (call : SipCall) (w' : Hashes)
    (h : AllObjects Whole w) (hstep : step mac w call = .ok w') :
    AllObjects Whole w' ↔ KeepsWhole call := by
  cases step_cases hstep with
  | new calls drawn =>
    refine (allObjects_construct h _).trans ?_
    rw [KeepsWhole, ← makeCtx_isSome calls w.evp]
    constructor
    · intro hnew
      have hwhole := hnew _ rfl
      exact ⟨hwhole.ctx, hwhole.key⟩
    · rintro ⟨hctx, hkey⟩ object ⟨⟩
      exact ⟨hctx, hkey⟩
  | ofKey key first second =>
    refine (allObjects_construct h _).trans ?_
    rw [KeepsWhole, ← makeCtx_isSome second (makeCtx first w.evp).2]
    constructor
    · intro hnew hsome
      obtain ⟨ctx, hctx⟩ := Option.isSome_iff_exists.mp hsome
      exact (hnew _ (Option.map_eq_some_iff.mpr ⟨ctx, hctx, rfl⟩)).key
    · intro hkey object hobject
      obtain ⟨ctx, hctx, rfl⟩ := Option.map_eq_some_iff.mp hobject
      exact ⟨rfl, hkey (Option.isSome_iff_exists.mpr ⟨ctx, hctx⟩)⟩
  | copy calls hobject =>
    refine (allObjects_construct h _).trans (iff_of_true ?_ trivial)
    intro object hcopied
    obtain ⟨ctx, _, rfl⟩ := Option.map_eq_some_iff.mp hcopied
    exact ⟨rfl, (h.of_getElem? hobject).key⟩
  | @move i object hobject =>
    have hi : i < w.objects.length := (List.getElem?_eq_some_iff.mp hobject).1
    refine iff_of_false (fun hall => ?_) id
    exact not_whole_moved
      (hall {} (List.mem_append_left _ (List.mem_set hi (some {}))))
  | self _ hcall =>
    refine iff_of_true h ?_
    rcases hcall with ⟨_, rfl⟩ | rfl
    · exact Or.inl rfl
    · exact rfl
  | @assign i j self other calls hij hself hother =>
    refine (allObjects_replace h hself _ _).trans ?_
    rw [KeepsWhole, ← makeCtx_isSome calls w.evp, or_iff_right hij]
    constructor
    · intro hnew
      exact (hnew _ rfl).ctx
    · rintro hctx object ⟨⟩
      exact ⟨hctx, (h.of_getElem? hother).key⟩
  | @moveAssign i j self other hij hself hother =>
    have hj : j < w.objects.length := (List.getElem?_eq_some_iff.mp hother).1
    have hlast : j < (w.objects.set i (some other)).length := by
      rw [List.length_set]
      exact hj
    refine iff_of_false (fun hall => ?_) hij
    exact not_whole_moved (hall {} (List.mem_set hlast (some {})))
  | destroy hobject =>
    refine (allObjects_replace h hobject none _).trans (iff_of_true ?_ trivial)
    rintro object ⟨⟩
  | hash => exact iff_of_true h trivial

/-- Every object that is there can be hashed. -/
def Hashable (mac : SipHashKey → Bytes → SipHashTag) (w : Hashes) : Prop :=
  ∀ (i : Nat) object, w.objects[i]? = some (some object) → ∀ v calls,
    ∃ w', step mac w (.hash i v calls) = .ok w'

theorem hashable_iff {w : Hashes} : Hashable mac w ↔ AllObjects Whole w := by
  constructor
  · intro h object hmem
    obtain ⟨i, hobject⟩ := List.mem_iff_getElem?.mp hmem
    exact (hash_isOk_iff hobject []
      { init := true, update := true, final := none }).mp
      (h i object hobject _ _)
  · intro h i object hobject v calls
    exact (hash_isOk_iff hobject v calls).mpr (h.of_getElem? hobject)

/-- A hash is defined for every object, in every state of a run, exactly when no
call of the run is one that leaves an object without a context or a key: a
constructor that is given no key, or that ignores a failure, a move, or an
assignment that throws. -/
theorem run_whole {calls : List SipCall} {w : Hashes}
    (hrun : run mac calls = .ok w) :
    Machine.Along (step mac) (Hashable mac) {} calls ↔
      ∀ call ∈ calls, KeepsWhole call := by
  have hkeeps : ∀ w call w', Hashable mac w → step mac w call = .ok w' →
      (Hashable mac w' ↔ KeepsWhole call) := by
    intro w call w' h hstep
    rw [hashable_iff] at h ⊢
    exact whole_step w call w' h hstep
  have hstart : Hashable mac {} := fun i object hobject => by cases hobject
  exact (Machine.along_iff_each (step mac) hkeeps hstart hrun).trans
    (Machine.each_iff_forall hrun)

theorem run_whole_copies :
    Machine.Along (step firstOctets) (Hashable firstOctets) {} copies := by
  obtain ⟨w, hrun⟩ : ∃ w, run firstOctets copies = .ok w := ⟨_, rfl⟩
  exact (run_whole hrun).mpr (by simp [copies, KeepsWhole])

end Hashes

end UniServer.Routing
