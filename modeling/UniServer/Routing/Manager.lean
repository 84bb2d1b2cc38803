/-
  Routing/Manager.lean --- `Router` and `RouterManager`: the registration
  functions, one for each method, and the life of the router they work on.

  A handler is a value `h : H`; what it answers to a request is `invoke h`, which
  may also throw.  Routing returns the handlers it has called beside its result,
  in order, so that a run can be asked which ran.  When the order of the
  registrations matters is the last result.
-/
import UniServer.Routing.Runs

set_option autoImplicit false

namespace UniServer.Routing

open UniServer.Foundation UniServer.Common UniServer.Http

variable {H : Type}

/-- What a handler does with a request. -/
abbrev Invoke (H : Type) : Type := H → Request → Except Exn Response

/-- A result, and the handlers that were called for it. -/
abbrev Served (H α : Type) : Type := Run α × List (H × Request)

/-! ## `Router` -/

/-- `Router`: `rtree_`. -/
structure Router (H : Type) where
  rtree : RoutingTree H

namespace Router

/-- A new router; the hash key only picks buckets. -/
def new : Router H := ⟨.empty⟩

/-- The registration functions differ in the method they add under. -/
def addUnder (mtd : Method) (router : Router H) (path : Bytes) (h : Option H) :
    Bool × Router H :=
  let result := router.rtree.add mtd path h
  (result.ok, ⟨result.after⟩)

/-- `Router::get`. -/
def get : Router H → Bytes → Option H → Bool × Router H := addUnder .get

/-- `Router::post`. -/
def post : Router H → Bytes → Option H → Bool × Router H := addUnder .post

/-- `Router::put`. -/
def put : Router H → Bytes → Option H → Bool × Router H := addUnder .put

/-- `Router::del`. -/
def del : Router H → Bytes → Option H → Bool × Router H := addUnder .delete

/-- `Router::patch`. -/
def patch : Router H → Bytes → Option H → Bool × Router H := addUnder .patch

/-- `Router::route`. -/
def route (invoke : Invoke H) (router : Router H) (req : Request) :
    Served H (Option Response) :=
  match router.rtree.get req.method req.path with
  | none => (.ok none, [])
  | some h =>
      (noexcept (match invoke h req with
        | .ok resp => .ok (some resp)
        | .error e => .error (.throw e)), [(h, req)])

end Router

/-! ## `RouterManager` -/

/-- `router_`. -/
abbrev RouterManager (H : Type) : Type := Option (Router H)

/-- What a registration throws while there is no router. -/
def notInitialized : Abort :=
  .throw (.runtimeError (ascii "Router not initialized"))

namespace RouterManager

/-- `Init`, with or without a key: whatever was there is replaced. -/
def init : RouterManager H := some .new

/-- `Clear`. -/
def clear : RouterManager H := none

/-- The registration functions differ in the function of the router they call. -/
def register (call : Router H → Bytes → Option H → Bool × Router H)
    (manager : RouterManager H) (path : Bytes) (h : Option H) :
    Run Bool × RouterManager H :=
  match manager with
  | none => (.error notInitialized, none)
  | some router =>
      let (result, router) := call router path h
      (.ok result, some router)

/-- `RouterManager::Get`. -/
def get : RouterManager H → Bytes → Option H → Run Bool × RouterManager H :=
  register Router.get

/-- `RouterManager::Post`. -/
def post : RouterManager H → Bytes → Option H → Run Bool × RouterManager H :=
  register Router.post

/-- `RouterManager::Put`. -/
def put : RouterManager H → Bytes → Option H → Run Bool × RouterManager H :=
  register Router.put

/-- `RouterManager::Del`. -/
def del : RouterManager H → Bytes → Option H → Run Bool × RouterManager H :=
  register Router.del

/-- `RouterManager::Patch`. -/
def patch : RouterManager H → Bytes → Option H → Run Bool × RouterManager H :=
  register Router.patch

/-- `RouterManager::Route`; `now` is the time a response of its own carries. -/
def route (invoke : Invoke H) (manager : RouterManager H) (req : Request)
    (now : Int) :
    Served H (Option Response) :=
  match manager with
  | none => (.ok none, [])
  | some router =>
      match router.route invoke req with
      | (.ok none, called) => (.ok (some (makeResp .notFound req.id now)), called)
      | (.ok (some response), called) => (.ok (some response), called)
      | (.error e, called) => (.error e, called)

end RouterManager

/-! ## Runs of calls -/

/-- The five registration functions. -/
inductive Registrar where
  | get
  | post
  | put
  | del
  | patch
  deriving DecidableEq, Repr

namespace Registrar

/-- The function of `RouterManager` itself. -/
def call :
    Registrar → RouterManager H → Bytes → Option H → Run Bool × RouterManager H
  | .get => RouterManager.get
  | .post => RouterManager.post
  | .put => RouterManager.put
  | .del => RouterManager.del
  | .patch => RouterManager.patch

/-- The method it registers for. -/
def method : Registrar → Method
  | .get => .get
  | .post => .post
  | .put => .put
  | .del => .delete
  | .patch => .patch

/-- Without a router a registration throws and leaves everything as it was. -/
theorem call_none (via : Registrar) (path : Bytes) (h : Option H) :
    via.call none path h = (.error notInitialized, none) := by
  cases via <;> rfl

/-- With one it is a call of `add` under its method. -/
theorem call_some (via : Registrar) (router : Router H) (path : Bytes)
    (h : Option H) :
    via.call (some router) path h =
      (.ok (router.rtree.add via.method path h).ok,
        some ⟨(router.rtree.add via.method path h).after⟩) := by
  cases via <;> rfl

end Registrar

/-- A call of `RouterManager` before requests come in. -/
inductive ManagerCall (H : Type) where
  | init
  | clear
  | register (via : Registrar) (path : Bytes) (h : Option H)

namespace RouterManager

/-- The state after a call. -/
def step (manager : RouterManager H) : ManagerCall H → RouterManager H
  | .init => init
  | .clear => clear
  | .register via path h => (via.call manager path h).2

/-- The state after a run of calls; at the start there is no router. -/
def runAll (calls : List (ManagerCall H)) : RouterManager H := calls.foldl step none

/-- The registrations since the last `Init`, or none while there is no router. -/
def noteCall (noted : Option (List (AddCall H))) :
    ManagerCall H → Option (List (AddCall H))
  | .init => some []
  | .clear => none
  | .register via path h =>
      noted.map (· ++ [{ method := via.method, path := path, handler := h }])

def sinceInit (calls : List (ManagerCall H)) : Option (List (AddCall H)) :=
  calls.foldl noteCall none

/-- The router that some registrations make. -/
def ofCalls (adds : List (AddCall H)) : Router H := ⟨RoutingTree.empty.addAll adds⟩

/-- One call keeps the router the one its registrations since the last `Init`
make. -/
theorem step_ofCalls (noted : Option (List (AddCall H))) (call : ManagerCall H) :
    step (noted.map ofCalls) call = (noteCall noted call).map ofCalls := by
  cases call with
  | init => rfl
  | clear => rfl
  | register via path h =>
    cases noted with
    | none => exact congrArg Prod.snd (via.call_none path h)
    | some adds =>
      have happend : RoutingTree.empty.addAll
          (adds ++ [{ method := via.method, path := path, handler := h }]) =
            ((RoutingTree.empty.addAll adds).add via.method path h).after :=
        List.foldl_append
      rw [step, Option.map_some, Registrar.call_some, noteCall, Option.map_some,
        Option.map_some, ofCalls, ofCalls, happend]

/-- After any run the router is the one its registrations since the last `Init`
make, and there is none when there was no `Init` since the last `Clear`. -/
theorem runAll_eq (calls : List (ManagerCall H)) :
    runAll calls = (sinceInit calls).map ofCalls := by
  have hrun : ∀ (calls : List (ManagerCall H)) (noted : Option (List (AddCall H))),
      calls.foldl step (noted.map ofCalls) =
        (calls.foldl noteCall noted).map ofCalls := by
    intro calls
    induction calls with
    | nil => intro noted; rfl
    | cons call calls ih =>
      intro noted
      rw [List.foldl_cons, step_ofCalls, ih, List.foldl_cons]
  exact hrun calls none

/-! ## Routing after a run -/

/-- A handler that does not throw is called once, with the request. -/
theorem route_found {invoke : Invoke H} {router : Router H} {req : Request} {h : H}
    {resp : Response} (hget : router.rtree.get req.method req.path = some h)
    (hinvoke : invoke h req = .ok resp) (now : Int) :
    route invoke (some router) req now = (.ok (some resp), [(h, req)]) := by
  have hroute : router.route invoke req = (.ok (some resp), [(h, req)]) := by
    rw [Router.route, hget]
    simp only [hinvoke, noexcept_ok]
  simp only [route, hroute]

theorem route_notFound {invoke : Invoke H} {router : Router H} {req : Request}
    (hget : router.rtree.get req.method req.path = none) (now : Int) :
    route invoke (some router) req now =
      (.ok (some (makeResp .notFound req.id now)), []) := by
  have hroute : router.route invoke req = (.ok none, []) := by
    rw [Router.route, hget]
  simp only [route, hroute]

end RouterManager

/-! ## The order of the registrations -/

/-- A call of one of the five registration functions. -/
structure Registration (H : Type) where
  via : Registrar
  path : Bytes
  handler : Option H

namespace Registration

def call (r : Registration H) : ManagerCall H := .register r.via r.path r.handler

/-- The call of `add` that it makes. -/
def added (r : Registration H) : AddCall H where
  method := r.via.method
  path := r.path
  handler := r.handler

/-- The two are accepted under one method and one key. -/
def Clash (r r' : Registration H) : Prop :=
  r.via = r'.via ∧ Accepted r.path ∧ Accepted r'.path ∧
    routeKey r.path = routeKey r'.path

/-- The handlers of registrations that clash are the same. -/
def Unambiguous (regs : List (Registration H)) : Prop :=
  ∀ r ∈ regs, ∀ r' ∈ regs, Clash r r' →
    ∀ h ∈ r.handler, ∀ h' ∈ r'.handler, h = h'

theorem offered_added (r : Registration H) :
    RoutingTree.offered r.added =
      if Accepted r.path then
        some ((r.via.method, routeKey r.path), r.handler) else none := by
  have hindex : r.via.method.index < kNumHTTPMethods := by
    cases r.via <;> decide
  rw [RoutingTree.offered, RoutingTree.request, added]
  by_cases haccepted : Accepted r.path
  · rw [if_pos ⟨hindex, haccepted⟩, if_pos haccepted]
  · rw [if_neg fun h => haccepted h.2, if_neg haccepted]

theorem offered_eq_some_iff {r : Registration H} {m : Method} {key : RouteKey}
    {value : Option H} :
    RoutingTree.offered r.added = some ((m, key), value) ↔
      Accepted r.path ∧ r.via.method = m ∧ routeKey r.path = key ∧
        r.handler = value := by
  rw [offered_added]
  split
  · rename_i haccepted
    simp [haccepted, and_assoc]
  · rename_i hrefused
    simp [hrefused]

end Registration

theorem Registrar.method_injective : Function.Injective Registrar.method := by
  intro via via' h
  cases via <;> cases via' <;> first | rfl | cases h

namespace RouterManager

/-- `Init`, and then these registrations. -/
def setUp (regs : List (Registration H)) : RouterManager H :=
  runAll (.init :: regs.map Registration.call)

theorem setUp_eq (regs : List (Registration H)) :
    setUp regs = some (ofCalls (regs.map Registration.added)) := by
  have hnoted : ∀ (regs : List (Registration H)) (adds : List (AddCall H)),
      (regs.map Registration.call).foldl noteCall (some adds) =
        some (adds ++ regs.map Registration.added) := by
    intro regs
    induction regs with
    | nil => intro adds; simp
    | cons r regs ih =>
      intro adds
      rw [List.map_cons, List.foldl_cons, Registration.call, noteCall,
        Option.map_some, ih, List.append_assoc]
      rfl
  have hsince : sinceInit (.init :: regs.map Registration.call) =
      some (regs.map Registration.added) := hnoted regs []
  rw [setUp, runAll_eq, hsince, Option.map_some]

theorem view_ofCalls (regs : List (Registration H)) :
    (ofCalls (regs.map Registration.added)).rtree.view =
      Registry.firstOffer
        (regs.filterMap fun r => RoutingTree.offered r.added) := by
  rw [ofCalls, RoutingTree.view_addAll_eq_firstOffer, List.filterMap_map]
  rfl

/-- Registrations are unambiguous when what they offer agrees. -/
theorem agree_of_unambiguous {regs : List (Registration H)}
    (h : Registration.Unambiguous regs) :
    Registry.Agree (regs.filterMap fun r => RoutingTree.offered r.added) := by
  rintro ⟨m, key⟩ v v' hv hv'
  obtain ⟨r, hr, hoffer⟩ := List.mem_filterMap.mp hv
  obtain ⟨r', hr', hoffer'⟩ := List.mem_filterMap.mp hv'
  obtain ⟨hpath, hmethod, hkey, hhandler⟩ :=
    Registration.offered_eq_some_iff.mp hoffer
  obtain ⟨hpath', hmethod', hkey', hhandler'⟩ :=
    Registration.offered_eq_some_iff.mp hoffer'
  have hvia : r.via = r'.via :=
    Registrar.method_injective (hmethod.trans hmethod'.symm)
  exact h r hr r' hr' ⟨hvia, hpath, hpath', hkey.trans hkey'.symm⟩ v hhandler v'
    hhandler'

/-- What is routed is a matter of what `get` finds. -/
theorem route_congr {invoke : Invoke H} {router router' : Router H} {req : Request}
    (hget : router.rtree.get req.method req.path =
      router'.rtree.get req.method req.path) (now : Int) :
    route invoke (some router) req now = route invoke (some router') req now := by
  simp only [route, Router.route, hget]

/-- The handler that is called, if any, is what `get` has found. -/
theorem route_shows (invoke : Invoke H) (router : Router H) (req : Request)
    (now : Int) :
    (route invoke (some router) req now).2.head?.map Prod.fst =
      router.rtree.get req.method req.path := by
  cases hget : router.rtree.get req.method req.path with
  | none =>
    rw [route_notFound hget]
    rfl
  | some h =>
    simp only [route, Router.route, hget]
    cases invoke h req with
    | error e => rfl
    | ok resp => rfl

/-- The registrations between `Init` and the first request can be made in any order
exactly when no two of them put different handlers under one key. -/
theorem route_order_iff (invoke : Invoke H) (regs : List (Registration H)) :
    (∀ regs' : List (Registration H), regs'.Perm regs → ∀ req now,
      route invoke (setUp regs') req now = route invoke (setUp regs) req now) ↔
      Registration.Unambiguous regs := by
  constructor
  · rintro horder r hr r' hr' ⟨hvia, hpath, hpath', hkey⟩ h hh h' hh'
    have hview : ∀ regs' : List (Registration H), regs'.Perm regs →
        Registry.firstOffer
            (regs'.filterMap fun r => RoutingTree.offered r.added)
            (r.via.method, routeKey r.path) =
          Registry.firstOffer
            (regs.filterMap fun r => RoutingTree.offered r.added)
            (r.via.method, routeKey r.path) := by
      intro regs' hperm
      -- a request for the path of `r` shows what is under the key
      let req : Request := { method := r.via.method, path := r.path }
      have hshown := congrArg (fun served => served.2.head?.map Prod.fst)
        (horder regs' hperm req 0)
      simp only [setUp_eq, route_shows] at hshown
      rw [← view_ofCalls, ← view_ofCalls,
        ← RoutingTree.get_of_accepted _ _ hpath,
        ← RoutingTree.get_of_accepted _ _ hpath]
      exact hshown
    exact Registry.eq_of_firstOffer_perm hview hr hr'
      (Registration.offered_eq_some_iff.mpr ⟨hpath, rfl, rfl, hh⟩)
      (Registration.offered_eq_some_iff.mpr
        ⟨hpath', (congrArg Registrar.method hvia).symm, hkey.symm, hh'⟩)
  · intro hclear regs' hperm req now
    have hview : (ofCalls (regs'.map Registration.added)).rtree.view =
        (ofCalls (regs.map Registration.added)).rtree.view := by
      funext key
      rw [view_ofCalls, view_ofCalls]
      exact Registry.firstOffer_congr (agree_of_unambiguous hclear)
        (fun call => (hperm.filterMap _).mem_iff) key
    rw [setUp_eq, setUp_eq]
    refine route_congr ?_ now
    rw [RoutingTree.get_eq_view, RoutingTree.get_eq_view, hview]

end RouterManager

end UniServer.Routing
