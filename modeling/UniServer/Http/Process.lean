/-
  Http/Process.lean --- `HttpCodec::process`: parse, route, serialize.

  A request that is not accepted is answered 400, one that finds no router 500,
  one that no handler is registered for 404; any other is answered by its
  handler.  The results are about any run of `RouterManager` calls before the
  request comes in.

  Three values are drawn from outside: the id of the request, the id of a
  response that has no request, and the time.
-/
import UniServer.Http.Serialize
import UniServer.Routing.Manager

set_option autoImplicit false

namespace UniServer.Http

open UniServer.Foundation UniServer.Common UniServer.Routing

variable {H : Type}

/-- `kReceptionBufSize`. -/
def kReceptionBufSize : Nat := 1024

/-- `kReceptionBufLimit`. -/
def kReceptionBufLimit : Nat := 8 * kReceptionBufSize

/-- What a call of `process` draws: two calls of `generate_uuid_v4` and one of
`get_timestamp_ms`. -/
structure Draws where
  requestId : Bytes
  responseId : Bytes
  now : Int

/-- `HttpCodec`: `req_`. -/
structure HttpCodec where
  req : Request := {}

namespace HttpCodec

/-- `parse_w`. -/
def parseW (codec : HttpCodec) (json : Nlohmann) (id raw : Bytes) :
    Run (Bool × HttpCodec) := do
  match ← parse json id raw with
  | none => return (false, codec)
  | some req => return (true, { codec with req := req })

/-- `HttpCodec::process`. -/
def process (codec : HttpCodec) (json : Nlohmann) (invoke : Invoke H)
    (manager : RouterManager H) (draws : Draws) (raw : Bytes) : Served H Bytes :=
  match codec.parseW json draws.requestId raw with
  | .error e => (.error e, [])
  | .ok (false, _) =>
      (serialize json (makeResp .invalidJsonOrParams draws.responseId draws.now),
        [])
  | .ok (true, codec) =>
      match RouterManager.route invoke manager codec.req draws.now with
      | (.error e, called) => (.error e, called)
      | (.ok none, called) =>
          (serialize json (makeResp .internalError draws.responseId draws.now),
            called)
      | (.ok (some resp), called) => (serialize json resp, called)

end HttpCodec

/-- `HttpConnection::execution`, on what `recv` stored. -/
def execution (json : Nlohmann) (invoke : Invoke H) (manager : RouterManager H)
    (draws : Draws) (req : Bytes) : Served H Bytes :=
  let codec : HttpCodec := {}
  let served := codec.process json invoke manager draws req
  (noexcept served.1, served.2)

/-! ## The cases of `process` -/

section Cases

variable {codec : HttpCodec} {json : Nlohmann} {invoke : Invoke H}
  {manager : RouterManager H} {draws : Draws} {raw : Bytes}

theorem process_raised {e : Abort}
    (hparse : parse json draws.requestId raw = .error e) :
    codec.process json invoke manager draws raw = (.error e, []) := by
  have hparseW : codec.parseW json draws.requestId raw = .error e := by
    rw [HttpCodec.parseW, hparse, Run.error_bind]
  simp only [HttpCodec.process, hparseW]

theorem process_rejected (hparse : parse json draws.requestId raw = .ok none) :
    codec.process json invoke manager draws raw =
      (serialize json (makeResp .invalidJsonOrParams draws.responseId draws.now),
        []) := by
  have hparseW : codec.parseW json draws.requestId raw = .ok (false, codec) := by
    rw [HttpCodec.parseW, hparse, Run.ok_bind]
    rfl
  simp only [HttpCodec.process, hparseW]

theorem parseW_accepted {req : Request}
    (hparse : parse json draws.requestId raw = .ok (some req)) :
    codec.parseW json draws.requestId raw = .ok (true, ⟨req⟩) := by
  rw [HttpCodec.parseW, hparse, Run.ok_bind]
  rfl

theorem process_noRouter {req : Request}
    (hparse : parse json draws.requestId raw = .ok (some req)) :
    codec.process json invoke none draws raw =
      (serialize json (makeResp .internalError draws.responseId draws.now),
        []) := by
  simp only [HttpCodec.process, parseW_accepted hparse, RouterManager.route]

theorem process_notFound {req : Request} {router : Router H}
    (hparse : parse json draws.requestId raw = .ok (some req))
    (hget : router.rtree.get req.method req.path = none) :
    codec.process json invoke (some router) draws raw =
      (serialize json (makeResp .notFound req.id draws.now), []) := by
  simp only [HttpCodec.process, parseW_accepted hparse,
    RouterManager.route_notFound hget]

theorem process_found {req : Request} {router : Router H} {h : H}
    {resp : Response} (hparse : parse json draws.requestId raw = .ok (some req))
    (hget : router.rtree.get req.method req.path = some h)
    (hinvoke : invoke h req = .ok resp) :
    codec.process json invoke (some router) draws raw =
      (serialize json resp, [(h, req)]) := by
  simp only [HttpCodec.process, parseW_accepted hparse,
    RouterManager.route_found hget hinvoke]

end Cases

/-! ## Dispatch -/

/-- The reply is this response, and these handlers were called for it. -/
def Replies (json : Nlohmann) (served : Served H Bytes) (resp : Response)
    (called : List (H × Request)) : Prop :=
  ∃ out, serialize json resp = .ok out ∧ served = (.ok out, called)

theorem serialize_ok_iff (json : Nlohmann) (resp : Response) :
    (∃ out, serialize json resp = .ok out) ↔ resp.body.dumpable = true := by
  constructor
  · rintro ⟨out, hout⟩
    rw [serialize, noexcept_eq_ok_iff] at hout
    rw [← json.dump_eq_ok_iff 4]
    cases hdump : json.dump resp.body 4 with
    | ok text => exact ⟨text, rfl⟩
    | error e =>
      rw [hdump, Run.error_bind] at hout
      cases hout
  · intro hdumpable
    exact ⟨_, serialize_eq (Nlohmann.dump_ok hdumpable 4)⟩

theorem replies_of_eq {json : Nlohmann} {served : Served H Bytes}
    {resp : Response} {called : List (H × Request)}
    (hdumpable : resp.body.dumpable = true)
    (hserved : served = (serialize json resp, called)) :
    Replies json served resp called := by
  obtain ⟨out, hout⟩ := (serialize_ok_iff json resp).mpr hdumpable
  exact ⟨out, hout, by rw [hserved, hout]⟩

/-- The responses of the server itself can be dumped. -/
theorem makeResp_replies {json : Nlohmann} {served : Served H Bytes}
    {code : RetCode} {id : Bytes} {now : Int}
    (hserved : served = (serialize json (makeResp code id now), [])) :
    Replies json served (makeResp code id now) [] :=
  replies_of_eq (makeResp_dumpable code id now rfl) hserved

/-- From any run of `RouterManager` calls, for handlers that answer with a response
that can be dumped: what a registration does without a router, and which reply a
request gets and which handler runs for it. -/
theorem process_dispatch (json : Nlohmann) {invoke : Invoke H}
    (hinvoke : ∀ h req, ∃ resp, invoke h req = .ok resp ∧ resp.body.dumpable = true)
    (calls : List (ManagerCall H)) (codec : HttpCodec) (draws : Draws)
    (raw : Bytes) :
    let manager := RouterManager.runAll calls
    let served := codec.process json invoke manager draws raw
    (manager = none ↔ RouterManager.sinceInit calls = none) ∧
    (manager = none → ∀ (via : Registrar) path h,
      via.call manager path h = (.error notInitialized, manager)) ∧
    (parse json draws.requestId raw = .ok none →
      Replies json served
        (makeResp .invalidJsonOrParams draws.responseId draws.now) []) ∧
    ∀ req, parse json draws.requestId raw = .ok (some req) →
      (manager = none →
        Replies json served
          (makeResp .internalError draws.responseId draws.now) []) ∧
      ∀ adds, RouterManager.sinceInit calls = some adds → (47 : Byte) ∈ req.path →
        (∀ h, RoutingTree.earliest adds req.method (routeKey req.path) = some h →
          ∃ resp, invoke h req = .ok resp ∧ Replies json served resp [(h, req)]) ∧
        (RoutingTree.earliest adds req.method (routeKey req.path) = none →
          Replies json served (makeResp .notFound req.id draws.now) []) := by
  intro manager served
  have hmanager : manager =
      (RouterManager.sinceInit calls).map RouterManager.ofCalls :=
    RouterManager.runAll_eq calls
  refine ⟨?_, ?_, ?_, ?_⟩
  · rw [hmanager, Option.map_eq_none_iff]
  · intro hnone via path h
    rw [hnone, via.call_none]
  · intro hparse
    exact makeResp_replies (process_rejected hparse)
  · intro req hparse
    refine ⟨?_, ?_⟩
    · intro hnone
      have hserved : served = codec.process json invoke none draws raw := by
        rw [← hnone]
      exact makeResp_replies (hserved.trans (process_noRouter hparse))
    · intro adds hadds hmem
      have hrouter : manager = some (RouterManager.ofCalls adds) := by
        rw [hmanager, hadds, Option.map_some]
      have hserved : served =
          codec.process json invoke (some (RouterManager.ofCalls adds)) draws
            raw := by
        rw [← hrouter]
      have hget : (RouterManager.ofCalls adds).rtree.get req.method req.path =
          RoutingTree.earliest adds req.method (routeKey req.path) := by
        have haccepted := accepted_of_mem hmem
        exact (RoutingTree.get_of_accepted _ _ haccepted).trans
          (RoutingTree.view_addAll _ _ _)
      refine ⟨?_, ?_⟩
      · intro h hearliest
        obtain ⟨resp, hresp, hdumpable⟩ := hinvoke h req
        exact ⟨resp, hresp, replies_of_eq hdumpable
          (hserved.trans (process_found hparse (hget.trans hearliest) hresp))⟩
      · intro hearliest
        exact makeResp_replies
          (hserved.trans (process_notFound hparse (hget.trans hearliest)))

/-- A handler that answers with the id of the request. -/
def acknowledge : Invoke Nat := fun _ req => .ok (makeResp .success req.id 0)

/-- A request without a body. -/
def plainRequest : Bytes := ascii "GET /a HTTP/1.1\r\nHost: a\r\n\r\n"

def someDraws : Draws := { requestId := [1], responseId := [2], now := 0 }

/-- Two registrations for `/a`; the first of them is gone with the second `Init`. -/
def twoRegistrations : List (ManagerCall Nat) :=
  [.init, .register .get (ascii "/a") (some 2), .init,
    .register .get (ascii "/a") (some 3)]

theorem parse_plainRequest (id : Bytes) :
    ∃ req, parse readsNothing id plainRequest = .ok (some req) ∧
      req.method = .get ∧ req.path = ascii "/a" := by
  have htarget :
      (parseHead plainRequest).map (fun head => (head.method, head.path)) =
      some (.get, ascii "/a") := by
    decide +kernel
  have hbody : bodyText plainRequest = some [] := by decide +kernel
  obtain ⟨head, hhead, htarget⟩ := Option.map_eq_some_iff.mp htarget
  refine ⟨head.request id .null, ?_, Prod.mk.inj htarget⟩
  exact (parse_eq_some_iff (by decide +kernel)).mpr
    ⟨head, .null, hhead, by rw [hbody]; rfl, rfl⟩

theorem process_dispatch_plainRequest :
    ∃ req resp,
      parse readsNothing someDraws.requestId plainRequest = .ok (some req) ∧
      acknowledge 3 req = .ok resp ∧
      Replies readsNothing
        (HttpCodec.process {} readsNothing acknowledge
          (RouterManager.runAll twoRegistrations) someDraws plainRequest)
        resp [(3, req)] := by
  obtain ⟨req, hparse, hmethod, hpath⟩ := parse_plainRequest someDraws.requestId
  have hinvoke : ∀ h req, ∃ resp, acknowledge h req = .ok resp ∧
      resp.body.dumpable = true :=
    fun _ req => ⟨_, rfl, makeResp_dumpable .success req.id 0 rfl⟩
  obtain ⟨_, _, _, haccepted⟩ :=
    process_dispatch readsNothing hinvoke twoRegistrations {} someDraws
      plainRequest
  have hmem : (47 : Byte) ∈ req.path := by
    rw [hpath]
    decide
  have hearliest : RoutingTree.earliest
      [{ method := .get, path := ascii "/a", handler := some 3 }]
      req.method (routeKey req.path) = some 3 := by
    rw [hmethod, hpath]
    decide +kernel
  obtain ⟨resp, hresp, hreplies⟩ :=
    ((haccepted req hparse).2 _ rfl hmem).1 3 hearliest
  exact ⟨req, resp, hparse, hresp, hreplies⟩

/-! ## Answered requests -/

/-- `process` returns a reply, and so does the `noexcept` function that calls it. -/
def Answered (json : Nlohmann) (invoke : Invoke H) (manager : RouterManager H)
    (draws : Draws) (raw : Bytes) : Prop :=
  ∃ out, (HttpCodec.process {} json invoke manager draws raw).1 = .ok out ∧
    (execution json invoke manager draws raw).1 = .ok out

/-- When the head is accepted, no number in the body is too large for a double. -/
def BodyReadable (json : Nlohmann) (raw : Bytes) : Prop :=
  (parseHead raw).isSome → ∀ text, bodyText raw = some text → text ≠ [] →
    json.read text ≠ .error .outOfRange

/-- When the head and the body are accepted and a handler is registered, every
string of its response is UTF-8. -/
def ResponseDumpable (json : Nlohmann) (invoke : Invoke H)
    (manager : RouterManager H) (draws : Draws) (raw : Bytes) : Prop :=
  ∀ head body router h resp, parseHead raw = some head →
    readBody json (bodyText raw) = .ok (some body) → manager = some router →
    router.rtree.get head.method head.path = some h →
    invoke h (head.request draws.requestId body) = .ok resp →
      resp.body.dumpable = true

theorem answered_iff_process {json : Nlohmann} {invoke : Invoke H}
    {manager : RouterManager H} {draws : Draws} {raw : Bytes} :
    Answered json invoke manager draws raw ↔
      ∃ out, (HttpCodec.process {} json invoke manager draws raw).1 = .ok out := by
  refine exists_congr fun out => and_iff_left_of_imp fun hout => ?_
  exact noexcept_eq_ok_iff.mpr hout

theorem readBody_raises_iff (json : Nlohmann) (text : Option Bytes) :
    (∃ e, readBody json text = .error e) ↔
      ∃ t, text = some t ∧ t ≠ [] ∧ json.read t = .error .outOfRange := by
  cases text with
  | none => simp [readBody]
  | some t =>
    cases t with
    | nil => simp [readBody]
    | cons b t =>
      rw [readBody]
      cases hread : json.read (b :: t) with
      | ok document => simp [hread]
      | error e => cases e <;> simp [hread]

/-- An accepted request is answered when there is no handler for it, and else
when the response of the handler can be dumped. -/
theorem answered_of_accepted {json : Nlohmann} {invoke : Invoke H}
    {manager : RouterManager H} {draws : Draws} {raw : Bytes} {req : Request}
    (hinvoke : ∀ h req, ∃ resp, invoke h req = .ok resp)
    (hparse : parse json draws.requestId raw = .ok (some req)) :
    Answered json invoke manager draws raw ↔
      ∀ router h resp, manager = some router →
        router.rtree.get req.method req.path = some h →
        invoke h req = .ok resp → resp.body.dumpable = true := by
  rw [answered_iff_process]
  cases manager with
  | none =>
    rw [process_noRouter hparse, serialize_ok_iff]
    exact iff_of_true (makeResp_dumpable _ _ _ rfl) (by simp)
  | some router =>
    cases hget : router.rtree.get req.method req.path with
    | none =>
      rw [process_notFound hparse hget, serialize_ok_iff]
      apply iff_of_true (makeResp_dumpable _ _ _ rfl)
      rintro router' h resp ⟨⟩ hfound
      rw [hget] at hfound
      cases hfound
    | some h =>
      obtain ⟨resp, hresp⟩ := hinvoke h req
      rw [process_found hparse hget hresp, serialize_ok_iff]
      constructor
      · rintro hdumpable router' h' resp' ⟨⟩ hfound hresp'
        rw [hget, Option.some_inj] at hfound
        rw [← hfound, hresp, Except.ok.injEq] at hresp'
        rw [← hresp']
        exact hdumpable
      · intro hdumpable
        exact hdumpable router h resp rfl hget hresp

/-- A request is answered exactly when reading its body does not raise
`out_of_range` and the response of its handler can be dumped. -/
theorem answered_iff (json : Nlohmann) {invoke : Invoke H}
    (hinvoke : ∀ h req, ∃ resp, invoke h req = .ok resp) (manager : RouterManager H)
    (draws : Draws) {raw : Bytes} (hlen : raw.length < kReceptionBufLimit) :
    Answered json invoke manager draws raw ↔
      BodyReadable json raw ∧ ResponseDumpable json invoke manager draws raw := by
  have hint : raw.length < 2 ^ 31 := Nat.lt_trans hlen (by decide)
  have hrejected : parse json draws.requestId raw = .ok none →
      Answered json invoke manager draws raw := by
    intro hparse
    rw [answered_iff_process, process_rejected hparse, serialize_ok_iff]
    exact makeResp_dumpable _ _ _ rfl
  unfold BodyReadable ResponseDumpable
  cases hhead : parseHead raw with
  | none => exact iff_of_true (hrejected (parse_of_noHead hint hhead)) (by simp)
  | some head =>
    have hparse := parse_of_head json draws.requestId hint hhead
    cases hread : readBody json (bodyText raw) with
    | error e =>
      -- the exception for the number leaves `parse` and `process`
      rw [hread] at hparse
      obtain ⟨text, htext, hne, hrange⟩ :=
        (readBody_raises_iff json (bodyText raw)).mp ⟨e, hread⟩
      refine iff_of_false ?_ fun h => h.1 rfl text htext hne hrange
      rw [answered_iff_process, process_raised hparse]
      rintro ⟨out, hout⟩
      cases hout
    | ok result =>
      rw [hread] at hparse
      have hreadable : ∀ text, bodyText raw = some text → text ≠ [] →
          json.read text ≠ .error .outOfRange := by
        intro text htext hne hrange
        obtain ⟨e, he⟩ :=
          (readBody_raises_iff json (bodyText raw)).mpr ⟨text, htext, hne, hrange⟩
        rw [hread] at he
        cases he
      cases result with
      | none => exact iff_of_true (hrejected hparse) ⟨fun _ => hreadable, by simp⟩
      | some body =>
        rw [answered_of_accepted hinvoke hparse]
        constructor
        · intro hdumpable
          refine ⟨fun _ => hreadable, ?_⟩
          rintro _ _ router h resp ⟨⟩ ⟨⟩
          exact hdumpable router h resp
        · rintro ⟨_, hdumpable⟩ router h resp
          exact hdumpable head body router h resp rfl rfl

/-- A handler is registered for the path and answers with a response that can be
dumped. -/
theorem answered_iff_plainRequest :
    Answered readsNothing acknowledge
      (RouterManager.runAll [.init, .register .get (ascii "/a") (some 3)])
      someDraws plainRequest := by
  refine (answered_iff readsNothing (fun _ _ => ⟨_, rfl⟩) _ _
    (by decide +kernel)).mpr ⟨?_, ?_⟩
  · intro _ text htext hne
    have hbody : bodyText plainRequest = some [] := by decide +kernel
    rw [hbody, Option.some_inj] at htext
    exact absurd htext.symm hne
  · intro head body router h resp _ _ _ _ hresp
    rw [← Except.ok.inj hresp]
    exact makeResp_dumpable _ _ _ rfl

/-- The number of the body is too large for a double. -/
def hugeNumber : Bytes := ascii "1e400"

/-- A library that refuses this one number. -/
def refusesHugeNumber : Nlohmann :=
  ⟨fun text => if text = hugeNumber then .error .outOfRange
    else .error .parseError, fun _ _ => []⟩

/-- The request with this number for a body ends the process. -/
theorem hugeNumber_unanswered :
    ¬ ∀ (json : Nlohmann) (invoke : Invoke Nat) (manager : RouterManager Nat)
      (draws : Draws) (raw : Bytes), (∀ h req, ∃ resp, invoke h req = .ok resp) →
      raw.length < kReceptionBufLimit → Answered json invoke manager draws raw := by
  intro hclaim
  have hraised : (parse refusesHugeNumber someDraws.requestId
      (plainRequest ++ hugeNumber)).isOk = false := by
    decide +kernel
  have hanswered := hclaim refusesHugeNumber acknowledge none someDraws
    (plainRequest ++ hugeNumber) (fun _ _ => ⟨_, rfl⟩) (by decide +kernel)
  rw [answered_iff_process] at hanswered
  cases hparse : parse refusesHugeNumber someDraws.requestId
    (plainRequest ++ hugeNumber) with
  | ok result =>
    rw [hparse] at hraised
    cases hraised
  | error e =>
    rw [process_raised hparse] at hanswered
    obtain ⟨out, hout⟩ := hanswered
    cases hout

end UniServer.Http
