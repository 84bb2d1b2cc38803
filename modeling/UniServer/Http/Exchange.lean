/-
  Http/Exchange.lean --- a whole exchange over TLS, from the request of a client to
  the response it reads.

  `exchange_answered` is the way of any message on which `parse` does not raise: one
  response goes back, which one is decided by `Outcome`, and a client reads it.
  `exchange_rendered` is the way of a request that a client has rendered: its
  handler gets the parts the client has put in, and the client gets the parts the
  handler has put out.  Log calls are left out.
-/
import UniServer.Http.RequestRoundTrip
import UniServer.Http.Session

set_option autoImplicit false

namespace UniServer.Http

open UniServer.Foundation UniServer.Common UniServer.Routing

variable {H : Type}

/-! ## Both ends of the text -/

/-- What `parse` makes of a rendered request. -/
def RequestText.request (r : RequestText) (id : Bytes) (body : Json) : Request where
  id := id
  method := r.method
  path := r.path
  version := r.version
  headers := NormMap.empty.collect r.headers
  body := body

/-- What a client reads of a response. -/
def Response.toText (resp : Response) (body : Bytes) : ResponseText where
  version := ascii "HTTP/1.1"
  status := resp.status.code.toNat
  reason := obsoleteReason resp.status
  headers := sentFields resp body
  body := body

theorem RequestText.parse_eq {r : RequestText} (hr : r.WellFormed) (json : Nlohmann)
    (id : Bytes) (hlen : r.render.length < 2 ^ 31) {body : Json}
    (hbody : readBody json (some r.body) = .ok (some body)) :
    parse json id r.render = .ok (some (r.request id body)) := by
  obtain ⟨front, hrender, hfirst, hline, hfields⟩ := render_eq hr
  have hhead : parseHead r.render =
      some { method := r.method, path := r.path, version := r.version,
             headers := NormMap.empty.collect r.headers } := by
    rw [hrender, parseHead_complete hfirst, hline, hfields,
      spilledFields_eq_nil hr.body, List.append_nil, headOf_headers hr]
  have htext : bodyText r.render = some r.body := by
    rw [hrender, bodyText_complete hfirst]
  exact (parse_eq_some_iff hlen).mpr ⟨_, _, hhead, htext ▸ hbody, rfl⟩

theorem Response.decode_eq {json : Nlohmann} {resp : Response} {out : Bytes}
    (hsend : Sendable resp.headers) (hout : serialize json resp = .ok out) :
    decodeResponse out = some (resp.toText (json.text 4 resp.body)) := by
  have hdump : json.dump resp.body 4 = .ok (json.text 4 resp.body) :=
    Nlohmann.dump_ok ((serialize_ok_iff json resp).mp ⟨out, hout⟩) 4
  rw [serialize_eq hdump, Except.ok.injEq] at hout
  have hclean := sentLines_clean hsend (json.text 4 resp.body)
  obtain ⟨front, hcut, hlines⟩ :=
    cut_framed (sentLines_ne_nil resp _) hclean (json.text 4 resp.body)
  obtain ⟨hversion, hcode⟩ := cut_statusLine resp.status
  have hfields := decodeFields_responseLines fun field hfield =>
    (sentFields_clean hsend (json.text 4 resp.body) field hfield).1
  rw [← hout, decodeResponse, hcut, Option.bind_some]
  simp only [hlines]
  rw [sentLines, decodeLines, hversion]
  simp only [Option.bind_eq_bind, Option.bind_some, hcode, hfields,
    readDecimal_decimal]
  rfl

/-! ## Which response a message gets -/

/-- The response to a message, and the handlers that are called for it.  A message
that ends the process has none. -/
inductive Outcome (json : Nlohmann) (invoke : Invoke H) (manager : RouterManager H)
    (draws : Draws) (raw : Bytes) : Response → List (H × Request) → Prop where
  | rejected (hparse : parse json draws.requestId raw = .ok none) :
      Outcome json invoke manager draws raw
        (makeResp .invalidJsonOrParams draws.responseId draws.now) []
  | noRouter {req : Request}
      (hparse : parse json draws.requestId raw = .ok (some req))
      (hmanager : manager = none) :
      Outcome json invoke manager draws raw
        (makeResp .internalError draws.responseId draws.now) []
  | notFound {req : Request} {router : Router H}
      (hparse : parse json draws.requestId raw = .ok (some req))
      (hmanager : manager = some router)
      (hget : router.rtree.get req.method req.path = none) :
      Outcome json invoke manager draws raw
        (makeResp .notFound draws.requestId draws.now) []
  | found {req : Request} {router : Router H} {h : H} {resp : Response}
      (hparse : parse json draws.requestId raw = .ok (some req))
      (hmanager : manager = some router)
      (hget : router.rtree.get req.method req.path = some h)
      (hinvoke : invoke h req = .ok resp) :
      Outcome json invoke manager draws raw resp [(h, req)]

section Outcomes

variable {json : Nlohmann} {invoke : Invoke H} {manager : RouterManager H}
  {draws : Draws} {raw : Bytes}

/-- The id that is drawn for a request is the id of the request. -/
theorem parse_id {id : Bytes} {req : Request} (hlen : raw.length < 2 ^ 31)
    (hparse : parse json id raw = .ok (some req)) : req.id = id := by
  obtain ⟨_, _, _, _, rfl⟩ := (parse_eq_some_iff hlen).mp hparse
  rfl

/-- `execution` sends the response of the outcome. -/
theorem Outcome.execution_eq (hlen : raw.length < 2 ^ 31) {resp : Response}
    {called : List (H × Request)}
    (h : Outcome json invoke manager draws raw resp called) :
    execution json invoke manager draws raw =
      (noexcept (serialize json resp), called) := by
  cases h with
  | rejected hparse => rw [execution, process_rejected hparse]
  | noRouter hparse hmanager =>
    rw [execution, hmanager, process_noRouter hparse]
  | notFound hparse hmanager hget =>
    rw [execution, hmanager, process_notFound hparse hget, parse_id hlen hparse]
  | found hparse hmanager hget hinvoke =>
    rw [execution, hmanager, process_found hparse hget hinvoke]

/-- A message that parsing does not raise on has an outcome, when no handler
throws. -/
theorem exists_outcome (hinvoke : ∀ h req, ∃ resp, invoke h req = .ok resp)
    {result : Option Request}
    (hparse : parse json draws.requestId raw = .ok result) :
    ∃ resp called, Outcome json invoke manager draws raw resp called := by
  cases result with
  | none => exact ⟨_, _, .rejected hparse⟩
  | some req =>
    cases hmanager : manager with
    | none => exact ⟨_, _, .noRouter hparse rfl⟩
    | some router =>
      cases hget : router.rtree.get req.method req.path with
      | none => exact ⟨_, _, .notFound hparse rfl hget⟩
      | some h =>
        obtain ⟨resp, hresp⟩ := hinvoke h req
        exact ⟨resp, _, .found hparse rfl hget hresp⟩

end Outcomes

/-- A client can read the response: it can be dumped, and no header holds an octet
that ends it early. -/
structure Readable (resp : Response) : Prop where
  dumpable : resp.body.dumpable = true
  sendable : Sendable resp.headers

/-- The responses of the server itself are readable. -/
theorem makeResp_readable (code : RetCode) {id : Bytes} (now : Int)
    (hid : ¬ crlf <:+: id) : Readable (makeResp code id now) := by
  have hentries : ∀ entry ∈ (makeResp code id now).headers.entries,
      entry = (ascii "X-Request-Id", id) := fun entry hentry =>
    List.mem_singleton.mp hentry
  have hname : (58 : Byte) ∉ ascii "X-Request-Id" ∧
      ¬ crlf <:+: ascii "X-Request-Id" := by
    decide +kernel
  refine ⟨makeResp_dumpable code id now rfl, ?_, ?_⟩
  · intro entry hentry
    rw [hentries entry hentry]
    exact hname
  · intro entry hentry
    rw [hentries entry hentry]
    exact hid

theorem Outcome.readable {json : Nlohmann} {invoke : Invoke H}
    {manager : RouterManager H} {draws : Draws} {raw : Bytes}
    (hlen : raw.length < 2 ^ 31) (hrequestId : ¬ crlf <:+: draws.requestId)
    (hresponseId : ¬ crlf <:+: draws.responseId)
    (hinvoke : ∀ h req resp, req.id = draws.requestId → invoke h req = .ok resp →
      Readable resp)
    {resp : Response} {called : List (H × Request)}
    (h : Outcome json invoke manager draws raw resp called) : Readable resp := by
  cases h with
  | rejected hparse => exact makeResp_readable _ _ hresponseId
  | noRouter hparse hmanager => exact makeResp_readable _ _ hresponseId
  | notFound hparse hmanager hget => exact makeResp_readable _ _ hrequestId
  | found hparse hmanager hget hresp =>
    exact hinvoke _ _ _ (parse_id hlen hparse) hresp

namespace HttpsConnection

variable {json : Nlohmann} {invoke : Invoke H} {draws : Draws} {bufsize : Nat}
  {reads : List TlsRead}

/-- A message has arrived in less than the limit. -/
theorem MessageArrives.length_lt {req : Bytes}
    (h : MessageArrives bufsize reads req) : req.length < 2 ^ 31 := by
  obtain ⟨fulls, short, _, _, hlimit, rfl⟩ := h
  exact Nat.lt_trans hlimit (by decide)

/-- One chunk that holds a whole message. -/
theorem messageArrives_single {req : Bytes} (hshort : req.length < bufsize)
    (hlimit : req.length < kReceptionBufLimit) :
    MessageArrives bufsize [.data req] req :=
  ⟨[], req, ⟨⟨[], rfl⟩, by simp, by decide⟩, hshort, hlimit, rfl⟩

/-- The response of an outcome is delivered, and a client reads it. -/
theorem exchange_of_outcome {manager : RouterManager H} {req : Bytes}
    (harrives : MessageArrives bufsize reads req) {resp : Response}
    {called : List (H × Request)}
    (houtcome : Outcome json invoke manager draws req resp called)
    (hread : Readable resp)
    (hshort : ∀ out, serialize json resp = .ok out → out.length < 2 ^ 31)
    (t : SslTransport) :
    ∃ out n, process json invoke manager draws bufsize
          (reads.map .inl ++ (t.writes n).map .inr) =
        some (.ok { ret := true, accepted := out, called := called }) ∧
      decodeResponse out = some (resp.toText (json.text 4 resp.body)) := by
  obtain ⟨out, hout⟩ := (serialize_ok_iff json resp).mpr hread.dumpable
  have hexecution := houtcome.execution_eq harrives.length_lt
  rw [hout, noexcept_ok] at hexecution
  obtain ⟨n, hprocess⟩ := process_delivers harrives hexecution t (hshort out hout)
  exact ⟨out, n, hprocess, Response.decode_eq hread.sendable hout⟩

/-- To a message on which `parse` does not raise one response is delivered, and a
client reads from it the status, the headers and the body of its outcome: 400 for a
message that is not accepted, 500 without a router, 404 without a handler, and else
the response of the handler, which is called once. -/
theorem exchange_answered {manager : RouterManager H} {req : Bytes}
    (harrives : MessageArrives bufsize reads req)
    (hparse : ∃ result, parse json draws.requestId req = .ok result)
    (hrequestId : ¬ crlf <:+: draws.requestId)
    (hresponseId : ¬ crlf <:+: draws.responseId)
    (hreturns : ∀ h request, ∃ resp, invoke h request = .ok resp)
    (hreadable : ∀ h request resp, request.id = draws.requestId →
      invoke h request = .ok resp → Readable resp)
    (hshort : ∀ text, (execution json invoke manager draws req).1 = .ok text →
      text.length < 2 ^ 31)
    (t : SslTransport) :
    ∃ resp called out n, Outcome json invoke manager draws req resp called ∧
      process json invoke manager draws bufsize
          (reads.map .inl ++ (t.writes n).map .inr) =
        some (.ok { ret := true, accepted := out, called := called }) ∧
      decodeResponse out = some (resp.toText (json.text 4 resp.body)) := by
  obtain ⟨result, hresult⟩ := hparse
  obtain ⟨resp, called, houtcome⟩ :
      ∃ resp called, Outcome json invoke manager draws req resp called :=
    exists_outcome hreturns hresult
  have hread :=
    houtcome.readable harrives.length_lt hrequestId hresponseId hreadable
  have htext : ∀ out, serialize json resp = .ok out → out.length < 2 ^ 31 := by
    intro out hout
    apply hshort
    rw [houtcome.execution_eq harrives.length_lt, hout, noexcept_ok]
  obtain ⟨out, n, hprocess, hdecode⟩ :=
    exchange_of_outcome harrives houtcome hread htext t
  exact ⟨resp, called, out, n, houtcome, hprocess, hdecode⟩

/-- One octet is a message, and is answered 400. -/
theorem exchange_answered_octet :
    ∃ resp called out n,
      Outcome writesNull acknowledge none someDraws [120] resp called ∧
      process writesNull acknowledge none someDraws 1024
          ([TlsRead.data [120]].map .inl ++ (takesAll.writes n).map .inr) =
        some (.ok { ret := true, accepted := out, called := called }) ∧
      decodeResponse out = some (resp.toText (ascii "null")) := by
  have hrejected : parse writesNull someDraws.requestId [120] = .ok none := rfl
  have hreadable : ∀ (h : Nat) request resp, request.id = someDraws.requestId →
      acknowledge h request = .ok resp → Readable resp := by
    rintro h request resp hid ⟨⟩
    exact makeResp_readable .success 0 (by rw [hid]; decide)
  have houtcome : Outcome writesNull acknowledge none someDraws [120]
      (makeResp .invalidJsonOrParams [2] 0) [] := .rejected hrejected
  have hshort : ∀ text, (execution writesNull acknowledge none someDraws [120]).1 =
      .ok text → text.length < 2 ^ 31 := by
    intro text htext
    have hdump : writesNull.dump (makeResp .invalidJsonOrParams [2] 0).body 4 =
        .ok (ascii "null") := rfl
    rw [houtcome.execution_eq (by decide), serialize_eq hdump] at htext
    cases htext
    decide +kernel
  exact exchange_answered (messageArrives_single (by decide) (by decide))
    ⟨none, hrejected⟩ (by decide) (by decide) (fun _ _ => ⟨_, rfl⟩) hreadable hshort
    takesAll

/-- A request that is rendered, cut into chunks by the network and answered by the
handler registered first for its method and path: the handler is called once, with
the parts that the client has put in, and the client reads the parts that the
handler has put out. -/
theorem exchange_rendered {calls : List (ManagerCall H)} {adds : List (AddCall H)}
    (hadds : RouterManager.sinceInit calls = some adds) {r : RequestText}
    (hr : r.WellFormed) (hslash : (47 : Byte) ∈ r.path) {h : H}
    (hearliest : RoutingTree.earliest adds r.method (routeKey r.path) = some h)
    {body : Json} (hbody : readBody json (some r.body) = .ok (some body))
    {resp : Response}
    (hinvoke : invoke h (r.request draws.requestId body) = .ok resp)
    (hread : Readable resp)
    (hshort : ∀ out, serialize json resp = .ok out → out.length < 2 ^ 31)
    (harrives : MessageArrives bufsize reads r.render) (t : SslTransport) :
    (∀ name, (r.request draws.requestId body).headers.find name =
      Assoc.find lower r.headers name) ∧
    ∃ out n,
      process json invoke (RouterManager.runAll calls) draws bufsize
          (reads.map .inl ++ (t.writes n).map .inr) =
        some (.ok { ret := true, accepted := out,
                    called := [(h, r.request draws.requestId body)] }) ∧
      decodeResponse out = some (resp.toText (json.text 4 resp.body)) := by
  refine ⟨NormMap.find_collect_distinct hr.distinct, ?_⟩
  have hmanager : RouterManager.runAll calls =
      some (RouterManager.ofCalls adds) := by
    rw [RouterManager.runAll_eq, hadds, Option.map_some]
  have hget : (RouterManager.ofCalls adds).rtree.get r.method r.path = some h := by
    rw [← hearliest]
    exact (RoutingTree.get_of_accepted _ _ (accepted_of_mem hslash)).trans
      (RoutingTree.view_addAll _ _ _)
  have hparse := r.parse_eq hr json draws.requestId harrives.length_lt hbody
  have houtcome :
      Outcome json invoke (RouterManager.runAll calls) draws r.render resp
      [(h, r.request draws.requestId body)] := .found hparse hmanager hget hinvoke
  exact exchange_of_outcome harrives houtcome hread hshort t

/-- An order with a JSON body. -/
def order : RequestText where
  method := .post
  path := ascii "/orders"
  version := ascii "HTTP/1.1"
  headers := [(ascii "Host", ascii "a")]
  body := ascii "{}"

theorem order_wellFormed : order.WellFormed where
  method := by decide
  path := forall_of_all (by decide +kernel)
  version := forall_of_all (by decide +kernel)
  names := by decide +kernel
  values := by decide +kernel
  starts := by
    intro field hfield
    rw [List.mem_singleton.mp hfield]
    exact ⟨_, _, rfl, by decide⟩
  distinct := by decide +kernel
  host := by decide +kernel
  body := by decide +kernel

/-- What the handler for it answers is read back. -/
theorem exchange_rendered_order :
    ∃ out n,
      process RequestText.readsEmptyObject acknowledge
          (RouterManager.runAll [.init, .register .post (ascii "/orders") (some 7)])
          someDraws 1024
          ([TlsRead.data order.render].map .inl ++ (takesAll.writes n).map .inr) =
        some (.ok { ret := true, accepted := out,
                    called := [(7, order.request [1] (.object []))] }) ∧
      decodeResponse out = some ((makeResp .success [1] 0).toText []) := by
  have hread : Readable (makeResp .success [1] 0) :=
    makeResp_readable .success 0 (by decide)
  have hshort : ∀ out,
      serialize RequestText.readsEmptyObject (makeResp .success [1] 0) =
      .ok out → out.length < 2 ^ 31 := by
    intro out hout
    have hdump :
        RequestText.readsEmptyObject.dump (makeResp .success [1] 0).body 4 =
        .ok [] := rfl
    rw [serialize_eq hdump] at hout
    cases hout
    decide +kernel
  exact (exchange_rendered rfl order_wellFormed (by decide +kernel)
    (by decide +kernel) rfl rfl hread hshort
    (messageArrives_single (by decide +kernel) (by decide +kernel)) takesAll).2

end HttpsConnection

end UniServer.Http
