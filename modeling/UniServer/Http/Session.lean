/-
  Http/Session.lean --- `process` of the two connections: `recv`, then
  `execution`, then `send`.

  The three are one loop here, whose outcomes are those of its reads and then
  those of its writes.  What comes between them is `afterRecv`: a request is
  executed and its response sent; a failure of `recv` has a response of its own,
  which `recv` itself sends.  So a connection sends one text at most.

  For the TLS connection: which text that is, at every point of any run
  (`process_sends_owed`).  Log calls are left out.
-/
import UniServer.Foundation.Sequence
import UniServer.Http.ReceiveExact
import UniServer.Http.TlsSend

set_option autoImplicit false

namespace UniServer.Http

open UniServer.Foundation UniServer.Common UniServer.Routing

variable {H : Type}

/-- What `process` leaves: the value returned, the octets that the peer has taken,
and the handlers that were called. -/
structure Exchange (H : Type) where
  ret : Bool
  accepted : Bytes
  called : List (H × Request)

/-- A text that is passed to `send`.  It is the result of `execution`, or else one
that `recv` sends before it returns false. -/
structure Reply (H : Type) where
  text : Bytes
  answers : Bool
  called : List (H × Request)

/-- `process` when `send` has returned. -/
def Reply.finish (reply : Reply H) (sent : Sent) : Run (Exchange H) :=
  .ok { ret := reply.answers && sent.ret, accepted := sent.accepted,
        called := reply.called }

/-- `process` when the loop of `recv` has stopped: what is left to send, or the end
of `process`. -/
def afterRecv (json : Nlohmann) (invoke : Invoke H) (manager : RouterManager H)
    (draws : Draws) : Run Received → Turn (Reply H) (Run (Exchange H))
  | .error e => .stop (.error e)
  | .ok received =>
      if received.ret then
        -- `req_` is empty until `recv` moves a request into it
        match execution json invoke manager draws (received.stored.getD []) with
        | (.error e, _) => .stop (.error e)
        | (.ok resp, called) =>
            .next { text := resp, answers := true, called := called }
      else
        match received.sent with
        | [] => .stop (.ok { ret := false, accepted := [], called := [] })
        | text :: _ => .next { text := text, answers := false, called := [] }

section Plain

variable (json : Nlohmann) (invoke : Invoke H) (manager : RouterManager H)
  (draws : Draws) (bufsize : Nat) (buf beyond : Bytes)

/-- The loop of `HttpConnection::process`. -/
def HttpConnection.processLoop :
    Loop (SocketState ⊕ Reply H × SendState) (SocketRead ⊕ SocketWrite)
      (Run (Exchange H)) :=
  Loop.andThen (recvTurn json draws bufsize beyond)
    (afterRecv json invoke manager draws)
    (fun reply => (sendLoop reply.text).mapResult reply.finish) fun _ => unsent

/-- `HttpConnection::process`, on the outcomes of its calls. -/
def HttpConnection.process (outcomes : List (SocketRead ⊕ SocketWrite)) :
    Option (Run (Exchange H)) :=
  (processLoop json invoke manager draws bufsize beyond).run
    (.inl { resbytes := 0, req := [], buf := buf }) outcomes

/-- The loop of `HttpsConnection::process`. -/
def HttpsConnection.processLoop :
    Loop (TlsState ⊕ Reply H × SendState) (TlsRead ⊕ (Int → TlsWrite))
      (Run (Exchange H)) :=
  Loop.andThen (recvTurn json draws bufsize) (afterRecv json invoke manager draws)
    (fun reply => (sendLoop reply.text).mapResult reply.finish)
    fun _ => HttpConnection.unsent

/-- Nothing is read yet. -/
def HttpsConnection.unread : TlsState ⊕ Reply H × SendState :=
  .inl { resbytes := 0, req := [] }

/-- `HttpsConnection::process`, on the outcomes of its calls. -/
def HttpsConnection.process (outcomes : List (TlsRead ⊕ (Int → TlsWrite))) :
    Option (Run (Exchange H)) :=
  (processLoop json invoke manager draws bufsize).run unread outcomes

end Plain

/-! ## `execution` -/

/-- A request is passed to one handler at most. -/
theorem execution_called_le (json : Nlohmann) (invoke : Invoke H)
    (manager : RouterManager H) (draws : Draws) (req : Bytes) :
    (execution json invoke manager draws req).2.length ≤ 1 := by
  have hcalled : (execution json invoke manager draws req).2 =
      (HttpCodec.process {} json invoke manager draws req).2 := rfl
  rw [hcalled]
  cases hparse : parse json draws.requestId req with
  | error e =>
    rw [process_raised hparse]
    exact Nat.zero_le 1
  | ok result =>
    cases result with
    | none =>
      rw [process_rejected hparse]
      exact Nat.zero_le 1
    | some request =>
      cases manager with
      | none =>
        rw [process_noRouter hparse]
        exact Nat.zero_le 1
      | some router =>
        cases hget : router.rtree.get request.method request.path with
        | none =>
          rw [process_notFound hparse hget]
          exact Nat.zero_le 1
        | some h =>
          -- a handler that throws has been called, too
          simp only [HttpCodec.process, parseW_accepted hparse, RouterManager.route,
            Router.route, hget]
          cases invoke h request with
          | ok resp => exact Nat.le_refl 1
          | error e => exact Nat.le_refl 1

namespace HttpsConnection

variable {json : Nlohmann} {invoke : Invoke H} {manager : RouterManager H}
  {draws : Draws} {bufsize : Nat}

/-! ## The text a connection owes -/

/-- What the reads of a connection call for: the response to the message that has
arrived, or the response of `recv` to its own failure, for which no handler was
called. -/
inductive Owed (json : Nlohmann) (invoke : Invoke H) (manager : RouterManager H)
    (draws : Draws) (bufsize : Nat) (reads : List TlsRead) : Reply H → Prop where
  | answer {req text : Bytes} {called : List (H × Request)}
      (harrives : MessageArrives bufsize reads req)
      (hexecution : execution json invoke manager draws req = (.ok text, called)) :
      Owed json invoke manager draws bufsize reads
        { text := text, answers := true, called := called }
  | overLimit {text : Bytes} (hlimit : LimitReached bufsize reads)
      (htext : serialize json (makeResp .requestBufferOverflow draws.responseId
        draws.now) = .ok text) :
      Owed json invoke manager draws bufsize reads
        { text := text, answers := false, called := [] }
  | failed {text : Bytes} (hfails : ReadFails bufsize reads)
      (htext : serialize json (makeResp .internalError draws.responseId
        draws.now) = .ok text) :
      Owed json invoke manager draws bufsize reads
        { text := text, answers := false, called := [] }

/-- A connection that owes a text has called one handler at most. -/
theorem Owed.called_le {reads : List TlsRead} {reply : Reply H}
    (h : Owed json invoke manager draws bufsize reads reply) :
    reply.called.length ≤ 1 := by
  cases h with
  | @answer req text called harrives hexecution =>
    have hle := execution_called_le json invoke manager draws req
    rw [hexecution] at hle
    exact hle
  | overLimit hlimit htext => exact Nat.zero_le 1
  | failed hfails htext => exact Nat.zero_le 1

/-! ### More reads change nothing -/

theorem Reaches.append {reads : List TlsRead} {fulls : List Bytes} {read : TlsRead}
    (h : Reaches bufsize reads fulls read) (more : List TlsRead) :
    Reaches bufsize (reads ++ more) fulls read := by
  obtain ⟨rest, horder⟩ := h.order
  refine ⟨⟨rest ++ more.filter fun read => !isRetry read, ?_⟩, h.full, h.below⟩
  rw [List.filter_append, horder, List.append_assoc, List.cons_append]

theorem MessageArrives.append {reads : List TlsRead} {req : Bytes}
    (h : MessageArrives bufsize reads req) (more : List TlsRead) :
    MessageArrives bufsize (reads ++ more) req := by
  obtain ⟨fulls, short, hreaches, hrest⟩ := h
  exact ⟨fulls, short, hreaches.append more, hrest⟩

theorem PeerCloses.append {reads : List TlsRead} (h : PeerCloses bufsize reads)
    (more : List TlsRead) : PeerCloses bufsize (reads ++ more) := by
  obtain ⟨fulls, hreaches⟩ := h
  exact ⟨fulls, hreaches.append more⟩

theorem Owed.append {reads : List TlsRead} {reply : Reply H}
    (h : Owed json invoke manager draws bufsize reads reply) (more : List TlsRead) :
    Owed json invoke manager draws bufsize (reads ++ more) reply := by
  cases h with
  | answer harrives hexecution => exact .answer (harrives.append more) hexecution
  | overLimit hlimit htext =>
    obtain ⟨fulls, chunk, hreaches, hover⟩ := hlimit
    exact .overLimit ⟨fulls, chunk, hreaches.append more, hover⟩ htext
  | failed hfails htext =>
    obtain ⟨fulls, hreaches⟩ := hfails
    exact .failed ⟨fulls, hreaches.append more⟩ htext

/-! ### What `recv` leaves is what is owed -/

section Received

variable {reads : List TlsRead} {received : Run Received}

theorem afterRecv_complete (req : Bytes) :
    afterRecv json invoke manager draws (complete req) =
      match execution json invoke manager draws req with
      | (.error e, _) => .stop (.error e)
      | (.ok resp, called) =>
          .next { text := resp, answers := true, called := called } := rfl

theorem afterRecv_refuse (json : Nlohmann) (invoke : Invoke H)
    (manager : RouterManager H) (draws : Draws) (code : RetCode) :
    ∃ text, serialize json (makeResp code draws.responseId draws.now) = .ok text ∧
      afterRecv json invoke manager draws (refuse json draws code) =
        .next { text := text, answers := false, called := [] } := by
  obtain ⟨text, htext, hrefuse⟩ := refuse_eq json draws code
  exact ⟨text, htext, by rw [hrefuse]; rfl⟩

/-- When `recv` has stopped, `process` either goes on with the text it owes, or ends
without one: the peer has closed, or the request ends the process. -/
theorem afterRecv_cases (hbound : bufsize ≤ 2 ^ 31 - 1 - kReceptionBufLimit)
    (hchunks : ∀ c, TlsRead.data c ∈ reads → 0 < c.length ∧ c.length ≤ bufsize)
    (hstops : recv json draws bufsize reads = some received) :
    (∃ reply, afterRecv json invoke manager draws received = .next reply ∧
      Owed json invoke manager draws bufsize reads reply) ∨
    (PeerCloses bufsize reads ∧ afterRecv json invoke manager draws received =
      .stop (.ok { ret := false, accepted := [], called := [] })) ∨
    ∃ req e, MessageArrives bufsize reads req ∧
      (execution json invoke manager draws req).1 = .error e ∧
      afterRecv json invoke manager draws received = .stop (.error e) := by
  rcases cause_of_stop json draws hchunks hstops with
    ⟨req, harrives⟩ | hlimit | hcloses | hfails
  · rw [recv_of_message json draws harrives, Option.some_inj] at hstops
    rw [← hstops, afterRecv_complete]
    cases hexecution : execution json invoke manager draws req with
    | mk result called =>
      cases result with
      | ok text => exact Or.inl ⟨_, rfl, .answer harrives hexecution⟩
      | error e => exact Or.inr (Or.inr ⟨req, e, harrives, by rw [hexecution], rfl⟩)
  · rw [recv_of_limit json draws hbound hchunks hlimit, Option.some_inj] at hstops
    obtain ⟨text, htext, hnext⟩ :=
      afterRecv_refuse json invoke manager draws .requestBufferOverflow
    rw [← hstops]
    exact Or.inl ⟨_, hnext, .overLimit hlimit htext⟩
  · rw [recv_of_closes json draws hcloses, Option.some_inj] at hstops
    rw [← hstops]
    exact Or.inr (Or.inl ⟨hcloses, rfl⟩)
  · rw [recv_of_fails json draws hfails, Option.some_inj] at hstops
    obtain ⟨text, htext, hnext⟩ :=
      afterRecv_refuse json invoke manager draws .internalError
    rw [← hstops]
    exact Or.inl ⟨_, hnext, .failed hfails htext⟩

/-- The text owed is the one that `process` goes on with. -/
theorem Owed.afterRecv_eq (hbound : bufsize ≤ 2 ^ 31 - 1 - kReceptionBufLimit)
    (hchunks : ∀ c, TlsRead.data c ∈ reads → 0 < c.length ∧ c.length ≤ bufsize)
    {reply : Reply H}
    (h : Owed json invoke manager draws bufsize reads reply) :
    (recv json draws bufsize reads).map (afterRecv json invoke manager draws) =
      some (.next reply) := by
  cases h with
  | answer harrives hexecution =>
    rw [recv_of_message json draws harrives, Option.map_some, afterRecv_complete,
      hexecution]
  | overLimit hlimit htext =>
    obtain ⟨text', htext', hnext⟩ :=
      afterRecv_refuse json invoke manager draws .requestBufferOverflow
    rw [htext, Except.ok.injEq] at htext'
    rw [recv_of_limit json draws hbound hchunks hlimit, Option.map_some, hnext,
      htext']
  | failed hfails htext =>
    obtain ⟨text', htext', hnext⟩ :=
      afterRecv_refuse json invoke manager draws .internalError
    rw [htext, Except.ok.injEq] at htext'
    rw [recv_of_fails json draws hfails, Option.map_some, hnext, htext']

/-- A connection owes one text at most. -/
theorem Owed.unique (hbound : bufsize ≤ 2 ^ 31 - 1 - kReceptionBufLimit)
    (hchunks : ∀ c, TlsRead.data c ∈ reads → 0 < c.length ∧ c.length ≤ bufsize)
    {reply reply' : Reply H}
    (h : Owed json invoke manager draws bufsize reads reply)
    (h' : Owed json invoke manager draws bufsize reads reply') :
    reply = reply' := by
  have hsame :=
    (h.afterRecv_eq hbound hchunks).symm.trans (h'.afterRecv_eq hbound hchunks)
  rw [Option.some_inj, Turn.next.injEq] at hsame
  exact hsame

end Received

/-! ## The part of it that is sent -/

/-- `SSL_write` takes at least one octet, and no more than it is offered. -/
def TakesOffered (sslWrite : Int → TlsWrite) : Prop :=
  ∀ n numbytes, sslWrite n = .accepted numbytes → 1 ≤ numbytes ∧
    (numbytes : Int) ≤ n

/-- What is offered never reaches behind the response, even where it is narrowed. -/
theorem chunk_le (resp : Bytes) (s : SendState) :
    chunk resp s ≤ ((resp.length - s.totalSend : Nat) : Int) := by
  obtain ⟨_, _, m, hm⟩ := toInt_spec (resp.length - s.totalSend)
  have hchunk : toInt (resp.length - s.totalSend) = chunk resp s := rfl
  omega

/-- A turn of `send` takes the next octets, once, or ends with what was taken. -/
theorem delivered_sendTurn {resp : Bytes} {s s' : SendState}
    {sslWrite : Int → TlsWrite} (hs : HttpConnection.Delivered resp s)
    (htakes : TakesOffered sslWrite)
    (hturn : sendTurn resp s sslWrite = .next s') :
    HttpConnection.Delivered resp s' := by
  rw [sendTurn] at hturn
  cases hwrite : sslWrite (chunk resp s) with
  | accepted numbytes =>
    rw [hwrite] at hturn
    cases hturn
    obtain ⟨hone, hle⟩ := htakes _ _ hwrite
    have hrest := chunk_le resp s
    have hfits : HttpConnection.SocketTakes resp s (.accepted numbytes) := by
      refine ⟨hone, ?_⟩
      rw [HttpConnection.offered, List.length_drop]
      omega
    exact hs.turn hfits rfl
  | wantRead =>
    rw [hwrite] at hturn
    cases hturn
    exact hs
  | wantWrite =>
    rw [hwrite] at hturn
    cases hturn
    exact hs
  | zeroReturn =>
    rw [hwrite] at hturn
    cases hturn
  | failed =>
    rw [hwrite] at hturn
    cases hturn

theorem sendTurn_eq_stop {resp : Bytes} {s : SendState}
    {sslWrite : Int → TlsWrite} {out : Sent}
    (h : sendTurn resp s sslWrite = .stop out) :
    out = { ret := false, accepted := s.accepted } := by
  rw [sendTurn] at h
  cases hwrite : sslWrite (chunk resp s) with
  | accepted numbytes =>
    rw [hwrite] at h
    cases h
  | wantRead =>
    rw [hwrite] at h
    cases h
  | wantWrite =>
    rw [hwrite] at h
    cases h
  | zeroReturn =>
    rw [hwrite] at h
    cases h
    rfl
  | failed =>
    rw [hwrite] at h
    cases h
    rfl

theorem delivered_of_goes {resp : Bytes} {writes : List (Int → TlsWrite)}
    (htakes : ∀ sslWrite ∈ writes, TakesOffered sslWrite) {s : SendState}
    (hgoes : (sendLoop resp).goes HttpConnection.unsent writes = some s) :
    HttpConnection.Delivered resp s := by
  have hpermitted := Loop.permitted_of_forall (l := sendLoop resp) htakes
    HttpConnection.unsent
  rw [← List.append_nil writes] at hpermitted
  refine Loop.goes_invariant (HttpConnection.Delivered resp) ?_ hpermitted
    (HttpConnection.delivered_unsent resp) hgoes
  intro s sslWrite s' hs _ hok hturn
  exact delivered_sendTurn hs hok hturn

/-! ## Any run -/

section Runs

variable {outcomes : List (TlsRead ⊕ (Int → TlsWrite))}

/-- A read of `process` is a read of `recv`. -/
theorem recv_of_goes {reads : List TlsRead} {s : TlsState} {read : TlsRead}
    {received : Run Received}
    (hgoes : (Loop.forever (recvTurn json draws bufsize)).goes
      { resbytes := 0, req := [] } reads = some s)
    (hturn : recvTurn json draws bufsize s read = .stop received) :
    recv json draws bufsize (reads ++ [read]) = some received := by
  have hloop : recvLoop json draws bufsize =
      Loop.forever (recvTurn json draws bufsize) := rfl
  rw [recv, hloop, Loop.run_of_goes hgoes]
  exact Loop.run_stop rfl hturn []

variable (invoke manager) in
/-- The read at which `recv` stops, in a run of `process`. -/
theorem process_leaves_recv (hbound : bufsize ≤ 2 ^ 31 - 1 - kReceptionBufLimit)
    {before after : List (TlsRead ⊕ (Int → TlsWrite))} {read : TlsRead}
    (hreads : ∀ c, Sum.inl (.data c) ∈ before ++ .inl read :: after →
      0 < c.length ∧ c.length ≤ bufsize)
    {s : TlsState} {received : Run Received}
    (hgoes : (Loop.forever (recvTurn json draws bufsize)).goes
      { resbytes := 0, req := [] } (Loop.lefts before) = some s)
    (hturn : recvTurn json draws bufsize s read = .stop received) :
    let reads := Loop.lefts (before ++ .inl read :: after)
    (∃ reply, afterRecv json invoke manager draws received = .next reply ∧
      Owed json invoke manager draws bufsize reads reply) ∨
    (PeerCloses bufsize reads ∧ afterRecv json invoke manager draws received =
      .stop (.ok { ret := false, accepted := [], called := [] })) ∨
    ∃ req e, MessageArrives bufsize reads req ∧
      (execution json invoke manager draws req).1 = .error e ∧
      afterRecv json invoke manager draws received = .stop (.error e) := by
  intro reads
  have hsplit : reads = (Loop.lefts before ++ [read]) ++ Loop.lefts after := by
    simp only [reads, Loop.lefts_append, Loop.lefts_inl, List.append_assoc,
      List.singleton_append]
  have hchunks : ∀ c, TlsRead.data c ∈ Loop.lefts before ++ [read] →
      0 < c.length ∧ c.length ≤ bufsize := by
    intro c hc
    apply hreads c
    rw [← Loop.mem_lefts]
    show TlsRead.data c ∈ reads
    rw [hsplit]
    exact List.mem_append_left _ hc
  rw [hsplit]
  rcases afterRecv_cases hbound hchunks (recv_of_goes hgoes hturn) with
    ⟨reply, hnext, howed⟩ | ⟨hcloses, hstop⟩ | ⟨req, e, harrives, hraises, hstop⟩
  · exact Or.inl ⟨reply, hnext, howed.append _⟩
  · exact Or.inr (Or.inl ⟨hcloses.append _, hstop⟩)
  · exact Or.inr (Or.inr ⟨req, e, harrives.append _, hraises, hstop⟩)

/-- While `process` goes on, it is reading, or it is sending the text it owes. -/
theorem process_goes_cases (hbound : bufsize ≤ 2 ^ 31 - 1 - kReceptionBufLimit)
    (hreads : ∀ c, Sum.inl (.data c) ∈ outcomes → 0 < c.length ∧ c.length ≤ bufsize)
    (hwrites : ∀ sslWrite, Sum.inr sslWrite ∈ outcomes → TakesOffered sslWrite)
    {state : TlsState ⊕ Reply H × SendState}
    (hgoes : (processLoop json invoke manager draws bufsize).goes unread outcomes =
      some state) :
    (∃ s, state = .inl s ∧
      (Loop.forever (recvTurn json draws bufsize)).goes { resbytes := 0, req := [] }
        (Loop.lefts outcomes) = some s) ∨
      ∃ reply s, state = .inr (reply, s) ∧
        Owed json invoke manager draws bufsize (Loop.lefts outcomes) reply ∧
        HttpConnection.Delivered reply.text s := by
  rcases Loop.goes_andThen hgoes with
    ⟨s, rfl, hs⟩ | ⟨before, read, after, s, received, reply, t, rfl, hs,
      hturn, hrest⟩
  · exact Or.inl ⟨s, rfl, hs⟩
  · obtain ⟨hleave, rfl, ht⟩ := hrest
    refine Or.inr ⟨reply, t, rfl, ?_, ?_⟩
    · rcases process_leaves_recv invoke manager hbound hreads hs hturn with
        ⟨reply', hnext, howed⟩ | ⟨_, hstop⟩ | ⟨_, _, _, _, hstop⟩
      · rw [hleave, Turn.next.injEq] at hnext
        exact hnext ▸ howed
      · rw [hleave] at hstop
        cases hstop
      · rw [hleave] at hstop
        cases hstop
    · rw [Loop.goes_mapResult] at ht
      refine delivered_of_goes (fun sslWrite hmem => hwrites sslWrite ?_) ht
      exact List.mem_append_right _
        (List.mem_cons_of_mem _ (Loop.mem_rights.mp hmem))

/-- What `process` returns when `send` has: true exactly when the text was an
answer, and was taken whole. -/
theorem finish_spec {reply : Reply H} {s : SendState} {ret : Bool}
    (hs : HttpConnection.Delivered reply.text s)
    (hret : ret = true ↔ ¬ s.totalSend < reply.text.length) :
    ∃ exchange, reply.finish { ret := ret, accepted := s.accepted } = .ok exchange ∧
      exchange.accepted <+: reply.text ∧ exchange.called = reply.called ∧
      (exchange.ret = true ↔
        reply.answers = true ∧ exchange.accepted = reply.text) := by
  refine ⟨_, rfl, hs.isPrefix, rfl, ?_⟩
  rw [Bool.and_eq_true, hs.eq_iff, hret]

/-- `send` has returned: at the head of its loop, with everything taken, or in its
body, with something left. -/
theorem process_send_stops {reply : Reply H} {s : SendState}
    {out : Run (Exchange H)} {after : List (TlsRead ⊕ (Int → TlsWrite))}
    (hleave : (processLoop json invoke manager draws bufsize).exit
      (.inr (reply, s)) = some out ∨
        (processLoop json invoke manager draws bufsize).exit (.inr (reply, s)) =
          none ∧ ∃ outcome rest, after = outcome :: rest ∧
            (processLoop json invoke manager draws bufsize).turn (.inr (reply, s))
              outcome = .stop out) :
    ∃ ret : Bool, (ret = true ↔ ¬ s.totalSend < reply.text.length) ∧
      reply.finish { ret := ret, accepted := s.accepted } = out := by
  have hexit : (processLoop json invoke manager draws bufsize).exit
      (.inr (reply, s)) = ((sendLoop reply.text).exit s).map reply.finish := rfl
  rw [hexit] at hleave
  rcases hleave with hhead | ⟨hnone, outcome, rest, _, hturn⟩
  · obtain ⟨sent, hsent, rfl⟩ := Option.map_eq_some_iff.mp hhead
    obtain ⟨hdone, rfl⟩ := exit_eq_some hsent
    exact ⟨true, iff_of_true rfl hdone, rfl⟩
  · rw [Option.map_eq_none_iff, exit_eq_none_iff] at hnone
    cases outcome with
    | inl read => cases hturn
    | inr sslWrite =>
      cases hsend : sendTurn reply.text s sslWrite with
      | next s' =>
        simp only [processLoop, Loop.andThen, Loop.mapResult, sendLoop,
          hsend] at hturn
        cases hturn
      | stop sent =>
        simp only [processLoop, Loop.andThen, Loop.mapResult, sendLoop,
          hsend] at hturn
        cases hturn
        rw [sendTurn_eq_stop hsend]
        exact ⟨false, iff_of_false (by decide) (not_not_intro hnone), rfl⟩

/-- `process` has ended in a read. -/
theorem process_read_stops (hbound : bufsize ≤ 2 ^ 31 - 1 - kReceptionBufLimit)
    {before after : List (TlsRead ⊕ (Int → TlsWrite))}
    (hreads : ∀ c, Sum.inl (.data c) ∈ before ++ after → 0 < c.length ∧
      c.length ≤ bufsize)
    {s : TlsState}
    (hgoes : (Loop.forever (recvTurn json draws bufsize)).goes
      { resbytes := 0, req := [] } (Loop.lefts before) = some s)
    {outcome : TlsRead ⊕ (Int → TlsWrite)}
    {rest : List (TlsRead ⊕ (Int → TlsWrite))}
    (hafter : after = outcome :: rest) {out : Run (Exchange H)}
    (hturn : (processLoop json invoke manager draws bufsize).turn (.inl s)
      outcome = .stop out) :
    (PeerCloses bufsize (Loop.lefts (before ++ after)) ∧
      out = .ok { ret := false, accepted := [], called := [] }) ∨
    ∃ req e, MessageArrives bufsize (Loop.lefts (before ++ after)) req ∧
      (execution json invoke manager draws req).1 = .error e ∧ out = .error e := by
  subst hafter
  cases outcome with
  | inr sslWrite => cases hturn
  | inl read =>
    cases hrecv : recvTurn json draws bufsize s read with
    | next s' =>
      simp only [processLoop, Loop.andThen, hrecv] at hturn
      cases hturn
    | stop received =>
      simp only [processLoop, Loop.andThen, hrecv] at hturn
      rcases process_leaves_recv invoke manager hbound hreads hgoes hrecv with
        ⟨reply, hnext, _⟩ | ⟨hcloses, hstop⟩ | ⟨req, e, harrives, hraises, hstop⟩
      · rw [hnext] at hturn
        cases hturn
      · rw [hstop] at hturn
        cases hturn
        exact Or.inl ⟨hcloses, rfl⟩
      · rw [hstop] at hturn
        cases hturn
        exact Or.inr ⟨req, e, harrives, hraises, rfl⟩

/-- How `process` can end: the peer has closed, the request ends the process, or as
much of the text owed was sent as the value returned says. -/
inductive Ends (json : Nlohmann) (invoke : Invoke H) (manager : RouterManager H)
    (draws : Draws) (bufsize : Nat) (reads : List TlsRead) :
    Run (Exchange H) → Prop where
  | closed (hcloses : PeerCloses bufsize reads) :
      Ends json invoke manager draws bufsize reads
        (.ok { ret := false, accepted := [], called := [] })
  | raised {req : Bytes} {e : Abort} (harrives : MessageArrives bufsize reads req)
      (hraises : (execution json invoke manager draws req).1 = .error e) :
      Ends json invoke manager draws bufsize reads (.error e)
  | sent {reply : Reply H} {exchange : Exchange H}
      (howed : Owed json invoke manager draws bufsize reads reply)
      (hpart : exchange.accepted <+: reply.text)
      (hcalled : exchange.called = reply.called)
      (hret : exchange.ret = true ↔
        reply.answers = true ∧ exchange.accepted = reply.text) :
      Ends json invoke manager draws bufsize reads (.ok exchange)

theorem process_ends (hbound : bufsize ≤ 2 ^ 31 - 1 - kReceptionBufLimit)
    (hreads : ∀ c, Sum.inl (.data c) ∈ outcomes → 0 < c.length ∧ c.length ≤ bufsize)
    (hwrites : ∀ sslWrite, Sum.inr sslWrite ∈ outcomes → TakesOffered sslWrite)
    {out : Run (Exchange H)}
    (hstops : process json invoke manager draws bufsize outcomes = some out) :
    Ends json invoke manager draws bufsize (Loop.lefts outcomes) out := by
  obtain ⟨before, after, state, hsplit, hgoes, hleave⟩ :=
    Loop.run_eq_some_iff.mp hstops
  rw [hsplit] at hreads hwrites ⊢
  rcases process_goes_cases hbound
      (fun c hc => hreads c (List.mem_append_left _ hc))
      (fun w hw => hwrites w (List.mem_append_left _ hw)) hgoes with
    ⟨s, rfl, hs⟩ | ⟨reply, s, rfl, howed, hs⟩
  · -- the run has stopped while it was reading
    rcases hleave with hexit | ⟨_, outcome, rest, hafter, hturn⟩
    · cases hexit
    · rcases process_read_stops hbound hreads hs hafter hturn with
        ⟨hcloses, rfl⟩ | ⟨req, e, harrives, hraises, rfl⟩
      · exact .closed hcloses
      · exact .raised harrives hraises
  · -- it has stopped while it was sending
    obtain ⟨ret, hret, rfl⟩ := process_send_stops hleave
    obtain ⟨exchange, hexchange, hpart, hcalled, htrue⟩ := finish_spec hs hret
    rw [hexchange, Loop.lefts_append]
    exact .sent (howed.append _) hpart hcalled htrue

variable (outcomes) in
/-- What a connection sends, at every point of any run and at its end: one text,
that of the message that has arrived or of the failure of `recv`, in order and from
its beginning.  It owes no other text, and has called one handler at most for it.
At the end it has returned true exactly when a message was answered and the whole
answer taken; without a text it ends when the peer closes, or with the request that
ends the process. -/
theorem process_sends_owed (hbound : bufsize ≤ 2 ^ 31 - 1 - kReceptionBufLimit)
    (hreads : ∀ c, Sum.inl (.data c) ∈ outcomes → 0 < c.length ∧ c.length ≤ bufsize)
    (hwrites : ∀ sslWrite, Sum.inr sslWrite ∈ outcomes → TakesOffered sslWrite) :
    (∀ before after state, outcomes = before ++ after →
      (processLoop json invoke manager draws bufsize).goes unread before =
        some state →
      (∃ s, state = .inl s) ∨
        ∃ reply s, state = .inr (reply, s) ∧ s.accepted <+: reply.text ∧
          Owed json invoke manager draws bufsize (Loop.lefts before) reply) ∧
    (∀ out, process json invoke manager draws bufsize outcomes = some out →
      Ends json invoke manager draws bufsize (Loop.lefts outcomes) out) ∧
    ∀ reply, Owed json invoke manager draws bufsize (Loop.lefts outcomes) reply →
      reply.called.length ≤ 1 ∧
      ∀ reply',
        Owed json invoke manager draws bufsize (Loop.lefts outcomes) reply' →
        reply' = reply := by
  refine ⟨?_, fun out hstops => process_ends hbound hreads hwrites hstops, ?_⟩
  · intro before after state hsplit hgoes
    rw [hsplit] at hreads hwrites
    rcases process_goes_cases hbound
        (fun c hc => hreads c (List.mem_append_left _ hc))
        (fun w hw => hwrites w (List.mem_append_left _ hw)) hgoes with
      ⟨s, rfl, _⟩ | ⟨reply, s, rfl, howed, hs⟩
    · exact Or.inl ⟨s, rfl⟩
    · exact Or.inr ⟨reply, s, rfl, hs.isPrefix, howed⟩
  · intro reply howed
    refine ⟨howed.called_le, fun reply' howed' => ?_⟩
    exact howed'.unique hbound (fun c hc => hreads c (Loop.mem_lefts.mp hc)) howed

/-- A call of `SSL_write` that takes one octet. -/
def takesOne (n : Int) : TlsWrite :=
  if 1 ≤ n then .accepted 1 else .failed

/-- A call of `SSL_write` that takes all it is offered. -/
def takesRest (n : Int) : TlsWrite :=
  if 1 ≤ n then .accepted n.toNat else .failed

theorem takesOne_offered : TakesOffered takesOne := by
  intro n numbytes hwrite
  unfold takesOne at hwrite
  split at hwrite
  · cases hwrite
    omega
  · cases hwrite

theorem takesRest_offered : TakesOffered takesRest := by
  intro n numbytes hwrite
  unfold takesRest at hwrite
  split at hwrite
  · cases hwrite
    omega
  · cases hwrite

/-- A request has arrived, and one octet of the answer is taken. -/
def begun : List (TlsRead ⊕ (Int → TlsWrite)) :=
  [.inl (.data plainRequest), .inr takesOne]

/-- The call after that has to be made again, and then takes the rest. -/
def finished : List (TlsRead ⊕ (Int → TlsWrite)) :=
  begun ++ [.inr fun _ => .wantWrite, .inr takesRest]

theorem finished_reads : ∀ c, Sum.inl (.data c) ∈ finished → 0 < c.length ∧
    c.length ≤ 1024 := by
  intro c hc
  have hdata : c = plainRequest := by simpa [finished, begun] using hc
  rw [hdata]
  decide +kernel

theorem finished_writes : ∀ sslWrite, Sum.inr sslWrite ∈ finished →
    TakesOffered sslWrite := by
  intro sslWrite hmem
  have hcases : sslWrite = takesOne ∨ sslWrite = (fun _ => .wantWrite) ∨
      sslWrite = takesRest := by
    simpa [finished, begun] using hmem
  rcases hcases with rfl | rfl | rfl
  · exact takesOne_offered
  · intro n numbytes hwrite
    cases hwrite
  · exact takesRest_offered

/-- What is taken first begins the answer of the handler, and when `process` returns
true the whole answer was taken. -/
theorem process_sends_owed_plainRequest :
    ∃ reply s exchange,
      (processLoop readsNothing acknowledge (RouterManager.runAll twoRegistrations)
        someDraws 1024).goes unread begun = some (.inr (reply, s)) ∧
      s.accepted.length = 1 ∧ s.accepted <+: reply.text ∧
      Owed readsNothing acknowledge (RouterManager.runAll twoRegistrations)
        someDraws 1024 [.data plainRequest] reply ∧
      process readsNothing acknowledge (RouterManager.runAll twoRegistrations)
        someDraws 1024 finished = some (.ok exchange) ∧
      exchange.ret = true ∧ exchange.accepted = reply.text ∧
      exchange.called.length = 1 := by
  obtain ⟨hpoints, hends, honly⟩ := @process_sends_owed Nat readsNothing acknowledge
    (RouterManager.runAll twoRegistrations) someDraws 1024 finished (by decide)
    finished_reads finished_writes
  have hbegun :
      ((processLoop readsNothing acknowledge (RouterManager.runAll twoRegistrations)
        someDraws 1024).goes unread begun).bind
        (fun state => state.getRight?.map fun r => r.2.accepted.length) =
      some 1 := by
    decide +kernel
  have hfinished :
      (process readsNothing acknowledge (RouterManager.runAll twoRegistrations)
        someDraws 1024 finished).bind
        (fun out => out.toOption.map fun e => (e.ret, e.called.length)) =
      some (true, 1) := by
    decide +kernel
  obtain ⟨state, hgoes, hright⟩ := Option.bind_eq_some_iff.mp hbegun
  obtain ⟨out, hprocess, hout⟩ := Option.bind_eq_some_iff.mp hfinished
  rcases state with waiting | ⟨reply, s⟩
  · cases hright
  have hone : s.accepted.length = 1 := Option.some_inj.mp hright
  rcases out with e | exchange
  · cases hout
  obtain ⟨hret, hcalled⟩ := Prod.mk.inj (Option.some_inj.mp hout)
  rcases hpoints begun _ _ rfl hgoes with ⟨_, hreading⟩ | ⟨reply', s', hsending,
    hpart, howed⟩
  · cases hreading
  · cases hsending
    refine ⟨reply, s, exchange, hgoes, hone, hpart, howed, hprocess, hret, ?_,
      hcalled⟩
    generalize hended : Except.ok exchange = ended at hprocess
    cases hends _ hprocess with
    | closed hcloses =>
      cases hended
      cases hret
    | raised harrives hraises => cases hended
    | sent howed' hpart' hcalled' htrue =>
      cases hended
      rw [(htrue.mp hret).2, (honly reply howed).2 _ howed']

end Runs

/-! ## A connection in order -/

/-- The response to a message is delivered whole. -/
theorem process_delivers {reads : List TlsRead} {req text : Bytes}
    {called : List (H × Request)} (harrives : MessageArrives bufsize reads req)
    (hexecution : execution json invoke manager draws req = (.ok text, called))
    (t : SslTransport) (hlen : text.length < 2 ^ 31) :
    ∃ n, process json invoke manager draws bufsize
        (reads.map .inl ++ (t.writes n).map .inr) =
      some (.ok { ret := true, accepted := text, called := called }) := by
  obtain ⟨n, hsend⟩ := delivers_of_lt t hlen
  refine ⟨n, ?_⟩
  have hrecv : (Loop.forever (recvTurn json draws bufsize)).run
      { resbytes := 0, req := [] } reads = some (complete req) :=
    recv_of_message json draws harrives
  have hleave : afterRecv json invoke manager draws (complete req) =
      .next { text := text, answers := true, called := called } := by
    rw [afterRecv_complete, hexecution]
  rw [process, processLoop, unread, Loop.run_andThen, hrecv]
  simp only [hleave]
  rw [Loop.run_mapResult]
  have hrun : (sendLoop text).run HttpConnection.unsent (t.writes n) =
    some { ret := true, accepted := text } := hsend
  rw [hrun]
  rfl

end HttpsConnection

end UniServer.Http
