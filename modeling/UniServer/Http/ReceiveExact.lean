/-
  Http/ReceiveExact.lean --- exactly what `HttpsConnection::recv` computes.

  Retries apart, the loop reads full chunks until something else comes: a chunk at
  which the limit is reached, a short chunk, the close, or an error.  Each of the
  four has its own end, and on a run that stops one of them has come.
-/
import UniServer.Http.ReceiveRuns

set_option autoImplicit false

namespace UniServer.Http

open UniServer.Foundation UniServer.Common

/-- The responses of the server itself are always written. -/
theorem refuse_eq (json : Nlohmann) (draws : Draws) (code : RetCode) :
    ∃ text, serialize json (makeResp code draws.responseId draws.now) = .ok text ∧
      refuse json draws code =
        .ok { ret := false, stored := none, sent := [text] } := by
  obtain ⟨text, htext⟩ :=
    (serialize_ok_iff json (makeResp code draws.responseId draws.now)).mpr
      (makeResp_dumpable code draws.responseId draws.now rfl)
  refine ⟨text, htext, ?_⟩
  rw [refuse, htext]
  rfl

namespace HttpsConnection

/-! ## The four causes -/

/-- The reads, retries apart, begin with these full chunks, which stay below the
limit, and then this one comes. -/
structure Reaches (bufsize : Nat) (reads : List TlsRead) (fulls : List Bytes)
    (read : TlsRead) : Prop where
  order : ∃ rest,
    reads.filter (fun read => !isRetry read) = fulls.map .data ++ read :: rest
  full : ∀ c ∈ fulls, c.length = bufsize
  below : fulls.flatten.length < kReceptionBufLimit

/-- A short chunk comes before any close or error, and the total stays below the
limit up to it. -/
def MessageArrives (bufsize : Nat) (reads : List TlsRead) (req : Bytes) : Prop :=
  ∃ fulls short, Reaches bufsize reads fulls (.data short) ∧
    short.length < bufsize ∧ (fulls.flatten ++ short).length < kReceptionBufLimit ∧
    req = fulls.flatten ++ short

/-- A chunk comes with which the total reaches the limit. -/
def LimitReached (bufsize : Nat) (reads : List TlsRead) : Prop :=
  ∃ fulls chunk, Reaches bufsize reads fulls (.data chunk) ∧
    kReceptionBufLimit ≤ (fulls.flatten ++ chunk).length

/-- The close comes first. -/
def PeerCloses (bufsize : Nat) (reads : List TlsRead) : Prop :=
  ∃ fulls, Reaches bufsize reads fulls .zeroReturn

/-- An error comes first. -/
def ReadFails (bufsize : Nat) (reads : List TlsRead) : Prop :=
  ∃ fulls, Reaches bufsize reads fulls .failed

variable (json : Nlohmann) (draws : Draws) {bufsize : Nat}

/-! ## One turn -/

/-- A buffer of any size below `INT_MAX` less the limit leaves room for one more
chunk in an `int`. -/
theorem recvTurn_over (hbound : bufsize ≤ 2 ^ 31 - 1 - kReceptionBufLimit)
    {req chunk : Bytes} (hreq : req.length < kReceptionBufLimit)
    (hchunk : chunk.length ≤ bufsize)
    (hlimit : kReceptionBufLimit ≤ (req ++ chunk).length) :
    recvTurn json draws bufsize (received req) (.data chunk) =
      .stop (refuse json draws .requestBufferOverflow) := by
  have hint : kReceptionBufLimit < 2 ^ 31 := by decide
  have hlen : req.length + chunk.length = (req ++ chunk).length :=
    List.length_append.symm
  have hadd : addInt (req.length : Int) (chunk.length : Int) =
      .ok (((req ++ chunk).length : Nat) : Int) := by
    rw [addInt_natCast _ _ (by omega), hlen]
  have hover :
      (((req ++ chunk).length : Nat) : Int) ≥ (kReceptionBufLimit : Int) := by
    omega
  simp only [recvTurn, received, hadd, if_pos hover]

/-! ## A whole run -/

variable {reads : List TlsRead}

/-- Where a run comes to a read that stops the loop, it stops. -/
theorem recv_of_reaches {fulls : List Bytes} {read : TlsRead}
    {out : Run Received} (hreaches : Reaches bufsize reads fulls read)
    (hturn : recvTurn json draws bufsize (received fulls.flatten) read =
      .stop out) :
    recv json draws bufsize reads = some out := by
  obtain ⟨rest, horder⟩ := hreaches.order
  have hfulls := run_fulls json draws hreaches.full [] hreaches.below (read :: rest)
  rw [List.nil_append] at hfulls
  rw [recv_filter, horder]
  exact hfulls.trans (Loop.run_stop rfl hturn rest)

theorem recv_of_message {req : Bytes} (h : MessageArrives bufsize reads req) :
    recv json draws bufsize reads = some (complete req) := by
  obtain ⟨fulls, short, hreaches, hshort, hlimit, rfl⟩ := h
  exact recv_of_reaches json draws hreaches
    ((recvTurn_data json draws hlimit).trans (if_pos hshort))

theorem recv_of_limit (hbound : bufsize ≤ 2 ^ 31 - 1 - kReceptionBufLimit)
    (hchunks : ∀ c, TlsRead.data c ∈ reads → 0 < c.length ∧ c.length ≤ bufsize)
    (h : LimitReached bufsize reads) :
    recv json draws bufsize reads =
      some (refuse json draws .requestBufferOverflow) := by
  obtain ⟨fulls, chunk, hreaches, hlimit⟩ := h
  obtain ⟨rest, horder⟩ := hreaches.order
  have hmem : TlsRead.data chunk ∈ reads := by
    refine (List.mem_filter (p := fun read => !isRetry read)).mp ?_ |>.1
    rw [horder]
    exact List.mem_append_right _ List.mem_cons_self
  exact recv_of_reaches json draws hreaches
    (recvTurn_over json draws hbound hreaches.below (hchunks chunk hmem).2 hlimit)

theorem recv_of_closes (h : PeerCloses bufsize reads) :
    recv json draws bufsize reads = some disconnected := by
  obtain ⟨fulls, hreaches⟩ := h
  exact recv_of_reaches json draws hreaches rfl

theorem recv_of_fails (h : ReadFails bufsize reads) :
    recv json draws bufsize reads = some (refuse json draws .internalError) := by
  obtain ⟨fulls, hreaches⟩ := h
  exact recv_of_reaches json draws hreaches rfl

/-- A run that has stopped has stopped for one of the four causes. -/
theorem cause_of_stop
    (hchunks : ∀ c, TlsRead.data c ∈ reads → 0 < c.length ∧ c.length ≤ bufsize)
    {out : Run Received} (hstops : recv json draws bufsize reads = some out) :
    (∃ req, MessageArrives bufsize reads req) ∨ LimitReached bufsize reads ∨
      PeerCloses bufsize reads ∨ ReadFails bufsize reads := by
  rw [recv_filter] at hstops
  have hused : ∀ read ∈ reads.filter fun read => !isRetry read,
      read ∈ reads ∧ isRetry read = false := by
    intro read hread
    obtain ⟨hmem, hbusy⟩ := List.mem_filter.mp hread
    exact ⟨hmem, by simpa using hbusy⟩
  obtain ⟨fulls, read, rest, hsplit, hfull, hbelow, hturn⟩ :=
    stop_behind_fulls json draws (fun read hread => (hused read hread).2)
      (fun c hc => (hchunks c (hused _ hc).1).2) hstops
  have hreaches : Reaches bufsize reads fulls read :=
    ⟨⟨rest, hsplit⟩, hfull, hbelow⟩
  cases read with
  | wantRead => cases hturn
  | wantWrite => cases hturn
  | zeroReturn => exact Or.inr (Or.inr (Or.inl ⟨fulls, hreaches⟩))
  | failed => exact Or.inr (Or.inr (Or.inr ⟨fulls, hreaches⟩))
  | data chunk =>
    rcases recvTurn_data_stop json draws hturn with
      ⟨hlimit, _⟩ | ⟨htotal, hshort, _⟩
    · exact Or.inr (Or.inl ⟨fulls, chunk, hreaches, hlimit⟩)
    · exact Or.inl ⟨_, fulls, chunk, hreaches, hshort, htotal, rfl⟩

/-- At every chunk of a run the new total is an `int`. -/
theorem total_in_range (hbound : bufsize ≤ 2 ^ 31 - 1 - kReceptionBufLimit)
    (hchunks : ∀ c, TlsRead.data c ∈ reads → 0 < c.length ∧ c.length ≤ bufsize)
    {before after : List TlsRead} {chunk : Bytes} {s : TlsState}
    (hsplit : reads = before ++ .data chunk :: after)
    (hgoes : (recvLoop json draws bufsize).goes { resbytes := 0, req := [] }
      before = some s) :
    0 ≤ s.resbytes ∧ s.resbytes + chunk.length < 2 ^ 31 := by
  have hok : (recvLoop json draws bufsize).Permitted
      (fun _ read => ∀ c, read = .data c → c.length ≤ bufsize)
      { resbytes := 0, req := [] } (before ++ .data chunk :: after) := by
    intro before' read after' t hsplit' _ _ c hread
    refine (hchunks c ?_).2
    rw [hsplit, hsplit', hread]
    exact List.mem_append_right _ List.mem_cons_self
  have hstate : ∃ req, s = received req ∧ req.length < kReceptionBufLimit := by
    refine Loop.goes_invariant
      (fun s => ∃ req, s = received req ∧ req.length < kReceptionBufLimit)
      ?_ hok ⟨[], rfl, by decide⟩ hgoes
    rintro _ read s' ⟨req, rfl, hreq⟩ _ hlength hturn
    change recvTurn json draws bufsize (received req) read = .next s' at hturn
    cases read with
    | wantRead =>
      cases hturn
      exact ⟨req, rfl, hreq⟩
    | wantWrite =>
      cases hturn
      exact ⟨req, rfl, hreq⟩
    | zeroReturn => cases hturn
    | failed => cases hturn
    | data c =>
      obtain ⟨_, hbelow, rfl⟩ := recvTurn_data_next json draws (hlength c rfl) hturn
      exact ⟨req ++ c, rfl, hbelow⟩
  obtain ⟨req, rfl, hreq⟩ := hstate
  have hchunk := (hchunks chunk (by simp [hsplit])).2
  have hint : kReceptionBufLimit < 2 ^ 31 := by decide
  simp only [received]
  omega

/-- What `recv` computes, whenever its loop stops.  It returns true exactly when a
message arrives, and stores that message; otherwise it stores nothing, and has sent
413 at the limit, 500 on an error, and nothing on a close.  The running total never
leaves the range of `int`. -/
theorem recv_exact (hbound : bufsize ≤ 2 ^ 31 - 1 - 8192)
    (hchunks : ∀ c, TlsRead.data c ∈ reads → 0 < c.length ∧ c.length ≤ bufsize)
    {out : Run Received} (hstops : recv json draws bufsize reads = some out) :
    ∃ result, out = .ok result ∧
      (result.ret = true ↔ ∃ req, MessageArrives bufsize reads req) ∧
      (∀ req, MessageArrives bufsize reads req →
        result = { ret := true, stored := some req, sent := [] }) ∧
      (result.ret = false ↔ LimitReached bufsize reads ∨ ReadFails bufsize reads ∨
        PeerCloses bufsize reads) ∧
      (LimitReached bufsize reads → ∃ text,
        serialize json
          (makeResp .requestBufferOverflow draws.responseId draws.now) = .ok text ∧
        RetCode.requestBufferOverflow.toHttpStatus.code.toNat = 413 ∧
        result = { ret := false, stored := none, sent := [text] }) ∧
      (ReadFails bufsize reads → ∃ text,
        serialize json (makeResp .internalError draws.responseId draws.now) =
          .ok text ∧
        RetCode.internalError.toHttpStatus.code.toNat = 500 ∧
        result = { ret := false, stored := none, sent := [text] }) ∧
      (PeerCloses bufsize reads →
        result = { ret := false, stored := none, sent := [] }) ∧
      (∀ before chunk after s, reads = before ++ .data chunk :: after →
        (recvLoop json draws bufsize).goes { resbytes := 0, req := [] } before =
          some s →
        0 ≤ s.resbytes ∧ s.resbytes + chunk.length < 2 ^ 31) := by
  have hbound' : bufsize ≤ 2 ^ 31 - 1 - kReceptionBufLimit := hbound
  obtain ⟨text413, htext413, hrefuse413⟩ :=
    refuse_eq json draws .requestBufferOverflow
  obtain ⟨text500, htext500, hrefuse500⟩ := refuse_eq json draws .internalError
  have hmessage : ∀ req, MessageArrives bufsize reads req →
      out = .ok { ret := true, stored := some req, sent := [] } := by
    intro req h
    exact Option.some_inj.mp (hstops.symm.trans (recv_of_message json draws h))
  have hlimit : LimitReached bufsize reads →
      out = .ok { ret := false, stored := none, sent := [text413] } := by
    intro h
    rw [← hrefuse413]
    exact Option.some_inj.mp
      (hstops.symm.trans (recv_of_limit json draws hbound' hchunks h))
  have hfails : ReadFails bufsize reads →
      out = .ok { ret := false, stored := none, sent := [text500] } := by
    intro h
    rw [← hrefuse500]
    exact Option.some_inj.mp (hstops.symm.trans (recv_of_fails json draws h))
  have hcloses : PeerCloses bufsize reads →
      out = .ok { ret := false, stored := none, sent := [] } := by
    intro h
    exact Option.some_inj.mp (hstops.symm.trans (recv_of_closes json draws h))
  have hcause := cause_of_stop json draws hchunks hstops
  have hreturns : ∃ result, out = .ok result := by
    rcases hcause with ⟨req, h⟩ | h | h | h
    · exact ⟨_, hmessage req h⟩
    · exact ⟨_, hlimit h⟩
    · exact ⟨_, hcloses h⟩
    · exact ⟨_, hfails h⟩
  obtain ⟨result, rfl⟩ := hreturns
  simp only [Except.ok.injEq] at hmessage hlimit hfails hcloses
  refine ⟨result, rfl, ⟨?_, ?_⟩, hmessage, ⟨?_, ?_⟩, ?_, ?_, hcloses, ?_⟩
  · intro hret
    rcases hcause with h | h | h | h
    · exact h
    · rw [hlimit h] at hret
      cases hret
    · rw [hcloses h] at hret
      cases hret
    · rw [hfails h] at hret
      cases hret
  · rintro ⟨req, h⟩
    rw [hmessage req h]
  · intro hret
    rcases hcause with ⟨req, h⟩ | h | h | h
    · rw [hmessage req h] at hret
      cases hret
    · exact Or.inl h
    · exact Or.inr (Or.inr h)
    · exact Or.inr (Or.inl h)
  · rintro (h | h | h)
    · rw [hlimit h]
    · rw [hfails h]
    · rw [hcloses h]
  · exact fun h => ⟨text413, htext413, rfl, hlimit h⟩
  · exact fun h => ⟨text500, htext500, rfl, hfails h⟩
  · intro before chunk after s hsplit hgoes
    exact total_in_range json draws hbound' hchunks hsplit hgoes

/-- A full chunk, a retry and a short chunk. -/
theorem recv_exact_retry :
    ∃ result,
      recv readsNothing someDraws 2
          [.data (ascii "ab"), .wantRead, .data (ascii "c")] = some (.ok result) ∧
      (result.ret = true ↔ ∃ req,
        MessageArrives 2 [.data (ascii "ab"), .wantRead, .data (ascii "c")]
          req) := by
  have hchunks : ∀ c,
      TlsRead.data c ∈ [.data (ascii "ab"), .wantRead, .data (ascii "c")] →
      0 < c.length ∧ c.length ≤ 2 := by
    intro c hc
    simp only [List.mem_cons, TlsRead.data.injEq, reduceCtorEq, List.not_mem_nil,
      false_or, or_false] at hc
    rcases hc with rfl | rfl
    · decide
    · decide
  have hstops : recv readsNothing someDraws 2
      [.data (ascii "ab"), .wantRead, .data (ascii "c")] =
        some (complete (ascii "abc")) := rfl
  obtain ⟨result, hresult, hret, _⟩ :=
    recv_exact readsNothing someDraws (by decide) hchunks hstops
  exact ⟨result, hstops.trans (congrArg some hresult), hret⟩

end HttpsConnection

end UniServer.Http
