/-
  Http/Interrupts.lean --- calls of `::recv` and `::send` that a signal interrupts.

  `send` makes an interrupted call again.  `recv` takes any -1 for the end of the
  connection, so that an interrupt in the middle of a request answers it with an
  error.  Nothing is lost when the loop has ended before, or would have ended in a
  failed call all the same.
-/
import UniServer.Http.ReceiveExact
import UniServer.Http.Send

set_option autoImplicit false

namespace UniServer.Http

open UniServer.Foundation UniServer.Common

/-- The value of `EINTR`. -/
def eintr : Nat := 4

namespace HttpConnection

/-- Full chunks, below the limit in sum: `recv` still reads behind them. -/
def GoesOn (bufsize : Nat) (before : List SocketRead) : Prop :=
  ∃ fulls : List Bytes, before = fulls.map .data ∧
    (∀ c ∈ fulls, bufsize ≤ c.length) ∧ fulls.flatten.length < kReceptionBufLimit

/-- `recv` comes to a call that fails with this `errno`. -/
def ComesTo (bufsize : Nat) (errno : Nat) (reads : List SocketRead) : Prop :=
  ∃ before after, reads = before ++ .failed errno :: after ∧ GoesOn bufsize before

/-! ## The ends of `recv` -/

/-- The errors at the limit and of a failed call are not the same. -/
theorem refuse_limit_ne (json : Nlohmann) (draws : Draws) :
    refuse json draws .requestBufferOverflow ≠
      refuse json draws .internalError := by
  obtain ⟨text, htext, hlimit⟩ := refuse_eq json draws .requestBufferOverflow
  obtain ⟨text', htext', hfailed⟩ := refuse_eq json draws .internalError
  rw [hlimit, hfailed]
  intro hsame
  cases hsame
  have hstatus : (RetCode.requestBufferOverflow.toHttpStatus).code.toNat =
      (RetCode.internalError.toHttpStatus).code.toNat :=
    serialize_status htext htext'
  exact absurd hstatus (by decide)

section

variable (json : Nlohmann) (draws : Draws) {bufsize : Nat} (beyond : Bytes)

/-- A chunk that reaches the limit ends the loop, but not as a failed call does. -/
theorem recvTurn_limit {total : Nat} {chunk : Bytes}
    (hlimit : kReceptionBufLimit ≤ total + chunk.length) (s : Bytes × Bytes) :
    ∃ r, recvTurn json draws bufsize beyond (received total s) (.data chunk) =
        .stop r ∧
      r ≠ refuse json draws .internalError := by
  simp only [recvTurn, received]
  cases hadd : addInt (total : Int) (chunk.length : Int) with
  | error e =>
    obtain ⟨text, _, hfailed⟩ := refuse_eq json draws .internalError
    refine ⟨_, rfl, ?_⟩
    rw [hfailed]
    intro hsame
    cases hsame
  | ok resbytes =>
    have hsum : resbytes = (total : Int) + chunk.length := intResult_eq_ok hadd
    have hover : resbytes ≥ (kReceptionBufLimit : Int) := by omega
    simp only [if_pos hover]
    exact ⟨_, rfl, refuse_limit_ne json draws⟩

/-- The loop goes on behind a chunk exactly when it is full, below the limit. -/
theorem recvTurn_data_next {total : Nat} {chunk : Bytes} {s : Bytes × Bytes}
    {t : SocketState}
    (h : recvTurn json draws bufsize beyond (received total s) (.data chunk) =
      .next t) :
    bufsize ≤ chunk.length ∧ total + chunk.length < kReceptionBufLimit ∧
      ∃ s', t = received (total + chunk.length) s' := by
  rcases Nat.lt_or_ge (total + chunk.length) kReceptionBufLimit with hbelow | hlimit
  · rw [recvTurn_data json draws beyond hbelow] at h
    split at h
    · cases h
    · rename_i hfull
      cases h
      exact ⟨Nat.not_lt.mp hfull, hbelow, _, rfl⟩
  · obtain ⟨r, hstop, _⟩ := recvTurn_limit json draws beyond hlimit s
    rw [hstop] at h
    cases h

/-- Only a failed call makes the loop answer with an internal error. -/
theorem recvTurn_failed {total : Nat} {s : Bytes × Bytes} {read : SocketRead}
    (h : recvTurn json draws bufsize beyond (received total s) read =
      .stop (refuse json draws .internalError)) :
    ∃ errno, read = .failed errno := by
  obtain ⟨text, _, hfailed⟩ := refuse_eq json draws .internalError
  cases read with
  | failed errno => exact ⟨errno, rfl⟩
  | closed =>
    rw [hfailed] at h
    cases h
  | data chunk =>
    rcases Nat.lt_or_ge (total + chunk.length)
      kReceptionBufLimit with hbelow | hlimit
    · rw [recvTurn_data json draws beyond hbelow, hfailed] at h
      split at h
      · cases h
      · cases h
    · obtain ⟨r, hstop, hr⟩ := recvTurn_limit json draws beyond hlimit s
      rw [hstop] at h
      exact absurd (Turn.stop.inj h) hr

/-! ## Where the loop still reads -/

theorem goes_fulls {fulls : List Bytes} (hfull : ∀ c ∈ fulls, bufsize ≤ c.length)
    {total : Nat} (hlimit : total + fulls.flatten.length < kReceptionBufLimit)
    (s : Bytes × Bytes) :
    ∃ t, (recvLoop json draws bufsize beyond).goes (received total s)
      (fulls.map .data) = some t := by
  induction fulls generalizing total s with
  | nil => exact ⟨_, rfl⟩
  | cons c fulls ih =>
    rw [List.flatten_cons, List.length_append, ← Nat.add_assoc] at hlimit
    have hturn :
        (recvLoop json draws bufsize beyond).turn (received total s) (.data c) =
        .next (received (total + c.length) (appendChunk beyond s c)) :=
      (recvTurn_data json draws beyond (by omega) s).trans
        (if_neg (Nat.not_lt.mpr (hfull c List.mem_cons_self)))
    rw [List.map_cons, Loop.goes_next rfl hturn]
    exact ih (fun d hd => hfull d (List.mem_cons_of_mem c hd)) hlimit _

theorem fulls_of_goes {before : List SocketRead} {total : Nat}
    (hlimit : total < kReceptionBufLimit) {s : Bytes × Bytes} {t : SocketState}
    (hgoes : (recvLoop json draws bufsize beyond).goes (received total s) before =
      some t) :
    ∃ fulls : List Bytes, before = fulls.map .data ∧
      (∀ c ∈ fulls, bufsize ≤ c.length) ∧
      total + fulls.flatten.length < kReceptionBufLimit ∧
      ∃ s', t = received (total + fulls.flatten.length) s' := by
  induction before generalizing total s with
  | nil =>
    rw [Loop.goes_nil, Option.some_inj] at hgoes
    exact ⟨[], rfl, by simp, hlimit, s, hgoes.symm⟩
  | cons read before ih =>
    obtain ⟨_, t', hturn, hrest⟩ := Loop.goes_cons_eq_some hgoes
    change recvTurn json draws bufsize beyond (received total s) read =
      .next t' at hturn
    cases read with
    | failed errno => cases hturn
    | closed => cases hturn
    | data chunk =>
      obtain ⟨hfull, hbelow, s', rfl⟩ :=
        recvTurn_data_next json draws beyond hturn
      obtain ⟨fulls, rfl, hfulls, htotal, hend⟩ := ih hbelow hrest
      rw [Nat.add_assoc] at htotal hend
      refine ⟨chunk :: fulls, rfl, List.forall_mem_cons.mpr ⟨hfull, hfulls⟩, ?_, ?_⟩
      · rw [List.flatten_cons, List.length_append]
        exact htotal
      · rw [List.flatten_cons, List.length_append]
        exact hend

/-- `recv` answers with an internal error exactly when it comes to a failed call. -/
theorem recv_failed_iff (buf : Bytes) (reads : List SocketRead) :
    recv json draws bufsize buf beyond reads =
        some (refuse json draws .internalError) ↔
      ∃ errno, ComesTo bufsize errno reads := by
  constructor
  · intro hrefused
    obtain ⟨before, after, t, hsplit, hgoes, hleave⟩ :=
      Loop.run_eq_some_iff.mp hrefused
    obtain ⟨fulls, hbefore, hfull, hlimit, s', rfl⟩ :=
      @fulls_of_goes json draws bufsize beyond before 0
        (by decide) ([], buf) t hgoes
    rcases hleave with hexit | ⟨_, read, rest, rfl, hturn⟩
    · cases hexit
    · obtain ⟨errno, rfl⟩ := recvTurn_failed json draws beyond hturn
      rw [Nat.zero_add] at hlimit
      exact ⟨errno, before, rest, hsplit, fulls, hbefore, hfull, hlimit⟩
  · intro hcomes
    obtain ⟨errno, before, after, rfl, fulls, rfl, hfull, hlimit⟩ := hcomes
    obtain ⟨t, hgoes⟩ := @goes_fulls json draws bufsize beyond fulls hfull 0
      (by rw [Nat.zero_add]; exact hlimit) ([], buf)
    exact (Loop.run_of_goes hgoes _).trans (Loop.run_stop rfl rfl after)

/-! ## Interrupts -/

/-- `recv` sees an interrupt exactly when it comes to one on a connection that would
not have failed. -/
theorem recv_inserted_iff (buf : Bytes) {reads reads' : List SocketRead}
    (h : Loop.Inserted (.failed eintr) reads reads') :
    recv json draws bufsize buf beyond reads' =
        recv json draws bufsize buf beyond reads ↔
      (ComesTo bufsize eintr reads' → ∃ errno, ComesTo bufsize errno reads) := by
  constructor
  · intro hsame hcomes
    rw [← recv_failed_iff json draws beyond buf, ← hsame, recv_failed_iff]
    exact ⟨eintr, hcomes⟩
  · intro hfails
    rcases Loop.run_inserted_cases (recvLoop json draws bufsize beyond) h
      (received 0 ([], buf)) with hsame | ⟨before, after, t, hsplit, hgoes, _⟩
    · exact hsame
    · obtain ⟨fulls, hbefore, hfull, hlimit, _⟩ :=
        fulls_of_goes json draws beyond (by decide) hgoes
      rw [Nat.zero_add] at hlimit
      have hcomes : ComesTo bufsize eintr reads' :=
        ⟨before, after, hsplit, fulls, hbefore, hfull, hlimit⟩
      rw [(recv_failed_iff json draws beyond buf reads').mpr ⟨eintr, hcomes⟩,
        (recv_failed_iff json draws beyond buf reads).mpr (hfails hcomes)]

end

/-- `send` is idle on an interrupt. -/
theorem sendTurn_eintr (resp : Bytes) (s : SendState) :
    (sendLoop resp).turn s (.failed .eintr) = .next s :=
  rfl

/-- With interrupts put in, both functions do what they do without: `recv` returns,
stores and answers the same; `send` returns and delivers the same, and has delivered
the same when it is still waiting. -/
structure Unnoticed (json : Nlohmann) (draws : Draws) (bufsize : Nat)
    (buf beyond resp : Bytes) (reads reads' : List SocketRead)
    (writes writes' : List SocketWrite) : Prop where
  received : recv json draws bufsize buf beyond reads' =
    recv json draws bufsize buf beyond reads
  sent : send resp writes' = send resp writes
  waits : send resp writes = none →
    (sendLoop resp).goes unsent writes' = (sendLoop resp).goes unsent writes

/-- Interrupts go unnoticed if and only if `recv` does not come to one, or would
have come to a failed call without. -/
theorem unnoticed_iff (json : Nlohmann) (draws : Draws) (bufsize : Nat)
    (buf beyond resp : Bytes) {reads reads' : List SocketRead}
    {writes writes' : List SocketWrite}
    (hreads : Loop.Inserted (.failed eintr) reads reads')
    (hwrites : Loop.Inserted (.failed .eintr) writes writes') :
    Unnoticed json draws bufsize buf beyond resp reads reads' writes writes' ↔
      (ComesTo bufsize eintr reads' → ∃ errno, ComesTo bufsize errno reads) := by
  rw [← recv_inserted_iff json draws beyond buf hreads]
  refine ⟨Unnoticed.received, fun hrecv => ⟨hrecv, ?_, ?_⟩⟩
  · exact Loop.run_inserted (sendTurn_eintr resp) hwrites unsent
  · exact Loop.goes_inserted (sendTurn_eintr resp) hwrites

/-- An interrupt behind the message, and one before each call of `send`. -/
theorem unnoticed_iff_behind :
    Unnoticed readsNothing someDraws 4 [0, 0, 0, 0] [] (ascii "ab")
      [.data (ascii "ab")] [.data (ascii "ab"), .failed eintr]
      [.accepted 1, .accepted 1]
      [.failed .eintr, .accepted 1, .failed .eintr, .accepted 1] := by
  refine (unnoticed_iff readsNothing someDraws 4 [0, 0, 0, 0] [] (ascii "ab")
    (.keep _ (.insert .nil))
    (.insert (.keep _ (.insert (.keep _ .nil))))).mpr ?_
  intro hcomes
  obtain ⟨before, after, hsplit, fulls, rfl, hfull, _⟩ := hcomes
  cases fulls with
  | nil => cases (List.cons.inj hsplit).1
  | cons c fulls =>
    have hc : SocketRead.data (ascii "ab") = .data c := (List.cons.inj hsplit).1
    cases hc
    have hlong : 4 ≤ (ascii "ab").length := hfull (ascii "ab") List.mem_cons_self
    exact absurd hlong (by decide)

/-- An interrupt before a request that comes in one chunk: without it the request is
stored, with it an error is sent. -/
theorem interrupted_request_lost :
    Loop.Inserted (SocketRead.failed eintr) [.data (ascii "ab")]
        [.failed eintr, .data (ascii "ab")] ∧
      recv readsNothing someDraws 4 [0, 0, 0, 0] [] [.data (ascii "ab")] =
        some (complete (ascii "ab")) ∧
      recv readsNothing someDraws 4 [0, 0, 0, 0] []
          [.failed eintr, .data (ascii "ab")] =
        some (refuse readsNothing someDraws .internalError) ∧
      refuse readsNothing someDraws .internalError ≠ complete (ascii "ab") := by
  refine ⟨.insert (.keep _ .nil), ?_, ?_, ?_⟩
  · have hlimit : 0 + (ascii "ab").length < kReceptionBufLimit := by decide
    have hshort : (ascii "ab").length < 4 := by decide
    exact Loop.run_stop rfl
      ((recvTurn_data readsNothing someDraws [] hlimit ([], [0, 0, 0, 0])).trans
        (if_pos hshort)) []
  · exact Loop.run_stop rfl rfl _
  · exact refuse_ne_complete readsNothing someDraws .internalError (ascii "ab")

end HttpConnection

end UniServer.Http
