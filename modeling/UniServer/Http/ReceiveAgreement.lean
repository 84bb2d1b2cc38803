/-
  Http/ReceiveAgreement.lean --- when the plain and the TLS receive path agree.

  On the outcomes that both know the two loops go on and stop together, and come
  to the same end but for the text they store.  The texts agree on one kind of
  message only.
-/
import UniServer.Http.ReceiveRuns

set_option autoImplicit false

namespace UniServer.Http

open UniServer.Foundation UniServer.Common

/-- The outcome of a read, on either path. -/
inductive PeerRead where
  /-- octets of the peer -/
  | data (chunk : Bytes)
  /-- a close by the peer -/
  | closed
  /-- a fatal error; the plain path sees an `errno` -/
  | fatal (errno : Nat)
  deriving DecidableEq

namespace PeerRead

/-- The outcome as `SSL_read` reports it. -/
def tls : PeerRead → TlsRead
  | .data chunk => .data chunk
  | .closed => .zeroReturn
  | .fatal _ => .failed

/-- The outcome as `::recv` reports it. -/
def socket : PeerRead → SocketRead
  | .data chunk => .data chunk
  | .closed => .closed
  | .fatal errno => .failed errno

end PeerRead

/-- The same result, or two complete messages. -/
def SameButText (r r' : Run Received) : Prop :=
  r = r' ∨ ∃ req req', r = complete req ∧ r' = complete req'

/-- One turn on the same outcome: both loops stop, in the same way, or both go on
with the same number of octets. -/
theorem recvTurn_related (json : Nlohmann) (draws : Draws) (bufsize : Nat)
    (beyond : Bytes) (s : SocketState) (s' : TlsState) (read : PeerRead)
    (hsame : s.resbytes = s'.resbytes) :
    Loop.TurnRelated (fun t t' => t.resbytes = t'.resbytes) SameButText
      (HttpConnection.recvTurn json draws bufsize beyond s read.socket)
      (HttpsConnection.recvTurn json draws bufsize s' read.tls) := by
  cases read with
  | closed => exact Or.inl rfl
  | fatal errno => exact Or.inl rfl
  | data chunk =>
    simp only [PeerRead.socket, PeerRead.tls, HttpConnection.recvTurn,
      HttpsConnection.recvTurn, hsame]
    cases addInt s'.resbytes chunk.length with
    | error e => exact Or.inl rfl
    | ok resbytes =>
      by_cases hlimit : resbytes ≥ (kReceptionBufLimit : Int)
      · simp only [if_pos hlimit]
        exact Or.inl rfl
      · by_cases hshort : chunk.length < bufsize
        · simp only [if_neg hlimit, if_pos hshort]
          exact Or.inr ⟨_, _, rfl, rfl⟩
        · simp only [if_neg hlimit, if_neg hshort]
          rfl

/-- The two paths stop together and agree but for the text of a message. -/
theorem recv_related (json : Nlohmann) (draws : Draws) (bufsize : Nat)
    (buf beyond : Bytes) (reads : List PeerRead) :
    Loop.Related SameButText
      (HttpConnection.recv json draws bufsize buf beyond
        (reads.map PeerRead.socket))
      (HttpsConnection.recv json draws bufsize (reads.map PeerRead.tls)) := by
  rw [HttpConnection.recv, HttpsConnection.recv, ← Loop.run_comap, ← Loop.run_comap]
  refine Loop.run_related (fun s s' => s.resbytes = s'.resbytes) SameButText ?_ ?_
    ?_ reads
  · intro s s' _
    exact True.intro
  · intro s s' read hsame
    exact recvTurn_related json draws bufsize beyond s s' read hsame
  · rfl

/-! ## Where a message comes from -/

/-- Reads that are data to the TLS path are data. -/
theorem eq_of_map_tls {reads : List PeerRead} {chunks : List Bytes}
    (h : reads.map PeerRead.tls = chunks.map .data) :
    reads = chunks.map .data := by
  induction reads generalizing chunks with
  | nil =>
    cases chunks with
    | nil => rfl
    | cons c chunks => cases h
  | cons read reads ih =>
    cases chunks with
    | nil => cases h
    | cons c chunks =>
      rw [List.map_cons, List.map_cons, List.cons.injEq] at h
      rw [List.map_cons, ih h.2]
      cases read with
      | data chunk =>
        rw [TlsRead.data.inj h.1]
      | closed => cases h.1
      | fatal errno => cases h.1

/-- The TLS loop makes a message of full chunks and a short one only. -/
theorem message_of_complete (json : Nlohmann) (draws : Draws) {bufsize : Nat}
    {reads : List PeerRead}
    (hchunks : ∀ chunk, PeerRead.data chunk ∈ reads → chunk.length ≤ bufsize)
    {out : Bytes}
    (h : HttpsConnection.recv json draws bufsize (reads.map PeerRead.tls) =
      some (complete out)) :
    ∃ (fulls : List Bytes) (short : Bytes) (rest : List PeerRead),
      reads = fulls.map .data ++ .data short :: rest ∧
      (∀ c ∈ fulls, c.length = bufsize) ∧ short.length < bufsize ∧
      (fulls.flatten ++ short).length < kReceptionBufLimit := by
  have hbusy : ∀ read ∈ reads.map PeerRead.tls,
      HttpsConnection.isRetry read = false := by
    intro read hread
    obtain ⟨peer, _, rfl⟩ := List.mem_map.mp hread
    cases peer <;> rfl
  have hdata : ∀ c, TlsRead.data c ∈ reads.map PeerRead.tls →
      c.length ≤ bufsize := by
    intro c hc
    obtain ⟨peer, hpeer, htls⟩ := List.mem_map.mp hc
    cases peer with
    | data chunk =>
      rw [← TlsRead.data.inj htls]
      exact hchunks chunk hpeer
    | closed => cases htls
    | fatal errno => cases htls
  obtain ⟨fulls, read, rest, hsplit, hfull, _, hturn⟩ :=
    HttpsConnection.stop_behind_fulls json draws hbusy hdata h
  obtain ⟨before, after, rfl, hbefore, hafter⟩ := List.map_eq_append_iff.mp hsplit
  obtain ⟨peer, later, rfl, rfl, _⟩ := List.map_eq_cons_iff.mp hafter
  rw [eq_of_map_tls hbefore]
  cases peer with
  | closed =>
    cases hturn
  | fatal errno =>
    exact absurd (Turn.stop.inj hturn) (refuse_ne_complete json draws _ out)
  | data short =>
    rcases HttpsConnection.recvTurn_data_stop json draws hturn with
      ⟨_, hno⟩ | ⟨htotal, hshort, _⟩
    · exact absurd rfl (hno out)
    · exact ⟨fulls, short, later, rfl, hfull, hshort, htotal⟩

/-! ## Agreement -/

/-- If the reads begin with a message (full chunks and a short one, within the
limit), then it is one chunk, holds no NUL, and a NUL stands behind it in the
buffer as it was at the start. -/
def EndsAtNul (bufsize : Nat) (buf : Bytes) (reads : List PeerRead) : Prop :=
  ∀ (fulls : List Bytes) (short : Bytes) (rest : List PeerRead),
    reads = fulls.map .data ++ .data short :: rest →
    (∀ c ∈ fulls, c.length = bufsize) → short.length < bufsize →
    (fulls.flatten ++ short).length < kReceptionBufLimit →
    fulls = [] ∧ (0 : Byte) ∉ short ∧ buf[short.length]? = some 0

/-- What both paths do with a message. -/
theorem recv_message (json : Nlohmann) (draws : Draws) {bufsize : Nat}
    (buf beyond : Bytes) {fulls : List Bytes} {short : Bytes}
    (hfull : ∀ c ∈ fulls, c.length = bufsize) (hshort : short.length < bufsize)
    (hlimit : (fulls.flatten ++ short).length < kReceptionBufLimit)
    (rest : List PeerRead) :
    HttpConnection.recv json draws bufsize buf beyond
        ((fulls.map PeerRead.data ++ .data short :: rest).map PeerRead.socket) =
      some (complete ((fulls ++ [short]).foldl (HttpConnection.appendChunk beyond)
        ([], buf)).1) ∧
    HttpsConnection.recv json draws bufsize
        ((fulls.map PeerRead.data ++ .data short :: rest).map PeerRead.tls) =
      some (complete (fulls.flatten ++ short)) := by
  have hsocket : PeerRead.socket ∘ PeerRead.data = SocketRead.data := rfl
  have htls : PeerRead.tls ∘ PeerRead.data = TlsRead.data := rfl
  rw [List.map_append, List.map_append, List.map_map, List.map_map, hsocket, htls,
    List.map_cons, List.map_cons]
  constructor
  · exact HttpConnection.run_message json draws beyond hfull hshort _ 0 ([], buf)
      (by rw [Nat.zero_add]; exact hlimit)
  · exact HttpsConnection.recv_message json draws hfull hshort hlimit _

/-- The plain and the TLS path agree exactly on the reads that end at a NUL. -/
theorem recv_agree_iff (json : Nlohmann) (draws : Draws) {bufsize : Nat}
    {buf : Bytes} (hbuf : buf.length = bufsize) (beyond : Bytes)
    {reads : List PeerRead}
    (hchunks : ∀ chunk, PeerRead.data chunk ∈ reads → 1 ≤ chunk.length ∧
      chunk.length ≤ bufsize) :
    HttpConnection.recv json draws bufsize buf beyond (reads.map PeerRead.socket) =
        HttpsConnection.recv json draws bufsize (reads.map PeerRead.tls) ↔
      EndsAtNul bufsize buf reads := by
  subst hbuf
  constructor
  · intro hagree fulls short rest hsplit hfull hshort hlimit
    obtain ⟨hplain, htls⟩ :=
      recv_message json draws buf beyond hfull hshort hlimit rest
    rw [hsplit, hplain, htls, Option.some_inj] at hagree
    exact (HttpConnection.text_eq_iff beyond hfull hshort).mp
      (complete_injective hagree)
  · intro hends
    have hrelated := recv_related json draws buf.length buf beyond reads
    cases hplain : HttpConnection.recv json draws buf.length buf beyond
        (reads.map PeerRead.socket) with
    | none =>
      cases htls : HttpsConnection.recv json draws buf.length
        (reads.map PeerRead.tls) with
      | none => rfl
      | some r' =>
        rw [hplain, htls] at hrelated
        exact False.elim hrelated
    | some r =>
      cases htls : HttpsConnection.recv json draws buf.length
        (reads.map PeerRead.tls) with
      | none =>
        rw [hplain, htls] at hrelated
        exact False.elim hrelated
      | some r' =>
        rw [hplain, htls] at hrelated
        rcases hrelated with hequal | ⟨req, req', rfl, rfl⟩
        · rw [hequal]
        · -- two messages: by assumption a single chunk that ends at a NUL
          obtain ⟨fulls, short, rest, hsplit, hfull, hshort, hlimit⟩ :=
            message_of_complete json draws
              (fun chunk hchunk => (hchunks chunk hchunk).2) htls
          have hnul := hends fulls short rest hsplit hfull hshort hlimit
          obtain ⟨hplain', htls'⟩ :=
            recv_message json draws buf beyond hfull hshort hlimit rest
          rw [← hsplit] at hplain' htls'
          rw [← hplain, ← htls, hplain', htls',
            (HttpConnection.text_eq_iff beyond hfull hshort).mpr hnul]

/-- Two octets, with a NUL behind them in the buffer. -/
theorem recv_agree_iff_nul :
    HttpConnection.recv readsNothing someDraws 4 [9, 9, 0, 9] [9]
        ([.data (ascii "ab"), .closed].map PeerRead.socket) =
      HttpsConnection.recv readsNothing someDraws 4
        ([.data (ascii "ab"), .closed].map PeerRead.tls) := by
  have hbuf : ([9, 9, 0, 9] : Bytes).length = 4 := rfl
  refine (recv_agree_iff readsNothing someDraws hbuf [9] ?_).mpr ?_
  · intro chunk hchunk
    have heq : chunk = ascii "ab" := by simpa using hchunk
    rw [heq]
    decide +kernel
  · intro fulls short rest hreads _ _ _
    cases fulls with
    | nil =>
      rw [List.map_nil, List.nil_append, List.cons.injEq,
        PeerRead.data.injEq] at hreads
      rw [← hreads.1]
      decide +kernel
    | cons c fulls =>
      have hrest := (List.cons.inj hreads).2
      cases fulls with
      | nil => cases hrest
      | cons d fulls => cases hrest

/-- Without one the plain path stores stale octets behind them. -/
theorem stale_octets_stored :
    ¬ ∀ (json : Nlohmann) (draws : Draws) (bufsize : Nat) (buf beyond : Bytes)
      (reads : List PeerRead), 0 < bufsize → buf.length = bufsize →
      (∀ chunk, PeerRead.data chunk ∈ reads → 1 ≤ chunk.length ∧
        chunk.length ≤ bufsize) →
      HttpConnection.recv json draws bufsize buf beyond
        (reads.map PeerRead.socket) =
        HttpsConnection.recv json draws bufsize (reads.map PeerRead.tls) := by
  intro hclaim
  have hchunks : ∀ chunk, PeerRead.data chunk ∈ [PeerRead.data (ascii "ab")] →
      1 ≤ chunk.length ∧ chunk.length ≤ 4 := by
    intro chunk hchunk
    have heq : chunk = ascii "ab" := by simpa using hchunk
    rw [heq]
    decide +kernel
  have hagree :=
    hclaim readsNothing someDraws 4 [9, 9, 9, 9] [] [.data (ascii "ab")] (by decide)
      rfl hchunks
  have hnone : ∀ c ∈ ([] : List Bytes), c.length = 4 := by simp
  have hshort : (ascii "ab").length < 4 := by decide
  obtain ⟨hplain, htls⟩ :=
    recv_message readsNothing someDraws [9, 9, 9, 9] [] hnone hshort (by decide) []
  rw [List.map_nil, List.nil_append] at hplain htls
  rw [hplain, htls, Option.some_inj] at hagree
  exact absurd (complete_injective hagree) (by decide +kernel)

end UniServer.Http
