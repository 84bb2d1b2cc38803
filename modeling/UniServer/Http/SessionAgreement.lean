/-
  Http/SessionAgreement.lean --- when a plain and a TLS connection do the same for
  a client.

  `Http/ReceiveAgreement` compares the reads.  Here `process` is compared as a
  whole: with the same reads, of a message that ends at a NUL, and the same writes
  both return the same value, call the same handlers and send the same octets.
-/
import UniServer.Http.ReceiveAgreement
import UniServer.Http.Session

set_option autoImplicit false

namespace UniServer.Http

open UniServer.Foundation UniServer.Common UniServer.Routing

/-- The outcome of a write, on either path. -/
inductive PeerWrite where
  /-- the number of octets taken -/
  | accepted (numbytes : Nat)
  /-- nothing taken, and the call is made again -/
  | again
  /-- a close by the peer -/
  | closed
  /-- a fatal error; the plain path sees an `errno` -/
  | fatal (errno : Nat)
  deriving DecidableEq

namespace PeerWrite

/-- The outcome as `SSL_write` reports it, whatever it was offered. -/
def tls : PeerWrite → Int → TlsWrite
  | .accepted numbytes, _ => .accepted numbytes
  | .again, _ => .wantWrite
  | .closed, _ => .zeroReturn
  | .fatal _, _ => .failed

/-- The outcome as `::send` reports it. -/
def socket : PeerWrite → SocketWrite
  | .accepted numbytes => .accepted numbytes
  | .again => .failed .eagain
  | .closed => .zero
  | .fatal errno => .failed (.other errno)

end PeerWrite

/-- The two loops of `send` are one loop on these outcomes. -/
theorem sendLoop_agree (resp : Bytes) :
    (HttpConnection.sendLoop resp).comap PeerWrite.socket =
      (HttpsConnection.sendLoop resp).comap PeerWrite.tls := by
  have hturn : ∀ (s : SendState) (write : PeerWrite),
      HttpConnection.sendTurn resp s write.socket =
        HttpsConnection.sendTurn resp s write.tls := by
    intro s write
    cases write <;> rfl
  rw [Loop.comap, Loop.comap, Loop.mk.injEq]
  exact ⟨rfl, funext fun s => funext fun write => hturn s write⟩

theorem send_agree (resp : Bytes) (writes : List PeerWrite) :
    (HttpConnection.sendLoop resp).run HttpConnection.unsent
        (writes.map PeerWrite.socket) =
      (HttpsConnection.sendLoop resp).run HttpConnection.unsent
        (writes.map PeerWrite.tls) := by
  rw [← Loop.run_comap, sendLoop_agree, Loop.run_comap]

/-- A message that ends at a NUL is stored as it is on both paths; without a message
they end in the same way. -/
theorem recv_agree (json : Nlohmann) (draws : Draws) {bufsize : Nat} {buf : Bytes}
    (hbuf : buf.length = bufsize) (beyond : Bytes) {reads : List PeerRead}
    (hchunks : ∀ chunk, PeerRead.data chunk ∈ reads → chunk.length ≤ bufsize)
    (hends : EndsAtNul bufsize buf reads) :
    HttpConnection.recv json draws bufsize buf beyond (reads.map PeerRead.socket) =
      HttpsConnection.recv json draws bufsize (reads.map PeerRead.tls) := by
  subst hbuf
  have hrelated := recv_related json draws buf.length buf beyond reads
  cases htls : HttpsConnection.recv json draws buf.length
    (reads.map PeerRead.tls) with
  | none =>
    rw [htls] at hrelated
    cases hplain : HttpConnection.recv json draws buf.length buf beyond
        (reads.map PeerRead.socket) with
    | none => rfl
    | some r =>
      rw [hplain] at hrelated
      exact hrelated.elim
  | some r' =>
    cases hplain : HttpConnection.recv json draws buf.length buf beyond
        (reads.map PeerRead.socket) with
    | none =>
      rw [hplain, htls] at hrelated
      exact hrelated.elim
    | some r =>
      rw [hplain, htls] at hrelated
      rcases hrelated with hequal | ⟨req, req', rfl, rfl⟩
      · rw [hequal]
      · obtain ⟨fulls, short, rest, hsplit, hfull, hshort, hlimit⟩ :=
          message_of_complete json draws hchunks htls
        obtain ⟨hplain', htls'⟩ :=
          recv_message json draws buf beyond hfull hshort hlimit rest
        have hnul := hends fulls short rest hsplit hfull hshort hlimit
        rw [← hsplit] at hplain' htls'
        rw [← hplain, hplain', ← htls, htls',
          (HttpConnection.text_eq_iff beyond hfull hshort).mpr hnul]

/-- With the same reads and writes of a client whose message ends at a NUL, the two
connections do the same. -/
theorem process_agree {H : Type} (json : Nlohmann) (invoke : Invoke H)
    (manager : RouterManager H) (draws : Draws) {bufsize : Nat} {buf : Bytes}
    (hbuf : buf.length = bufsize) (beyond : Bytes) {reads : List PeerRead}
    (hchunks : ∀ chunk, PeerRead.data chunk ∈ reads → chunk.length ≤ bufsize)
    (hends : EndsAtNul bufsize buf reads) (writes : List PeerWrite) :
    HttpConnection.process json invoke manager draws bufsize buf beyond
        ((reads.map PeerRead.socket).map .inl ++
          (writes.map PeerWrite.socket).map .inr) =
      HttpsConnection.process json invoke manager draws bufsize
        ((reads.map PeerRead.tls).map .inl ++
          (writes.map PeerWrite.tls).map .inr) := by
  have hrecv := recv_agree json draws hbuf beyond hchunks hends
  have hplain : HttpConnection.recv json draws bufsize buf beyond
      (reads.map PeerRead.socket) =
        (Loop.forever (HttpConnection.recvTurn json draws bufsize beyond)).run
          { resbytes := 0, req := [], buf := buf } (reads.map PeerRead.socket) :=
            rfl
  have htls : HttpsConnection.recv json draws bufsize (reads.map PeerRead.tls) =
      (Loop.forever (HttpsConnection.recvTurn json draws bufsize)).run
        { resbytes := 0, req := [] } (reads.map PeerRead.tls) := rfl
  rw [HttpConnection.process, HttpConnection.processLoop, HttpsConnection.process,
    HttpsConnection.processLoop, HttpsConnection.unread, Loop.run_andThen,
    Loop.run_andThen, ← hplain, ← htls, hrecv]
  simp only [Loop.run_mapResult, send_agree]

/-- A message of one short chunk, without a NUL in it and with one behind it. -/
theorem endsAtNul_single {bufsize : Nat} {buf chunk : Bytes}
    (hshort : chunk.length < bufsize) (hno : (0 : Byte) ∉ chunk)
    (hnul : buf[chunk.length]? = some 0) (rest : List PeerRead) :
    EndsAtNul bufsize buf (.data chunk :: rest) := by
  intro fulls short later hsplit hfull _ _
  cases fulls with
  | nil =>
    rw [List.map_nil, List.nil_append, List.cons.injEq,
      PeerRead.data.injEq] at hsplit
    rw [← hsplit.1]
    exact ⟨rfl, hno, hnul⟩
  | cons c fulls =>
    rw [List.map_cons, List.cons_append, List.cons.injEq,
      PeerRead.data.injEq] at hsplit
    have hc := hfull c List.mem_cons_self
    rw [← hsplit.1] at hc
    omega

/-- Two octets, and then the peer takes nothing. -/
theorem process_agree_nul :
    HttpConnection.process readsNothing acknowledge none someDraws 4
      [9, 9, 0, 9] [9]
        (([.data (ascii "ab")].map PeerRead.socket).map .inl ++
          ([.again, .closed].map PeerWrite.socket).map .inr) =
      HttpsConnection.process readsNothing acknowledge none someDraws 4
        (([.data (ascii "ab")].map PeerRead.tls).map .inl ++
          ([.again, .closed].map PeerWrite.tls).map .inr) := by
  have hbuf : ([9, 9, 0, 9] : Bytes).length = 4 := rfl
  refine process_agree readsNothing acknowledge none someDraws hbuf [9] ?_ ?_ _
  · intro chunk hchunk
    rw [PeerRead.data.inj (List.mem_singleton.mp hchunk)]
    decide +kernel
  · exact endsAtNul_single (by decide +kernel) (by decide +kernel)
      (by decide +kernel) []

end UniServer.Http
