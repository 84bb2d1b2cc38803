/-
  Http/TlsSend.lean --- `HttpsConnection::send`.

  The loop is that of `HttpConnection::send`, but what it offers to `SSL_write` is
  counted in an `int`: what is left of the response is narrowed to it before every
  call.

  A call of `SSL_write` is what it would come to for each number that it may be
  offered, so that the offer is part of the model.  A transport is a sequence of
  such calls.  Log calls are left out.
-/
import UniServer.Foundation.Cxx
import UniServer.Http.Send

set_option autoImplicit false

namespace UniServer.Http

open UniServer.Foundation

/-- What a call of `SSL_write` comes to. -/
inductive TlsWrite where
  /-- a positive return value: the number of octets taken -/
  | accepted (numbytes : Nat)
  /-- `SSL_ERROR_WANT_READ` -/
  | wantRead
  /-- `SSL_ERROR_WANT_WRITE` -/
  | wantWrite
  /-- `SSL_ERROR_ZERO_RETURN` -/
  | zeroReturn
  /-- any other error -/
  | failed
  deriving DecidableEq

namespace HttpsConnection

/-- `total_size - total_sent`, narrowed. -/
def chunk (resp : Bytes) (s : SendState) : Int := toInt (resp.length - s.totalSend)

/-- One turn of the loop. -/
def sendTurn (resp : Bytes) (s : SendState) (sslWrite : Int → TlsWrite) :
    Turn SendState Sent :=
  match sslWrite (chunk resp s) with
  | .accepted numbytes =>
      .next
        { totalSend := s.totalSend + numbytes,
          accepted := s.accepted ++ (HttpConnection.offered resp s).take numbytes }
  | .wantRead => .next s
  | .wantWrite => .next s
  | .zeroReturn => .stop { ret := false, accepted := s.accepted }
  | .failed => .stop { ret := false, accepted := s.accepted }

/-- The loop; the test at its head is `total_sent < total_size`. -/
def sendLoop (resp : Bytes) : Loop SendState (Int → TlsWrite) Sent where
  exit s :=
    if s.totalSend < resp.length then none
    else some { ret := true, accepted := s.accepted }
  turn := sendTurn resp

/-- `HttpsConnection::send`, on its calls of `SSL_write`. -/
def send (resp : Bytes) (writes : List (Int → TlsWrite)) : Option Sent :=
  (sendLoop resp).run HttpConnection.unsent writes

end HttpsConnection

/-! ## Transports -/

/-- The call has to be made again. -/
def TlsWrite.IsWant : TlsWrite → Prop
  | .wantRead => True
  | .wantWrite => True
  | _ => False

/-- What a connection in order does with `n` octets: it takes some of them, or the
call has to be made again. -/
def TlsWrite.Takes (n : Int) : TlsWrite → Prop
  | .accepted numbytes => 1 ≤ numbytes ∧ (numbytes : Int) ≤ n
  | .wantRead => True
  | .wantWrite => True
  | _ => False

/-- A call of `SSL_write` on a connection in order. -/
structure SslWrite where
  outcome : Int → TlsWrite
  takes : ∀ n, 1 ≤ n → (outcome n).Takes n
  fails : ∀ n, n ≤ 0 → outcome n = .failed

/-- A connection in order, call by call; calls have to be made again finitely
often. -/
structure SslTransport where
  write : Nat → SslWrite
  settles : ∃ k, ∀ i, k ≤ i → ∀ n, ¬ ((write i).outcome n).IsWant

/-- The first `n` calls. -/
def SslTransport.writes (t : SslTransport) (n : Nat) : List (Int → TlsWrite) :=
  (List.range n).map fun i => (t.write i).outcome

namespace HttpsConnection

/-- `send` returns true, and the octets taken are the response. -/
def Delivers (t : SslTransport) (resp : Bytes) : Prop :=
  ∃ n, send resp (t.writes n) = some { ret := true, accepted := resp }

theorem exit_eq_none_iff {resp : Bytes} {s : SendState} :
    (sendLoop resp).exit s = none ↔ s.totalSend < resp.length :=
  HttpConnection.exit_eq_none_iff

theorem exit_eq_some {resp : Bytes} {s : SendState} {out : Sent}
    (h : (sendLoop resp).exit s = some out) :
    ¬ s.totalSend < resp.length ∧
      out = { ret := true, accepted := s.accepted } :=
  HttpConnection.exit_eq_some h

variable {resp : Bytes}

/-! ## Responses that an `int` can count -/

/-- Where something is left, the number offered is positive and is all of it. -/
theorem chunk_of_lt {s : SendState} (hlen : resp.length < 2 ^ 31) :
    chunk resp s = ((resp.length - s.totalSend : Nat) : Int) :=
  toInt_of_lt (by omega)

/-- A turn keeps the invariant, and takes at least one octet unless the call has to
be made again. -/
theorem sendTurn_of_lt (hlen : resp.length < 2 ^ 31) {s : SendState}
    (hs : HttpConnection.Delivered resp s) (hmore : s.totalSend < resp.length)
    (write : SslWrite) :
    ∃ s', sendTurn resp s write.outcome = .next s' ∧
      HttpConnection.Delivered resp s' ∧
      ((write.outcome (chunk resp s)).IsWant ∨ s.totalSend < s'.totalSend) := by
  have hchunk := @chunk_of_lt resp s hlen
  have hpos : 1 ≤ chunk resp s := by omega
  have htakes := write.takes (chunk resp s) hpos
  cases hwrite : write.outcome (chunk resp s) with
  | accepted numbytes =>
    rw [hwrite] at htakes
    obtain ⟨hone, hle⟩ := htakes
    refine ⟨_, by rw [sendTurn, hwrite], ?_, Or.inr ?_⟩
    · -- the same octets as the plain loop takes
      have hfits : HttpConnection.SocketTakes resp s (.accepted numbytes) := by
        refine ⟨hone, ?_⟩
        rw [HttpConnection.offered, List.length_drop]
        omega
      exact hs.turn hfits rfl
    · show s.totalSend < s.totalSend + numbytes
      omega
  | wantRead => exact ⟨s, by rw [sendTurn, hwrite], hs, Or.inl True.intro⟩
  | wantWrite => exact ⟨s, by rw [sendTurn, hwrite], hs, Or.inl True.intro⟩
  | zeroReturn =>
    rw [hwrite] at htakes
    exact htakes.elim
  | failed =>
    rw [hwrite] at htakes
    exact htakes.elim

/-- The loop leaves at its head, with everything taken, or goes on. -/
theorem run_or_goes (hlen : resp.length < 2 ^ 31) {s : SendState}
    (hs : HttpConnection.Delivered resp s) (writes : List SslWrite) :
    (∀ rest, (sendLoop resp).run s (writes.map SslWrite.outcome ++ rest) =
      some { ret := true, accepted := resp }) ∨
      ∃ s', (sendLoop resp).goes s (writes.map SslWrite.outcome) = some s' ∧
        HttpConnection.Delivered resp s' ∧
        ((∀ write ∈ writes, ∀ n, ¬ (write.outcome n).IsWant) →
          s.totalSend + writes.length ≤ s'.totalSend) := by
  induction writes generalizing s with
  | nil => exact Or.inr ⟨s, rfl, hs, fun _ => Nat.le_refl _⟩
  | cons write writes ih =>
    by_cases hmore : s.totalSend < resp.length
    · have hexit := exit_eq_none_iff.mpr hmore
      obtain ⟨s', hturn, hs', hmoves⟩ := sendTurn_of_lt hlen hs hmore write
      rcases ih hs' with hrun | ⟨t, hgoes, ht, hcount⟩
      · refine Or.inl fun rest => ?_
        rw [List.map_cons, List.cons_append, Loop.run_next hexit hturn]
        exact hrun rest
      · refine Or.inr ⟨t, ?_, ht, ?_⟩
        · rw [List.map_cons, Loop.goes_next hexit hturn]
          exact hgoes
        · intro hsteady
          have hone : s.totalSend < s'.totalSend :=
            hmoves.resolve_left (hsteady write List.mem_cons_self _)
          have hrest := hcount fun w hw => hsteady w (List.mem_cons_of_mem _ hw)
          rw [List.length_cons]
          omega
    · have hexit : (sendLoop resp).exit s =
          some { ret := true, accepted := s.accepted } := if_neg hmore
      rw [hs.eq_iff.mpr hmore] at hexit
      exact Or.inl fun rest => Loop.run_exit hexit _

/-- Every response shorter than 2^31 octets is delivered. -/
theorem delivers_of_lt (t : SslTransport) (hlen : resp.length < 2 ^ 31) :
    Delivers t resp := by
  obtain ⟨k, hsettles⟩ := t.settles
  -- the calls up to `k`, and as many as there are octets behind them
  have hsplit : t.writes (k + (resp.length + 1)) =
      ((List.range k).map t.write).map SslWrite.outcome ++
        ((List.range (resp.length + 1)).map fun i => t.write (k + i)).map
          SslWrite.outcome := by
    rw [SslTransport.writes, List.range_add, List.map_append]
    simp [List.map_map, Function.comp_def]
  refine ⟨k + (resp.length + 1), ?_⟩
  rw [send, hsplit]
  rcases run_or_goes hlen (HttpConnection.delivered_unsent resp)
    ((List.range k).map t.write) with hrun | ⟨s, hgoes, hs, _⟩
  · exact hrun _
  · rw [Loop.run_of_goes hgoes]
    rcases run_or_goes hlen hs
      ((List.range (resp.length + 1)).map fun i => t.write (k + i)) with
      hrun | ⟨s', _, hs', hcount⟩
    · rw [← hrun [], List.append_nil]
    · have hsteady := hcount (by
        intro write hwrite n
        obtain ⟨i, _, rfl⟩ := List.mem_map.mp hwrite
        exact hsettles (k + i) (by omega) n)
      rw [List.length_map, List.length_range] at hsteady
      have hle := hs'.le
      omega

/-! ## Longer responses -/

/-- What is left of the response is too much for an `int`. -/
def TooLong (resp : Bytes) (s : SendState) : Prop :=
  2 ^ 31 ≤ resp.length - s.totalSend

/-- What `SSL_write` takes never crosses a multiple of 2^32, so too much stays
left. -/
theorem TooLong.turn {s s' : SendState} (h : TooLong resp s) (write : SslWrite)
    (hturn : sendTurn resp s write.outcome = .next s') : TooLong resp s' := by
  unfold TooLong at h
  obtain ⟨_, hlt, m, hm⟩ := toInt_spec (resp.length - s.totalSend)
  have hchunk : toInt (resp.length - s.totalSend) = chunk resp s := rfl
  rw [hchunk] at hlt hm
  rw [sendTurn] at hturn
  rcases Int.lt_or_le (chunk resp s) 1 with hnone | hpos
  · rw [write.fails _ (by omega)] at hturn
    cases hturn
  · have htakes := write.takes _ hpos
    cases hwrite : write.outcome (chunk resp s) with
    | accepted numbytes =>
      rw [hwrite] at hturn htakes
      cases hturn
      have hle : (numbytes : Int) ≤ chunk resp s := htakes.2
      have hover : 1 ≤ m := by omega
      show 2 ^ 31 ≤ resp.length - (s.totalSend + numbytes)
      omega
    | wantRead =>
      rw [hwrite] at hturn
      cases hturn
      exact h
    | wantWrite =>
      rw [hwrite] at hturn
      cases hturn
      exact h
    | zeroReturn =>
      rw [hwrite] at hturn
      cases hturn
    | failed =>
      rw [hwrite] at hturn
      cases hturn

theorem sendTurn_stop {s : SendState} {sslWrite : Int → TlsWrite} {out : Sent}
    (h : sendTurn resp s sslWrite = .stop out) : out.ret = false := by
  rw [sendTurn] at h
  cases hwrite : sslWrite (chunk resp s) with
  | accepted numbytes =>
    rw [hwrite] at h
    cases h
  | wantRead =>
    rw [hwrite] at h
    cases h
  | wantWrite =>
    rw [hwrite] at h
    cases h
  | zeroReturn =>
    rw [hwrite] at h
    cases h
    rfl
  | failed =>
    rw [hwrite] at h
    cases h
    rfl

/-- A response of 2^31 octets or more is never delivered: `send` does not return
true. -/
theorem not_returns_true (t : SslTransport) (hlen : 2 ^ 31 ≤ resp.length) (n : Nat)
    {out : Sent} (hstops : send resp (t.writes n) = some out) :
    out.ret = false := by
  obtain ⟨before, after, s, hsplit, hgoes, hleave⟩ := Loop.run_eq_some_iff.mp hstops
  have hpermitted : (sendLoop resp).Permitted
      (fun _ call => ∃ write : SslWrite, call = write.outcome)
      HttpConnection.unsent (before ++ after) := by
    rw [← hsplit]
    apply Loop.permitted_of_forall
    intro call hcall
    obtain ⟨i, _, rfl⟩ := List.mem_map.mp hcall
    exact ⟨t.write i, rfl⟩
  have hs : TooLong resp s := by
    refine Loop.goes_invariant (TooLong resp) ?_ hpermitted hlen hgoes
    intro s call s' hs _ hcall hturn
    obtain ⟨write, rfl⟩ := hcall
    exact hs.turn write hturn
  rcases hleave with hexit | ⟨_, call, rest, _, hturn⟩
  · obtain ⟨hdone, _⟩ := exit_eq_some hexit
    unfold TooLong at hs
    omega
  · exact sendTurn_stop hturn

/-- On a connection in order a response is delivered exactly when it is shorter
than 2^31 octets. -/
theorem delivers_iff (t : SslTransport) (resp : Bytes) :
    Delivers t resp ↔ resp.length < 2 ^ 31 := by
  constructor
  · intro hdelivers
    obtain ⟨n, hstops⟩ := hdelivers
    by_contra hlong
    have hfalse := not_returns_true t (Nat.not_lt.mp hlong) n hstops
    cases hfalse
  · exact delivers_of_lt t

/-- A connection that takes all it is offered. -/
def takesAll : SslTransport where
  write _ :=
    { outcome := fun n => if 1 ≤ n then .accepted n.toNat else .failed,
      takes := by
        intro n hn
        rw [if_pos hn]
        exact ⟨by omega, by omega⟩,
      fails := by
        intro n hn
        exact if_neg (by omega) }
  settles := by
    refine ⟨0, fun i _ n => ?_⟩
    show ¬ TlsWrite.IsWant (if 1 ≤ n then .accepted n.toNat else .failed)
    split <;> exact id

/-- The first call is offered -2^31 octets. -/
theorem long_response_lost :
    ∃ (t : SslTransport) (resp : Bytes),
      resp.length = 2 ^ 31 ∧ resp.length < 2 ^ 64 ∧ ¬ Delivers t resp := by
  have hlen : (List.replicate (2 ^ 31) (0 : Byte)).length = 2 ^ 31 :=
    List.length_replicate
  refine ⟨takesAll, List.replicate (2 ^ 31) 0, hlen, ?_, ?_⟩
  · rw [hlen]
    decide
  · intro hdelivers
    obtain ⟨n, hstops⟩ := hdelivers
    have hfalse := not_returns_true takesAll (Nat.le_of_eq hlen.symm) n hstops
    cases hfalse

end HttpsConnection

end UniServer.Http
