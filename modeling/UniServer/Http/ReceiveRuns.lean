/-
  Http/ReceiveRuns.lean --- what the two receive loops compute.

  A message is a run of full chunks and a short one.  The TLS loop stores their
  concatenation, and nothing else can make it store anything.  The plain loop
  stops at the same place, but what it stores is made of C strings.
-/
import UniServer.Http.Receive

set_option autoImplicit false

namespace UniServer.Http

open UniServer.Foundation UniServer.Common

theorem refuse_ne_complete (json : Nlohmann) (draws : Draws) (code : RetCode)
    (req : Bytes) :
    refuse json draws code ≠ complete req := by
  unfold refuse
  cases serialize json (makeResp code draws.responseId draws.now) with
  | error e => exact fun h => by cases h
  | ok out => exact fun h => by cases h

theorem disconnected_ne_complete (req : Bytes) : disconnected ≠ complete req := by
  exact fun h => by cases h

theorem complete_injective {req req' : Bytes} (h : complete req = complete req') :
    req = req' := by
  cases h
  rfl

/-! ## The TLS loop -/

namespace HttpsConnection

variable (json : Nlohmann) (draws : Draws) {bufsize : Nat}

/-- The state after these octets were received. -/
def received (req : Bytes) : TlsState :=
  { resbytes := (req.length : Int), req := req }

/-- A chunk that stays below the limit is appended; a short one ends the loop. -/
theorem recvTurn_data {req chunk : Bytes}
    (hlimit : (req ++ chunk).length < kReceptionBufLimit) :
    recvTurn json draws bufsize (received req) (.data chunk) =
      if chunk.length < bufsize then .stop (complete (req ++ chunk))
      else .next (received (req ++ chunk)) := by
  have hint : kReceptionBufLimit < 2 ^ 31 := by decide
  have hlen : req.length + chunk.length = (req ++ chunk).length :=
    List.length_append.symm
  have hadd : addInt (req.length : Int) (chunk.length : Int) =
      .ok (((req ++ chunk).length : Nat) : Int) := by
    rw [addInt_natCast _ _ (by omega), hlen]
  have hbelow :
      ¬ (((req ++ chunk).length : Nat) : Int) ≥ (kReceptionBufLimit : Int) := by
    omega
  simp only [recvTurn, received, hadd, if_neg hbelow]

/-- At the limit the loop stops without a message. -/
theorem recvTurn_limit {req chunk : Bytes}
    (hlimit : kReceptionBufLimit ≤ (req ++ chunk).length) :
    ∃ r, recvTurn json draws bufsize (received req) (.data chunk) = .stop r ∧
      ∀ out, r ≠ complete out := by
  rw [List.length_append] at hlimit
  simp only [recvTurn, received]
  cases hadd : addInt (req.length : Int) (chunk.length : Int) with
  | error e => exact ⟨_, rfl, fun out h => by cases h⟩
  | ok resbytes =>
    have hsum : resbytes = (req.length : Int) + chunk.length := intResult_eq_ok hadd
    have hover : resbytes ≥ (kReceptionBufLimit : Int) := by omega
    simp only [if_pos hover]
    exact ⟨_, rfl, refuse_ne_complete json draws .requestBufferOverflow⟩

/-- The loop goes on behind a chunk only when it is full, below the limit. -/
theorem recvTurn_data_next {req chunk : Bytes} {s : TlsState}
    (hchunk : chunk.length ≤ bufsize)
    (h : recvTurn json draws bufsize (received req) (.data chunk) = .next s) :
    chunk.length = bufsize ∧ (req ++ chunk).length < kReceptionBufLimit ∧
      s = received (req ++ chunk) := by
  rcases Nat.lt_or_ge (req ++ chunk).length kReceptionBufLimit with hbelow | hlimit
  · rw [recvTurn_data json draws hbelow] at h
    split at h
    · cases h
    · rename_i hnot
      cases h
      exact ⟨Nat.le_antisymm hchunk (Nat.not_lt.mp hnot), hbelow, rfl⟩
  · obtain ⟨r, hstop, _⟩ := @recvTurn_limit json draws bufsize req chunk hlimit
    rw [hstop] at h
    cases h

/-- It stops behind a chunk at the limit, without a message, or with the message
that a short one completes. -/
theorem recvTurn_data_stop {req chunk : Bytes} {out : Run Received}
    (h : recvTurn json draws bufsize (received req) (.data chunk) = .stop out) :
    (kReceptionBufLimit ≤ (req ++ chunk).length ∧ ∀ m, out ≠ complete m) ∨
      ((req ++ chunk).length < kReceptionBufLimit ∧ chunk.length < bufsize ∧
        out = complete (req ++ chunk)) := by
  rcases Nat.lt_or_ge (req ++ chunk).length kReceptionBufLimit with hbelow | hlimit
  · rw [recvTurn_data json draws hbelow] at h
    split at h
    · rename_i hshort
      cases h
      exact Or.inr ⟨hbelow, hshort, rfl⟩
    · cases h
  · obtain ⟨r, hstop, hr⟩ := @recvTurn_limit json draws bufsize req chunk hlimit
    rw [hstop] at h
    cases h
    exact Or.inl ⟨hlimit, hr⟩

/-- Full chunks only pile up. -/
theorem run_fulls {fulls : List Bytes} (hfull : ∀ c ∈ fulls, c.length = bufsize)
    (req : Bytes) (hlimit : (req ++ fulls.flatten).length < kReceptionBufLimit)
    (reads : List TlsRead) :
    (recvLoop json draws bufsize).run (received req)
      (fulls.map TlsRead.data ++ reads) =
      (recvLoop json draws bufsize).run (received (req ++ fulls.flatten))
        reads := by
  induction fulls generalizing req with
  | nil => rw [List.map_nil, List.nil_append, List.flatten_nil, List.append_nil]
  | cons c fulls ih =>
    rw [List.flatten_cons, ← List.append_assoc] at hlimit ⊢
    have hc : (req ++ c).length < kReceptionBufLimit := by
      rw [List.length_append] at hlimit
      omega
    have hnot : ¬ c.length < bufsize := by
      rw [hfull c List.mem_cons_self]
      exact Nat.lt_irrefl bufsize
    have hturn : (recvLoop json draws bufsize).turn (received req) (.data c) =
        .next (received (req ++ c)) := by
      exact (recvTurn_data json draws hc).trans (if_neg hnot)
    rw [List.map_cons, List.cons_append, Loop.run_next rfl hturn,
      ih (fun d hd => hfull d (List.mem_cons_of_mem c hd)) (req ++ c) hlimit]

/-- Full chunks and a short one are a message. -/
theorem recv_message {fulls : List Bytes} {short : Bytes}
    (hfull : ∀ c ∈ fulls, c.length = bufsize) (hshort : short.length < bufsize)
    (hlimit : (fulls.flatten ++ short).length < kReceptionBufLimit)
    (reads : List TlsRead) :
    recv json draws bufsize (fulls.map TlsRead.data ++ .data short :: reads) =
      some (complete (fulls.flatten ++ short)) := by
  have hfulls : ([] ++ fulls.flatten).length < kReceptionBufLimit := by
    rw [List.length_append] at hlimit
    rw [List.nil_append]
    omega
  have hturn :
      (recvLoop json draws bufsize).turn (received fulls.flatten) (.data short) =
      .stop (complete (fulls.flatten ++ short)) :=
    (recvTurn_data json draws hlimit).trans (if_pos hshort)
  have hrun := run_fulls json draws hfull [] hfulls (.data short :: reads)
  rw [List.nil_append] at hrun
  exact hrun.trans (Loop.run_stop rfl hturn reads)

/-- Full chunks and a close leave nothing. -/
theorem recv_closed {fulls : List Bytes} (hfull : ∀ c ∈ fulls, c.length = bufsize)
    (hlimit : fulls.flatten.length < kReceptionBufLimit) (reads : List TlsRead) :
    recv json draws bufsize (fulls.map TlsRead.data ++ .zeroReturn :: reads) =
      some disconnected := by
  have hturn :
      (recvLoop json draws bufsize).turn (received fulls.flatten) .zeroReturn =
      .stop disconnected := rfl
  have hrun := run_fulls json draws hfull [] hlimit (.zeroReturn :: reads)
  rw [List.nil_append] at hrun
  exact hrun.trans (Loop.run_stop rfl hturn reads)

/-- The outcomes on which the loop only tries again. -/
def isRetry : TlsRead → Bool
  | .wantRead => true
  | .wantWrite => true
  | _ => false

theorem recv_filter (reads : List TlsRead) :
    recv json draws bufsize reads =
      recv json draws bufsize (reads.filter fun read => !isRetry read) := by
  refine Loop.run_filter _ ?_ _ reads
  intro s read hbusy
  cases read with
  | wantRead => rfl
  | wantWrite => rfl
  | data chunk => cases hbusy
  | zeroReturn => cases hbusy
  | failed => cases hbusy

/-- A loop that went on, on reads without a retry, has read full chunks below the
limit. -/
theorem fulls_of_goes {reads : List TlsRead}
    (hbusy : ∀ read ∈ reads, isRetry read = false)
    (hchunks : ∀ c, TlsRead.data c ∈ reads → c.length ≤ bufsize) {req : Bytes}
    (hreq : req.length < kReceptionBufLimit) {s : TlsState}
    (hgoes : (recvLoop json draws bufsize).goes (received req) reads = some s) :
    ∃ fulls : List Bytes, reads = fulls.map .data ∧
      (∀ c ∈ fulls, c.length = bufsize) ∧ s = received (req ++ fulls.flatten) ∧
      (req ++ fulls.flatten).length < kReceptionBufLimit := by
  induction reads generalizing req with
  | nil =>
    rw [Loop.goes_nil, Option.some_inj] at hgoes
    refine ⟨[], rfl, by simp, ?_, by simpa using hreq⟩
    rw [List.flatten_nil, List.append_nil]
    exact hgoes.symm
  | cons read reads ih =>
    obtain ⟨_, s', hturn, hrest⟩ := Loop.goes_cons_eq_some hgoes
    change recvTurn json draws bufsize (received req) read = .next s' at hturn
    have hlater : ∀ read ∈ reads, isRetry read = false :=
      fun read hread => hbusy read (List.mem_cons_of_mem _ hread)
    have hlaterChunks : ∀ c, TlsRead.data c ∈ reads → c.length ≤ bufsize :=
      fun c hc => hchunks c (List.mem_cons_of_mem _ hc)
    cases read with
    | wantRead => cases hbusy .wantRead List.mem_cons_self
    | wantWrite => cases hbusy .wantWrite List.mem_cons_self
    | zeroReturn => cases hturn
    | failed => cases hturn
    | data chunk =>
      obtain ⟨hfull, hbelow, rfl⟩ :=
        recvTurn_data_next json draws (hchunks chunk List.mem_cons_self) hturn
      obtain ⟨fulls, hsplit, hfulls, hs, htotal⟩ :=
        ih hlater hlaterChunks hbelow hrest
      refine ⟨chunk :: fulls, by rw [hsplit]; rfl,
        List.forall_mem_cons.mpr ⟨hfull, hfulls⟩, ?_, ?_⟩
      · rw [hs, List.append_assoc, List.flatten_cons]
      · rw [List.flatten_cons, ← List.append_assoc]
        exact htotal

/-- Where a run stops, on reads without a retry: behind full chunks below the
limit. -/
theorem stop_behind_fulls {reads : List TlsRead}
    (hbusy : ∀ read ∈ reads, isRetry read = false)
    (hchunks : ∀ c, TlsRead.data c ∈ reads → c.length ≤ bufsize)
    {out : Run Received} (hstops : recv json draws bufsize reads = some out) :
    ∃ (fulls : List Bytes) (read : TlsRead) (rest : List TlsRead),
      reads = fulls.map .data ++ read :: rest ∧
      (∀ c ∈ fulls, c.length = bufsize) ∧
      fulls.flatten.length < kReceptionBufLimit ∧
      recvTurn json draws bufsize (received fulls.flatten) read = .stop out := by
  obtain ⟨before, after, s, rfl, hgoes, hleave⟩ := Loop.run_eq_some_iff.mp hstops
  rcases hleave with hexit | ⟨_, read, rest, rfl, hturn⟩
  · cases hexit
  have hreq : ([] : Bytes).length < kReceptionBufLimit := by decide
  obtain ⟨fulls, rfl, hfull, rfl, hbelow⟩ :=
    fulls_of_goes json draws
      (fun used hused => hbusy used (List.mem_append_left _ hused))
      (fun c hc => hchunks c (List.mem_append_left _ hc)) hreq hgoes
  exact ⟨fulls, read, rest, rfl, hfull, hbelow, hturn⟩

/-- Chunks are all full, or there is a first short one. -/
theorem fulls_or_short {chunks : List Bytes}
    (h : ∀ c ∈ chunks, c.length ≤ bufsize) :
    (∀ c ∈ chunks, c.length = bufsize) ∨
      ∃ fulls short rest, chunks = fulls ++ short :: rest ∧
        (∀ c ∈ fulls, c.length = bufsize) ∧
        short.length < bufsize := by
  induction chunks with
  | nil => exact Or.inl (by simp)
  | cons c chunks ih =>
    have hc := h c List.mem_cons_self
    rcases Nat.lt_or_eq_of_le hc with hlt | heq
    · exact Or.inr ⟨[], c, chunks, rfl, by simp, hlt⟩
    · rcases ih fun d hd => h d (List.mem_cons_of_mem c hd) with
        hall | ⟨fulls, short, rest, hsplit⟩
      · exact Or.inl (List.forall_mem_cons.mpr ⟨heq, hall⟩)
      · obtain ⟨rfl, hfull, hshort⟩ := hsplit
        exact Or.inr ⟨c :: fulls, short, rest, rfl,
          List.forall_mem_cons.mpr ⟨heq, hfull⟩, hshort⟩

/-- A request that is delivered in chunks, with any number of retries, and followed
by a close: it is stored as sent exactly when its last chunk is the only short one.
It ends at the first short chunk, and without a short chunk it is dropped. -/
theorem recv_chunks {chunks : List Bytes} {r : Bytes} {reads : List TlsRead}
    (hchunks : ∀ c ∈ chunks, 0 < c.length ∧ c.length ≤ bufsize)
    (hr : chunks.flatten = r) (hlimit : r.length < kReceptionBufLimit)
    (hreads : reads.filter (fun read => !isRetry read) =
      chunks.map .data ++ [.zeroReturn]) :
    (recv json draws bufsize reads = some (complete r) ↔
      ∃ fulls last, chunks = fulls ++ [last] ∧ (∀ c ∈ fulls, c.length = bufsize) ∧
        last.length < bufsize) ∧
    (∀ fulls short rest, chunks = fulls ++ short :: rest →
      (∀ c ∈ fulls, c.length = bufsize) →
      short.length < bufsize →
      recv json draws bufsize reads = some (complete (fulls.flatten ++ short))) ∧
    ((∀ c ∈ chunks, c.length = bufsize) →
      recv json draws bufsize reads = some disconnected) := by
  subst hr
  have hmessage : ∀ fulls short rest, chunks = fulls ++ short :: rest →
      (∀ c ∈ fulls, c.length = bufsize) → short.length < bufsize →
      recv json draws bufsize reads = some (complete (fulls.flatten ++ short)) := by
    intro fulls short rest hsplit hfull hshort
    have hpart : (fulls.flatten ++ short).length < kReceptionBufLimit := by
      rw [hsplit, List.flatten_append, List.flatten_cons] at hlimit
      simp only [List.length_append] at hlimit ⊢
      omega
    rw [recv_filter, hreads, hsplit, List.map_append, List.map_cons,
      List.append_assoc, List.cons_append]
    exact recv_message json draws hfull hshort hpart _
  have hclosed : (∀ c ∈ chunks, c.length = bufsize) →
      recv json draws bufsize reads = some disconnected := by
    intro hfull
    rw [recv_filter, hreads]
    exact recv_closed json draws hfull hlimit []
  refine ⟨⟨?_, ?_⟩, hmessage, hclosed⟩
  · intro hstored
    rcases fulls_or_short fun c hc => (hchunks c hc).2 with
      hfull | ⟨fulls, short, rest, hsplit⟩
    · rw [hclosed hfull, Option.some_inj] at hstored
      exact absurd hstored (disconnected_ne_complete _)
    · obtain ⟨hsplit, hfull, hshort⟩ := hsplit
      rw [hmessage fulls short rest hsplit hfull hshort, Option.some_inj] at hstored
      have htext := complete_injective hstored
      -- nothing can stand behind the short chunk
      have hrest : rest.flatten = [] := by
        rw [hsplit, List.flatten_append, List.flatten_cons,
          ← List.append_assoc] at htext
        exact List.append_right_eq_self.mp htext.symm
      have hnil : rest = [] := by
        cases rest with
        | nil => rfl
        | cons c rest =>
          have hpos := (hchunks c (by simp [hsplit])).1
          rw [List.flatten_cons, List.append_eq_nil_iff] at hrest
          rw [hrest.1] at hpos
          exact absurd hpos (by decide)
      exact ⟨fulls, short, by rw [hsplit, hnil], hfull, hshort⟩
  · rintro ⟨fulls, last, hsplit, hfull, hshort⟩
    rw [hmessage fulls last [] hsplit hfull hshort, hsplit]
    simp

/-- One full chunk, a retry and a short chunk. -/
theorem recv_chunks_retry :
    recv readsNothing someDraws 2
        [.data (ascii "ab"), .wantRead, .data (ascii "c"), .zeroReturn] =
      some (complete (ascii "abc")) := by
  have hchunks : ∀ c ∈ [ascii "ab", ascii "c"], 0 < c.length ∧ c.length ≤ 2 := by
    decide +kernel
  exact (recv_chunks readsNothing someDraws hchunks rfl (by decide +kernel)
    (by decide +kernel)).1.mpr
      ⟨[ascii "ab"], ascii "c", rfl, by decide +kernel, by decide +kernel⟩

/-- Two octets that come one by one: the second is lost. -/
theorem split_request_truncated :
    ¬ ∀ (json : Nlohmann) (draws : Draws) (bufsize : Nat) (chunks : List Bytes)
      (r : Bytes)
      (reads : List TlsRead), 0 < bufsize → 0 < r.length →
        r.length < kReceptionBufLimit →
      (∀ c ∈ chunks, 0 < c.length ∧ c.length ≤ bufsize) → chunks.flatten = r →
      reads.filter (fun read => !isRetry read) = chunks.map .data ++ [.zeroReturn] →
      recv json draws bufsize reads = some (complete r) := by
  intro hclaim
  have hwhole := hclaim readsNothing someDraws 4 [ascii "a", ascii "b"] (ascii "ab")
    [.data (ascii "a"), .data (ascii "b"), .zeroReturn] (by decide) (by decide)
      (by decide)
    (by decide +kernel) (by decide +kernel) (by decide +kernel)
  have hfirst : recv readsNothing someDraws 4
      [.data (ascii "a"), .data (ascii "b"), .zeroReturn] =
        some (complete (ascii "a")) := by
    have hnone : ∀ c ∈ ([] : List Bytes), c.length = 4 := by simp
    exact recv_message readsNothing someDraws hnone (by decide) (by decide) _
  rw [hfirst, Option.some_inj] at hwhole
  exact absurd (complete_injective hwhole) (by decide)

end HttpsConnection

/-! ## The plain loop -/

namespace HttpConnection

variable (json : Nlohmann) (draws : Draws) {bufsize : Nat} (beyond : Bytes)

/-- What a chunk does to the text and the buffer: the buffer is overwritten from
the front, and what is then in it is appended as a C string. -/
def appendChunk (s : Bytes × Bytes) (chunk : Bytes) : Bytes × Bytes :=
  (s.1 ++ cString (overwrite s.2 chunk) beyond, overwrite s.2 chunk)

/-- The state after `total` octets were received, with this text and buffer. -/
def received (total : Nat) (s : Bytes × Bytes) : SocketState :=
  { resbytes := (total : Int), req := s.1, buf := s.2 }

theorem recvTurn_data {total : Nat} {chunk : Bytes}
    (hlimit : total + chunk.length < kReceptionBufLimit) (s : Bytes × Bytes) :
    recvTurn json draws bufsize beyond (received total s) (.data chunk) =
      if chunk.length < bufsize then .stop (complete (appendChunk beyond s chunk).1)
      else .next (received (total + chunk.length)
        (appendChunk beyond s chunk)) := by
  have hint : kReceptionBufLimit < 2 ^ 31 := by decide
  have hadd : addInt (total : Int) (chunk.length : Int) =
      .ok ((total + chunk.length : Nat) : Int) :=
    addInt_natCast _ _ (by omega)
  have hbelow :
      ¬ ((total + chunk.length : Nat) : Int) ≥ (kReceptionBufLimit : Int) := by
    omega
  simp only [recvTurn, received, hadd, if_neg hbelow, appendChunk]

/-- The plain loop stops where the TLS loop does, with the text that its chunks
make. -/
theorem run_message {fulls : List Bytes} {short : Bytes}
    (hfull : ∀ c ∈ fulls, c.length = bufsize) (hshort : short.length < bufsize)
    (reads : List SocketRead) (total : Nat) (s : Bytes × Bytes)
    (hlimit : total + (fulls.flatten ++ short).length < kReceptionBufLimit) :
    (recvLoop json draws bufsize beyond).run (received total s)
        (fulls.map SocketRead.data ++ .data short :: reads) =
      some (complete ((fulls ++ [short]).foldl (appendChunk beyond) s).1) := by
  induction fulls generalizing total s with
  | nil =>
    rw [List.flatten_nil, List.nil_append] at hlimit
    exact Loop.run_stop rfl
      ((recvTurn_data json draws beyond hlimit s).trans (if_pos hshort)) reads
  | cons c fulls ih =>
    rw [List.flatten_cons, List.append_assoc, List.length_append,
      ← Nat.add_assoc] at hlimit
    have hnot : ¬ c.length < bufsize := by
      rw [hfull c List.mem_cons_self]
      exact Nat.lt_irrefl bufsize
    have hturn :
        (recvLoop json draws bufsize beyond).turn (received total s) (.data c) =
        .next (received (total + c.length) (appendChunk beyond s c)) :=
      (recvTurn_data json draws beyond (by omega) s).trans (if_neg hnot)
    rw [List.map_cons, List.cons_append, Loop.run_next rfl hturn]
    exact ih (fun d hd => hfull d (List.mem_cons_of_mem c hd)) _ _ hlimit

/-! ### C strings against chunks -/

theorem cString_notMem (buf : Bytes) : (0 : Byte) ∉ cString buf beyond := by
  intro hmem
  have hall : (cString buf beyond).all (fun b => b != 0) = true :=
    List.all_takeWhile
  exact absurd (List.all_eq_true.mp hall 0 hmem) (by decide)

/-- A buffer without a NUL is taken whole, and more. -/
theorem length_le_cString {buf : Bytes} (h : (0 : Byte) ∉ buf) :
    buf.length ≤ (cString buf beyond).length := by
  have hall : ∀ b ∈ buf, (b != 0) = true := by
    intro b hb
    simpa using fun hzero : b = 0 => h (hzero ▸ hb)
  rw [cString, List.takeWhile_append_of_pos hall, List.length_append]
  exact Nat.le_add_right _ _

theorem overwrite_length {buf chunk : Bytes} (h : chunk.length ≤ buf.length) :
    (overwrite buf chunk).length = buf.length := by
  rw [overwrite, List.length_append, List.length_drop]
  omega

theorem overwrite_full {buf chunk : Bytes} (h : chunk.length = buf.length) :
    overwrite buf chunk = chunk := by
  rw [overwrite, h, List.drop_length, List.append_nil]

/-- What the plain loop appends never holds a NUL. -/
theorem foldl_notMem (chunks : List Bytes) (s : Bytes × Bytes)
    (h : (0 : Byte) ∉ s.1) :
    (0 : Byte) ∉ (chunks.foldl (appendChunk beyond) s).1 := by
  induction chunks generalizing s with
  | nil => exact h
  | cons c chunks ih =>
    rw [List.foldl_cons]
    apply ih
    rw [appendChunk, List.mem_append, not_or]
    exact ⟨h, cString_notMem beyond _⟩

/-- Full chunks without a NUL are all appended, and the last one stays in the
buffer. -/
theorem foldl_fulls {fulls : List Bytes} (hne : fulls ≠ []) (s : Bytes × Bytes)
    (hfull : ∀ c ∈ fulls, c.length = s.2.length)
    (hno : ∀ c ∈ fulls, (0 : Byte) ∉ c) :
    s.1.length + fulls.flatten.length ≤
      (fulls.foldl (appendChunk beyond) s).1.length ∧
      (fulls.foldl (appendChunk beyond) s).2.length = s.2.length ∧
      (0 : Byte) ∉ (fulls.foldl (appendChunk beyond) s).2 := by
  induction fulls generalizing s with
  | nil => exact absurd rfl hne
  | cons c fulls ih =>
    have hc : overwrite s.2 c = c := overwrite_full (hfull c List.mem_cons_self)
    have hcNo : (0 : Byte) ∉ c := hno c List.mem_cons_self
    have hcLen : c.length = s.2.length := hfull c List.mem_cons_self
    have hstep : appendChunk beyond s c = (s.1 ++ cString c beyond, c) := by
      rw [appendChunk, hc]
    have hgrow : s.1.length + c.length ≤ (s.1 ++ cString c beyond).length := by
      rw [List.length_append]
      exact Nat.add_le_add_left (length_le_cString beyond hcNo) _
    rw [List.foldl_cons, hstep, List.flatten_cons, List.length_append]
    cases fulls with
    | nil => exact ⟨by simpa using hgrow, hcLen, hcNo⟩
    | cons d fulls =>
      obtain ⟨htext, hbuf, hlast⟩ :=
        ih (List.cons_ne_nil d fulls) (s.1 ++ cString c beyond, c)
        (fun e he => (hfull e (List.mem_cons_of_mem c he)).trans hcLen.symm)
        (fun e he => hno e (List.mem_cons_of_mem c he))
      exact ⟨by simp only at htext; omega, hbuf.trans hcLen, hlast⟩

/-- The text that the plain loop makes of a message is the message exactly when the
message is one chunk without a NUL, and a NUL stood behind it in the buffer. -/
theorem text_eq_iff {buf : Bytes} {fulls : List Bytes} {short : Bytes}
    (hfull : ∀ c ∈ fulls, c.length = buf.length)
    (hshort : short.length < buf.length) :
    ((fulls ++ [short]).foldl (appendChunk beyond) ([], buf)).1 =
      fulls.flatten ++ short ↔
      fulls = [] ∧ (0 : Byte) ∉ short ∧ buf[short.length]? = some 0 := by
  constructor
  · intro htext
    have hno : (0 : Byte) ∉ fulls.flatten ++ short := by
      rw [← htext]
      exact foldl_notMem beyond (fulls ++ [short]) ([], buf) List.not_mem_nil
    rw [List.mem_append, not_or] at hno
    obtain ⟨hnoFulls, hnoShort⟩ := hno
    rw [List.foldl_append, List.foldl_cons, List.foldl_nil, appendChunk] at htext
    have hnil : fulls = [] := by
      by_contra hne
      obtain ⟨hlength, hbuf, hnoBuf⟩ := foldl_fulls beyond hne ([], buf) hfull
        fun c hc hmem => hnoFulls (List.mem_flatten.mpr ⟨c, hc, hmem⟩)
      -- stale octets of the last full chunk stand behind the short one
      have hstale : (0 : Byte) ∉ overwrite
          (fulls.foldl (appendChunk beyond) ([], buf)).2 short := by
        rw [overwrite, List.mem_append, not_or]
        exact ⟨hnoShort, fun hmem => hnoBuf (List.mem_of_mem_drop hmem)⟩
      have hlong := length_le_cString beyond hstale
      rw [overwrite_length (by rw [hbuf]; exact Nat.le_of_lt hshort), hbuf] at hlong
      have htextLen := congrArg List.length htext
      simp only [List.length_append, List.length_nil] at htextLen hlength
      simp only at hlong
      omega
    subst hnil
    refine ⟨rfl, hnoShort, ?_⟩
    rw [List.foldl_nil, List.flatten_nil, List.nil_append, List.nil_append,
      overwrite, List.drop_eq_getElem_cons hshort] at htext
    by_contra hzero
    have hbehind : (buf[short.length] != 0) = true := by
      simpa [List.getElem?_eq_getElem hshort] using hzero
    have hall : ∀ b ∈ short, (b != 0) = true := by
      intro b hb
      simpa using fun h : b = 0 => hnoShort (h ▸ hb)
    rw [cString, List.append_assoc, List.takeWhile_append_of_pos hall,
      List.cons_append,
      List.takeWhile_cons_of_pos (p := fun b : Byte => b != 0) hbehind] at htext
    have hlength := congrArg List.length htext
    simp at hlength
  · rintro ⟨rfl, hno, hzero⟩
    have hall : ∀ b ∈ short, (b != 0) = true := by
      intro b hb
      simpa using fun h : b = 0 => hno (h ▸ hb)
    have hbehind : buf[short.length] = 0 := by
      simpa [List.getElem?_eq_getElem hshort] using hzero
    rw [List.nil_append, List.foldl_cons, List.foldl_nil, appendChunk, overwrite,
      List.drop_eq_getElem_cons hshort, hbehind, cString, List.append_assoc,
      List.takeWhile_append_of_pos hall, List.cons_append,
      List.takeWhile_cons_of_neg (by decide)]
    simp

end HttpConnection

end UniServer.Http
