/-
  Http/Serialize.lean --- `HttpCodec::serialize`, and a client that reads what it
  wrote.

  `decodeResponse` is the client: it cuts at the first blank line, takes the head
  apart line by line and leaves the remainder alone.
-/
import UniServer.Http.RequestHead

set_option autoImplicit false

namespace UniServer.Http

open UniServer.Foundation UniServer.Common

/-! ## Writing -/

/-- The `for_each` over the headers, in iteration order. -/
def appendHeaders (out : Bytes) (entries : List (Bytes × Bytes)) : Bytes :=
  entries.foldl
    (fun out kv => out ++ (kv.1 ++ ascii ": " ++ kv.2 ++ ascii "\r\n")) out

/-- `HttpCodec::serialize`. -/
def serialize (json : Nlohmann) (resp : Response) : Run Bytes := noexcept do
  let body ← json.dump resp.body 4
  let out := ascii "HTTP/1.1 " ++ decimal resp.status.code.toNat ++ ascii " " ++
    obsoleteReason resp.status ++
      ascii "\r\nContent-Type: application/json\r\nContent-Length: " ++
    decimal body.length ++ ascii "\r\n"
  let out := appendHeaders out resp.headers.entries
  return out ++ ascii "\r\n" ++ body

/-- `: `. -/
def fieldMark : Bytes := [58, 32]

/-- One header line. -/
def responseLine (field : Bytes × Bytes) : Bytes := field.1 ++ fieldMark ++ field.2

/-- `HTTP/1.1 SP status SP reason`. -/
def statusLine (status : HttpStatus) : Bytes :=
  ascii "HTTP/1.1" ++ space ++
    (decimal status.code.toNat ++ space ++ obsoleteReason status)

/-- The header fields that are sent: two of the serializer's own, and those of
the response. -/
def sentFields (resp : Response) (body : Bytes) : List (Bytes × Bytes) :=
  (ascii "Content-Type", ascii "application/json") ::
    (ascii "Content-Length", decimal body.length) :: resp.headers.entries

/-- The lines before the blank line. -/
def sentLines (resp : Response) (body : Bytes) : List Bytes :=
  statusLine resp.status :: (sentFields resp body).map responseLine

theorem appendHeaders_eq (out : Bytes) (entries : List (Bytes × Bytes)) :
    appendHeaders out entries = out ++ joined crlf (entries.map responseLine) := by
  induction entries generalizing out with
  | nil => simp [appendHeaders]
  | cons kv entries ih =>
    have hstep : appendHeaders out (kv :: entries) =
        appendHeaders (out ++ (kv.1 ++ ascii ": " ++ kv.2 ++ ascii "\r\n"))
          entries := rfl
    have hline :
        kv.1 ++ ascii ": " ++ kv.2 ++ ascii "\r\n" = responseLine kv ++ crlf := rfl
    rw [hstep, ih, hline, List.map_cons, joined_cons, List.append_assoc]

/-- The output is a list of lines, a blank line and the dumped body. -/
theorem serialize_eq {json : Nlohmann} {resp : Response} {body : Bytes}
    (hdump : json.dump resp.body 4 = .ok body) :
    serialize json resp =
      .ok (joined crlf (sentLines resp body) ++ crlf ++ body) := by
  have hfixed : ascii "\r\nContent-Type: application/json\r\nContent-Length: " =
      crlf ++ responseLine (ascii "Content-Type", ascii "application/json") ++
        crlf ++ ascii "Content-Length" ++ fieldMark := by
    decide +kernel
  have hversion : ascii "HTTP/1.1 " = ascii "HTTP/1.1" ++ space := by decide +kernel
  have hspace : ascii " " = space := by decide +kernel
  have hcrlf : ascii "\r\n" = crlf := by decide +kernel
  rw [serialize, hdump, Run.ok_bind]
  simp only [appendHeaders_eq, hfixed, hversion, hspace, hcrlf, Run.pure_eq,
    noexcept_ok]
  simp only [sentLines, sentFields, statusLine, responseLine, List.map_cons,
    joined_cons, List.append_assoc]

/-! ## Reading -/

/-- A response as a client sees it. -/
structure ResponseText where
  version : Bytes
  status : Nat
  reason : Bytes
  headers : List (Bytes × Bytes)
  body : Bytes
  deriving DecidableEq

/-- The name and the value of each line, or none where a line has no `: `. -/
def decodeFields (lines : List Bytes) : Option (List (Bytes × Bytes)) :=
  lines.mapM (cut fieldMark)

/-- A client's reading of the lines of a head. -/
def decodeLines (body : Bytes) : List Bytes → Option ResponseText
  | [] => none
  | status :: lines => do
      let (version, rest) ← cut space status
      let (code, reason) ← cut space rest
      let headers ← decodeFields lines
      return { version := version, status := readDecimal code, reason := reason,
               headers := headers, body := body }

/-- A client's reading of a response. -/
def decodeResponse (out : Bytes) : Option ResponseText :=
  (cut crlfcrlf out).bind fun parts =>
    decodeLines parts.2 (linesOf (parts.1 ++ crlf))

/-! ## What is written is read -/

/-- Names and values that cannot be taken for a line end or for the end of a
name. -/
structure Sendable (headers : HeaderMap) : Prop where
  names : ∀ entry ∈ headers.entries, (58 : Byte) ∉ entry.1 ∧ ¬ crlf <:+: entry.1
  values : ∀ entry ∈ headers.entries, ¬ crlf <:+: entry.2

theorem decimal_notMem {b : Byte} (h : b.toNat < 48 ∨ 57 < b.toNat) (n : Nat) :
    b ∉ decimal n := by
  intro hmem
  have := decimal_digits n b hmem
  omega

/-- The fields of a response are sendable when its headers are. -/
theorem sentFields_clean {resp : Response} (h : Sendable resp.headers)
    (body : Bytes) :
    ∀ field ∈ sentFields resp body,
      (58 : Byte) ∉ field.1 ∧ ¬ crlf <:+: field.1 ∧ ¬ crlf <:+: field.2 := by
  intro field hfield
  rw [sentFields, List.mem_cons, List.mem_cons] at hfield
  rcases hfield with rfl | rfl | hfield
  · exact ⟨by decide +kernel, by decide +kernel, by decide +kernel⟩
  · have hname : (58 : Byte) ∉ ascii "Content-Length" ∧
        ¬ crlf <:+: ascii "Content-Length" := by
      decide +kernel
    exact ⟨hname.1, hname.2,
      no_crlf_of_notMem (decimal_notMem (Or.inl (by decide)) body.length)⟩
  · exact ⟨(h.names field hfield).1, (h.names field hfield).2,
      h.values field hfield⟩

theorem responseLine_clean {field : Bytes × Bytes} (hname : ¬ crlf <:+: field.1)
    (hvalue : ¬ crlf <:+: field.2) :
    responseLine field ≠ [] ∧ ¬ crlf <:+: responseLine field := by
  refine ⟨by simp [responseLine, fieldMark], ?_⟩
  have hmark : ¬ crlf <:+: fieldMark ++ field.2 :=
    not_pair_cons (by decide) (not_pair_cons (by decide) hvalue)
  have hhead : (fieldMark ++ field.2).head? ≠ some 10 := by
    simp [fieldMark]
  rw [responseLine, List.append_assoc]
  exact not_pair_append hname hmark hhead

theorem statusLine_clean (status : HttpStatus) :
    statusLine status ≠ [] ∧ ¬ crlf <:+: statusLine status := by
  refine ⟨by simp [statusLine, space], no_crlf_of_notMem fun hmem => ?_⟩
  simp only [statusLine, List.mem_append] at hmem
  rcases hmem with (hmem | hmem) | (hmem | hmem) | hmem
  · exact absurd hmem (by decide)
  · exact absurd hmem (by decide)
  · exact decimal_notMem (Or.inl (by decide)) _ hmem
  · exact absurd hmem (by decide)
  · exact absurd (obsoleteReason_printable status 13 hmem).1 (by decide)

theorem sentLines_clean {resp : Response} (h : Sendable resp.headers)
    (body : Bytes) :
    ∀ line ∈ sentLines resp body, line ≠ [] ∧ ¬ crlf <:+: line := by
  intro line hline
  rcases List.mem_cons.mp hline with rfl | hline
  · exact statusLine_clean resp.status
  · obtain ⟨field, hfield, rfl⟩ := List.mem_map.mp hline
    obtain ⟨_, hname, hvalue⟩ := sentFields_clean h body field hfield
    exact responseLine_clean hname hvalue

theorem cut_statusLine (status : HttpStatus) :
    cut space (statusLine status) =
        some (ascii "HTTP/1.1",
          decimal status.code.toNat ++ space ++ obsoleteReason status) ∧
      cut space (decimal status.code.toNat ++ space ++ obsoleteReason status) =
        some (decimal status.code.toNat, obsoleteReason status) :=
  ⟨cut_append (firstAt_singleton.mpr (by decide)) _,
    cut_append (firstAt_singleton.mpr (decimal_notMem (Or.inl (by decide)) _)) _⟩

theorem decodeFields_responseLines {fields : List (Bytes × Bytes)}
    (h : ∀ field ∈ fields, (58 : Byte) ∉ field.1) :
    decodeFields (fields.map responseLine) = some fields := by
  induction fields with
  | nil => rfl
  | cons field fields ih =>
    have hcut : cut fieldMark (responseLine field) = some (field.1, field.2) :=
      cut_append (firstAt_of_not_infix_of_notMem
        (by decide) (h field List.mem_cons_self)) _
    have hrest := ih fun other hother => h other (List.mem_cons_of_mem field hother)
    rw [decodeFields] at hrest ⊢
    rw [List.map_cons, List.mapM_cons, hcut, hrest]
    rfl

theorem sentLines_ne_nil (resp : Response) (body : Bytes) :
    sentLines resp body ≠ [] :=
  List.cons_ne_nil _ _

/-- Lines that are not empty and hold no CRLF end at the first blank line behind
them, and cutting there gives the lines again. -/
theorem cut_framed {lines : List Bytes} (hne : lines ≠ [])
    (hclean : ∀ line ∈ lines, line ≠ [] ∧ ¬ crlf <:+: line) (body : Bytes) :
    ∃ head, cut crlfcrlf (joined crlf lines ++ crlf ++ body) = some (head, body) ∧
      linesOf (head ++ crlf) = lines := by
  obtain ⟨front, hfront, hfirst⟩ :=
    joined_doubled (by decide : (13 : Byte) ≠ 10) hne hclean
  have hhead : front ++ crlf = joined crlf lines := by
    have hdouble : joined crlf lines ++ crlf = (front ++ crlf) ++ crlf := by
      rw [List.append_assoc]
      exact hfront
    exact (List.append_cancel_right hdouble).symm
  refine ⟨front, ?_, ?_⟩
  · rw [← hhead, List.append_assoc front]
    exact cut_append hfirst body
  · rw [hhead]
    exact linesOf_joined_self fun line hline => (hclean line hline).2

/-- A client reads from the output the status, the reason, the header fields and
the body that were put in, and the length it reads is that of the body. -/
theorem decodeResponse_serialize {json : Nlohmann} {resp : Response} {body : Bytes}
    (hsend : Sendable resp.headers) (hdump : json.dump resp.body 4 = .ok body) :
    ∃ out, serialize json resp = .ok out ∧
      decodeResponse out = some
        { version := ascii "HTTP/1.1", status := resp.status.code.toNat,
          reason := obsoleteReason resp.status,
          headers := (ascii "Content-Type", ascii "application/json") ::
            (ascii "Content-Length", decimal body.length) :: resp.headers.entries,
          body := body } ∧
      readDecimal (decimal body.length) = body.length := by
  refine ⟨_, serialize_eq hdump, ?_, readDecimal_decimal body.length⟩
  have hclean := sentLines_clean hsend body
  obtain ⟨front, hcut, hlines⟩ :=
    cut_framed (sentLines_ne_nil resp body) hclean body
  obtain ⟨hversion, hcode⟩ := cut_statusLine resp.status
  have hfields : decodeFields ((sentFields resp body).map responseLine) =
      some (sentFields resp body) :=
    decodeFields_responseLines fun field hfield =>
      (sentFields_clean hsend body field hfield).1
  rw [decodeResponse, hcut, Option.bind_some]
  simp only [hlines]
  rw [sentLines, decodeLines, hversion]
  simp only [Option.bind_eq_bind, Option.bind_some, hcode, hfields,
    readDecimal_decimal]
  rfl

/-- The status can be told from the output alone. -/
theorem serialize_status {json : Nlohmann} {resp resp' : Response} {out : Bytes}
    (h : serialize json resp = .ok out) (h' : serialize json resp' = .ok out) :
    resp.status.code.toNat = resp'.status.code.toNat := by
  have hhead : ∀ resp : Response, serialize json resp = .ok out →
      ∃ rest, out = ascii "HTTP/1.1" ++ space ++
        (decimal resp.status.code.toNat ++ space ++ rest) := by
    intro resp hout
    cases hdump : json.dump resp.body 4 with
    | error e =>
      rw [serialize, noexcept_eq_ok_iff, hdump, Run.error_bind] at hout
      cases hout
    | ok body =>
      rw [serialize_eq hdump, sentLines, joined_cons, statusLine] at hout
      cases hout
      simp only [List.append_assoc]
      exact ⟨_, rfl⟩
  obtain ⟨rest, hout⟩ := hhead resp h
  obtain ⟨rest', hout'⟩ := hhead resp' h'
  have hcode : ∀ n rest, cut space (decimal n ++ space ++ rest) =
      some (decimal n, rest) :=
    fun n rest => cut_append
      (firstAt_singleton.mpr (decimal_notMem (Or.inl (by decide)) n)) rest
  have hsame := congrArg (cut space)
    (List.append_cancel_left (hout.symm.trans hout'))
  rw [hcode, hcode, Option.some_inj, Prod.mk.injEq] at hsame
  rw [← readDecimal_decimal resp.status.code.toNat, hsame.1, readDecimal_decimal]

/-- A response whose header value holds a colon and a lone CR. -/
def sampleResponse : Response where
  status := RetCode.success.toHttpStatus
  headers := NormMap.empty.assign (ascii "X-Request-Id") (ascii "a: b\rc")
  body := .null

/-- A library that renders every document as `null` is. -/
def writesNull : Nlohmann := ⟨fun _ => .error .parseError, fun _ _ => ascii "null"⟩

theorem decodeResponse_serialize_sampleResponse :
    ∃ out, serialize writesNull sampleResponse = .ok out ∧
      decodeResponse out = some
        { version := ascii "HTTP/1.1", status := 200, reason := ascii "OK",
          headers := [(ascii "Content-Type", ascii "application/json"),
            (ascii "Content-Length", ascii "4"),
            (ascii "X-Request-Id", ascii "a: b\rc")],
          body := ascii "null" } ∧
      readDecimal (decimal (ascii "null").length) = (ascii "null").length := by
  have hsend : Sendable sampleResponse.headers :=
    ⟨by decide +kernel, by decide +kernel⟩
  have hdump : writesNull.dump sampleResponse.body 4 = .ok (ascii "null") := rfl
  obtain ⟨out, hout, hdecode, hlength⟩ := decodeResponse_serialize hsend hdump
  refine ⟨out, hout, ?_, hlength⟩
  rw [hdecode]
  decide +kernel

end UniServer.Http
