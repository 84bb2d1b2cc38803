/-
  Http/ParseLog.lean --- the log records of `HttpCodec::parse`.

  `parse` logs what it finds: the request line when it does not know the method,
  the path when it does, and what the JSON library says of a body it cannot read.
  These texts come from the peer.  With the JSON format a record of one that is not
  UTF-8 ends the process.

  The calls of `LOG` are added to the model of `Http/CodecParse`; the results are
  the same (`result_parse`).
-/
import UniServer.Common.Uuid
import UniServer.Foundation.Traced
import UniServer.Http.Serialize
import UniServer.Logging.Format

set_option autoImplicit false

namespace UniServer.Http

open UniServer.Foundation UniServer.Common UniServer.Logging

/-- What the `LOG` macro is given. -/
structure LogCall where
  level : Log
  msg : Bytes
  details : List (Bytes × Bytes)
  deriving DecidableEq

/-- The record of a call, with the place and the time at which it is made. -/
def LogCall.toInfo (call : LogCall) (loc : SourceLocation) (timepoint : Bytes) :
    LogInfo where
  status := call.level
  info := call.msg
  loc := loc
  details := call.details
  timepoint := timepoint

/-- The texts of a call are UTF-8. -/
def LogCall.Utf8 (call : LogCall) : Prop :=
  ∀ detail ∈ call.details, validUtf8 detail.1 = true ∧ validUtf8 detail.2 = true

/-- A call that may log. -/
abbrev Logged (α : Type) : Type := Traced LogCall Abort α

namespace Logged

/-- One of the macros `LOG_TRACE`, `LOG_WARN` and so on. -/
def log (level : Log) (msg : String) (details : List (Bytes × Bytes)) :
    Logged Unit :=
  Traced.emit { level := level, msg := ascii msg, details := details }

/-- `/// parse target`. -/
def parseTarget (targets : Bytes) : Logged (Option (Method × Bytes × Bytes)) := do
  match ← Traced.lift (Http.parseTarget targets) with
  | none =>
      log .warning "Incorrectly specified method <UNKNOWN>"
        [(ascii "raw_target", targets)]
      return none
  | some (method, path, version) =>
      log .trace "Target line parsed"
        [(ascii "method", method.toText), (ascii "path", path)]
      return some (method, path, version)

/-- `/// parse header`. -/
def parseHeaders (headers : Bytes) : Logged (Option HeaderMap) := do
  let lineEnd := toInt (find headers crlf 0)
  if toSize lineEnd = npos then
    log .warning "The header field is missing from the request" []
    return none
  else
    let fields ← Traced.lift
      (scanHeaders headers (headers.length + 1) 0 lineEnd .empty)
    if fields.contains (ascii "Host") then
      log .trace "Headers parsed"
        [(ascii "header_count", decimal fields.entries.length)]
      return some fields
    else
      log .warning "Host is not specified in header" []
      return none

/-- `/// parse body`; `what` is the text of the `parse_error` that a body gives. -/
def parseBody (json : Nlohmann) (what : Bytes → Bytes) (rawReq : Bytes)
    (endHeaders : Int) : Logged (Option Json) := do
  if toSize endHeaders = npos then
    return some .null
  else
    let start ← Traced.lift (addInt endHeaders 4)
    let body ← Traced.lift (substr rawReq (toSize start) npos)
    if body = [] then
      return some .null
    else
      match json.parse body with
      | .ok document => return some document.toOrdered
      | .error (.throw .jsonParseError) =>
          log .warning "Failed to parse JSON body" [(ascii "error", what body)]
          return none
      | .error e => Traced.lift (.error e)

/-- `HttpCodec::parse`. -/
def parse (json : Nlohmann) (what : Bytes → Bytes) (id : Bytes) (rawReq : Bytes) :
    Logged (Option Request) := do
  log .trace "Parsing incoming request"
    [(ascii "raw_size", decimal rawReq.length)]
  let endTargets := toInt (find rawReq crlf 0)
  let endHeaders := toInt (find rawReq crlfcrlf 0)
  if toSize endTargets = npos then
    log .warning "The request is not in the correct format" []
    return none
  else
    let targets ← Traced.lift (substr rawReq 0 (toSize endTargets))
    match ← parseTarget targets with
    | none => return none
    | some (method, path, version) =>
      let start ← Traced.lift (addInt endTargets 2)
      let headers ← Traced.lift (substr rawReq (toSize start) (toSize endHeaders))
      match ← parseHeaders headers with
      | none => return none
      | some fields =>
        match ← parseBody json what rawReq endHeaders with
        | none => return none
        | some body =>
          log .debug "Request successfully parsed" [(ascii "request_id", id)]
          return some
            { id := id, method := method, path := path, version := version,
              headers := fields, body := body }

/-! ## Logging changes no result -/

theorem result_parseTarget (targets : Bytes) :
    (parseTarget targets).result = Http.parseTarget targets := by
  rw [parseTarget, Traced.result_bind, Traced.result_lift]
  cases Http.parseTarget targets with
  | error e => rfl
  | ok target =>
    cases target with
    | none => rfl
    | some target => rfl

theorem result_parseHeaders (headers : Bytes) :
    (parseHeaders headers).result = Http.parseHeaders headers := by
  unfold parseHeaders Http.parseHeaders
  simp only []
  split
  · rfl
  · apply Traced.result_bind_eq rfl
    intro fields
    split
    · rfl
    · rfl

theorem result_parseBody (json : Nlohmann) (what : Bytes → Bytes) (rawReq : Bytes)
    (endHeaders : Int) :
    (parseBody json what rawReq endHeaders).result =
      Http.parseBody json rawReq endHeaders := by
  unfold parseBody Http.parseBody
  split
  · rfl
  · apply Traced.result_bind_eq rfl
    intro start
    apply Traced.result_bind_eq rfl
    intro body
    split
    · rfl
    · cases json.parse body with
      | ok document => rfl
      | error e =>
        cases e with
        | throw exn => cases exn <;> rfl
        | terminate => rfl
        | overflow => rfl
        | diverge => rfl

theorem result_parse (json : Nlohmann) (what : Bytes → Bytes) (id rawReq : Bytes) :
    (parse json what id rawReq).result = Http.parse json id rawReq := by
  unfold parse Http.parse
  rw [Traced.result_bind, log, Traced.result_emit, Run.ok_bind]
  simp only []
  split
  · rfl
  · apply Traced.result_bind_eq rfl
    intro targets
    apply Traced.result_bind_eq (result_parseTarget targets)
    intro target
    cases target with
    | none => rfl
    | some target =>
      apply Traced.result_bind_eq rfl
      intro start
      apply Traced.result_bind_eq rfl
      intro headers
      apply Traced.result_bind_eq (result_parseHeaders headers)
      intro fields
      cases fields with
      | none => rfl
      | some fields =>
        apply Traced.result_bind_eq (result_parseBody json what rawReq _)
        intro body
        cases body with
        | none => rfl
        | some body => rfl

/-! ## Which records can be written -/

/-- When it is logged at all, the texts of a call are UTF-8. -/
def Readable (setLevel : Log) (call : LogCall) : Prop :=
  shouldLog setLevel call.level = true → ∀ detail ∈ call.details,
    validUtf8 detail.1 = true ∧ validUtf8 detail.2 = true

/-- `JsonFormat` returns on the record of a call, wherever and whenever it is
made. -/
def Survives (json : Nlohmann) (setLevel : Log) (call : LogCall) : Prop :=
  shouldLog setLevel call.level = true → ∀ loc timepoint,
    validUtf8 loc.fileName = true → validUtf8 timepoint = true →
    ∃ text, jsonFormat json (call.toInfo loc timepoint) = .ok text

theorem survives_iff (json : Nlohmann) (setLevel : Log) (call : LogCall) :
    Survives json setLevel call ↔ Readable setLevel call := by
  constructor
  · intro h hlogged
    have hreturns := h hlogged ⟨[], 0, 0⟩ [] rfl rfl
    rw [jsonFormat_returns_iff] at hreturns
    exact hreturns.details
  · intro h hlogged loc timepoint hfile htime
    rw [jsonFormat_returns_iff]
    exact ⟨htime, hfile, h hlogged⟩

variable {setLevel : Log}

/-- A call with one detail, whose name is a literal. -/
theorem readable_one {level : Log} {msg name value : Bytes}
    (hname : validUtf8 name = true) :
    Readable setLevel { level := level, msg := msg, details := [(name, value)] } ↔
      (shouldLog setLevel level = true → validUtf8 value = true) := by
  simp [Readable, hname]

theorem readable_none {level : Log} {msg : Bytes} :
    Readable setLevel { level := level, msg := msg, details := [] } := by
  simp [Readable]

theorem validUtf8_decimal (n : Nat) : validUtf8 (decimal n) = true := by
  apply validUtf8_of_ascii
  intro b hb
  have hdigit := decimal_digits n b hb
  omega

theorem validUtf8_uuid (a b : BitVec 64) :
    validUtf8 (generateUuidV4 a b) = true := by
  apply validUtf8_of_ascii
  intro c hc
  rcases generateUuidV4_bytes a b c hc with hdigit | rfl
  · unfold IsHexDigit at hdigit
    omega
  · decide

/-! ## What each part records -/

theorem each_parseTarget (targets : Bytes) :
    (parseTarget targets).Each (Readable setLevel) ↔
      (Http.parseTarget targets = .ok none →
        shouldLog setLevel .warning = true → validUtf8 targets = true) ∧
      ∀ method path version,
        Http.parseTarget targets = .ok (some (method, path, version)) →
        shouldLog setLevel .trace = true → validUtf8 path = true := by
  have hname : validUtf8 (ascii "raw_target") = true := by decide +kernel
  have hnames : validUtf8 (ascii "method") = true ∧
      validUtf8 (ascii "path") = true := by
    decide +kernel
  rw [parseTarget, Traced.each_lift_bind]
  cases Http.parseTarget targets with
  | error e =>
    refine iff_of_true (fun a ha => ?_) ⟨fun h => ?_, fun _ _ _ h => ?_⟩
    · cases ha
    · cases h
    · cases h
  | ok target =>
    cases target with
    | none =>
      simp only [Except.ok.injEq, forall_eq', log, Traced.each_emit_bind,
        readable_one hname]
      simp [Traced.each_pure]
    | some target =>
      obtain ⟨method, path, version⟩ := target
      have hmethod : validUtf8 method.toText = true := by
        cases method <;> decide +kernel
      simp only [Except.ok.injEq, forall_eq', log, Traced.each_emit_bind]
      simp [Readable, hnames, hmethod, Traced.each_pure]

theorem each_parseHeaders (headers : Bytes) :
    (parseHeaders headers).Each (Readable setLevel) := by
  have hname : validUtf8 (ascii "header_count") = true := by decide +kernel
  unfold parseHeaders
  simp only []
  split
  · rw [log, Traced.each_emit_bind]
    exact ⟨readable_none, Traced.each_pure _⟩
  · rw [Traced.each_lift_bind]
    intro fields _
    split
    · rw [log, Traced.each_emit_bind, readable_one hname]
      exact ⟨fun _ => validUtf8_decimal _, Traced.each_pure _⟩
    · rw [log, Traced.each_emit_bind]
      exact ⟨readable_none, Traced.each_pure _⟩

/-- `parse body` comes to this text, which the library refuses. -/
def RejectedBody (json : Nlohmann) (rawReq : Bytes) (endHeaders : Int)
    (body : Bytes) : Prop :=
  toSize endHeaders ≠ npos ∧
    (∃ start, addInt endHeaders 4 = .ok start ∧
      substr rawReq (toSize start) npos = .ok body) ∧
    body ≠ [] ∧ json.parse body = .error (.throw .jsonParseError)

theorem each_parseBody (json : Nlohmann) (what : Bytes → Bytes) (rawReq : Bytes)
    (endHeaders : Int) :
    (parseBody json what rawReq endHeaders).Each (Readable setLevel) ↔
      ∀ body, RejectedBody json rawReq endHeaders body →
        shouldLog setLevel .warning = true → validUtf8 (what body) = true := by
  have hname : validUtf8 (ascii "error") = true := by decide +kernel
  unfold parseBody RejectedBody
  split
  · rename_i hnone
    exact iff_of_true (Traced.each_pure _) (fun body h => absurd hnone h.1)
  · rename_i hsome
    rw [Traced.each_lift_bind]
    have hpart : ∀ body, Traced.Each (Readable setLevel)
        (if body = [] then pure (some Json.null)
        else
          match json.parse body with
          | .ok document => pure (some document.toOrdered)
          | .error (.throw .jsonParseError) => do
              log .warning "Failed to parse JSON body" [(ascii "error", what body)]
              pure none
          | .error e => Traced.lift (.error e)) ↔
        (body ≠ [] → json.parse body = .error (.throw .jsonParseError) →
          shouldLog setLevel .warning = true → validUtf8 (what body) = true) := by
      intro body
      split
      · rename_i hempty
        exact iff_of_true (Traced.each_pure _) (fun hne => absurd hempty hne)
      · rename_i hne
        split
        · rename_i hparse
          refine iff_of_true (Traced.each_pure _) (fun _ h => ?_)
          rw [hparse] at h
          cases h
        · rename_i hparse
          rw [log, Traced.each_emit_bind, readable_one hname]
          simp [hne, hparse, Traced.each_pure]
        · rename_i e hother hparse
          refine iff_of_true (Traced.each_lift _) (fun _ h => ?_)
          rw [hparse] at h
          cases h
          exact absurd rfl hother
    constructor
    · intro h body hrejected
      obtain ⟨_, ⟨start, hstart, hbody⟩, hne, hparse⟩ := hrejected
      have hlater := h start hstart
      rw [Traced.each_lift_bind] at hlater
      exact (hpart body).mp (hlater body hbody) hne hparse
    · intro h start hstart
      rw [Traced.each_lift_bind]
      intro body hbody
      exact (hpart body).mpr fun hne hparse =>
        h body ⟨hsome, ⟨start, hstart, hbody⟩, hne, hparse⟩

/-! ## A whole request -/

/-- The text that `parse` takes for the request line. -/
def RequestLine (rawReq targets : Bytes) : Prop :=
  toSize (toInt (find rawReq crlf 0)) ≠ npos ∧
    substr rawReq 0 (toSize (toInt (find rawReq crlf 0))) = .ok targets

/-- `parse` gets as far as the body. -/
def HeadAccepted (rawReq : Bytes) : Prop :=
  ∃ targets target start headers fields, RequestLine rawReq targets ∧
    Http.parseTarget targets = .ok (some target) ∧
    addInt (toInt (find rawReq crlf 0)) 2 = .ok start ∧
    substr rawReq (toSize start) (toSize (toInt (find rawReq crlfcrlf 0))) =
      .ok headers ∧
    Http.parseHeaders headers = .ok (some fields)

/-- What is logged of a request at this level is UTF-8: the request line when its
method is unknown, the path when it is known, and what the library says of a body
that it refuses. -/
structure TextsUtf8 (json : Nlohmann) (what : Bytes → Bytes) (setLevel : Log)
    (rawReq : Bytes) : Prop where
  target : shouldLog setLevel .warning = true →
    ∀ targets, RequestLine rawReq targets →
      Http.parseTarget targets = .ok none → validUtf8 targets = true
  path : shouldLog setLevel .trace = true →
    ∀ targets method path version, RequestLine rawReq targets →
      Http.parseTarget targets = .ok (some (method, path, version)) →
      validUtf8 path = true
  error : shouldLog setLevel .warning = true →
    ∀ body, HeadAccepted rawReq →
      RejectedBody json rawReq (toInt (find rawReq crlfcrlf 0)) body →
      validUtf8 (what body) = true

/-- What is recorded behind a request line that `parse` takes. -/
theorem each_behindTarget (json : Nlohmann) (what : Bytes → Bytes) {id : Bytes}
    (hid : validUtf8 id = true) (rawReq : Bytes) (endTargets endHeaders : Int)
    (request : HeaderMap → Json → Request) :
    Traced.Each (Readable setLevel) (do
      let start ← Traced.lift (addInt endTargets 2)
      let headers ← Traced.lift (substr rawReq (toSize start) (toSize endHeaders))
      match ← parseHeaders headers with
      | none => return none
      | some fields =>
        match ← parseBody json what rawReq endHeaders with
        | none => return none
        | some body =>
          log .debug "Request successfully parsed" [(ascii "request_id", id)]
          return some (request fields body)) ↔
      ∀ start headers fields, addInt endTargets 2 = .ok start →
        substr rawReq (toSize start) (toSize endHeaders) = .ok headers →
        Http.parseHeaders headers = .ok (some fields) →
        (parseBody json what rawReq endHeaders).Each (Readable setLevel) := by
  have hname : validUtf8 (ascii "request_id") = true := by decide +kernel
  rw [Traced.each_lift_bind]
  constructor
  · intro h start headers fields hstart hwindow hfields
    have hheaders := Traced.each_lift_bind.mp (h start hstart) headers hwindow
    have hrest := (Traced.each_bind.mp hheaders).2 (some fields)
      ((result_parseHeaders headers).trans hfields)
    exact (Traced.each_bind.mp hrest).1
  · intro h start hstart
    rw [Traced.each_lift_bind]
    intro headers hwindow
    rw [Traced.each_bind, result_parseHeaders]
    refine ⟨each_parseHeaders headers, fun fields hfields => ?_⟩
    cases fields with
    | none => exact Traced.each_pure _
    | some fields =>
      simp only []
      rw [Traced.each_bind]
      refine ⟨h start headers fields hstart hwindow hfields, fun body _ => ?_⟩
      cases body with
      | none => exact Traced.each_pure _
      | some body =>
        simp only []
        rw [log, Traced.each_emit_bind, readable_one hname]
        exact ⟨fun _ => hid, Traced.each_pure _⟩

theorem each_parse (json : Nlohmann) (what : Bytes → Bytes) {id : Bytes}
    (hid : validUtf8 id = true) (rawReq : Bytes) :
    (parse json what id rawReq).Each (Readable setLevel) ↔
      TextsUtf8 json what setLevel rawReq := by
  have hsize : validUtf8 (ascii "raw_size") = true := by decide +kernel
  rw [parse, log, Traced.each_emit_bind, readable_one hsize,
    and_iff_right fun _ => validUtf8_decimal _]
  simp only []
  split
  · -- no line ends: nothing of the request is logged
    rename_i hnone
    have hno : ∀ targets, ¬ RequestLine rawReq targets :=
      fun targets hline => hline.1 hnone
    refine iff_of_true ?_ ⟨fun _ targets hline => absurd hline (hno targets),
      fun _ targets _ _ _ hline => absurd hline (hno targets),
        fun _ body hhead => ?_⟩
    · rw [log, Traced.each_emit_bind]
      exact ⟨readable_none, Traced.each_pure _⟩
    · obtain ⟨targets, _, _, _, _, hline, _⟩ := hhead
      exact absurd hline (hno targets)
  · rename_i hsome
    rw [Traced.each_lift_bind]
    constructor
    · intro h
      have hparts : ∀ targets, RequestLine rawReq targets →
          (parseTarget targets).Each (Readable setLevel) :=
        fun targets hline => (Traced.each_bind.mp (h targets hline.2)).1
      refine ⟨fun hlogged targets hline hunknown => ?_,
        fun hlogged targets method path version hline hknown => ?_,
        fun hlogged body hhead hbody => ?_⟩
      · exact ((each_parseTarget targets).mp (hparts targets hline)).1 hunknown
          hlogged
      · exact ((each_parseTarget targets).mp (hparts targets hline)).2 method path
          version hknown hlogged
      · obtain ⟨targets, ⟨method, path, version⟩, start, headers, fields, hline,
          htarget, hstart, hwindow, hfields⟩ := hhead
        have hbehind := (Traced.each_bind.mp (h targets hline.2)).2 _
          ((result_parseTarget targets).trans htarget)
        have hpart := (each_behindTarget json what hid rawReq _ _ _).mp hbehind
          start headers fields hstart hwindow hfields
        exact (each_parseBody json what rawReq _).mp hpart body hbody hlogged
    · intro h targets htargets
      have hline : RequestLine rawReq targets := ⟨hsome, htargets⟩
      rw [Traced.each_bind, each_parseTarget, result_parseTarget]
      refine ⟨⟨fun hunknown hlogged => h.target hlogged targets hline hunknown,
        fun method path version hknown hlogged =>
          h.path hlogged targets method path version hline hknown⟩, ?_⟩
      intro target htarget
      cases target with
      | none => exact Traced.each_pure _
      | some target =>
        obtain ⟨method, path, version⟩ := target
        refine (each_behindTarget json what hid rawReq _ _ _).mpr ?_
        intro start headers fields hstart hwindow hfields
        refine (each_parseBody json what rawReq _).mpr fun body hbody hlogged => ?_
        exact h.error hlogged body
          ⟨targets, _, start, headers, fields, hline, htarget, hstart, hwindow,
            hfields⟩ hbody

/-- `JsonFormat` returns on a record exactly when its texts are UTF-8; so every
record of a call of `parse` can be written, at any level, exactly when what it logs
of the request is. -/
theorem logging_survives_iff (json : Nlohmann) (what : Bytes → Bytes) :
    (∀ i : LogInfo, (∃ text, jsonFormat json i = .ok text) ↔ i.Utf8) ∧
    ∀ (setLevel : Log) (a b : BitVec 64) (rawReq : Bytes),
      (parse json what (generateUuidV4 a b) rawReq).Each
          (Survives json setLevel) ↔
        TextsUtf8 json what setLevel rawReq := by
  refine ⟨jsonFormat_returns_iff json, fun setLevel a b rawReq => ?_⟩
  rw [← each_parse json what (validUtf8_uuid a b)]
  have hsame : Survives json setLevel = Readable setLevel :=
    funext fun call => propext (survives_iff json setLevel call)
  rw [hsame]

/-- One octet that begins no character, and a line end: the process ends when the
request line is logged. -/
theorem logged_line_terminates :
    ∃ call ∈ (parse writesNull id (generateUuidV4 0 0) [255, 13, 10]).trace,
      shouldLog .info call.level = true ∧
        jsonFormat writesNull
            (call.toInfo ⟨ascii "http_codec.cc", 35, 9⟩
              (ascii "2025-01-01 00:00:00.000")) =
          .error .terminate := by
  refine ⟨⟨.warning, ascii "Incorrectly specified method <UNKNOWN>",
    [(ascii "raw_target", [255])]⟩, ?_, by decide, ?_⟩
  · decide +kernel
  · rw [jsonFormat_terminates_iff]
    intro h
    have hline := (h.details (ascii "raw_target", [255]) List.mem_cons_self).2
    exact absurd hline (by decide)

end Logged

end UniServer.Http
