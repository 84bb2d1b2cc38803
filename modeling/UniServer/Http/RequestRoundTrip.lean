/-
  Http/RequestRoundTrip.lean --- a rendered request is parsed back.

  `RequestText` is what a client has to say, `render` how it says it: the request
  line, one line for each header, a blank line, the body.  The conditions under
  which `parse` gives all of it back are those of `WellFormed`.
-/
import UniServer.Http.RequestHead

set_option autoImplicit false

namespace UniServer.Http

open UniServer.Foundation

/-- The parts of a request, as texts. -/
structure RequestText where
  method : Method
  path : Bytes
  version : Bytes
  headers : List (Bytes × Bytes)
  body : Bytes

namespace RequestText

/-- `METHOD SP path SP version`. -/
def targetLine (r : RequestText) : Bytes :=
  r.method.toText ++ space ++ (r.path ++ space ++ r.version)

/-- `name: value`. -/
def headerLine (field : Bytes × Bytes) : Bytes :=
  field.1 ++ colonMark ++ (space ++ field.2)

/-- The lines before the blank line. -/
def headLines (r : RequestText) : List Bytes :=
  r.targetLine :: r.headers.map headerLine

/-- The request as it is sent. -/
def render (r : RequestText) : Bytes := joined crlf r.headLines ++ crlf ++ r.body

/-- No part of the request holds an octet that ends it early. -/
structure WellFormed (r : RequestText) : Prop where
  method : r.method ≠ .unknown
  path : ∀ b ∈ r.path, b ≠ 32 ∧ b ≠ 13 ∧ b ≠ 10
  version : ∀ b ∈ r.version, b ≠ 32 ∧ b ≠ 13 ∧ b ≠ 10
  names : ∀ field ∈ r.headers, ∀ b ∈ field.1, b ≠ 58 ∧ b ≠ 13 ∧ b ≠ 10
  values : ∀ field ∈ r.headers, ∀ b ∈ field.2, b ≠ 13 ∧ b ≠ 10
  starts : ∀ field ∈ r.headers, ∃ b text, field.2 = b :: text ∧ isBlank b = false
  distinct : (r.headers.map fun field => lower field.1).Nodup
  host : ∃ field ∈ r.headers, caseInsensitiveEqual field.1 (ascii "Host") = true
  body : ¬ crlf <:+: r.body

/-! ## Lines -/

theorem targetParts_targetLine {r : RequestText} (hr : r.WellFormed) :
    targetParts r.targetLine = (r.method.toText, r.path, r.version) := by
  have hmethod : (32 : Byte) ∉ r.method.toText := by
    cases r.method <;> decide
  have hpath : (32 : Byte) ∉ r.path := fun hmem => (hr.path 32 hmem).1 rfl
  have hfirst : cut space r.targetLine =
      some (r.method.toText, r.path ++ space ++ r.version) :=
    cut_append (firstAt_singleton.mpr hmethod) _
  have hsecond : cut space (r.path ++ space ++ r.version) =
      some (r.path, r.version) :=
    cut_append (firstAt_singleton.mpr hpath) _
  simp only [targetParts, hfirst, hsecond]

theorem fieldOf_headerLine {r : RequestText} (hr : r.WellFormed)
    {field : Bytes × Bytes} (hfield : field ∈ r.headers) :
    fieldOf (headerLine field) = some field := by
  have hname : (58 : Byte) ∉ field.1 :=
    fun hmem => (hr.names field hfield 58 hmem).1 rfl
  exact fieldOf_written hname (hr.starts field hfield)

/-- Reading the header lines gives the headers. -/
theorem fieldsOf_headerLines {r : RequestText} (hr : r.WellFormed) :
    fieldsOf (r.headers.map headerLine) = r.headers := by
  rw [fieldsOf, List.filterMap_map]
  calc r.headers.filterMap (fieldOf ∘ headerLine)
      = r.headers.filterMap some := List.filterMap_congr fun field hfield =>
          fieldOf_headerLine hr hfield
    _ = r.headers := List.filterMap_some

/-- No line of the head is empty, and none holds a CRLF. -/
theorem headLines_clean {r : RequestText} (hr : r.WellFormed) :
    ∀ line ∈ r.headLines, line ≠ [] ∧ ¬ crlf <:+: line := by
  intro line hline
  rcases List.mem_cons.mp hline with rfl | hline
  · refine ⟨by simp [targetLine, space], no_crlf_of_notMem fun hmem => ?_⟩
    have hmethod : (13 : Byte) ∉ r.method.toText := by
      cases r.method <;> decide
    simp only [targetLine, space, List.mem_append, List.mem_singleton] at hmem
    rcases hmem with (hmem | hmem) | (hmem | hmem) | hmem
    · exact hmethod hmem
    · exact absurd hmem (by decide)
    · exact (hr.path 13 hmem).2.1 rfl
    · exact absurd hmem (by decide)
    · exact (hr.version 13 hmem).2.1 rfl
  · obtain ⟨field, hfield, rfl⟩ := List.mem_map.mp hline
    refine ⟨by simp [headerLine, colonMark], no_crlf_of_notMem fun hmem => ?_⟩
    simp only [headerLine, colonMark, space, List.mem_append,
      List.mem_singleton] at hmem
    rcases hmem with (hmem | hmem) | hmem | hmem
    · exact (hr.names field hfield 13 hmem).2.1 rfl
    · exact absurd hmem (by decide)
    · exact absurd hmem (by decide)
    · exact (hr.values field hfield 13 hmem).1 rfl

/-! ## The round trip -/

/-- The head of a rendered request: its first doubled CRLF stands behind the last
header line. -/
theorem render_eq {r : RequestText} (hr : r.WellFormed) :
    ∃ front, r.render = front ++ crlfcrlf ++ r.body ∧ FirstAt crlfcrlf front ∧
      requestLine (front ++ crlfcrlf) = r.targetLine ∧
      headFields (front ++ crlfcrlf) = r.headers := by
  obtain ⟨front, hfront, hfirst⟩ :=
    joined_doubled (by decide : (13 : Byte) ≠ 10) (List.cons_ne_nil _ _)
      (headLines_clean hr)
  have hlines : linesOf (front ++ crlfcrlf) = r.headLines ++ [[]] := by
    have hblank : linesOf crlf = [[]] := by decide +kernel
    have hclean : ∀ line ∈ r.headLines, ¬ crlf <:+: line := fun line hline =>
      (headLines_clean hr line hline).2
    have hjoined := linesOf_joined hclean crlf
    rw [hblank] at hjoined
    rw [crlfcrlf, ← hfront]
    exact hjoined
  refine ⟨front, ?_, hfirst, ?_, ?_⟩
  · exact congrArg (· ++ r.body) hfront
  · rw [requestLine, hlines]
    rfl
  · have htail : (r.headLines ++ [[]]).tail = r.headers.map headerLine ++ [[]] :=
      rfl
    have hempty : fieldsOf [[]] = [] := by decide +kernel
    rw [headFields, hlines, htail, fieldsOf_append, fieldsOf_headerLines hr, hempty,
      List.append_nil]

theorem headOf_headers {r : RequestText} (hr : r.WellFormed) :
    headOf r.targetLine r.headers =
      some { method := r.method, path := r.path, version := r.version,
             headers := NormMap.empty.collect r.headers } := by
  have hsome : (headOf r.targetLine r.headers).isSome := by
    rw [headOf_isSome_iff, targetParts_targetLine hr]
    simp only [toMethod_toText]
    exact ⟨hr.method, hr.host⟩
  obtain ⟨head, hhead⟩ := Option.isSome_iff_exists.mp hsome
  obtain ⟨rfl, _⟩ := headOf_eq_some hhead
  rw [hhead, targetParts_targetLine hr]
  simp only [toMethod_toText]

/-- What `parse` returns on a rendered request. -/
theorem parse_render {r : RequestText} (hr : r.WellFormed) (json : Nlohmann)
    (id : Bytes) (document : Json) (hlen : r.render.length < 2 ^ 31)
    (hbody : r.body ≠ [] → json.parse r.body = .ok document) :
    ∃ req, parse json id r.render = .ok (some req) ∧
      req.method = r.method ∧ req.path = r.path ∧ req.version = r.version ∧
      (∀ name, req.headers.find name = Assoc.find lower r.headers name) ∧
      req.body = if r.body = [] then .null else document.toOrdered := by
  obtain ⟨front, hrender, hfirst, hline, hfields⟩ := render_eq hr
  have hhead : parseHead r.render =
      some { method := r.method, path := r.path, version := r.version,
             headers := NormMap.empty.collect r.headers } := by
    rw [hrender, parseHead_complete hfirst, hline, hfields,
      spilledFields_eq_nil hr.body, List.append_nil, headOf_headers hr]
  have hread : readBody json (bodyText r.render) =
      .ok (some (if r.body = [] then .null else document.toOrdered)) := by
    rw [hrender, bodyText_complete hfirst]
    split
    · rename_i hempty
      rw [hempty]
      rfl
    · rename_i hne
      exact readBody_of_parse hne (hbody hne)
  refine ⟨_, (parse_eq_some_iff hlen).mpr ⟨_, _, hhead, hread, rfl⟩, rfl, rfl,
    rfl, ?_, rfl⟩
  exact NormMap.find_collect_distinct hr.distinct

/-- A request with a colon in a value and a JSON body. -/
def sample : RequestText where
  method := .post
  path := ascii "/orders"
  version := ascii "HTTP/1.1"
  headers := [(ascii "host", ascii "a"), (ascii "X-Note", ascii "b: c")]
  body := ascii "{}"

/-- A library that reads the empty object. -/
def readsEmptyObject : Nlohmann :=
  ⟨fun text => if text = ascii "{}" then .ok (.object [])
    else .error .parseError, fun _ _ => []⟩

theorem parse_render_sample :
    ∃ req, parse readsEmptyObject [] sample.render = .ok (some req) ∧
      req.method = .post ∧ req.path = ascii "/orders" ∧
      req.version = ascii "HTTP/1.1" ∧
      (∀ name, req.headers.find name = Assoc.find lower sample.headers name) ∧
      req.body =
        if sample.body = [] then .null else (Json.object []).toOrdered := by
  have hstarts : ∀ field ∈ sample.headers, ∃ b text, field.2 = b :: text ∧
      isBlank b = false := by
    intro field hfield
    rcases List.mem_cons.mp hfield with rfl | hfield
    · exact ⟨_, _, rfl, by decide⟩
    · rw [List.mem_singleton.mp hfield]
      exact ⟨_, _, rfl, by decide⟩
  have hsample : sample.WellFormed :=
    { method := by decide
      path := forall_of_all (by decide +kernel)
      version := forall_of_all (by decide +kernel)
      names := by decide +kernel
      values := by decide +kernel
      starts := hstarts
      distinct := by decide +kernel
      host := by decide +kernel
      body := by decide +kernel }
  exact parse_render hsample readsEmptyObject [] (.object []) (by decide +kernel)
    fun _ => rfl

end RequestText

end UniServer.Http
