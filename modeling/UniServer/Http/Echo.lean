/-
  Http/Echo.lean --- what a response may copy from a request.

  `parse` cuts names, values, path and version out of single lines, so none of
  them holds a CRLF and no name holds a colon.  A response made of such parts is
  framed by the lines that `serialize` writes: nothing copied can end its line.

  This is about texts shorter than 2^31 octets.  A colon beyond 2^32 is taken for
  one further up, and a value can then run over a line end (`wrappedText`).
-/
import UniServer.Common.Uuid
import UniServer.Http.Serialize

set_option autoImplicit false

namespace UniServer.Http

open UniServer.Foundation UniServer.Common

/-! ## What is parsed stays inside its line -/

theorem not_crlf_of_part {part text : Bytes} (hpart : part <:+: text)
    (h : ¬ crlf <:+: text) : ¬ crlf <:+: part :=
  fun hocc => h (hocc.trans hpart)

theorem infix_before_cut {sep text front rest : Bytes}
    (h : cut sep text = some (front, rest)) : front <:+: text := by
  rw [split_of_cut h, List.append_assoc]
  exact (List.prefix_append front _).isInfix

theorem infix_behind_cut {sep text front rest : Bytes}
    (h : cut sep text = some (front, rest)) : rest <:+: text := by
  rw [split_of_cut h]
  exact (List.suffix_append _ rest).isInfix

theorem infix_trimValue (value : Bytes) : trimValue value <:+: value := by
  unfold trimValue
  split
  · exact (List.drop_suffix _ value).isInfix
  · exact List.infix_refl value

/-- The three parts of a request line lie inside it. -/
theorem infix_targetParts (line : Bytes) :
    (targetParts line).1 <:+: line ∧ (targetParts line).2.1 <:+: line ∧
      (targetParts line).2.2 <:+: line := by
  unfold targetParts
  cases hfirst : cut space line with
  | none => exact ⟨List.infix_refl _, List.infix_refl _, List.infix_refl _⟩
  | some parts =>
    obtain ⟨word, rest⟩ := parts
    have hword := infix_before_cut hfirst
    have hrest := infix_behind_cut hfirst
    cases hsecond : cut space rest with
    | none => simpa only [hsecond] using ⟨hword, hrest, List.infix_refl line⟩
    | some parts₂ =>
      obtain ⟨path, version⟩ := parts₂
      simpa only [hsecond] using ⟨hword, (infix_before_cut hsecond).trans hrest,
        (infix_behind_cut hsecond).trans hrest⟩

/-- A name and a value that stay on the line they are written on. -/
def CleanField (field : Bytes × Bytes) : Prop :=
  ((58 : Byte) ∉ field.1 ∧ ¬ crlf <:+: field.1) ∧ ¬ crlf <:+: field.2

/-- The fields of the lines of a text are clean. -/
theorem fieldsOf_clean (text : Bytes) :
    ∀ field ∈ fieldsOf (linesOf text), CleanField field := by
  intro field hfield
  obtain ⟨line, hline, hcut⟩ := List.mem_filterMap.mp hfield
  obtain ⟨⟨name, value⟩, hparts, rfl⟩ := Option.map_eq_some_iff.mp hcut
  have hno := not_crlf_of_line hline
  have hname := firstAt_singleton.mp (first_of_cut hparts)
  have hvalue : trimValue value <:+: line :=
    (infix_trimValue value).trans (infix_behind_cut hparts)
  exact ⟨⟨hname, not_crlf_of_part (infix_before_cut hparts) hno⟩,
    not_crlf_of_part hvalue hno⟩

/-- What an accepted head consists of is clean. -/
theorem parseHead_clean {raw : Bytes} {head : Head}
    (h : parseHead raw = some head) :
    (∀ field ∈ head.headers.entries, CleanField field) ∧ ¬ crlf <:+: head.path ∧
      ¬ crlf <:+: head.version := by
  unfold parseHead at h
  cases hcut : cut crlf raw with
  | none =>
    rw [hcut] at h
    cases h
  | some parts =>
    obtain ⟨line, rest⟩ := parts
    rw [hcut] at h
    obtain ⟨rfl, _⟩ := headOf_eq_some h
    have hline : ¬ crlf <:+: line :=
      firstAt_crlf.mp (first_of_cut hcut)
    obtain ⟨_, hpath, hversion⟩ := infix_targetParts line
    refine ⟨?_, not_crlf_of_part hpath hline, not_crlf_of_part hversion hline⟩
    have hempty :
        ∀ field ∈ (NormMap.empty : HeaderMap).entries, CleanField field := by
      intro field hfield
      cases hfield
    exact NormMap.collect_forall (fun name => (58 : Byte) ∉ name ∧ ¬ crlf <:+: name)
      (fun value => ¬ crlf <:+: value) _ _ hempty (fieldsOf_clean _)

/-! ## What is echoed stays on its line -/

/-- A header field that a response may have from a request: an id that was
generated, a field of the request, or its path or version under a name of the
handler's own. -/
inductive Echoed (req : Request) : Bytes × Bytes → Prop where
  | requestId (a b : BitVec 64) :
      Echoed req (ascii "X-Request-Id", generateUuidV4 a b)
  | field {field : Bytes × Bytes} (h : field ∈ req.headers.entries) : Echoed
      req field
  | path {name : Bytes} (h : (58 : Byte) ∉ name ∧ ¬ crlf <:+: name) :
      Echoed req (name, req.path)
  | version {name : Bytes} (h : (58 : Byte) ∉ name ∧ ¬ crlf <:+: name) :
      Echoed req (name, req.version)

/-- The request holds nothing that could end a line. -/
structure CleanRequest (req : Request) : Prop where
  headers : ∀ field ∈ req.headers.entries, CleanField field
  path : ¬ crlf <:+: req.path
  version : ¬ crlf <:+: req.version

theorem Echoed.clean {req : Request} (hreq : CleanRequest req)
    {field : Bytes × Bytes} (h : Echoed req field) : CleanField field := by
  cases h with
  | requestId a b =>
    have hname : (58 : Byte) ∉ ascii "X-Request-Id" ∧
        ¬ crlf <:+: ascii "X-Request-Id" := by
      decide +kernel
    exact ⟨hname, no_crlf_of_notMem (cr_notMem_uuid a b)⟩
  | field h => exact hreq.headers field h
  | path h => exact ⟨h, hreq.path⟩
  | version h => exact ⟨h, hreq.version⟩

/-- The lines of an output and what follows them: the status line, the two lines of
the serializer, one line for each field, and behind the first blank line the
body. -/
def FramedAs (out : Bytes) (status : HttpStatus) (fields : List (Bytes × Bytes))
    (body : Bytes) : Prop :=
  ∃ head, cut crlfcrlf out = some (head, body) ∧
    linesOf (head ++ crlf) =
      statusLine status :: ascii "Content-Type: application/json" ::
        (ascii "Content-Length: " ++ decimal body.length) ::
        fields.map fun field => field.1 ++ ascii ": " ++ field.2

/-- A response with sendable headers is framed by the lines that are written. -/
theorem framedAs_of_sendable {json : Nlohmann} {resp : Response} {out : Bytes}
    (hsend : Sendable resp.headers) (hout : serialize json resp = .ok out) :
    ∃ body, json.dump resp.body 4 = .ok body ∧
      FramedAs out resp.status resp.headers.entries body := by
  have hdump : ∃ body, json.dump resp.body 4 = .ok body := by
    rw [serialize] at hout
    obtain ⟨body, hbody, _⟩ := Run.bind_eq_ok.mp (noexcept_eq_ok_iff.mp hout)
    exact ⟨body, hbody⟩
  obtain ⟨body, hdump⟩ := hdump
  obtain ⟨head, hcut, hlines⟩ :=
    cut_framed (sentLines_ne_nil resp body) (sentLines_clean hsend body) body
  rw [serialize_eq hdump, Except.ok.injEq] at hout
  have htype : responseLine (ascii "Content-Type", ascii "application/json") =
      ascii "Content-Type: application/json" := by
    decide +kernel
  have hmark : fieldMark = ascii ": " := by decide +kernel
  have hlength : responseLine (ascii "Content-Length", decimal body.length) =
      ascii "Content-Length: " ++ decimal body.length := rfl
  have hline : responseLine = fun field => field.1 ++ ascii ": " ++ field.2 := by
    funext field
    rw [responseLine, hmark]
  refine ⟨body, hdump, head, hout ▸ hcut, ?_⟩
  rw [hlines, sentLines, sentFields, List.map_cons, List.map_cons, htype, hlength,
    hline]

/-- Nothing that `parse` returns holds a line end, and no name a colon.  A response
with only such parts in its headers is framed as written: one line for each field,
and the body behind the first blank line. -/
theorem echo_framed {json : Nlohmann} {id raw : Bytes} {req : Request}
    (hlen : raw.length < 2 ^ 31) (haccept : parse json id raw = .ok (some req)) :
    CleanRequest req ∧
      ∀ (resp : Response) (out : Bytes),
        (∀ field ∈ resp.headers.entries, Echoed req field) →
        serialize json resp = .ok out →
        ∃ body, json.dump resp.body 4 = .ok body ∧
          FramedAs out resp.status resp.headers.entries body := by
  obtain ⟨head, document, hhead, _, rfl⟩ := (parse_eq_some_iff hlen).mp haccept
  obtain ⟨hheaders, hpath, hversion⟩ := parseHead_clean hhead
  have hclean : CleanRequest (head.request id document) :=
    ⟨hheaders, hpath, hversion⟩
  refine ⟨hclean, ?_⟩
  intro resp out hecho hout
  refine framedAs_of_sendable ⟨?_, ?_⟩ hout
  · exact fun field hfield => ((hecho field hfield).clean hclean).1
  · exact fun field hfield => ((hecho field hfield).clean hclean).2

/-- A response with an id, a host and a path. -/
def echoing (host path : Bytes) : Response :=
  let resp := makeResp .success (generateUuidV4 0 0) 0
  { resp with
    headers :=
      (resp.headers.assign (ascii "Host") host).assign (ascii "Location") path }

/-- Host and path are those of the request. -/
theorem echo_framed_longLineHead :
    ∃ req out, parse readsColonBody [] (longLineHead ++ []) = .ok (some req) ∧
      CleanRequest req ∧
      serialize readsColonBody (echoing (ascii "a") req.path) = .ok out ∧
      ∃ body, readsColonBody.dump (echoing (ascii "a") req.path).body 4 =
          .ok body ∧
        FramedAs out (echoing (ascii "a") req.path).status
          [(ascii "X-Request-Id", generateUuidV4 0 0), (ascii "Host", ascii "a"),
            (ascii "Location", ascii "/aaaaaaaa")] body := by
  obtain ⟨⟨req, haccept⟩, _⟩ := longLineHead_accepted
  obtain ⟨hclean, hframed⟩ := echo_framed (by decide +kernel) haccept
  obtain ⟨head, document, hhead, _, rfl⟩ :=
    (parse_eq_some_iff (by decide +kernel)).mp haccept
  have hparts : (parseHead (longLineHead ++ [])).map
      (fun head => (head.path, head.headers.entries)) =
      some (ascii "/aaaaaaaa", [(ascii "Host", ascii "a")]) := by
    decide +kernel
  rw [hhead, Option.map_some, Option.some_inj, Prod.mk.injEq] at hparts
  obtain ⟨hpath, hfields⟩ := hparts
  have hdump : readsColonBody.dump (echoing (ascii "a") head.path).body 4 =
      .ok (readsColonBody.text 4 (echoing (ascii "a") head.path).body) :=
    Nlohmann.dump_ok rfl 4
  have hentries : (echoing (ascii "a") head.path).headers.entries =
      [(ascii "X-Request-Id", generateUuidV4 0 0), (ascii "Host", ascii "a"),
        (ascii "Location", ascii "/aaaaaaaa")] := by
    rw [hpath]
    decide +kernel
  have hechoed : ∀ field ∈ (echoing (ascii "a") head.path).headers.entries,
      Echoed (head.request [] document) field := by
    intro field hfield
    rw [hentries, List.mem_cons, List.mem_cons, List.mem_singleton] at hfield
    rcases hfield with rfl | rfl | rfl
    · exact .requestId 0 0
    · have hmem : (ascii "Host", ascii "a") ∈ head.headers.entries := by
        rw [hfields]
        exact List.mem_cons_self
      exact .field hmem
    · rw [← hpath]
      exact .path (by decide +kernel)
  obtain ⟨body, hbody, hlines⟩ := hframed _ _ hechoed (serialize_eq hdump)
  rw [hentries] at hlines
  exact ⟨_, _, haccept, hclean, serialize_eq hdump, body, hbody, hlines⟩

/-! ## Beyond the range of the cursors -/

/-- `sep` does not occur in a text that goes on with octets foreign to it. -/
theorem not_infix_append {sep front rest : Bytes} (hne : sep ≠ [])
    (hfront : ¬ sep <:+: front) (hrest : ∀ b ∈ rest, b ∉ sep) :
    ¬ sep <:+: front ++ rest := by
  rw [List.infix_append_iff_ne_nil]
  rintro (hocc | hocc | ⟨s, t, _, ht, hsplit, _, hlead⟩)
  · exact hfront hocc
  · obtain ⟨b, sep', rfl⟩ := List.exists_cons_of_ne_nil hne
    exact hrest b (hocc.subset List.mem_cons_self) List.mem_cons_self
  · obtain ⟨b, t', rfl⟩ := List.exists_cons_of_ne_nil ht
    apply hrest b (hlead.subset List.mem_cons_self)
    rw [hsplit]
    exact List.mem_append_right _ List.mem_cons_self

/-- The line that has no colon of its own, and what follows it. -/
def wrappedName (pad : Bytes) : Bytes := ascii "b\r\n" ++ (pad ++ colonMark)

def wrappedWindow (pad : Bytes) : Bytes := ascii "Host: a\r\n" ++ wrappedName pad

/-- Two header lines and, behind them, padding and a colon.  With `2^32 - 8` octets
of padding the colon stands at `2^32 + 4` of the window, and the cursor for it at
4. -/
def wrappedText (pad : Bytes) : Bytes :=
  ascii "GET / HTTP/1.1" ++ crlf ++ wrappedWindow pad

/-- The headers that are made of it. -/
def wrappedFields (pad : Bytes) : HeaderMap :=
  (NormMap.empty.assign (ascii "Host") (ascii "a")).assign (wrappedName pad)
    (ascii "a\r\nb")

theorem wrappedWindow_length {pad : Bytes} (hlen : pad.length = 2 ^ 32 - 8) :
    (wrappedWindow pad).length = 2 ^ 32 + 5 := by
  have hfront : (ascii "Host: a\r\n").length = 9 := by decide
  have hline : (ascii "b\r\n").length = 3 := by decide
  have hcolon : colonMark.length = 1 := rfl
  have hsum : (wrappedWindow pad).length = 9 + (3 + (pad.length + 1)) := by
    simp only [wrappedWindow, wrappedName, List.length_append, hfront, hline,
      hcolon]
  omega

/-- The first line end behind the first line. -/
theorem find_lineEnd_wrapped {pad : Bytes} (hlen : pad.length = 2 ^ 32 - 8) :
    toInt (find (wrappedWindow pad) crlf 9) = 10 := by
  have hlength := wrappedWindow_length hlen
  have hfirst : FirstAt crlf (ascii "b") := firstAt_crlf.mpr (by decide)
  have hsearch : search crlf ((wrappedWindow pad).drop 9) = some 1 :=
    search_of_cut (cut_append hfirst (pad ++ colonMark))
  rw [find_of_search (by omega) hsearch]
  decide

/-- The first colon behind the first line is the one beyond `2^32`. -/
theorem find_colon_wrapped {pad : Bytes} (hpad : ∀ b ∈ pad, b = 99)
    (hlen : pad.length = 2 ^ 32 - 8) :
    toInt (find (wrappedWindow pad) colonMark 9) = 4 := by
  have hlength := wrappedWindow_length hlen
  have hline : (ascii "b\r\n").length = 3 := by decide
  have hdrop : (wrappedWindow pad).drop 9 = wrappedName pad := rfl
  have hno : (58 : Byte) ∉ ascii "b\r\n" ++ pad := by
    rw [List.mem_append, not_or]
    exact ⟨by decide, fun hmem => absurd (hpad _ hmem) (by decide)⟩
  have hcut : cut colonMark (wrappedName pad) =
      some (ascii "b\r\n" ++ pad, []) := by
    have h := cut_append (firstAt_singleton.mpr hno) []
    rwa [List.append_nil, List.append_assoc] at h
  have hsearch : search colonMark ((wrappedWindow pad).drop 9) =
      some (ascii "b\r\n" ++ pad).length := by
    rw [hdrop]
    exact search_of_cut hcut
  rw [find_of_search (by omega) hsearch, List.length_append, hline, hlen]
  decide

/-- There is no line end behind the second line. -/
theorem find_noEnd_wrapped {pad : Bytes} (hpad : ∀ b ∈ pad, b = 99) :
    toInt (find (wrappedWindow pad) crlf 12) = -1 := by
  have hrest : (wrappedWindow pad).drop 12 = pad ++ colonMark := rfl
  have hno : ¬ crlf <:+: pad ++ colonMark := by
    apply no_crlf_of_notMem
    intro hmem
    rcases List.mem_append.mp hmem with hmem | hmem
    · exact absurd (hpad _ hmem) (by decide)
    · exact absurd hmem (by decide)
  apply toInt_find_of_search_none
  rw [hrest]
  exact search_of_cut_none (cut_eq_none_iff.mpr hno)

theorem scanHeaders_wrapped {pad : Bytes} (hpad : ∀ b ∈ pad, b = 99)
    (hlen : pad.length = 2 ^ 32 - 8) (fuel : Nat) :
    scanHeaders (wrappedWindow pad) (fuel + 2) 0 7 .empty =
      .ok (wrappedFields pad) := by
  -- the first line is read as it should be
  have hcolon₁ : toInt (find (wrappedWindow pad) colonMark (toSize 0)) = 4 := rfl
  have hname₁ : substr (wrappedWindow pad) (toSize 0) (toSize 4) =
      .ok (ascii "Host") :=
    rfl
  have hvalue₁ : substr (wrappedWindow pad) (toSize 5) (toSize 2) =
      .ok (ascii " a") :=
    rfl
  have hnext₁ : toInt (find (wrappedWindow pad) crlf (toSize 9)) = 10 :=
    find_lineEnd_wrapped hlen
  -- the second has the cursor of its colon before its own start
  have hcolon₂ : toInt (find (wrappedWindow pad) colonMark (toSize 9)) = 4 :=
    find_colon_wrapped hpad hlen
  have hname₂ : substr (wrappedWindow pad) (toSize 9) (toSize (-5)) =
      .ok (wrappedName pad) := by
    have hlength := wrappedWindow_length hlen
    have hsize : toSize 9 = 9 := rfl
    have hdrop : (wrappedWindow pad).drop 9 = wrappedName pad := rfl
    have hcount : (wrappedWindow pad).length ≤ toSize (-5) := by
      rw [hlength]
      decide
    rw [hsize, substr_all (by omega) hcount, hdrop]
  have hvalue₂ : substr (wrappedWindow pad) (toSize 5) (toSize 5) =
      .ok (ascii " a\r\nb") := rfl
  have hnext₂ : toInt (find (wrappedWindow pad) crlf (toSize 12)) = -1 :=
    find_noEnd_wrapped hpad
  have htrim₁ : trimValue (ascii " a") = ascii "a" := by decide
  have htrim₂ : trimValue (ascii " a\r\nb") = ascii "a\r\nb" := by decide
  have hint : subInt 4 0 = .ok 4 ∧ addInt 4 1 = .ok 5 ∧ subInt 7 4 = .ok 3 ∧
      subInt 3 1 = .ok 2 ∧ addInt 7 2 = .ok 9 ∧ subInt 4 9 = .ok (-5) ∧
      subInt 10 4 = .ok 6 ∧ subInt 6 1 = .ok 5 ∧ addInt 10 2 = .ok 12 := by
    decide
  obtain ⟨h1, h2, h3, h4, h5, h6, h7, h8, h9⟩ := hint
  have htaken : ∀ lineEnd : Int, 4 ≤ lineEnd →
      ¬ (toSize 4 = npos ∨ (4 : Int) > lineEnd) := by
    rintro lineEnd hle (hnone | hlt)
    · exact absurd hnone (by decide)
    · omega
  have hten : ¬ toSize 10 = npos := by decide
  rw [scanHeaders, hcolon₁]
  simp only [if_neg (htaken 7 (by decide)), h1, h2, h3, h4, h5, Run.ok_bind, hname₁,
    hvalue₁, htrim₁, Run.pure_eq, hnext₁, if_neg hten]
  rw [scanHeaders, hcolon₂]
  simp only [if_neg (htaken 10 (by decide)), h2, h6, h7, h8, h9, Run.ok_bind,
    hname₂, hvalue₂, htrim₂, Run.pure_eq, hnext₂, toSize_neg_one, if_true]
  rfl

/-- The name and the value that come of the second line. -/
theorem wrappedFields_entries {pad : Bytes} (hlen : pad.length = 2 ^ 32 - 8) :
    (wrappedFields pad).entries =
      [(ascii "Host", ascii "a"), (wrappedName pad, ascii "a\r\nb")] := by
  have hne : lower (ascii "Host") ≠ lower (wrappedName pad) := by
    intro heq
    have hlength := congrArg List.length heq
    have hhost : (ascii "Host").length = 4 := by decide
    rw [lower_length, lower_length, hhost, wrappedName, List.length_append,
      List.length_append, hlen] at hlength
    omega
  exact NormMap.collect_entries .empty
    [(ascii "Host", ascii "a"), (wrappedName pad, ascii "a\r\nb")] (by
      rw [NormMap.empty, List.nil_append, List.map_cons, List.map_cons,
        List.map_nil, List.nodup_cons, List.mem_singleton]
      exact ⟨hne, List.nodup_singleton _⟩)

theorem parseHeaders_wrapped {pad : Bytes} (hpad : ∀ b ∈ pad, b = 99)
    (hlen : pad.length = 2 ^ 32 - 8) :
    parseHeaders (wrappedWindow pad) = .ok (some (wrappedFields pad)) := by
  have hfind : toInt (find (wrappedWindow pad) crlf 0) = 7 := rfl
  have hseven : ¬ toSize 7 = npos := by decide
  have hhost : (wrappedFields pad).contains (ascii "Host") = true := by
    rw [NormMap.contains, NormMap.find, Assoc.find, wrappedFields_entries hlen]
    simp
  have hfuel : (wrappedWindow pad).length + 1 = (2 ^ 32 + 4) + 2 := by
    rw [wrappedWindow_length hlen]
  rw [parseHeaders]
  simp only [hfind, if_neg hseven]
  rw [hfuel, scanHeaders_wrapped hpad hlen, Run.ok_bind, if_pos hhost]
  rfl

/-- The text has no blank line. -/
theorem noBlankLine_wrapped {pad : Bytes} (hpad : ∀ b ∈ pad, b = 99) :
    ¬ crlfcrlf <:+: wrappedText pad := by
  have hshape : wrappedText pad =
      (ascii "GET / HTTP/1.1" ++ crlf ++
        (ascii "Host: a\r\n" ++ ascii "b\r\n")) ++
        (pad ++ colonMark) := by
    simp only [wrappedText, wrappedWindow, wrappedName, List.append_assoc]
  rw [hshape]
  apply not_infix_append (by decide) (by decide +kernel)
  intro b hb
  rcases List.mem_append.mp hb with hb | hb
  · rw [hpad b hb]
    decide
  · rw [List.mem_singleton.mp hb]
    decide

/-- The text is accepted, and its second header crosses line ends. -/
theorem parse_wrappedText (json : Nlohmann) (id : Bytes) {pad : Bytes}
    (hpad : ∀ b ∈ pad, b = 99) (hlen : pad.length = 2 ^ 32 - 8) :
    parse json id (wrappedText pad) = .ok (some
      { id := id, method := .get, path := ascii "/", version := ascii "HTTP/1.1",
        headers := wrappedFields pad, body := .null }) := by
  have hwindowLen := wrappedWindow_length hlen
  have hlineLen : (ascii "GET / HTTP/1.1").length = 14 := by decide
  have hfirst : FirstAt crlf (ascii "GET / HTTP/1.1") :=
    firstAt_crlf.mpr (by decide +kernel)
  have hcut : cut crlf (wrappedText pad) =
      some (ascii "GET / HTTP/1.1", wrappedWindow pad) :=
    cut_append hfirst _
  have hrawLen : (wrappedText pad).length = 2 ^ 32 + 21 := by
    have hsum := cut_length hcut
    rw [hlineLen, hwindowLen] at hsum
    exact hsum
  have hend : toInt (find (wrappedText pad) crlf 0) = 14 := by
    rw [find_of_search (s := wrappedText pad) (Nat.zero_le _) (search_of_cut hcut),
      hlineLen]
    decide
  have hline : substr (wrappedText pad) 0 (toSize 14) =
      .ok (ascii "GET / HTTP/1.1") := by
    have hbefore := substr_before_cut hcut
    rwa [hlineLen] at hbefore
  have htarget : parseTarget (ascii "GET / HTTP/1.1") =
      .ok (some (.get, ascii "/", ascii "HTTP/1.1")) := by
    decide +kernel
  have hnext : addInt 14 2 = .ok 16 := rfl
  have hnone : toInt (find (wrappedText pad) crlfcrlf 0) = -1 :=
    toInt_find_of_cut_none (cut_eq_none_iff.mpr (noBlankLine_wrapped hpad))
  have hwindow : substr (wrappedText pad) (toSize 16) npos =
      .ok (wrappedWindow pad) := by
    have hsize : toSize 16 = 16 := rfl
    have hbehind := drop_behind_cut hcut
    rw [hlineLen] at hbehind
    rw [hsize, substr_all (by omega) (by rw [hrawLen]; decide)]
    exact congrArg Except.ok hbehind
  have hbody : parseBody json (wrappedText pad) (-1) = .ok (some .null) := rfl
  have hfourteen : ¬ toSize 14 = npos := by decide
  rw [parse]
  simp only [hend, if_neg hfourteen, hline, Run.ok_bind, htarget, hnext, hnone,
    toSize_neg_one, hwindow, parseHeaders_wrapped hpad hlen, hbody, Run.pure_eq]

/-- A value that crosses a line end comes out of a text of more than 2^32 octets. -/
theorem value_crosses_line :
    ¬ ∀ (json : Nlohmann) (id raw : Bytes) (req : Request),
      parse json id raw = .ok (some req) →
      CleanRequest req ∧
        ∀ (resp : Response) (out : Bytes),
          (∀ field ∈ resp.headers.entries, Echoed req field) →
          serialize json resp = .ok out →
          ∃ body, json.dump resp.body 4 = .ok body ∧
            FramedAs out resp.status resp.headers.entries body := by
  intro hclaim
  have hpad : ∀ b ∈ List.replicate (2 ^ 32 - 8) (99 : Byte), b = 99 :=
    fun b hb => List.eq_of_mem_replicate hb
  have hlen : (List.replicate (2 ^ 32 - 8) (99 : Byte)).length = 2 ^ 32 - 8 :=
    List.length_replicate
  have haccept := parse_wrappedText readsNothing [] hpad hlen
  have hentries := wrappedFields_entries hlen
  have hmem : (wrappedName _, ascii "a\r\nb") ∈ (wrappedFields _).entries :=
    hentries ▸ List.mem_cons_of_mem _ List.mem_cons_self
  exact ((hclaim _ _ _ _ haccept).1.headers _ hmem).2 (by decide +kernel)

end UniServer.Http
