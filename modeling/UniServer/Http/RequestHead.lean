/-
  Http/RequestHead.lean --- what a request takes from its head, and what from the
  text behind it.

  Two shapes of text.  A complete one has a blank line: its window holds the
  header lines, the blank line and a spill, the octets of the body that the
  window runs on into.  An incomplete one has no blank line: its window is all
  the text behind the request line, and a last line without its CRLF is dropped.

  In both the head is `headOf` of the request line and a list of fields, so that
  two texts give the same head when their lists agree.
-/
import UniServer.Http.ParseReference

set_option autoImplicit false

namespace UniServer.Http

open UniServer.Foundation

/-! ## Lines of a text -/

/-- The first line of a text. -/
def requestLine (raw : Bytes) : Bytes := (linesOf raw).headD []

/-- The fields of the complete lines behind the request line. -/
def headFields (raw : Bytes) : List (Bytes × Bytes) := fieldsOf (linesOf raw).tail

theorem linesOf_ended_append (text more : Bytes) :
    linesOf (text ++ crlf ++ more) = linesOf (text ++ crlf) ++ linesOf more := by
  have hended : (pieces crlf (text ++ crlf)).2 = [] := pieces_ended (by decide) text
  simp only [linesOf, pieces_append crlf_ne_nil hended]

/-! ## Heads -/

/-- What an accepted head is made of. -/
theorem headOf_eq_some {line : Bytes} {fields : List (Bytes × Bytes)} {head : Head}
    (h : headOf line fields = some head) :
    head = { method := toMethod (targetParts line).1
             path := (targetParts line).2.1
             version := (targetParts line).2.2
             headers := NormMap.empty.collect fields } ∧
      toMethod (targetParts line).1 ≠ .unknown := by
  simp only [headOf] at h
  split at h
  · cases h
  · rename_i hmethod
    split at h
    · exact ⟨(Option.some.inj h).symm, hmethod⟩
    · cases h

/-- When a head is accepted. -/
theorem headOf_isSome_iff (line : Bytes) (fields : List (Bytes × Bytes)) :
    (headOf line fields).isSome ↔
      toMethod (targetParts line).1 ≠ .unknown ∧
        ∃ field ∈ fields, caseInsensitiveEqual field.1 (ascii "Host") = true := by
  have hhost :
      (NormMap.empty.collect fields : HeaderMap).contains (ascii "Host") = true ↔
      ∃ field ∈ fields, caseInsensitiveEqual field.1 (ascii "Host") = true := by
    rw [NormMap.contains_collect_empty]
    simp [caseInsensitiveEqual_iff]
  rw [← hhost, headOf]
  by_cases hmethod : toMethod (targetParts line).1 = .unknown
  · simp [hmethod]
  · by_cases h :
        (NormMap.empty.collect fields : HeaderMap).contains (ascii "Host") = true
    · simp [hmethod, h]
    · simp [hmethod, h]

theorem no_crlf_of_notMem {text : Bytes} (h : (13 : Byte) ∉ text) :
    ¬ crlf <:+: text :=
  fun hocc => h (hocc.subset (by decide))

/-- Joining clean lines and cutting again gives the lines. -/
theorem linesOf_joined {lines : List Bytes}
    (h : ∀ line ∈ lines, ¬ crlf <:+: line) (text : Bytes) :
    linesOf (joined crlf lines ++ text) = lines ++ linesOf text := by
  have hclean : ∀ line ∈ lines, FirstAt crlf line :=
    fun line hline => firstAt_crlf.mpr (h line hline)
  rw [linesOf, pieces_joined_append crlf_ne_nil hclean, linesOf]

theorem linesOf_joined_self {lines : List Bytes}
    (h : ∀ line ∈ lines, ¬ crlf <:+: line) :
    linesOf (joined crlf lines) = lines := by
  have hjoined := linesOf_joined h []
  rwa [linesOf_nil, List.append_nil, List.append_nil] at hjoined

/-! ## Incomplete texts -/

/-- Without a blank line every complete line behind the request line counts. -/
theorem parseHead_incomplete {raw : Bytes} (hno : ¬ crlfcrlf <:+: raw) :
    parseHead raw = headOf (requestLine raw) (headFields raw) := by
  rw [parseHead, requestLine, headFields]
  cases hcut : cut crlf raw with
  | none =>
    rw [linesOf_of_cut_none hcut]
    rfl
  | some parts =>
    obtain ⟨line, rest⟩ := parts
    have hwindow : headerWindow raw rest = rest := by
      rw [headerWindow, cut_eq_none_iff.mpr hno]
    rw [linesOf_of_cut hcut, List.headD_cons, List.tail_cons]
    simp only [hwindow]

theorem bodyText_incomplete {raw : Bytes} (hno : ¬ crlfcrlf <:+: raw) :
    bodyText raw = none := by
  rw [bodyText, cut_eq_none_iff.mpr hno, Option.map_none]

/-- `parse` on a text without a blank line: the head alone decides, and there is
no body to read. -/
theorem parse_incomplete (json : Nlohmann) (id : Bytes) {raw : Bytes}
    (hlen : raw.length < 2 ^ 31) (hno : ¬ crlfcrlf <:+: raw) :
    parse json id raw =
      .ok ((headOf (requestLine raw) (headFields raw)).map fun head =>
        head.request id .null) := by
  rw [← parseHead_incomplete hno]
  cases hhead : parseHead raw with
  | none => exact parse_of_noHead hlen hhead
  | some head =>
    rw [parse_of_head json id hlen hhead, bodyText_incomplete hno]
    rfl

/-- A head that stops short of its blank line is parsed as far as its complete
lines go: it is accepted as soon as they hold a known method and a Host, and the
request then has the headers of these lines and no body. -/
theorem parse_prefix_of_head (json : Nlohmann) (id : Bytes) {raw p : Bytes}
    {blank : Nat} (hlen : raw.length < 2 ^ 31)
    (hblank : search crlfcrlf raw = some blank) (hp : p <+: raw)
    (hshort : p.length < blank + 4) :
    ∃ result, parse json id p = .ok result ∧
      (result.isSome ↔
        crlf <:+: p ∧ toMethod (targetParts (requestLine p)).1 ≠ .unknown ∧
          ∃ field ∈ headFields p,
            caseInsensitiveEqual field.1 (ascii "Host") = true) ∧
      ∀ req, result = some req →
        (req.method, req.path, req.version) =
            (toMethod (targetParts (requestLine p)).1,
              (targetParts (requestLine p)).2) ∧
          req.headers = NormMap.empty.collect (headFields p) ∧
            req.body = .null := by
  obtain ⟨more, rfl⟩ := hp
  have hno : ¬ crlfcrlf <:+: p := by
    intro hocc
    obtain ⟨⟨front, rest⟩, hcut⟩ :=
      Option.isSome_iff_exists.mp (cut_isSome_of_occurs hocc)
    have hfront : p.length = front.length + 4 + rest.length := cut_length hcut
    have hfound := search_of_cut (cut_append_right hcut more)
    rw [hblank, Option.some_inj] at hfound
    omega
  have hpLen : p.length < 2 ^ 31 := by
    rw [List.length_append] at hlen
    omega
  refine ⟨_, parse_incomplete json id hpLen hno, ?_, ?_⟩
  · rw [Option.isSome_map, headOf_isSome_iff]
    constructor
    · rintro ⟨hmethod, hhost⟩
      refine ⟨?_, hmethod, hhost⟩
      by_contra hnone
      obtain ⟨field, hfield, _⟩ := hhost
      rw [headFields, linesOf_of_cut_none (cut_eq_none_iff.mpr hnone)] at hfield
      exact List.not_mem_nil hfield
    · exact fun h => h.2
  · intro req hreq
    obtain ⟨head, hhead, rfl⟩ := Option.map_eq_some_iff.mp hreq
    obtain ⟨rfl, _⟩ := headOf_eq_some hhead
    exact ⟨rfl, rfl, rfl⟩

/-- A request cut inside its third line. -/
def cutHead : Bytes := ascii "GET / HTTP/1.1\r\nHost: a\r\nX: "

/-- A library that reads no document at all. -/
def readsNothing : Nlohmann := ⟨fun _ => .error .parseError, fun _ _ => []⟩

theorem parse_prefix_of_head_cutHead :
    ∃ result, parse readsNothing [] cutHead = .ok result ∧
      (result.isSome ↔
        crlf <:+: cutHead ∧
          toMethod (targetParts (requestLine cutHead)).1 ≠ .unknown ∧
          ∃ field ∈ headFields cutHead,
            caseInsensitiveEqual field.1 (ascii "Host") = true) ∧
      ∀ req, result = some req →
        (req.method, req.path, req.version) =
            (toMethod (targetParts (requestLine cutHead)).1,
              (targetParts (requestLine cutHead)).2) ∧
          req.headers = NormMap.empty.collect (headFields cutHead) ∧
            req.body = .null :=
  @parse_prefix_of_head readsNothing [] (cutHead ++ ascii "y\r\n\r\n") cutHead 29
    (by decide +kernel) (by decide +kernel) (List.prefix_append _ _)
      (by decide +kernel)

/-- The cut request is accepted, and its third line is lost. -/
theorem cutHead_accepted :
    ¬ ∀ (json : Nlohmann) (id raw p : Bytes) (blank : Nat), raw.length < 2 ^ 31 →
      search crlfcrlf raw = some blank → p <+: raw → p.length < blank + 4 →
      parse json id p = .ok none := by
  intro hclaim
  have hnone := hclaim readsNothing [] (cutHead ++ ascii "y\r\n\r\n") cutHead 29
    (by decide +kernel) (by decide +kernel) (List.prefix_append _ _)
      (by decide +kernel)
  rw [parse_incomplete _ _ (by decide +kernel) (by decide +kernel), Except.ok.injEq,
    Option.map_eq_none_iff] at hnone
  have hsome :
      (headOf (requestLine cutHead) (headFields cutHead)).isSome = true := by
    decide +kernel
  rw [hnone] at hsome
  exact absurd hsome (by decide)

/-! ## Complete texts -/

/-- The octets of the body that lie in the window of the header scan. -/
def spill (head body : Bytes) : Bytes := body.take ((requestLine head).length - 2)

/-- The fields of the complete lines of the spill. -/
def spilledFields (head body : Bytes) : List (Bytes × Bytes) :=
  fieldsOf (linesOf (spill head body))

/-- The head of a text with a blank line: behind the header lines stand those of
the spill. -/
theorem parseHead_complete {front : Bytes} (hfirst : FirstAt crlfcrlf front)
    (body : Bytes) :
    parseHead (front ++ crlfcrlf ++ body) =
      headOf (requestLine (front ++ crlfcrlf))
        (headFields (front ++ crlfcrlf) ++
          spilledFields (front ++ crlfcrlf) body) := by
  have hblank : cut crlfcrlf (front ++ crlfcrlf ++ body) = some (front, body) :=
    cut_append hfirst body
  have hshape : ∀ t, front ++ crlfcrlf ++ t = front ++ crlf ++ (crlf ++ t) := by
    intro t
    simp [crlfcrlf, crlf]
  -- the request line ends no later than the last header line
  have hsome : (cut crlf (front ++ crlf)).isSome :=
    cut_isSome_of_occurs ⟨front, [], by simp⟩
  obtain ⟨⟨line, rest⟩, hcut⟩ := Option.isSome_iff_exists.mp hsome
  have hcutLen : (front ++ crlf).length = line.length + 2 + rest.length :=
    cut_length hcut
  have htwo : crlf.length = 2 := rfl
  rw [List.length_append, htwo] at hcutLen
  have hcutHead : cut crlf (front ++ crlfcrlf) = some (line, rest ++ crlf) := by
    have hmore := cut_append_right hcut crlf
    rwa [List.append_assoc] at hmore
  have hcutRaw : cut crlf (front ++ crlfcrlf ++ body) =
      some (line, rest ++ crlf ++ body) := by
    rw [hshape body, cut_append_right hcut, List.append_assoc]
  have hline : requestLine (front ++ crlfcrlf) = line := by
    rw [requestLine, linesOf_of_cut hcutHead, List.headD_cons]
  have hfields : headFields (front ++ crlfcrlf) =
      fieldsOf (linesOf (rest ++ crlf)) := by
    rw [headFields, linesOf_of_cut hcutHead, List.tail_cons]
  rw [parseHead, hcutRaw, hline, hfields, spilledFields, spill, hline]
  simp only [headOf]
  by_cases hmethod : toMethod (targetParts line).1 = .unknown
  · simp only [if_pos hmethod]
  · -- a known method makes the line long enough for the window to reach the body
    have hthree : 3 ≤ line.length := by
      apply Nat.le_trans (three_le_length_of_toMethod hmethod)
      have hpart := targetParts_word_length line
      exact hpart
    have hwindow : headerWindow (front ++ crlfcrlf ++ body) (rest ++ crlf ++ body) =
        rest ++ crlf ++ body.take (line.length - 2) := by
      have hwidth : front.length - (rest ++ crlf).length = line.length - 2 := by
        rw [List.length_append, htwo]
        omega
      have hreach : (rest ++ crlf).length ≤ front.length := by
        rw [List.length_append, htwo]
        omega
      rw [headerWindow, hblank]
      simp only
      rw [List.take_append, hwidth, List.take_of_length_le hreach]
    rw [hwindow, linesOf_ended_append, fieldsOf_append]

/-- A body without a CRLF spills no field. -/
theorem spilledFields_eq_nil {body : Bytes} (h : ¬ crlf <:+: body) (head : Bytes) :
    spilledFields head body = [] := by
  have hpart : spill head body <:+: body :=
    ⟨[], body.drop _, List.take_append_drop _ _⟩
  have hno : ¬ crlf <:+: spill head body := fun hocc => h (hocc.trans hpart)
  rw [spilledFields, linesOf_of_cut_none (cut_eq_none_iff.mpr hno)]
  rfl

theorem bodyText_complete {front : Bytes} (hfirst : FirstAt crlfcrlf front)
    (body : Bytes) :
    bodyText (front ++ crlfcrlf ++ body) = some body := by
  rw [bodyText, cut_append hfirst body, Option.map_some]

/-! ## One head, two bodies -/

/-- Two requests that differ at most in their ids and bodies. -/
def SameHead (req₁ req₂ : Request) : Prop :=
  req₁.method = req₂.method ∧ req₁.path = req₂.path ∧ req₁.version = req₂.version ∧
    req₁.headers.Same req₂.headers

/-- The spills of two bodies leave the same headers: whatever the name, the last
value given to it and its first spelling come out the same. -/
def SpillsAgree (head body₁ body₂ : Bytes) : Prop :=
  ∀ name,
    (NormMap.lastValue lower (spilledFields head body₁) name).or
        (NormMap.lastValue lower (headFields head) name) =
      (NormMap.lastValue lower (spilledFields head body₂) name).or
        (NormMap.lastValue lower (headFields head) name) ∧
    (NormMap.firstName lower (headFields head) name).or
        (NormMap.firstName lower (spilledFields head body₁) name) =
      (NormMap.firstName lower (headFields head) name).or
        (NormMap.firstName lower (spilledFields head body₂) name)

/-- An accepted complete request has the target of its request line and the
fields of its head, followed by those of the spill. -/
theorem parse_complete_head {json : Nlohmann} {id front body : Bytes}
    {req : Request} (hlen : (front ++ crlfcrlf ++ body).length < 2 ^ 31)
    (hfirst : FirstAt crlfcrlf front)
    (haccept : parse json id (front ++ crlfcrlf ++ body) = .ok (some req)) :
    (req.method, req.path, req.version) =
        (toMethod (targetParts (requestLine (front ++ crlfcrlf))).1,
          (targetParts (requestLine (front ++ crlfcrlf))).2) ∧
      req.headers = NormMap.empty.collect
        (headFields (front ++ crlfcrlf) ++
          spilledFields (front ++ crlfcrlf) body) := by
  obtain ⟨head, document, hhead, _, rfl⟩ := (parse_eq_some_iff hlen).mp haccept
  rw [parseHead_complete hfirst] at hhead
  obtain ⟨rfl, _⟩ := headOf_eq_some hhead
  exact ⟨rfl, rfl⟩

/-- The headers of a request do not depend on the body exactly as long as the
spills of the bodies agree. -/
theorem sameHead_iff_spillsAgree {json : Nlohmann}
    {id₁ id₂ head body₁ body₂ : Bytes} {req₁ req₂ : Request}
    (hhead : ∃ front, head = front ++ crlfcrlf ∧ FirstAt crlfcrlf front)
    (hlen₁ : (head ++ body₁).length < 2 ^ 31)
    (hlen₂ : (head ++ body₂).length < 2 ^ 31)
    (haccept₁ : parse json id₁ (head ++ body₁) = .ok (some req₁))
    (haccept₂ : parse json id₂ (head ++ body₂) = .ok (some req₂)) :
    SameHead req₁ req₂ ↔ SpillsAgree head body₁ body₂ := by
  obtain ⟨front, rfl, hfirst⟩ := hhead
  obtain ⟨htarget₁, hheaders₁⟩ := parse_complete_head hlen₁ hfirst haccept₁
  obtain ⟨htarget₂, hheaders₂⟩ := parse_complete_head hlen₂ hfirst haccept₂
  have htarget := htarget₁.trans htarget₂.symm
  rw [Prod.mk.injEq, Prod.mk.injEq] at htarget
  obtain ⟨hmethod, hpath, hversion⟩ := htarget
  rw [SameHead, SpillsAgree, hheaders₁, hheaders₂, NormMap.collect_same_iff]
  simp only [NormMap.lastValue_append, NormMap.firstName_append]
  constructor
  · exact fun h => h.2.2.2
  · exact fun h => ⟨hmethod, hpath, hversion, h⟩

/-- A complete head whose request line has 22 octets: its window ends 20 octets
into the body. -/
def longLineHead : Bytes := ascii "GET /aaaaaaaa HTTP/1.1\r\nHost: a\r\n\r\n"

/-- A JSON string with a colon in it, and a line end. -/
def colonBody : Bytes := ascii "\":\"\r\n"

/-- A library that reads this one text. -/
def readsColonBody : Nlohmann :=
  ⟨fun text => if text = colonBody then .ok (.string (ascii ":"))
    else .error .parseError,
    fun _ _ => []⟩

theorem longLineHead_complete :
    ∃ front, longLineHead = front ++ crlfcrlf ∧ FirstAt crlfcrlf front := by
  have hcut : cut crlfcrlf longLineHead =
      some (ascii "GET /aaaaaaaa HTTP/1.1\r\nHost: a", []) := by
    decide +kernel
  obtain ⟨hshape, hfirst⟩ := cut_eq_some_iff.mp hcut
  exact ⟨_, by rw [hshape, List.append_nil], hfirst⟩

theorem longLineHead_accepted :
    (∃ req, parse readsColonBody [] (longLineHead ++ []) = .ok (some req)) ∧
      ∃ req, parse readsColonBody [] (longLineHead ++ colonBody) = .ok (some req) :=
  ⟨returnsValue_iff.mp (by decide +kernel), returnsValue_iff.mp (by decide +kernel)⟩

theorem sameHead_iff_spillsAgree_longLineHead :
    ∃ req₁ req₂, parse readsColonBody [] (longLineHead ++ []) = .ok (some req₁) ∧
      parse readsColonBody [] (longLineHead ++ colonBody) = .ok (some req₂) ∧
      (SameHead req₁ req₂ ↔ SpillsAgree longLineHead [] colonBody) := by
  obtain ⟨⟨req₁, haccept₁⟩, ⟨req₂, haccept₂⟩⟩ := longLineHead_accepted
  exact ⟨req₁, req₂, haccept₁, haccept₂,
    sameHead_iff_spillsAgree longLineHead_complete (by decide +kernel)
      (by decide +kernel) haccept₁ haccept₂⟩

/-- The body `":"` puts a header named `"` into the request. -/
theorem colonBody_adds_header :
    ¬ ∀ (json : Nlohmann) (id₁ id₂ head body₁ body₂ : Bytes) (req₁ req₂ : Request),
      (∃ front, head = front ++ crlfcrlf ∧ FirstAt crlfcrlf front) →
      (head ++ body₁).length < 2 ^ 31 → (head ++ body₂).length < 2 ^ 31 →
      parse json id₁ (head ++ body₁) = .ok (some req₁) →
      parse json id₂ (head ++ body₂) = .ok (some req₂) → SameHead req₁ req₂ := by
  intro hclaim
  obtain ⟨⟨req₁, haccept₁⟩, ⟨req₂, haccept₂⟩⟩ := longLineHead_accepted
  have hsame := hclaim readsColonBody [] [] longLineHead [] colonBody req₁ req₂
    longLineHead_complete (by decide +kernel) (by decide +kernel) haccept₁ haccept₂
  have hname := hsame.2.2.2 (ascii "\"")
  obtain ⟨front, hshape, hfirst⟩ := longLineHead_complete
  rw [hshape] at haccept₁ haccept₂
  have hlen₁ : (front ++ crlfcrlf ++ []).length < 2 ^ 31 := by
    rw [← hshape]; decide +kernel
  have hlen₂ : (front ++ crlfcrlf ++ colonBody).length < 2 ^ 31 := by
    rw [← hshape]; decide +kernel
  rw [(parse_complete_head hlen₁ hfirst haccept₁).2,
    (parse_complete_head hlen₂ hfirst haccept₂).2, ← hshape] at hname
  exact absurd hname (by decide +kernel)

end UniServer.Http
