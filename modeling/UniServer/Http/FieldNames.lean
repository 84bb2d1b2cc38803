/-
  Http/FieldNames.lean --- which field names are in the head of a response.

  `serialize` writes Content-Type and Content-Length itself, and then every entry
  of the header map, whatever its name.  The map keeps its own names apart, but
  not from the two of the serializer, and an entry that holds line ends writes
  more than one line.
-/
import UniServer.Http.Serialize

set_option autoImplicit false

namespace UniServer.Http

open UniServer.Foundation UniServer.Common

/-! ## The fields on the wire -/

/-- The fields of a head, as a client reads its lines behind the status line. -/
def wireFields (head : Bytes) : List (Bytes × Bytes) :=
  fieldsOf (linesOf (head ++ crlf)).tail

/-- A name of a head, in one case. -/
def wireName (field : Bytes × Bytes) : Bytes := lower field.1

/-- No name comes twice in the head, whatever its case, and the one Content-Length
says how many octets follow the blank line. -/
def FieldsOnce (out : Bytes) : Prop :=
  ∃ head rest, cut crlfcrlf out = some (head, rest) ∧
    ((wireFields head).map wireName).Nodup ∧
    (wireFields head).filter (fun field =>
        decide (wireName field = lower (ascii "Content-Length"))) =
      [(ascii "Content-Length", decimal rest.length)]

/-! ## The lines that are written -/

/-- The status line and the serializer's two fields. -/
def ownLines (status : HttpStatus) (length : Nat) : List Bytes :=
  [statusLine status, responseLine (ascii "Content-Type", ascii "application/json"),
    responseLine (ascii "Content-Length", decimal length)]

/-- The lines that the entries of a map make when they are written one after the
other. -/
def entryLines (headers : HeaderMap) : List Bytes :=
  linesOf (joined crlf (headers.entries.map responseLine))

/-- The entries write no empty line, and no name twice, nor one of the
serializer's. -/
structure SentOnce (headers : HeaderMap) : Prop where
  noBlank : [] ∉ entryLines headers
  distinct : (lower (ascii "Content-Type") :: lower (ascii "Content-Length") ::
    (fieldsOf (entryLines headers)).map wireName).Nodup

/-- A numeral begins with a digit. -/
theorem decimal_visible (n : Nat) :
    ∃ b text, decimal n = b :: text ∧ isBlank b = false := by
  have hne : decimal n ≠ [] := by
    rcases Nat.lt_or_ge n 10 with hlt | hge
    · rw [decimal_of_lt hlt]
      exact List.cons_ne_nil _ _
    · rw [decimal_of_le hge]
      exact List.append_ne_nil_of_right_ne_nil _ (List.cons_ne_nil _ _)
  obtain ⟨b, text, htext⟩ := List.exists_cons_of_ne_nil hne
  have hdigit := (decimal_digits n b (by rw [htext]; exact List.mem_cons_self)).1
  refine ⟨b, text, htext, ?_⟩
  rw [isBlank, Bool.or_eq_false_iff, beq_eq_false_iff_ne, beq_eq_false_iff_ne]
  constructor
  · rintro rfl
    exact absurd hdigit (by decide)
  · rintro rfl
    exact absurd hdigit (by decide)

theorem responseLine_eq (field : Bytes × Bytes) :
    responseLine field = field.1 ++ colonMark ++ (space ++ field.2) := by
  rw [← List.append_assoc, List.append_assoc field.1]
  rfl

/-- The serializer's own lines are clean. -/
theorem ownLines_clean (status : HttpStatus) (length : Nat) :
    ∀ line ∈ ownLines status length, line ≠ [] ∧ ¬ crlf <:+: line := by
  have hnames : ¬ crlf <:+: ascii "Content-Type" ∧
      ¬ crlf <:+: ascii "application/json" ∧
        ¬ crlf <:+: ascii "Content-Length" := by
    decide +kernel
  obtain ⟨htype, hjson, hlength⟩ := hnames
  have hdecimal : ¬ crlf <:+: decimal length :=
    no_crlf_of_notMem (decimal_notMem (Or.inl (by decide)) length)
  intro line hline
  rw [ownLines, List.mem_cons, List.mem_cons, List.mem_singleton] at hline
  rcases hline with rfl | rfl | rfl
  · exact statusLine_clean status
  · exact responseLine_clean htype hjson
  · exact responseLine_clean hlength hdecimal

/-- The fields of the serializer's two lines. -/
theorem fieldsOf_ownLines (status : HttpStatus) (length : Nat) :
    fieldsOf (ownLines status length).tail =
      [(ascii "Content-Type", ascii "application/json"),
        (ascii "Content-Length", decimal length)] := by
  have htype :
      fieldOf (responseLine (ascii "Content-Type", ascii "application/json")) =
      some (ascii "Content-Type", ascii "application/json") := by
    decide +kernel
  have hlength : fieldOf (responseLine (ascii "Content-Length", decimal length)) =
      some (ascii "Content-Length", decimal length) := by
    have hno : (58 : Byte) ∉ ascii "Content-Length" := by decide +kernel
    rw [responseLine_eq]
    exact fieldOf_written hno (decimal_visible length)
  rw [ownLines, List.tail_cons, fieldsOf, List.filterMap_cons_some htype,
    List.filterMap_cons_some hlength, List.filterMap_nil]

/-- Cutting a text of ended pieces and joining it again gives the text. -/
theorem joined_linesOf (texts : List Bytes) :
    joined crlf (linesOf (joined crlf texts)) = joined crlf texts := by
  have hended : (pieces crlf (joined crlf texts)).2 = [] := by
    rcases List.eq_nil_or_concat texts with hnil | ⟨front, last, hconcat⟩
    · rw [hnil, joined_nil, pieces_of_cut_none (by decide)]
    · have hshape : joined crlf texts = (joined crlf front ++ last) ++ crlf := by
        rw [hconcat, List.concat_eq_append, joined_append, joined_cons, joined_nil,
          List.append_nil, List.append_assoc]
      rw [hshape]
      exact pieces_ended (by decide) _
  have hjoin := pieces_join crlf_ne_nil (joined crlf texts)
  rwa [hended, List.append_nil] at hjoin

/-- The output as its lines: the serializer's own, those of the entries, a blank
line and the body. -/
theorem serialize_lines {json : Nlohmann} {resp : Response} {out : Bytes}
    (hout : serialize json resp = .ok out) :
    ∃ body, out = joined crlf (ownLines resp.status body.length ++
      entryLines resp.headers) ++ crlf ++ body := by
  obtain ⟨body, hdump, _⟩ := Run.bind_eq_ok.mp (noexcept_eq_ok_iff.mp hout)
  rw [serialize_eq hdump, Except.ok.injEq] at hout
  refine ⟨body, ?_⟩
  rw [← hout, joined_append, entryLines, joined_linesOf, ← joined_append]
  rfl

/-- The serializer's two fields, and those of the lines behind them. -/
theorem wireFields_of_lines {head : Bytes} {status : HttpStatus} {length : Nat}
    {lines : List Bytes}
    (h : linesOf (head ++ crlf) = ownLines status length ++ lines) :
    wireFields head =
      (ascii "Content-Type", ascii "application/json") ::
        (ascii "Content-Length", decimal length) :: fieldsOf lines := by
  have hne : ownLines status length ≠ [] := List.cons_ne_nil _ _
  rw [wireFields, h, List.tail_append_of_ne_nil hne, fieldsOf_append,
    fieldsOf_ownLines]
  rfl

/-- Some of the lines of the entries, none of them empty, behind the serializer's
own lines are a head. -/
theorem cut_ownLines {headers : HeaderMap} {front behind : List Bytes}
    (hsplit : entryLines headers = front ++ behind) (hblank : [] ∉ front)
    (status : HttpStatus) (length : Nat) (rest : Bytes) :
    ∃ head, cut crlfcrlf
      (joined crlf (ownLines status length ++ front) ++ crlf ++ rest) =
        some (head, rest) ∧
      wireFields head =
        (ascii "Content-Type", ascii "application/json") ::
          (ascii "Content-Length", decimal length) :: fieldsOf front := by
  have hclean : ∀ line ∈ ownLines status length ++ front,
      line ≠ [] ∧ ¬ crlf <:+: line := by
    intro line hline
    rcases List.mem_append.mp hline with hown | hentry
    · exact ownLines_clean status length line hown
    · refine ⟨fun hnil => hblank (hnil ▸ hentry), ?_⟩
      have hmem : line ∈ entryLines headers := by
        rw [hsplit]
        exact List.mem_append_left _ hentry
      exact not_crlf_of_line hmem
  have hne : ownLines status length ++ front ≠ [] := List.cons_ne_nil _ _
  obtain ⟨head, hcut, hlines⟩ := cut_framed hne hclean rest
  exact ⟨head, hcut, wireFields_of_lines hlines⟩

/-! ## Once, exactly when -/

variable {status : HttpStatus} {headers : HeaderMap} {body : Bytes}

/-- A head that ends before an empty line of the entries names too short a
length. -/
theorem not_fieldsOnce_of_blank (hblank : [] ∈ entryLines headers) :
    ¬ FieldsOnce (joined crlf (ownLines status body.length ++ entryLines headers) ++
      crlf ++ body) := by
  rintro ⟨head, rest, hcut, _, hlength⟩
  obtain ⟨front, behind, hsplit, hfirst⟩ := List.eq_append_cons_of_mem hblank
  have hshape : joined crlf (ownLines status body.length ++ entryLines headers) ++
      crlf ++ body =
      joined crlf (ownLines status body.length ++ front) ++ crlf ++
        (joined crlf behind ++ crlf ++ body) := by
    rw [hsplit, ← List.append_assoc, joined_append, joined_cons, List.nil_append]
    simp only [List.append_assoc]
  obtain ⟨head', hcut', hfields⟩ := cut_ownLines hsplit hfirst status body.length
    (joined crlf behind ++ crlf ++ body)
  rw [hshape, hcut', Option.some_inj, Prod.mk.injEq] at hcut
  obtain ⟨rfl, rfl⟩ := hcut
  have hmem : (ascii "Content-Length", decimal body.length) ∈
      (wireFields head').filter fun field =>
        decide (wireName field = lower (ascii "Content-Length")) := by
    rw [List.mem_filter, hfields]
    exact ⟨List.mem_cons_of_mem _ List.mem_cons_self, decide_eq_true rfl⟩
  rw [hlength, List.mem_singleton, Prod.mk.injEq] at hmem
  have hvalue := congrArg readDecimal hmem.2
  have hcrlf : crlf.length = 2 := rfl
  rw [readDecimal_decimal, readDecimal_decimal, List.length_append,
    List.length_append, hcrlf] at hvalue
  omega

/-- Without an empty line the head is all that the entries write. -/
theorem fieldsOnce_iff_distinct (hblank : [] ∉ entryLines headers) :
    FieldsOnce (joined crlf (ownLines status body.length ++ entryLines headers) ++
      crlf ++ body) ↔
      (lower (ascii "Content-Type") :: lower (ascii "Content-Length") ::
        (fieldsOf (entryLines headers)).map wireName).Nodup := by
  obtain ⟨head, hcut, hfields⟩ :=
    cut_ownLines (List.append_nil (entryLines headers)).symm
    hblank status body.length body
  have hnames : (wireFields head).map wireName =
      lower (ascii "Content-Type") :: lower (ascii "Content-Length") ::
        (fieldsOf (entryLines headers)).map wireName := by
    rw [hfields]
    rfl
  constructor
  · rintro ⟨head', rest, hcut', hdistinct, _⟩
    rw [hcut, Option.some_inj, Prod.mk.injEq] at hcut'
    rw [← hnames, hcut'.1]
    exact hdistinct
  · intro hdistinct
    refine ⟨head, body, hcut, hnames ▸ hdistinct, ?_⟩
    rw [List.nodup_cons, List.nodup_cons, List.mem_cons, not_or] at hdistinct
    obtain ⟨⟨htype, _⟩, hlength, _⟩ := hdistinct
    have hrest : (fieldsOf (entryLines headers)).filter (fun field =>
        decide (wireName field = lower (ascii "Content-Length"))) = [] := by
      rw [List.filter_eq_nil_iff]
      intro field hfield heq
      exact hlength (of_decide_eq_true heq ▸ List.mem_map_of_mem hfield)
    have hskip :
        ¬ decide (wireName (ascii "Content-Type", ascii "application/json") =
        lower (ascii "Content-Length")) = true :=
      fun heq => htype (of_decide_eq_true heq)
    rw [hfields, List.filter_cons, if_neg hskip, List.filter_cons, if_pos, hrest]
    exact decide_eq_true rfl

/-- Entries that stay on their lines are sent once exactly when none of them is
named Content-Type or Content-Length. -/
theorem sentOnce_iff_of_sendable (hsend : Sendable headers) :
    SentOnce headers ↔ headers.contains (ascii "Content-Type") = false ∧
      headers.contains (ascii "Content-Length") = false := by
  have hclean : ∀ line ∈ headers.entries.map responseLine,
      line ≠ [] ∧ ¬ crlf <:+: line := by
    intro line hline
    obtain ⟨entry, hentry, rfl⟩ := List.mem_map.mp hline
    exact responseLine_clean (hsend.names entry hentry).2
      (hsend.values entry hentry)
  have hlines : entryLines headers = headers.entries.map responseLine :=
    linesOf_joined_self fun line hline => (hclean line hline).2
  have hfield : ∀ entry ∈ headers.entries,
      fieldOf (responseLine entry) =
        some (entry.1, trimValue (space ++ entry.2)) := by
    intro entry hentry
    have hfirst : FirstAt colonMark entry.1 :=
      firstAt_singleton.mpr (hsend.names entry hentry).1
    rw [responseLine_eq, fieldOf, cut_append hfirst, Option.map_some]
  have hnames : (fieldsOf (entryLines headers)).map wireName =
      headers.entries.map fun entry => lower entry.1 := by
    rw [hlines, fieldsOf, List.filterMap_map, List.map_filterMap,
      ← List.filterMap_eq_map]
    apply List.filterMap_congr
    intro entry hentry
    rw [Function.comp_apply, hfield entry hentry]
    rfl
  have hblank : [] ∉ entryLines headers := by
    rw [hlines]
    exact fun hmem => (hclean [] hmem).1 rfl
  have hcontains : ∀ name, headers.contains name = false ↔
      lower name ∉ headers.entries.map fun entry => lower entry.1 := by
    intro name
    simp [NormMap.contains, NormMap.find, Assoc.find]
  have hown : lower (ascii "Content-Type") ≠ lower (ascii "Content-Length") := by
    decide +kernel
  rw [hcontains, hcontains]
  constructor
  · intro h
    have hdistinct := h.distinct
    rw [hnames, List.nodup_cons, List.nodup_cons, List.mem_cons,
      not_or] at hdistinct
    exact ⟨hdistinct.1.2, hdistinct.2.1⟩
  · rintro ⟨htype, hlength⟩
    refine ⟨hblank, ?_⟩
    rw [hnames, List.nodup_cons, List.nodup_cons, List.mem_cons, not_or]
    exact ⟨⟨hown, htype⟩, hlength, headers.distinct⟩

/-- No name is sent twice, and the length is right, exactly when the entries of the
header map write no empty line, no name twice and none of the serializer's own two
names.  Where the entries stay on their lines, it is enough that none of them has
one of these two names. -/
theorem fieldsOnce_iff {json : Nlohmann} {resp : Response} {out : Bytes}
    (hout : serialize json resp = .ok out) :
    (FieldsOnce out ↔ SentOnce resp.headers) ∧
      (Sendable resp.headers →
        (FieldsOnce out ↔ resp.headers.contains (ascii "Content-Type") = false ∧
          resp.headers.contains (ascii "Content-Length") = false)) := by
  have honce : FieldsOnce out ↔ SentOnce resp.headers := by
    obtain ⟨body, rfl⟩ := serialize_lines hout
    by_cases hblank : [] ∈ entryLines resp.headers
    · exact iff_of_false (not_fieldsOnce_of_blank hblank) fun h => h.noBlank hblank
    · rw [fieldsOnce_iff_distinct hblank]
      exact ⟨fun hdistinct => ⟨hblank, hdistinct⟩, fun h => h.distinct⟩
  exact ⟨honce, fun hsend => honce.trans (sentOnce_iff_of_sendable hsend)⟩

/-- A response whose handler has set a Content-Length of its own. -/
def ownLengthResponse : Response where
  status := RetCode.success.toHttpStatus
  headers := NormMap.empty.assign (ascii "content-length") (ascii "0")
  body := .null

theorem ownLengthResponse_out :
    serialize writesNull ownLengthResponse = .ok
      (ascii "HTTP/1.1 200 OK\r\nContent-Type: application/json\r\n" ++
        ascii "Content-Length: 4\r\ncontent-length: 0\r\n\r\nnull") := by
  decide +kernel

theorem ownLengthResponse_sendable : Sendable ownLengthResponse.headers := by
  have hentries : ownLengthResponse.headers.entries =
      [(ascii "content-length", ascii "0")] := rfl
  refine ⟨fun entry hentry => ?_, fun entry hentry => ?_⟩
  · rw [hentries, List.mem_singleton] at hentry
    rw [hentry]
    decide +kernel
  · rw [hentries, List.mem_singleton] at hentry
    rw [hentry]
    decide +kernel

theorem fieldsOnce_iff_ownLengthResponse :
    ∃ out, serialize writesNull ownLengthResponse = .ok out ∧
      (FieldsOnce out ↔ SentOnce ownLengthResponse.headers) ∧
      (FieldsOnce out ↔
        ownLengthResponse.headers.contains (ascii "Content-Type") = false ∧
          ownLengthResponse.headers.contains (ascii "Content-Length") = false) := by
  obtain ⟨honce, hnames⟩ := fieldsOnce_iff ownLengthResponse_out
  exact ⟨_, ownLengthResponse_out, honce, hnames ownLengthResponse_sendable⟩

/-- Two lengths are sent. -/
theorem two_lengths_sent :
    ¬ ∀ (json : Nlohmann) (resp : Response) (out : Bytes),
      serialize json resp = .ok out → FieldsOnce out := by
  intro hclaim
  obtain ⟨head, rest, hcut, hdistinct, _⟩ := hclaim _ _ _ ownLengthResponse_out
  have hhead : cut crlfcrlf
      (ascii "HTTP/1.1 200 OK\r\nContent-Type: application/json\r\n" ++
        ascii "Content-Length: 4\r\ncontent-length: 0\r\n\r\nnull") =
      some (ascii "HTTP/1.1 200 OK\r\nContent-Type: application/json\r\n" ++
        ascii "Content-Length: 4\r\ncontent-length: 0", ascii "null") := by
    decide +kernel
  rw [hhead, Option.some_inj, Prod.mk.injEq] at hcut
  rw [← hcut.1] at hdistinct
  exact absurd hdistinct (by decide +kernel)

end UniServer.Http
