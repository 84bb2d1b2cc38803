/-
  Http/HeaderValues.lean --- the blanks in front of a header value.

  The parser takes the blanks off that a value begins with.  A value that has
  nothing but blanks it leaves alone, so that the empty value of a line `name: `,
  as the serializer writes it, is read back as one blank.

  All of this holds of texts of any length: what the loop cuts out of a text is put
  into the map as it is on any of them (`scanHeaders_eq_scannedTexts`).
-/
import UniServer.Http.HeaderScan
import UniServer.Http.RequestLine

set_option autoImplicit false

namespace UniServer.Http

open UniServer.Foundation

/-! ## Blanks -/

/-- The text is empty, or begins with something that is not a blank. -/
def StartsVisible (text : Bytes) : Prop :=
  ∀ b, text.head? = some b → isBlank b = false

/-- The text has nothing but blanks, and at least one. -/
def BlankOnly (text : Bytes) : Prop := text ≠ [] ∧ ∀ b ∈ text, isBlank b = true

theorem trimValue_of_blank {text : Bytes} (h : ∀ b ∈ text, isBlank b = true) :
    trimValue text = text := by
  rw [trimValue_eq_keptText, keptText, if_pos (List.all_eq_true.mpr h)]

/-- A value begins with a blank where there is nothing else in its text. -/
theorem startsVisible_trimValue (text : Bytes) :
    StartsVisible (trimValue text) ↔ ¬ BlankOnly text := by
  by_cases hall : ∀ b ∈ text, isBlank b = true
  · rw [trimValue_of_blank hall]
    cases text with
    | nil =>
      refine iff_of_true (fun b hb => ?_) (fun h => h.1 rfl)
      cases hb
    | cons b text =>
      refine iff_of_false (fun h => ?_) (fun h => h ⟨List.cons_ne_nil b text, hall⟩)
      have hvisible := h b rfl
      rw [hall b List.mem_cons_self] at hvisible
      cases hvisible
  · refine iff_of_true (fun b hb => ?_) (fun h => hall h.2)
    rw [trimValue_eq_keptText, keptText, if_neg (by rwa [List.all_eq_true])] at hb
    have hstop := List.head?_dropWhile_not isBlank text
    rw [hb] at hstop
    exact hstop

/-- A value behind the blank that the serializer writes comes back, unless it is
empty. -/
theorem trimValue_written {value : Bytes} (h : StartsVisible value) :
    trimValue (space ++ value) = value ↔ value ≠ [] := by
  cases value with
  | nil => exact iff_of_false (by decide) (fun h => h rfl)
  | cons b value =>
    exact iff_of_true (trimValue_space (h b rfl) value) (List.cons_ne_nil b value)

/-! ## What the loop cuts out of a request -/

/-- The names and texts that the header loop cuts out of a text, in order. -/
def RequestTexts (raw : Bytes) (texts : List (Bytes × Bytes)) : Prop :=
  ∃ start headers, addInt (toInt (find raw crlf 0)) 2 = .ok start ∧
    substr raw (toSize start) (toSize (toInt (find raw crlfcrlf 0))) =
      .ok headers ∧
    scannedTexts headers (headers.length + 1) 0 (toInt (find headers crlf 0)) =
      .ok texts

/-- The last of these with this name, whatever its case, has this text. -/
def LastText (raw name text : Bytes) : Prop :=
  ∃ texts, RequestTexts raw texts ∧
    (texts.reverse.find? (namedLine name)).map (·.2) = some text

theorem requestTexts_unique {raw : Bytes} {texts texts' : List (Bytes × Bytes)}
    (h : RequestTexts raw texts) (h' : RequestTexts raw texts') :
    texts = texts' := by
  obtain ⟨start, headers, hstart, hwindow, htexts⟩ := h
  obtain ⟨start', headers', hstart', hwindow', htexts'⟩ := h'
  rw [hstart] at hstart'
  rw [← Except.ok.inj hstart', hwindow] at hwindow'
  rw [← Except.ok.inj hwindow', htexts] at htexts'
  exact Except.ok.inj htexts'

/-- The headers of an accepted request are made of them. -/
theorem requestTexts_of_parse {json : Nlohmann} {id raw : Bytes} {req : Request}
    (h : parse json id raw = .ok (some req)) :
    ∃ texts, RequestTexts raw texts ∧
      req.headers = NormMap.empty.collect (texts.map trimText) := by
  obtain ⟨targets, headers, start, haccepted⟩ := accepted_of_parse h
  have hfields := haccepted.fields
  rw [parseHeaders] at hfields
  split at hfields
  · cases hfields
  · obtain ⟨fields, hscan, hfields⟩ := Run.bind_eq_ok.mp hfields
    rw [scanHeaders_eq_scannedTexts] at hscan
    cases htexts : scannedTexts headers (headers.length + 1) 0
        (toInt (find headers crlf 0)) with
    | error e =>
      rw [htexts] at hscan
      cases hscan
    | ok texts =>
      rw [htexts] at hscan
      refine ⟨texts, ⟨start, headers, haccepted.next, haccepted.window, htexts⟩, ?_⟩
      split at hfields
      · rw [← Option.some_inj.mp (Except.ok.inj hfields)]
        exact (Except.ok.inj hscan).symm
      · cases hfields

theorem find_map_trimText (texts : List (Bytes × Bytes)) (name : Bytes) :
    ((texts.map trimText).find? (namedLine name)).map (·.2) =
      ((texts.find? (namedLine name)).map (·.2)).map trimValue := by
  rw [List.find?_map]
  have hsame : namedLine name ∘ trimText = namedLine name := rfl
  rw [hsame, Option.map_map, Option.map_map]
  rfl

/-- Under every name there is the trimmed text of its last line. -/
theorem storedValue_iff {json : Nlohmann} {id raw : Bytes} {req : Request}
    (h : parse json id raw = .ok (some req)) (name value : Bytes) :
    (req.headers.find name).map (·.2) = some value ↔
      ∃ text, LastText raw name text ∧ trimValue text = value := by
  obtain ⟨texts, htexts, hheaders⟩ := requestTexts_of_parse h
  rw [hheaders, (holdsLines_collect _).value, ← List.map_reverse, find_map_trimText,
    Option.map_eq_some_iff]
  constructor
  · intro h
    obtain ⟨text, htext, hvalue⟩ := h
    exact ⟨text, ⟨texts, htexts, htext⟩, hvalue⟩
  · intro h
    obtain ⟨text, ⟨texts', htexts', htext⟩, hvalue⟩ := h
    rw [requestTexts_unique htexts htexts']
    exact ⟨text, htext, hvalue⟩

/-! ## The values of an accepted request -/

/-- On a text within the range of the cursors these are the lines of the window. -/
theorem requestTexts_of_short {json : Nlohmann} {id raw : Bytes} {req : Request}
    (hlen : raw.length < 2 ^ 31) (h : parse json id raw = .ok (some req))
    {line rest : Bytes} (hcut : cut crlf raw = some (line, rest)) :
    RequestTexts raw
      ((linesOf (headerWindow raw rest)).filterMap (cut colonMark)) := by
  have hcutLen : raw.length = line.length + 2 + rest.length := cut_length hcut
  have hfind : toInt (find raw crlf 0) = (line.length : Int) :=
    toInt_find_of_cut hlen hcut
  have hstart : addInt (toInt (find raw crlf 0)) 2 =
      .ok ((line.length + 2 : Nat) : Int) := by
    rw [hfind]
    exact addInt_natCast _ 2 (by omega)
  have hsize : toSize ((line.length + 2 : Nat) : Int) = line.length + 2 :=
    toSize_natCast (by omega)
  have hwindow : substr raw (toSize ((line.length + 2 : Nat) : Int))
      (toSize (toInt (find raw crlfcrlf 0))) = .ok (headerWindow raw rest) := by
    rw [hsize]
    exact substr_headerWindow hlen hcut
  have hshort : (headerWindow raw rest).length < 2 ^ 31 := by
    have hle := (substr_eq_ok_iff.mp hwindow).2
    rw [hle, List.length_take, List.length_drop]
    omega
  refine ⟨_, _, hstart, hwindow, ?_⟩
  cases hfirst : cut crlf (headerWindow raw rest) with
  | none =>
    -- a window without a line is not accepted
    obtain ⟨targets, headers, start, haccepted⟩ := accepted_of_parse h
    have hnext := haccepted.next
    rw [hstart] at hnext
    have hcutout := haccepted.window
    rw [← Except.ok.inj hnext, hwindow] at hcutout
    have hfields := haccepted.fields
    rw [← Except.ok.inj hcutout, parseHeaders] at hfields
    simp only [toInt_find_of_cut_none hfirst, toSize_neg_one, if_true] at hfields
    cases hfields
  | some parts =>
    obtain ⟨first, more⟩ := parts
    have hscan :=
      scannedTexts_eq hshort ((headerWindow raw rest).length + 1) 0 first
      more (Nat.zero_le _) (by omega) hfirst
    rw [toInt_find_of_cut hshort hfirst]
    rwa [List.drop_zero, Nat.zero_add] at hscan

theorem lastText_iff {json : Nlohmann} {id raw : Bytes} {req : Request}
    (hlen : raw.length < 2 ^ 31) (h : parse json id raw = .ok (some req))
    {line rest : Bytes} (hcut : cut crlf raw = some (line, rest))
    (name text : Bytes) :
    LastText raw name text ↔
      (((linesOf (headerWindow raw rest)).filterMap (cut colonMark)).reverse.find?
        (namedLine name)).map (·.2) = some text := by
  have hlines := requestTexts_of_short hlen h hcut
  constructor
  · intro hlast
    obtain ⟨texts, htexts, htext⟩ := hlast
    rwa [requestTexts_unique hlines htexts]
  · intro htext
    exact ⟨_, hlines, htext⟩

/-- No value of an accepted request begins with a blank when no name has a last line
with nothing but blanks behind its colon, and only then.  So the value of a line
`name: value` comes back when it is not empty, and only then.  On a text within the
range of the cursors the lines are those of the window. -/
theorem storedValues_visible_iff {json : Nlohmann} {id raw : Bytes} {req : Request}
    (h : parse json id raw = .ok (some req)) :
    ((∀ entry ∈ req.headers.entries, StartsVisible entry.2) ↔
      ∀ name text, LastText raw name text → ¬ BlankOnly text) ∧
    (∀ name value, LastText raw name (space ++ value) → StartsVisible value →
      ((req.headers.find name).map (·.2) = some value ↔ value ≠ [])) ∧
    (raw.length < 2 ^ 31 → ∀ line rest, cut crlf raw = some (line, rest) →
      ∀ name text, LastText raw name text ↔
        (((linesOf (headerWindow raw rest)).filterMap (cut colonMark)).reverse.find?
          (namedLine name)).map (·.2) = some text) := by
  refine ⟨?_, fun name value hlast hvisible => ?_,
    fun hlen line rest hcut name text =>
    lastText_iff hlen h hcut name text⟩
  · rw [req.headers.forall_values_iff StartsVisible]
    constructor
    · intro hall name text htext
      rw [← startsVisible_trimValue]
      exact hall name _ ((storedValue_iff h name _).mpr ⟨text, htext, rfl⟩)
    · intro hall name value hvalue
      obtain ⟨text, htext, rfl⟩ := (storedValue_iff h name value).mp hvalue
      exact (startsVisible_trimValue text).mpr (hall name text htext)
  · rw [storedValue_iff h, ← trimValue_written hvisible]
    constructor
    · intro hstored
      obtain ⟨text, ⟨texts, htexts, htext⟩, hvalue⟩ := hstored
      obtain ⟨texts', htexts', htext'⟩ := hlast
      rw [requestTexts_unique htexts htexts', htext'] at htext
      rw [Option.some_inj.mp htext]
      exact hvalue
    · intro hvalue
      exact ⟨space ++ value, hlast, hvalue⟩

/-- A request with this value in a line of its own. -/
def valueRequest (value : Bytes) : Bytes :=
  ascii "GET / HTTP/1.1\r\nHost: a\r\nX: " ++ value ++ crlfcrlf

theorem storedValues_visible_of_value :
    ∃ req, parse readsNothing [] (valueRequest (ascii "y")) = .ok (some req) ∧
      ((∀ entry ∈ req.headers.entries, StartsVisible entry.2) ↔
        ∀ name text, LastText (valueRequest (ascii "y")) name text →
          ¬ BlankOnly text) := by
  have haccepted : returnsValue (parse readsNothing []
      (valueRequest (ascii "y"))) = true := by
    decide +kernel
  obtain ⟨req, h⟩ := returnsValue_iff.mp haccepted
  exact ⟨req, h, (storedValues_visible_iff h).1⟩

/-- The empty value of the line `X: ` is stored as a blank. -/
theorem storedValue_of_empty :
    ∃ req, parse readsNothing [] (valueRequest []) = .ok (some req) ∧
      (∃ entry ∈ req.headers.entries, ¬ StartsVisible entry.2) ∧
      (req.headers.find (ascii "X")).map (·.2) = some (ascii " ") ∧
      (req.headers.find (ascii "X")).map (·.2) ≠ some [] := by
  have hentries : (parse readsNothing [] (valueRequest [])).map
      (fun req => req.map fun req => req.headers.entries) =
        .ok (some [(ascii "Host", ascii "a"), (ascii "X", ascii " ")]) := by
    decide +kernel
  have haccepted : returnsValue (parse readsNothing [] (valueRequest [])) =
      true := by
    decide +kernel
  obtain ⟨req, h⟩ := returnsValue_iff.mp haccepted
  rw [h] at hentries
  have hentries : req.headers.entries =
      [(ascii "Host", ascii "a"), (ascii "X", ascii " ")] :=
    Option.some_inj.mp (Except.ok.inj hentries)
  have hmem : (ascii "X", ascii " ") ∈ req.headers.entries := by
    rw [hentries]
    exact List.mem_cons_of_mem _ List.mem_cons_self
  have hfound : (req.headers.find (ascii "X")).map (·.2) = some (ascii " ") := by
    rw [NormMap.find_of_mem req.headers hmem, Option.map_some]
  refine ⟨req, h, ⟨_, hmem, fun hvisible => ?_⟩, hfound, ?_⟩
  · exact absurd (hvisible 32 (by decide +kernel)) (by decide)
  · rw [hfound]
    decide +kernel

end UniServer.Http
