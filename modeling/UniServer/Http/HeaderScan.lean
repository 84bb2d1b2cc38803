/-
  Http/HeaderScan.lean --- the header scan against a reading line by line.

  The reference splits the text at CRLFs, drops what no CRLF ends, and takes from
  every line with a colon the name before the first one and the text behind it,
  without the blanks it begins with.  Names are the same when they differ in case
  only; the last line of a name counts.

  The loop of the source keeps three cursors and looks for a colon beyond the
  current line.  It ends on every text that has a CRLF, and the map it builds is
  that of the reference.
-/
import UniServer.Http.ParseReference

set_option autoImplicit false

namespace UniServer.Http

open UniServer.Foundation

/-! ## The reference -/

/-- What stands before the first colon. -/
def lineName (line : Bytes) : Bytes := line.takeWhile fun b => b != 58

/-- What stands behind it. -/
def lineText (line : Bytes) : Bytes := (line.dropWhile fun b => b != 58).drop 1

/-- A text without the blanks it begins with; a text of blanks only stays as it
is. -/
def keptText (text : Bytes) : Bytes :=
  if text.all isBlank then text else text.dropWhile isBlank

/-- The name and the value of a line, if it has a colon. -/
def lineField (line : Bytes) : Option (Bytes × Bytes) :=
  if (58 : Byte) ∈ line then some (lineName line, keptText (lineText line))
    else none

/-- The names and values of the lines that a CRLF ends. -/
def lineFields (headers : Bytes) : List (Bytes × Bytes) :=
  (linesOf headers).filterMap lineField

/-! ## The lines of the parser are those of the reference -/

theorem cut_singleton_of_mem {c : Byte} {s : Bytes} (h : c ∈ s) :
    cut [c] s =
      some (s.takeWhile fun b => b != c, (s.dropWhile fun b => b != c).drop 1) := by
  obtain ⟨p, t, rfl, hp⟩ := List.eq_append_cons_of_mem h
  have hpass : ∀ b ∈ p, (b != c) = true := by
    intro b hb
    rw [bne_iff_ne]
    intro heq
    exact hp (heq ▸ hb)
  have hstop : (c != c) = false := bne_self_eq_false c
  have htake : (p ++ c :: t).takeWhile (fun b => b != c) = p := by
    rw [List.takeWhile_append_of_pos hpass, List.takeWhile_cons, hstop]
    simp
  have hdrop : (p ++ c :: t).dropWhile (fun b => b != c) = c :: t := by
    rw [List.dropWhile_append_of_pos hpass, List.dropWhile_cons, hstop]
    simp
  rw [htake, hdrop]
  have hcut := cut_append (firstAt_singleton.mpr hp) t
  rwa [List.append_assoc, List.singleton_append] at hcut

theorem trimValue_eq_keptText (value : Bytes) :
    trimValue value = keptText value := by
  unfold trimValue keptText
  by_cases hall : value.all isBlank = true
  · have hnone : value.findIdx? (fun b => !isBlank b) = none := by
      rw [List.findIdx?_eq_none_iff]
      intro b hb
      rw [List.all_eq_true.mp hall b hb, Bool.not_true]
    rw [hnone, if_pos hall]
  · have hsome : ∃ b, b ∈ value ∧ (!isBlank b) = true := by
      simpa using hall
    rw [List.findIdx?_eq_some_of_exists hsome, if_neg hall,
      List.dropWhile_eq_drop_findIdx_not]

theorem fieldOf_eq_lineField (line : Bytes) : fieldOf line = lineField line := by
  unfold fieldOf lineField
  split
  · rename_i hcolon
    rw [colonMark, cut_singleton_of_mem hcolon, Option.map_some,
      trimValue_eq_keptText]
    rfl
  · rename_i hcolon
    rw [colonMark, cut_singleton_eq_none_iff.mpr hcolon, Option.map_none]

theorem fieldsOf_eq_lineFields (headers : Bytes) :
    fieldsOf (linesOf headers) = lineFields headers := by
  unfold fieldsOf lineFields
  exact congrArg (fun f => (linesOf headers).filterMap f)
    (funext fieldOf_eq_lineField)

/-! ## Lookups -/

/-- The lines of a name. -/
def namedLine (name : Bytes) (field : Bytes × Bytes) : Bool :=
  caseInsensitiveEqual field.1 name

theorem find_named (fields : List (Bytes × Bytes)) (name : Bytes) :
    Assoc.find lower fields name = fields.find? (namedLine name) := by
  unfold Assoc.find
  congr 1
  funext field
  rw [Bool.eq_iff_iff, decide_eq_true_iff]
  exact (caseInsensitiveEqual_iff field.1 name).symm

/-- What a map has under every name, and that it has it once. -/
structure HoldsLines (fields : HeaderMap) (lines : List (Bytes × Bytes)) :
    Prop where
  /-- the value of the last line of the name -/
  value : ∀ name, (fields.find name).map (·.2) =
    (lines.reverse.find? (namedLine name)).map (·.2)
  /-- under the name as its first line has it -/
  spelling : ∀ name, (fields.find name).map (·.1) =
    (lines.find? (namedLine name)).map (·.1)
  once : fields.entries.Pairwise fun entry entry' =>
    caseInsensitiveEqual entry.1 entry'.1 = false

theorem holdsLines_collect (lines : List (Bytes × Bytes)) :
    HoldsLines (NormMap.empty.collect lines) lines := by
  have hsome : ∀ name, (lines.reverse.find? (namedLine name)).isSome =
      (lines.find? (namedLine name)).isSome := by
    intro name
    have h : (NormMap.firstName lower lines name).isSome =
        (NormMap.lastValue lower lines name).isSome :=
      NormMap.firstName_isSome_eq_lastValue lines name
    rw [NormMap.firstName, NormMap.lastValue, Option.isSome_map, Option.isSome_map,
      find_named, find_named] at h
    exact h.symm
  refine ⟨fun name => ?_, fun name => ?_, ?_⟩
  · rw [NormMap.find_collect_empty, NormMap.lastValue, find_named]
    cases lines.reverse.find? (namedLine name) with
    | none => rfl
    | some last => rfl
  · rw [NormMap.find_collect_empty, NormMap.lastValue, NormMap.firstName,
      find_named, find_named]
    have h := hsome name
    cases hlast : lines.reverse.find? (namedLine name) with
    | none =>
      rw [hlast, Option.isSome_none] at h
      rw [Option.isNone_iff_eq_none.mp (Option.isSome_eq_false_iff.mp h.symm)]
      rfl
    | some last =>
      rw [hlast, Option.isSome_some] at h
      obtain ⟨first, hfirst⟩ := Option.isSome_iff_exists.mp h.symm
      rw [hfirst]
      rfl
  · have hdistinct := (NormMap.empty.collect lines : HeaderMap).distinct
    rw [List.Nodup, List.pairwise_map] at hdistinct
    refine hdistinct.imp fun {entry entry'} hne => ?_
    rw [Bool.eq_false_iff, ne_eq, caseInsensitiveEqual_iff]
    exact hne

/-- The loop ends on a text with a CRLF, builds the map of its lines, and is
followed by a check that one of them is named Host. -/
theorem scanHeaders_refines {headers : Bytes} (hlen : headers.length < 2 ^ 31)
    (hcrlf : crlf <:+: headers) :
    ∃ fields : HeaderMap,
      (∀ fuel, headers.length < fuel →
        scanHeaders headers fuel 0 (toInt (find headers crlf 0)) .empty =
          .ok fields) ∧
      HoldsLines fields (lineFields headers) ∧
      parseHeaders headers =
        .ok (if fields.contains (ascii "Host") then some fields else none) ∧
      (fields.contains (ascii "Host") = true ↔
        ∃ line ∈ linesOf headers, (58 : Byte) ∈ line ∧
          caseInsensitiveEqual (lineName line) (ascii "Host") = true) := by
  obtain ⟨⟨line, rest⟩, hcut⟩ := Option.isSome_iff_exists.mp
    (cut_isSome_of_occurs hcrlf)
  have hbeg : toInt (find headers crlf 0) = ((0 + line.length : Nat) : Int) := by
    rw [toInt_find_of_cut hlen hcut, Nat.zero_add]
  refine ⟨headersOf headers, ?_, ?_, parseHeaders_eq hlen, ?_⟩
  · intro fuel hfuel
    have hscan := scanHeaders_eq hlen fuel 0 line rest NormMap.empty (Nat.zero_le _)
      (by omega) hcut
    rw [hbeg]
    exact hscan
  · rw [headersOf, fieldsOf_eq_lineFields]
    exact holdsLines_collect (lineFields headers)
  · rw [headersOf, fieldsOf_eq_lineFields, NormMap.contains_collect_empty,
      List.any_eq_true]
    constructor
    · intro h
      obtain ⟨field, hfield, hname⟩ := h
      obtain ⟨line, hline, hof⟩ := List.mem_filterMap.mp hfield
      unfold lineField at hof
      split at hof
      · rename_i hcolon
        refine ⟨line, hline, hcolon, ?_⟩
        rw [← Option.some_inj.mp hof, decide_eq_true_iff,
          ← caseInsensitiveEqual_iff] at hname
        exact hname
      · cases hof
    · intro h
      obtain ⟨line, hline, hcolon, hname⟩ := h
      refine ⟨_, List.mem_filterMap.mpr ⟨line, hline, if_pos hcolon⟩, ?_⟩
      rw [decide_eq_true_iff, ← caseInsensitiveEqual_iff]
      exact hname

/-- An empty line, a line without a colon, a name in two spellings, and a last line
that no CRLF ends. -/
def sampleHeaders : Bytes := ascii "\r\nab\r\nhost:\t x\r\nHOST: \r\nX: y"

example : lineFields sampleHeaders =
    [(ascii "host", ascii "x"), (ascii "HOST", ascii " ")] := by
  decide +kernel

theorem scanHeaders_refines_sample :
    ∃ fields : HeaderMap,
      (∀ fuel, sampleHeaders.length < fuel →
        scanHeaders sampleHeaders fuel 0 (toInt (find sampleHeaders crlf 0))
          .empty =
          .ok fields) ∧
      HoldsLines fields (lineFields sampleHeaders) ∧
      parseHeaders sampleHeaders =
        .ok (if fields.contains (ascii "Host") then some fields else none) ∧
      (fields.contains (ascii "Host") = true ↔
        ∃ line ∈ linesOf sampleHeaders, (58 : Byte) ∈ line ∧
          caseInsensitiveEqual (lineName line) (ascii "Host") = true) :=
  @scanHeaders_refines sampleHeaders (by decide +kernel) (by decide +kernel)

end UniServer.Http
