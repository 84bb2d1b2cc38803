/-
  Logging/JsonRecords.lean --- what the JSON format keeps of a record.

  The document of a record has its time, its status, its source file and line and
  its details, and from a text of the library the document can be read back.  The
  message of the record, which the console format shows, is not in the document.
-/
import UniServer.Http.JsonText
import UniServer.Logging.Format

set_option autoImplicit false

namespace UniServer.Logging

open UniServer.Foundation UniServer.Common UniServer.Http

/-! ## What two records have in common -/

/-- The records agree on what goes into the document. -/
structure LogInfo.RecordedAlike (i i' : LogInfo) : Prop where
  timepoint : i.timepoint = i'.timepoint
  status : i.status = i'.status
  fileName : i.loc.fileName = i'.loc.fileName
  line : i.loc.line = i'.loc.line
  details : i.details = i'.details

/-- They agree on that and on the message. -/
structure LogInfo.ShownAlike (i i' : LogInfo) : Prop extends
    LogInfo.RecordedAlike i i' where
  info : i.info = i'.info

/-! ## The document -/

theorem logValue_inj {v w : Log} (h : v.value = w.value) : v = w := by
  cases v <;> cases w <;> first | rfl | cases h

theorem itemsFloatFree_pairs (details : List (Bytes × Bytes)) :
    Json.itemsFloatFree (details.map pairToJson) = true := by
  induction details with
  | nil => rfl
  | cons detail details ih => exact ih

theorem logDocument_floatFree (i : LogInfo) : (logDocument i).floatFree = true := by
  have hdetails := itemsFloatFree_pairs i.details
  simp [logDocument, Json.floatFree, Json.membersFloatFree, hdetails]

theorem normalItems_pairs (details : List (Bytes × Bytes)) :
    Json.normalItems (details.map pairToJson) = details.map pairToJson := by
  induction details with
  | nil => rw [List.map_nil, Json.normalItems]
  | cons detail details ih =>
    rw [List.map_cons, Json.normalItems, ih]
    rfl

theorem pairToJson_inj {detail detail' : Bytes × Bytes}
    (h : pairToJson detail = pairToJson detail') : detail = detail' := by
  simp only [pairToJson, Json.array.injEq, List.cons.injEq, Json.string.injEq] at h
  exact Prod.ext h.1 h.2.1

/-- The document determines what goes into it. -/
theorem logDocument_normal_iff (i i' : LogInfo) :
    (logDocument i).normal = (logDocument i').normal ↔ i.RecordedAlike i' := by
  constructor
  · intro h
    simp only [logDocument, Json.normal, Json.normalMembers, normalItems_pairs,
      Json.object.injEq, List.cons.injEq, Prod.mk.injEq, Json.string.injEq,
      Json.number.injEq, JsonNumber.integer.injEq, Json.array.injEq, true_and,
      and_true] at h
    obtain ⟨htime, hstatus, _, hfile, hline, hdetails⟩ := h
    have hinj : Function.Injective pairToJson := fun _ _ => pairToJson_inj
    exact ⟨htime, logValue_inj hstatus, hfile, Int.ofNat_inj.mp hline,
      List.map_injective_iff.mpr hinj hdetails⟩
  · intro h
    unfold logDocument
    rw [h.timepoint, h.status, h.fileName, h.line, h.details]

/-! ## The output -/

/-- `dump()` is injective: two documents with the same text are equal, as
`operator==` has it. -/
def DumpInjective (json : Nlohmann) : Prop :=
  ∀ d e : Json, d.dumpable = true → e.dumpable = true → d.floatFree = true →
    e.floatFree = true → json.text (-1) d = json.text (-1) e → d.normal = e.normal

variable {json : Nlohmann}

theorem jsonFormat_eq_iff (hdump : DumpInjective json) {i i' : LogInfo}
    (hi : i.Utf8) (hi' : i'.Utf8) :
    jsonFormat json i = jsonFormat json i' ↔ i.RecordedAlike i' := by
  have hdoc := (logDocument_dumpable i).mpr hi
  have hdoc' := (logDocument_dumpable i').mpr hi'
  unfold jsonFormat
  rw [Nlohmann.dump_ok hdoc, Nlohmann.dump_ok hdoc', noexcept_ok, noexcept_ok]
  constructor
  · intro h
    rw [← logDocument_normal_iff]
    exact hdump _ _ hdoc hdoc' (logDocument_floatFree i) (logDocument_floatFree i')
      (Except.ok.inj h)
  · intro h
    unfold logDocument
    rw [h.timepoint, h.status, h.fileName, h.line, h.details]

/-- From the output of `JsonFormat` everything can be told of two records but their
messages: what holds of them when they differ in nothing else. -/
theorem jsonFormat_tells_iff (hdump : DumpInjective json) (i i' : LogInfo)
    (hi : i.Utf8) (hi' : i'.Utf8) :
    (jsonFormat json i = jsonFormat json i' → i.ShownAlike i') ↔
      i.info = i'.info ∨ ¬ i.RecordedAlike i' := by
  rw [jsonFormat_eq_iff hdump hi hi']
  constructor
  · intro h
    by_cases hrecorded : i.RecordedAlike i'
    · exact Or.inl (h hrecorded).info
    · exact Or.inr hrecorded
  · intro h hrecorded
    rcases h with hinfo | hno
    · exact ⟨hrecorded, hinfo⟩
    · exact absurd hrecorded hno

/-- The library, with the text that it writes for documents without floating-point
numbers. -/
def writesCompact : Nlohmann :=
  ⟨fun _ => .error .parseError, fun _ document => document.compact fun _ => []⟩

theorem writesCompact_injective : DumpInjective writesCompact :=
  fun _ _ _ _ hd he h => Json.compact_inj hd he h

/-- A record with this message and this detail. -/
def codecRecord (info value : Bytes) : LogInfo where
  status := .debug
  info := info
  loc := ⟨ascii "http_codec.cc", 98, 5⟩
  details := [(ascii "request_id", value)]
  timepoint := ascii "2025-01-01 00:00:00.000"

theorem codecRecord_utf8 {info value : Bytes} (h : validUtf8 value = true) :
    (codecRecord info value).Utf8 := by
  have htime : validUtf8 (ascii "2025-01-01 00:00:00.000") = true := by
    decide +kernel
  have hfile : validUtf8 (ascii "http_codec.cc") = true := by decide +kernel
  have hname : validUtf8 (ascii "request_id") = true := by decide +kernel
  refine ⟨htime, hfile, ?_⟩
  intro detail hdetail
  rw [List.mem_singleton.mp hdetail]
  exact ⟨hname, h⟩

/-- A line break is told from its escape. -/
theorem jsonFormat_tells_details :
    DumpInjective writesCompact ∧
      (jsonFormat writesCompact (codecRecord (ascii "done") [10]) =
          jsonFormat writesCompact (codecRecord (ascii "done") (ascii "\\n")) →
        (codecRecord (ascii "done") [10]).ShownAlike
          (codecRecord (ascii "done") (ascii "\\n"))) := by
  have hbreak : (codecRecord (ascii "done") [10]).Utf8 :=
    codecRecord_utf8 (by decide +kernel)
  have hescape : (codecRecord (ascii "done") (ascii "\\n")).Utf8 :=
    codecRecord_utf8 (by decide +kernel)
  refine ⟨writesCompact_injective, ?_⟩
  exact (jsonFormat_tells_iff writesCompact_injective _ _ hbreak hescape).mpr
    (Or.inl rfl)

/-- Two messages, one output. -/
theorem jsonFormat_drops_info :
    DumpInjective writesCompact ∧
      (codecRecord (ascii "accepted") []).Utf8 ∧
      (codecRecord (ascii "rejected") []).Utf8 ∧
      validUtf8 (ascii "accepted") = true ∧ validUtf8 (ascii "rejected") = true ∧
      jsonFormat writesCompact (codecRecord (ascii "accepted") []) =
        jsonFormat writesCompact (codecRecord (ascii "rejected") []) ∧
      ¬ (codecRecord (ascii "accepted") []).ShownAlike
        (codecRecord (ascii "rejected") []) := by
  have haccepted : (codecRecord (ascii "accepted") []).Utf8 := codecRecord_utf8 rfl
  have hrejected : (codecRecord (ascii "rejected") []).Utf8 := codecRecord_utf8 rfl
  refine ⟨writesCompact_injective, haccepted, hrejected, by decide +kernel,
    by decide +kernel, ?_, fun h => ?_⟩
  · rw [jsonFormat_eq_iff writesCompact_injective haccepted hrejected]
    exact ⟨rfl, rfl, rfl, rfl, rfl⟩
  · exact absurd h.info (by decide +kernel)

end UniServer.Logging
