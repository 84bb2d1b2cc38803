/-
  Logging/ConsoleLines.lean --- the lines of a record in the console format.

  A record is meant to be a line of its own and one line more for each of its
  details.  The console format copies the texts of the record as they are, so that
  a newline in one of them makes a line that nobody has logged.  The texts that
  `HttpCodec::parse` logs of a request come from the peer, and the request line ends
  at a CRLF: a newline alone may stand in it.
-/
import UniServer.Http.ParseLog

set_option autoImplicit false

namespace UniServer.Logging

open UniServer.Foundation UniServer.Common UniServer.Http

/-- `'\n'`. -/
def newline : Byte := 10

/-- The lines that a text makes in a log: the sinks write a newline behind it. -/
def logLines (text : Bytes) : List Bytes := (pieces [newline] (text ++ [newline])).1

/-- The first line of a record. -/
def headLine (i : LogInfo) : Bytes :=
  let base := ascii "[" ++ i.timepoint ++ ascii "] [" ++ i.status.coloredReason ++
    ascii "] " ++ i.loc.fileName ++ ascii ":(" ++ decimal i.loc.line ++ ascii ":" ++
    decimal i.loc.column ++ ascii ") \"" ++ i.info ++ ascii "\""
  if i.details = [] then base else base ++ ascii " details:"

/-- The line of a detail. -/
def detailRow (detail : Bytes × Bytes) : Bytes :=
  ascii "\t- " ++ detail.1 ++ ascii ": \"" ++ detail.2 ++ ascii "\""

theorem detailLine_eq (detail : Bytes × Bytes) :
    detailLine detail = detailRow detail ++ [newline] := by
  have hend : ascii "\"\n" = ascii "\"" ++ [newline] := by decide +kernel
  rw [detailLine, detailRow, hend, ← List.append_assoc]

theorem foldl_detailLine (base : Bytes) (details : List (Bytes × Bytes)) :
    details.foldl (fun base detail => base ++ detailLine detail) base =
      base ++ joined [newline] (details.map detailRow) := by
  induction details generalizing base with
  | nil => exact (List.append_nil base).symm
  | cons detail details ih =>
    rw [List.foldl_cons, ih, List.map_cons, joined_cons, detailLine_eq,
      List.append_assoc]

/-- `ConsoleFormat` writes the rows of a record, less the last newline. -/
theorem consoleFormat_rows (i : LogInfo) :
    consoleFormat i ++ [newline] =
      joined [newline] (headLine i :: i.details.map detailRow) := by
  have hdetails : ascii " details:\n" = ascii " details:" ++ [newline] := by
    decide +kernel
  unfold consoleFormat headLine
  simp only []
  split
  · rename_i hnone
    rw [hnone, List.map_nil, joined_cons, joined_nil, List.append_nil]
  · rename_i hsome
    rw [foldl_detailLine, hdetails, ← List.append_assoc _ (ascii " details:"),
      ← joined_cons]
    obtain ⟨front, hfront⟩ := joined_ends [newline]
      (ascii "[" ++ i.timepoint ++ ascii "] [" ++ i.status.coloredReason ++
        ascii "] " ++ i.loc.fileName ++ ascii ":(" ++ decimal i.loc.line ++
        ascii ":" ++ decimal i.loc.column ++ ascii ") \"" ++ i.info ++ ascii "\"" ++
        ascii " details:") (i.details.map detailRow)
    rw [hfront, List.dropLast_concat]

/-! ## What a line break in a text does -/

/-- No text of the record but the name of its source file breaks a line. -/
structure LogInfo.Unbroken (i : LogInfo) : Prop where
  timepoint : newline ∉ i.timepoint
  info : newline ∉ i.info
  details : ∀ detail ∈ i.details, newline ∉ detail.1 ∧ newline ∉ detail.2

theorem newline_notMem_coloredReason (level : Log) :
    newline ∉ level.coloredReason := by
  cases level <;> decide +kernel

theorem newline_notMem_decimal (n : Nat) : newline ∉ decimal n := by
  intro hmem
  have hdigit := decimal_digits n newline hmem
  exact absurd hdigit.1 (by decide)

theorem newline_notMem_headLine {i : LogInfo} (hfile : newline ∉ i.loc.fileName) :
    newline ∉ headLine i ↔ newline ∉ i.timepoint ∧ newline ∉ i.info := by
  have hlit : newline ∉ ascii "[" ∧ newline ∉ ascii "] [" ∧ newline ∉ ascii "] " ∧
      newline ∉ ascii ":(" ∧ newline ∉ ascii ":" ∧ newline ∉ ascii ") \"" ∧
      newline ∉ ascii "\"" ∧ newline ∉ ascii " details:" := by
    decide +kernel
  have hlevel := newline_notMem_coloredReason i.status
  have hline := newline_notMem_decimal i.loc.line
  have hcolumn := newline_notMem_decimal i.loc.column
  unfold headLine
  simp only []
  split
  · simp only [List.mem_append, not_or, hlit, hlevel, hline, hcolumn, hfile,
      not_false_eq_true, true_and, and_true]
  · simp only [List.mem_append, not_or, hlit, hlevel, hline, hcolumn, hfile,
      not_false_eq_true, true_and, and_true]

theorem newline_notMem_detailRow (detail : Bytes × Bytes) :
    newline ∉ detailRow detail ↔ newline ∉ detail.1 ∧ newline ∉ detail.2 := by
  have hlit : newline ∉ ascii "\t- " ∧ newline ∉ ascii ": \"" ∧
      newline ∉ ascii "\"" := by
    decide +kernel
  unfold detailRow
  simp only [List.mem_append, not_or, hlit, not_false_eq_true, true_and, and_true]

theorem rows_unbroken_iff {i : LogInfo} (hfile : newline ∉ i.loc.fileName) :
    (∀ row ∈ headLine i :: i.details.map detailRow, newline ∉ row) ↔
      i.Unbroken := by
  rw [List.forall_mem_cons, newline_notMem_headLine hfile, List.forall_mem_map]
  constructor
  · intro h
    refine ⟨h.1.1, h.1.2, fun detail hdetail => ?_⟩
    exact (newline_notMem_detailRow detail).mp (h.2 detail hdetail)
  · intro h
    refine ⟨⟨h.timepoint, h.info⟩, fun detail hdetail => ?_⟩
    exact (newline_notMem_detailRow detail).mpr (h.details detail hdetail)

/-- A record makes one line, and one of its own for each of its details, when none
of its texts breaks a line, and only then. -/
theorem console_lines_iff (i : LogInfo) (hfile : newline ∉ i.loc.fileName) :
    (∃ head, logLines (consoleFormat i) = head :: i.details.map detailRow) ↔
      i.Unbroken := by
  rw [← rows_unbroken_iff hfile, logLines, consoleFormat_rows]
  constructor
  · intro h
    obtain ⟨head, hlines⟩ := h
    rw [← length_pieces_rows_iff, hlines, List.length_cons, List.length_cons]
  · intro h
    exact ⟨headLine i, pieces_rows h⟩

/-- A record of a request line without a line break. -/
theorem console_lines_of_plain :
    ∃ head, logLines (consoleFormat
        ⟨.warning, ascii "Incorrectly specified method <UNKNOWN>",
          ⟨ascii "http_codec.cc", 30, 9⟩,
            [(ascii "raw_target", ascii "BREW / HTTP/1.1")],
          ascii "2025-01-01 00:00:00.000"⟩) =
      head :: [(ascii "raw_target", ascii "BREW / HTTP/1.1")].map detailRow :=
  (console_lines_iff
    ⟨.warning, ascii "Incorrectly specified method <UNKNOWN>",
      ⟨ascii "http_codec.cc", 30, 9⟩,
        [(ascii "raw_target", ascii "BREW / HTTP/1.1")],
      ascii "2025-01-01 00:00:00.000"⟩ (by decide +kernel)).mpr
    ⟨by decide +kernel, by decide +kernel, by decide +kernel⟩

/-- A request line with a newline in it is logged when its method is unknown: the
peer has written the last line of the record. -/
theorem console_line_forged :
    ∃ call ∈ (Logged.parse writesNull id (generateUuidV4 0 0)
        (ascii "X\n[2025-01-01 00:00:00.000] [CRIT] forged\r\n")).trace,
      shouldLog .info call.level = true ∧
      newline ∉ (⟨ascii "http_codec.cc", 30, 9⟩ : SourceLocation).fileName ∧
      (logLines (consoleFormat (call.toInfo ⟨ascii "http_codec.cc", 30, 9⟩
          (ascii "2025-01-01 00:00:00.000")))).drop 1 =
        [ascii "\t- raw_target: \"X",
          ascii "[2025-01-01 00:00:00.000] [CRIT] forged\""] ∧
      ¬ ∃ head, logLines (consoleFormat (call.toInfo ⟨ascii "http_codec.cc", 30, 9⟩
          (ascii "2025-01-01 00:00:00.000"))) =
        head :: call.details.map detailRow := by
  refine ⟨⟨.warning, ascii "Incorrectly specified method <UNKNOWN>",
    [(ascii "raw_target", ascii "X\n[2025-01-01 00:00:00.000] [CRIT] forged")]⟩,
    ?_, rfl, ?_, ?_, ?_⟩
  · decide +kernel
  · decide +kernel
  · decide +kernel
  · intro h
    obtain ⟨head, hlines⟩ := h
    have hcount := congrArg (fun lines => (lines.drop 1).length) hlines
    simp only [List.drop_one, List.tail_cons, List.length_map] at hcount
    exact absurd hcount (by decide +kernel)

end UniServer.Logging
