/-
  Logging/Syslog.lean --- `syslog`, the messages of the logging system about itself.

  The message is put into a format string together with fields for its source
  location, and the string is given to the fmt library with the location as its
  arguments.  The library does not know where the message begins: what it holds of
  format syntax is format syntax.  A message with arguments of its own wants that;
  a message that is the text of an exception does not.

  What a call of the library that throws has printed before is left out.
-/
import UniServer.Foundation.Fmt
import UniServer.Logging.Format

set_option autoImplicit false

namespace UniServer.Logging

open UniServer.Foundation UniServer.Common

/-! ## System messages -/

/-- `ErrorMessage`. -/
structure ErrorMessage where
  format : Bytes
  loc : SourceLocation

/-- Where system messages are printed. -/
inductive StdStream where
  | stdout
  | stderr
  deriving DecidableEq

/-- What a call of `syslog` does. -/
inductive SyslogOutcome where
  /-- `fmt::print` prints this text -/
  | printed (out : StdStream) (text : Bytes)
  /-- it throws, and this is given to `std::cerr` -/
  | caught (text : Bytes)
  deriving DecidableEq

/-- `log_msg`: the message behind fields for its location. -/
def logMsg (level : Log) (em : ErrorMessage) : Bytes :=
  ascii "[" ++ level.obsoleteReason ++
    ascii "_SYSLOG] \x7b\x7d:(\x7b\x7d:\x7b\x7d) " ++ em.format ++ ascii "\n"

/-- The location, as arguments. -/
def SourceLocation.args (loc : SourceLocation) : List FmtArg :=
  [.string loc.fileName, .unsigned loc.line, .unsigned loc.column]

variable (format : Bytes → List FmtArg → Except Bytes Bytes)

/-- `syslog`. -/
def syslog (out : StdStream) (level : Log) (em : ErrorMessage)
    (args : List FmtArg) : SyslogOutcome :=
  match format (logMsg level em) (em.loc.args ++ args) with
  | .ok text => .printed out text
  | .error what => .caught (what ++ ascii "\n")

/-- `sys_info`. -/
def sysInfo (em : ErrorMessage) (args : List FmtArg) : SyslogOutcome :=
  syslog format .stdout .info em args

/-- `sys_error`. -/
def sysError (em : ErrorMessage) (args : List FmtArg) : SyslogOutcome :=
  syslog format .stderr .error em args

/-- `sys_crit`. -/
def sysCrit (em : ErrorMessage) (args : List FmtArg) : SyslogOutcome :=
  syslog format .stderr .critical em args

/-- `sys_warn`. -/
def sysWarn (em : ErrorMessage) (args : List FmtArg) : SyslogOutcome :=
  syslog format .stdout .warning em args

theorem syslog_eq_printed_iff {out : StdStream} {level : Log} {em : ErrorMessage}
    {args : List FmtArg} {text : Bytes} :
    syslog format out level em args = .printed out text ↔
      format (logMsg level em) (em.loc.args ++ args) = .ok text := by
  unfold syslog
  cases format (logMsg level em) (em.loc.args ++ args) with
  | ok printed => simp
  | error what => simp

/-! ## Messages without arguments -/

/-- The level and the location in front of a message. -/
def syslogHead (level : Log) (loc : SourceLocation) : Bytes :=
  ascii "[" ++ level.obsoleteReason ++ ascii "_SYSLOG] " ++ loc.fileName ++
    ascii ":(" ++ decimal loc.line ++ ascii ":" ++ decimal loc.column ++ ascii ") "

theorem obsoleteReason_plain (level : Log) :
    ∀ b ∈ ascii "[" ++ level.obsoleteReason ++ ascii "_SYSLOG] ", ¬ IsBrace b := by
  apply forall_of_all
  cases level <;> decide +kernel

/-- The fields for the location. -/
def locationItems : List FormatItem :=
  [.field, .piece (.literal 58 (by decide)), .piece (.literal 40 (by decide)),
    .field, .piece (.literal 58 (by decide)), .field,
    .piece (.literal 41 (by decide)), .piece (.literal 32 (by decide))]

theorem locationItems_spell :
    spellItems locationItems = ascii "\x7b\x7d:(\x7b\x7d:\x7b\x7d) " := by
  decide +kernel

theorem locationItems_render (loc : SourceLocation) :
    renderItems locationItems loc.args =
      some (loc.fileName ++ ascii ":(" ++ decimal loc.line ++ ascii ":" ++
        decimal loc.column ++ ascii ") ") := by
  have hopen : ascii ":(" = [58, 40] := by decide +kernel
  have hcolon : ascii ":" = [58] := by decide +kernel
  have hclose : ascii ") " = [41, 32] := by decide +kernel
  simp [locationItems, SourceLocation.args, renderItems, FormatPiece.output,
    FmtArg.text, hopen, hcolon, hclose]

/-- The string in front of the message has a field for each part of the location. -/
theorem syslogHead_items (level : Log) (loc : SourceLocation) :
    ∃ items, spellItems items = ascii "[" ++ level.obsoleteReason ++
        ascii "_SYSLOG] \x7b\x7d:(\x7b\x7d:\x7b\x7d) " ∧
      renderItems items loc.args = some (syslogHead level loc) ∧
      fieldCount items = loc.args.length := by
  obtain ⟨pieces, hspell, houtput⟩ := pieces_of_plain (obsoleteReason_plain level)
  have hsplit : ascii "_SYSLOG] \x7b\x7d:(\x7b\x7d:\x7b\x7d) " =
      ascii "_SYSLOG] " ++ ascii "\x7b\x7d:(\x7b\x7d:\x7b\x7d) " := by
    decide +kernel
  refine ⟨pieces.map .piece ++ locationItems, ?_, ?_, ?_⟩
  · rw [spellItems_append, spellItems_pieces, hspell, locationItems_spell, hsplit,
      List.append_assoc]
  · rw [renderItems_pieces_append, houtput, locationItems_render, Option.map_some]
    simp only [syslogHead, List.append_assoc]
  · rw [fieldCount_append, fieldCount_pieces]
    rfl

/-- A message without arguments is printed as it is when it holds no brace, and only
then. -/
theorem syslog_verbatim_iff (hformat : FmtDocumented format) (out : StdStream)
    (level : Log) (em : ErrorMessage) :
    syslog format out level em [] =
        .printed out (syslogHead level em.loc ++ em.format ++ ascii "\n") ↔
      ∀ b ∈ em.format, ¬ IsBrace b := by
  obtain ⟨items, hspell, hrender, hcount⟩ := syslogHead_items level em.loc
  have hend : ∀ b ∈ ascii "\n", ¬ IsBrace b := forall_of_all (by decide +kernel)
  have hverbatim := format_verbatim_iff hformat hrender (Nat.le_of_eq hcount.symm)
    (em.format ++ ascii "\n")
  rw [List.forall_mem_append, and_iff_left hend, hspell, ← List.append_assoc,
    ← List.append_assoc] at hverbatim
  rw [syslog_eq_printed_iff, List.append_nil, logMsg, hverbatim]

/-- A message about a log directory whose name holds no brace. -/
theorem syslog_verbatim_plain :
    syslog plainFormat .stderr .error
        ⟨ascii "bad file: /srv/log.yml", ⟨ascii "logging_manager.cc", 123, 18⟩⟩ [] =
      .printed .stderr (syslogHead .error ⟨ascii "logging_manager.cc", 123, 18⟩ ++
        ascii "bad file: /srv/log.yml" ++ ascii "\n") :=
  (syslog_verbatim_iff plainFormat plainFormat_documented .stderr .error
    ⟨ascii "bad file: /srv/log.yml", ⟨ascii "logging_manager.cc", 123, 18⟩⟩).mpr
      (forall_of_all (by decide +kernel))

/-- Where it holds a pair of them, the library looks for a fourth argument, and the
message is lost. -/
theorem syslog_loses_braces :
    FmtDocumented plainFormat ∧
      sysError plainFormat ⟨ascii "bad file: /srv/\x7b\x7d/log.yml",
          ⟨ascii "logging_manager.cc", 123, 18⟩⟩ [] =
        .caught (ascii "argument not found\n") ∧
      sysError plainFormat ⟨ascii "bad file: /srv/\x7b\x7d/log.yml",
          ⟨ascii "logging_manager.cc", 123, 18⟩⟩ [] ≠
        .printed .stderr (syslogHead .error ⟨ascii "logging_manager.cc", 123, 18⟩ ++
          ascii "bad file: /srv/\x7b\x7d/log.yml" ++ ascii "\n") := by
  have hcaught : sysError plainFormat ⟨ascii "bad file: /srv/\x7b\x7d/log.yml",
      ⟨ascii "logging_manager.cc", 123, 18⟩⟩ [] =
        .caught (ascii "argument not found\n") := by
    decide +kernel
  refine ⟨plainFormat_documented, hcaught, ?_⟩
  rw [hcaught]
  exact fun h => (by cases h)

end UniServer.Logging
