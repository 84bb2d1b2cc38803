/-
  Foundation/Fmt.lean --- format strings of the fmt library.

  A format string is made of octets that stand for themselves, of doubled braces
  that stand for one brace, and of replacement fields.  The library is a parameter;
  what is used of it is `FmtDocumented`: strings whose only fields are empty ones are
  written out, and a lone closing brace, or a field behind as many fields as there
  are arguments, is an error.

  `format_verbatim_iff` says what comes of a text that is put into a format string
  behind its fields: it comes out as it is when it holds no brace, and only then.
-/
import UniServer.Foundation.Bytes

set_option autoImplicit false

namespace UniServer.Foundation

/-! ## Format strings -/

/-- A brace. -/
def IsBrace (b : Byte) : Prop := b = 123 ∨ b = 125

/-- A part of a format string that takes no argument. -/
inductive FormatPiece where
  /-- an octet that stands for itself -/
  | literal (b : Byte) (hb : ¬ IsBrace b)
  /-- a doubled opening brace -/
  | opening
  /-- a doubled closing brace -/
  | closing

/-- A part of a format string. -/
inductive FormatItem where
  | piece (p : FormatPiece)
  /-- a replacement field that takes the next argument as it is -/
  | field

/-- An argument. -/
inductive FmtArg where
  | string (text : Bytes)
  | unsigned (n : Nat)
  deriving DecidableEq

/-- How a field without a specification writes an argument. -/
def FmtArg.text : FmtArg → Bytes
  | .string text => text
  | .unsigned n => decimal n

namespace FormatPiece

/-- A piece as it stands in the format string. -/
def spell : FormatPiece → Bytes
  | .literal b _ => [b]
  | .opening => [123, 123]
  | .closing => [125, 125]

/-- What it writes. -/
def output : FormatPiece → Bytes
  | .literal b _ => [b]
  | .opening => [123]
  | .closing => [125]

theorem output_length_le (p : FormatPiece) : p.output.length ≤ p.spell.length := by
  cases p with
  | literal b hb => exact Nat.le_refl _
  | opening => exact Nat.le_succ _
  | closing => exact Nat.le_succ _

/-- A piece that is not longer than what it writes is a literal. -/
theorem not_brace_of_length {p : FormatPiece}
    (h : p.spell.length ≤ p.output.length) :
    ∀ b ∈ p.spell, ¬ IsBrace b := by
  cases p with
  | literal b hb =>
    intro c hc
    rw [List.mem_singleton.mp hc]
    exact hb
  | opening => exact absurd h (by decide)
  | closing => exact absurd h (by decide)

end FormatPiece

/-- The text of some pieces in a format string. -/
def spellPieces (pieces : List FormatPiece) : Bytes :=
  pieces.flatMap FormatPiece.spell

/-- What they write. -/
def outputPieces (pieces : List FormatPiece) : Bytes :=
  pieces.flatMap FormatPiece.output

/-- The text of some items. -/
def spellItems : List FormatItem → Bytes
  | [] => []
  | .piece p :: items => p.spell ++ spellItems items
  | .field :: items => 123 :: 125 :: spellItems items

/-- What they write, where there are arguments enough. -/
def renderItems : List FormatItem → List FmtArg → Option Bytes
  | [], _ => some []
  | .piece p :: items, args => (renderItems items args).map (p.output ++ ·)
  | .field :: _, [] => none
  | .field :: items, arg :: args => (renderItems items args).map (arg.text ++ ·)

/-- How many fields there are. -/
def fieldCount : List FormatItem → Nat
  | [] => 0
  | .piece _ :: items => fieldCount items
  | .field :: items => fieldCount items + 1

/-- The text goes on with a brace that is not doubled. -/
def LoneBrace (brace : Byte) (text : Bytes) : Prop :=
  ∃ behind, text = brace :: behind ∧ behind.head? ≠ some brace

/-! ## The library -/

/-- What the library does with a format string and arguments, as far as it is used
here.  A call that throws gives the text of the exception. -/
structure FmtDocumented (format : Bytes → List FmtArg → Except Bytes Bytes) :
    Prop where
  /-- text is copied, and every field takes the next argument -/
  writes : ∀ items args text, renderItems items args = some text →
    format (spellItems items) args = .ok text
  /-- a closing brace without an opening one is an error -/
  unmatched : ∀ items args rest, LoneBrace 125 rest →
    ∀ text, format (spellItems items ++ rest) args ≠ .ok text
  /-- so is a field that is left without an argument -/
  missing : ∀ items args rest, args.length ≤ fieldCount items → LoneBrace 123 rest →
    ∀ text, format (spellItems items ++ rest) args ≠ .ok text

/-! ## Texts in a format string -/

theorem spellItems_append (items more : List FormatItem) :
    spellItems (items ++ more) = spellItems items ++ spellItems more := by
  induction items with
  | nil => rfl
  | cons item items ih =>
    cases item with
    | piece p => rw [List.cons_append, spellItems, spellItems, ih,
        List.append_assoc]
    | field => rw [List.cons_append, spellItems, spellItems, ih]; rfl

theorem spellItems_pieces (pieces : List FormatPiece) :
    spellItems (pieces.map .piece) = spellPieces pieces := by
  induction pieces with
  | nil => rfl
  | cons p pieces ih =>
    rw [List.map_cons, spellItems, ih, spellPieces, spellPieces, List.flatMap_cons]

theorem fieldCount_append (items more : List FormatItem) :
    fieldCount (items ++ more) = fieldCount items + fieldCount more := by
  induction items with
  | nil => exact (Nat.zero_add _).symm
  | cons item items ih =>
    cases item with
    | piece p => exact ih
    | field =>
      rw [List.cons_append, fieldCount, fieldCount, ih]
      omega

@[simp] theorem fieldCount_pieces (pieces : List FormatPiece) :
    fieldCount (pieces.map .piece) = 0 := by
  induction pieces with
  | nil => rfl
  | cons p pieces ih => exact ih

/-- Pieces in front of some items write in front of them. -/
theorem renderItems_pieces_append (pieces : List FormatPiece)
    (items : List FormatItem) (args : List FmtArg) :
    renderItems (pieces.map .piece ++ items) args =
      (renderItems items args).map (outputPieces pieces ++ ·) := by
  induction pieces with
  | nil => exact Option.map_id'.symm
  | cons p pieces ih =>
    rw [List.map_cons, List.cons_append, renderItems, ih, Option.map_map]
    congr 1
    funext text
    exact (List.append_assoc _ _ _).symm

theorem renderItems_pieces (pieces : List FormatPiece) (args : List FmtArg) :
    renderItems (pieces.map .piece) args = some (outputPieces pieces) := by
  have hnone := renderItems_pieces_append pieces [] args
  rwa [List.append_nil, renderItems, Option.map_some, List.append_nil] at hnone

/-- Pieces behind some items write behind them. -/
theorem renderItems_append_pieces {items : List FormatItem} {args : List FmtArg}
    {text : Bytes} (h : renderItems items args = some text)
    (pieces : List FormatPiece) :
    renderItems (items ++ pieces.map .piece) args =
      some (text ++ outputPieces pieces) := by
  induction items generalizing args text with
  | nil =>
    rw [List.nil_append, renderItems_pieces, ← Option.some_inj.mp h]
    rfl
  | cons item items ih =>
    cases item with
    | piece p =>
      obtain ⟨rest, hrest, rfl⟩ := Option.map_eq_some_iff.mp h
      rw [List.cons_append, renderItems, ih hrest, Option.map_some,
        List.append_assoc]
    | field =>
      cases args with
      | nil => cases h
      | cons arg args =>
        obtain ⟨rest, hrest, rfl⟩ := Option.map_eq_some_iff.mp h
        rw [List.cons_append, renderItems, ih hrest, Option.map_some,
          List.append_assoc]

/-- A text without braces is its own spelling, and what it writes. -/
theorem pieces_of_plain {s : Bytes} (h : ∀ b ∈ s, ¬ IsBrace b) :
    ∃ pieces, spellPieces pieces = s ∧ outputPieces pieces = s := by
  induction s with
  | nil => exact ⟨[], rfl, rfl⟩
  | cons b s ih =>
    obtain ⟨hb, hs⟩ := List.forall_mem_cons.mp h
    obtain ⟨pieces, hspell, houtput⟩ := ih hs
    refine ⟨.literal b hb :: pieces, ?_, ?_⟩
    · rw [← hspell]
      rfl
    · exact congrArg (b :: ·) houtput

/-- A text can be read as pieces up to a brace that is not doubled. -/
theorem pieces_or_lone (s : Bytes) :
    ∃ pieces rest, s = spellPieces pieces ++ rest ∧
      (rest = [] ∨ LoneBrace 123 rest ∨ LoneBrace 125 rest) := by
  induction hn : s.length using Nat.strongRecOn generalizing s with
  | _ n ih =>
    subst hn
    cases s with
    | nil => exact ⟨[], [], rfl, Or.inl rfl⟩
    | cons b s =>
      -- what is behind a piece is shorter
      have hbehind : ∀ (p : FormatPiece) (t : Bytes), b :: s = p.spell ++ t →
          t.length < (b :: s).length → ∃ pieces rest,
            b :: s = spellPieces pieces ++ rest ∧
              (rest = [] ∨ LoneBrace 123 rest ∨ LoneBrace 125 rest) := by
        intro p t hsplit hlt
        obtain ⟨pieces, rest, ht, hrest⟩ := ih t.length hlt t rfl
        refine ⟨p :: pieces, rest, ?_, hrest⟩
        rw [hsplit, spellPieces, List.flatMap_cons, List.append_assoc]
        exact congrArg (p.spell ++ ·) ht
      by_cases hbrace : IsBrace b
      · by_cases hdouble : s.head? = some b
        · obtain ⟨t, rfl⟩ : ∃ t, s = b :: t := by
            cases s with
            | nil => cases hdouble
            | cons c t => exact ⟨t, by rw [Option.some_inj.mp hdouble]⟩
          have hshorter : t.length < (b :: b :: t).length := by
            rw [List.length_cons, List.length_cons]
            omega
          rcases hbrace with rfl | rfl
          · exact hbehind .opening t rfl hshorter
          · exact hbehind .closing t rfl hshorter
        · refine ⟨[], b :: s, rfl, Or.inr ?_⟩
          rcases hbrace with rfl | rfl
          · exact Or.inl ⟨s, rfl, hdouble⟩
          · exact Or.inr ⟨s, rfl, hdouble⟩
      · exact hbehind (.literal b hbrace) s rfl (by simp)

theorem outputPieces_length_le (pieces : List FormatPiece) :
    (outputPieces pieces).length ≤ (spellPieces pieces).length := by
  induction pieces with
  | nil => exact Nat.le_refl _
  | cons p pieces ih =>
    have hp := p.output_length_le
    simp only [outputPieces, spellPieces, List.flatMap_cons,
      List.length_append] at ih ⊢
    omega

/-- Pieces that do not write less than they are spelled with hold no brace. -/
theorem plain_of_length {pieces : List FormatPiece}
    (h : (spellPieces pieces).length ≤ (outputPieces pieces).length) :
    ∀ b ∈ spellPieces pieces, ¬ IsBrace b := by
  induction pieces with
  | nil =>
    intro b hb
    cases hb
  | cons p pieces ih =>
    have hp := p.output_length_le
    have hrest := outputPieces_length_le pieces
    simp only [outputPieces, spellPieces, List.flatMap_cons, List.length_append]
      at h hrest ih ⊢
    intro b hb
    rcases List.mem_append.mp hb with hb | hb
    · exact FormatPiece.not_brace_of_length (by omega) b hb
    · exact ih (by omega) b hb

/-- A text behind fields that use up all arguments comes out as it is when it holds
no brace, and only then. -/
theorem format_verbatim_iff {format : Bytes → List FmtArg → Except Bytes Bytes}
    (hformat : FmtDocumented format) {lead : List FormatItem} {args : List FmtArg}
    {head : Bytes} (hlead : renderItems lead args = some head)
    (hall : args.length ≤ fieldCount lead) (s : Bytes) :
    format (spellItems lead ++ s) args = .ok (head ++ s) ↔
      ∀ b ∈ s, ¬ IsBrace b := by
  have hspell : ∀ pieces, spellItems (lead ++ pieces.map .piece) =
      spellItems lead ++ spellPieces pieces := by
    intro pieces
    rw [spellItems_append, spellItems_pieces]
  have hwrites : ∀ pieces, format (spellItems lead ++ spellPieces pieces) args =
      .ok (head ++ outputPieces pieces) := by
    intro pieces
    rw [← hspell]
    exact hformat.writes _ args _ (renderItems_append_pieces hlead pieces)
  constructor
  · intro hok
    obtain ⟨pieces, rest, rfl, hrest⟩ := pieces_or_lone s
    rw [← List.append_assoc, ← hspell] at hok
    rcases hrest with rfl | hopen | hclose
    · rw [List.append_nil, hspell, hwrites, List.append_nil] at hok
      rw [List.append_nil]
      have houtput : outputPieces pieces = spellPieces pieces :=
        List.append_cancel_left (Except.ok.inj hok)
      exact plain_of_length (Nat.le_of_eq (congrArg List.length houtput.symm))
    · refine absurd hok (hformat.missing _ args rest ?_ hopen _)
      rw [fieldCount_append, fieldCount_pieces]
      exact hall
    · exact absurd hok (hformat.unmatched _ args rest hclose _)
  · intro hplain
    obtain ⟨pieces, hs, houtput⟩ := pieces_of_plain hplain
    rw [← hs, hwrites, houtput, hs]

/-! ## A library without specifications -/

instance (b : Byte) : Decidable (IsBrace b) := inferInstanceAs (Decidable (_ ∨ _))

/-- The library, restricted to fields without a content. -/
def plainFormat : Bytes → List FmtArg → Except Bytes Bytes
  | [], _ => .ok []
  | [b], _ =>
      if IsBrace b then .error (ascii "invalid format string") else .ok [b]
  | b :: c :: s, args =>
      if b = 123 then
        if c = 123 then (plainFormat s args).map (123 :: ·)
        else if c = 125 then
          match args with
          | [] => .error (ascii "argument not found")
          | arg :: args => (plainFormat s args).map (arg.text ++ ·)
        else .error (ascii "invalid format string")
      else if b = 125 then
        if c = 125 then (plainFormat s args).map (125 :: ·)
        else .error (ascii "unmatched '\x7d' in format string")
      else (plainFormat (c :: s) args).map (b :: ·)

theorem plainFormat_piece (p : FormatPiece) (s : Bytes) (args : List FmtArg) :
    plainFormat (p.spell ++ s) args = (plainFormat s args).map (p.output ++ ·) := by
  cases p with
  | literal b hb =>
    cases s with
    | nil =>
      exact if_neg hb
    | cons c s =>
      have hopen : b ≠ 123 := fun h => hb (Or.inl h)
      have hclose : b ≠ 125 := fun h => hb (Or.inr h)
      exact (if_neg hopen).trans (if_neg hclose)
  | opening => rfl
  | closing => rfl

theorem plainFormat_field (s : Bytes) (arg : FmtArg) (args : List FmtArg) :
    plainFormat (123 :: 125 :: s) (arg :: args) =
      (plainFormat s args).map (arg.text ++ ·) :=
  rfl

/-- A closing brace that is not doubled is an error. -/
theorem plainFormat_unmatched {rest : Bytes} (h : LoneBrace 125 rest)
    (args : List FmtArg) (text : Bytes) : plainFormat rest args ≠ .ok text := by
  obtain ⟨behind, rfl, hhead⟩ := h
  cases behind with
  | nil => exact fun h => (by cases h)
  | cons c s =>
    have hc : c ≠ 125 := fun h => hhead (congrArg some h)
    have hopen : (125 : Byte) ≠ 123 := by decide
    have herror : plainFormat (125 :: c :: s) args =
        .error (ascii "unmatched '\x7d' in format string") :=
      (if_neg hopen).trans ((if_pos rfl).trans (if_neg hc))
    rw [herror]
    exact fun h => (by cases h)

/-- So is a field where no argument is left. -/
theorem plainFormat_missing {rest : Bytes} (h : LoneBrace 123 rest) (text : Bytes) :
    plainFormat rest [] ≠ .ok text := by
  obtain ⟨behind, rfl, hhead⟩ := h
  cases behind with
  | nil => exact fun h => (by cases h)
  | cons c s =>
    have hc : c ≠ 123 := fun h => hhead (congrArg some h)
    by_cases hfield : c = 125
    · rw [hfield]
      exact fun h => (by cases h)
    · have herror : plainFormat (123 :: c :: s) [] =
          .error (ascii "invalid format string") :=
        (if_pos rfl).trans ((if_neg hc).trans (if_neg hfield))
      rw [herror]
      exact fun h => (by cases h)

/-- What fails behind a piece or a field fails with it. -/
theorem map_ne_ok {r : Except Bytes Bytes} (f : Bytes → Bytes)
    (h : ∀ text, r ≠ .ok text) : ∀ text, r.map f ≠ .ok text := by
  intro text htext
  cases r with
  | error e => cases htext
  | ok t => exact h t rfl

/-- It does what the library is documented to do. -/
theorem plainFormat_documented : FmtDocumented plainFormat where
  writes := by
    intro items
    induction items with
    | nil =>
      intro args text htext
      rw [← Option.some_inj.mp htext]
      rfl
    | cons item items ih =>
      intro args text htext
      cases item with
      | piece p =>
        obtain ⟨rest, hrest, rfl⟩ := Option.map_eq_some_iff.mp htext
        rw [spellItems, plainFormat_piece, ih args rest hrest]
        rfl
      | field =>
        cases args with
        | nil => cases htext
        | cons arg args =>
          obtain ⟨rest, hrest, rfl⟩ := Option.map_eq_some_iff.mp htext
          rw [spellItems, plainFormat_field, ih args rest hrest]
          rfl
  unmatched := by
    intro items
    induction items with
    | nil => exact fun args rest hrest => plainFormat_unmatched hrest args
    | cons item items ih =>
      intro args rest hrest
      cases item with
      | piece p =>
        rw [spellItems, List.append_assoc, plainFormat_piece]
        exact map_ne_ok _ (ih args rest hrest)
      | field =>
        cases args with
        | nil => exact fun text h => (by cases h)
        | cons arg args =>
          rw [spellItems, List.cons_append, List.cons_append, plainFormat_field]
          exact map_ne_ok _ (ih args rest hrest)
  missing := by
    intro items
    induction items with
    | nil =>
      intro args rest hargs hrest
      rw [List.eq_nil_of_length_eq_zero (Nat.le_zero.mp hargs)]
      exact plainFormat_missing hrest
    | cons item items ih =>
      intro args rest hargs hrest
      cases item with
      | piece p =>
        rw [spellItems, List.append_assoc, plainFormat_piece]
        exact map_ne_ok _ (ih args rest hargs hrest)
      | field =>
        cases args with
        | nil => exact fun text h => (by cases h)
        | cons arg args =>
          rw [spellItems, List.cons_append, List.cons_append, plainFormat_field]
          exact map_ne_ok _ (ih args rest (Nat.le_of_succ_le_succ hargs) hrest)

end UniServer.Foundation
