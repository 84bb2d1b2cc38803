/-
  Http/ParseReference.lean --- `HttpCodec::parse` without positions.

  `parseReference` says what the parser does in terms of the text itself: the
  line before the first CRLF, the lines of the window the header scan runs over,
  the text behind the first CRLFCRLF.  `parse_eq_reference` is the refinement:
  on a text shorter than 2^31 octets, the range of the source's cursors, `parse`
  raises nothing of its own, ends, and returns what the reference returns.

  The window is not the header section.  It starts behind the request line and
  is as long as the position of the blank line, so it runs on into the body by
  the length of the request line less two.
-/
import UniServer.Http.CodecParse

set_option autoImplicit false

namespace UniServer.Http

open UniServer.Foundation

/-! ## The request line -/

/-- The three parts of a request line.  With one space the version is the whole
line; with none every part is. -/
def targetParts (line : Bytes) : Bytes × Bytes × Bytes :=
  match cut space line with
  | none => (line, line, line)
  | some (word, rest) =>
      match cut space rest with
      | none => (word, rest, line)
      | some (path, version) => (word, path, version)

theorem targetParts_word_length (line : Bytes) :
    (targetParts line).1.length ≤ line.length := by
  unfold targetParts
  cases hfirst : cut space line with
  | none => exact Nat.le_refl _
  | some parts =>
    have hline := cut_length hfirst
    have hword : parts.1.length ≤ line.length := by omega
    cases hsecond : cut space parts.2 <;> simpa [hsecond] using hword

/-- Without a space both searches give -1, and every count becomes `npos`. -/
theorem parseTarget_no_space {line : Bytes} (hlen : line.length < 2 ^ 31)
    (hfirst : cut space line = none) :
    parseTarget line =
      .ok (if toMethod line = .unknown then none
        else some (toMethod line, line, line)) := by
  have hfind : toInt (find line space 0) = -1 := toInt_find_of_cut_none hfirst
  have hall : line.length ≤ npos := by unfold npos; omega
  have hadd : addInt (-1) 1 = .ok 0 := rfl
  have hsub₁ : subInt (-1) (-1) = .ok 0 := rfl
  have hsub₂ : subInt 0 1 = .ok (-1) := rfl
  have hsize : toSize 0 = 0 := rfl
  have hsub : substr line 0 npos = .ok line := substr_all (Nat.zero_le _) hall
  rw [parseTarget]
  simp only [hfind, hadd, Run.ok_bind, hsize, toSize_neg_one, hsub, hsub₁,
    hsub₂, Run.pure_eq]
  split <;> rfl

section FirstSpace

variable {line word rest : Bytes} (hlen : line.length < 2 ^ 31)
  (hfirst : cut space line = some (word, rest))
include hlen hfirst

/-- Behind the first space the path and the version are left to read. -/
theorem parseTarget_of_cut :
    parseTarget line =
      if toMethod word = .unknown then .ok none
      else do
        let secondSpace := toInt (find line space (word.length + 1))
        let width ← subInt (← subInt secondSpace word.length) 1
        let path ← substr line (word.length + 1) (toSize width)
        let behindSecond ← addInt secondSpace 1
        let version ← substr line (toSize behindSecond) npos
        return some (toMethod word, path, version) := by
  have hline := cut_length hfirst
  have hone : space.length = 1 := rfl
  have hfind : toInt (find line space 0) = (word.length : Int) :=
    toInt_find_of_cut hlen hfirst
  have hadd :
      addInt (word.length : Int) 1 = .ok ((word.length + 1 : Nat) : Int) :=
    addInt_ok (by omega)
  have hsize : toSize ((word.length + 1 : Nat) : Int) = word.length + 1 :=
    toSize_natCast (by omega)
  have hsizeWord : toSize (word.length : Int) = word.length :=
    toSize_natCast (by omega)
  have hword : substr line 0 word.length = .ok word := substr_before_cut hfirst
  rw [parseTarget]
  simp only [hfind, hadd, Run.ok_bind, hsize, hsizeWord, hword, Run.pure_eq]

/-- With one space the count of the path and the start of the version are
wrapped. -/
theorem parseTarget_one_space (hsecond : cut space rest = none) :
    parseTarget line =
      .ok (if toMethod word = .unknown then none
        else some (toMethod word, rest, line)) := by
  have hline := cut_length hfirst
  have hone : space.length = 1 := rfl
  have hrest : line.drop (word.length + 1) = rest := drop_behind_cut hfirst
  have hfind₂ : toInt (find line space (word.length + 1)) = -1 :=
    toInt_find_of_search_none (by rw [hrest]; exact search_of_cut_none hsecond)
  have hsub₁ : subInt (-1) (word.length : Int) = .ok (-1 - (word.length : Int)) :=
    subInt_ok (by omega)
  have hsub₂ : subInt (-1 - (word.length : Int)) 1 =
      .ok (-1 - (word.length : Int) - 1) :=
    subInt_ok (by omega)
  have hcount : line.length ≤ toSize (-1 - (word.length : Int) - 1) :=
    Nat.le_trans (by omega) (le_toSize_of_neg (by omega) (by omega))
  have hpath :
      substr line (word.length + 1) (toSize (-1 - (word.length : Int) - 1)) =
        .ok rest := by
    rw [substr_all (by omega) hcount, hrest]
  have hadd₂ : addInt (-1) 1 = .ok 0 := rfl
  have hversion : substr line (toSize 0) npos = .ok line :=
    substr_all (Nat.zero_le _) (by unfold npos; omega)
  rw [parseTarget_of_cut hlen hfirst]
  simp only [hfind₂, hsub₁, hsub₂, Run.ok_bind, hpath, hadd₂, hversion,
    Run.pure_eq]
  split <;> rfl

/-- With two spaces every cursor is a position in the line. -/
theorem parseTarget_two_spaces {path version : Bytes}
    (hsecond : cut space rest = some (path, version)) :
    parseTarget line =
      .ok (if toMethod word = .unknown then none
        else some (toMethod word, path, version)) := by
  have hline := cut_length hfirst
  have hone : space.length = 1 := rfl
  have hrestLen := cut_length hsecond
  have hrest : line.drop (word.length + 1) = rest := drop_behind_cut hfirst
  have hfind₂ : toInt (find line space (word.length + 1)) =
      ((word.length + 1 + path.length : Nat) : Int) :=
    toInt_find_of_search hlen (by omega)
      (by rw [hrest]; exact search_of_cut hsecond)
  have hsub₁ :
      subInt ((word.length + 1 + path.length : Nat) : Int) (word.length : Int) =
        .ok ((path.length + 1 : Nat) : Int) := by
    rw [subInt_ok (by omega)]
    exact congrArg Except.ok (by omega)
  have hsub₂ : subInt ((path.length + 1 : Nat) : Int) 1 =
      .ok (path.length : Int) := by
    rw [subInt_ok (by omega)]
    exact congrArg Except.ok (by omega)
  have hsizePath : toSize (path.length : Int) = path.length :=
    toSize_natCast (by omega)
  have hpath : substr line (word.length + 1) path.length = .ok path := by
    rw [substr_ok (by omega), hrest, take_before_cut hsecond]
  have hadd₂ : addInt ((word.length + 1 + path.length : Nat) : Int) 1 =
      .ok ((word.length + 1 + path.length + 1 : Nat) : Int) :=
    addInt_ok (by omega)
  have hsize₂ : toSize ((word.length + 1 + path.length + 1 : Nat) : Int) =
      word.length + 1 + path.length + 1 := toSize_natCast (by omega)
  have hbehind : line.drop (word.length + 1 + path.length + 1) = version := by
    rw [Nat.add_assoc (word.length + 1), ← List.drop_drop, hrest]
    exact drop_behind_cut hsecond
  have hversion : substr line (word.length + 1 + path.length + 1) npos =
      .ok version := by
    rw [substr_all (by omega) (by unfold npos; omega), hbehind]
  rw [parseTarget_of_cut hlen hfirst]
  simp only [hfind₂, hsub₁, hsub₂, Run.ok_bind, hsizePath, hpath, hadd₂, hsize₂,
    hversion, Run.pure_eq]
  split <;> rfl

end FirstSpace

theorem parseTarget_eq {line : Bytes} (hlen : line.length < 2 ^ 31) :
    parseTarget line = .ok
      (if toMethod (targetParts line).1 = .unknown then none
       else some (toMethod (targetParts line).1, (targetParts line).2.1,
         (targetParts line).2.2)) := by
  unfold targetParts
  cases hfirst : cut space line with
  | none => exact parseTarget_no_space hlen hfirst
  | some parts =>
    obtain ⟨word, rest⟩ := parts
    cases hsecond : cut space rest with
    | none => simpa only [hsecond] using parseTarget_one_space hlen hfirst hsecond
    | some parts₂ =>
      simpa only [hsecond] using parseTarget_two_spaces hlen hfirst hsecond

/-! ## The header lines -/

/-- The lines of a text: the pieces that a CRLF ends. -/
def linesOf (text : Bytes) : List Bytes := (pieces crlf text).1

theorem crlf_ne_nil : crlf ≠ [] := by decide

theorem firstAt_crlf {line : Bytes} : FirstAt crlf line ↔ ¬ crlf <:+: line :=
  firstAt_pair (by decide)

/-- The lines of a text hold no CRLF. -/
theorem not_crlf_of_line {text line : Bytes} (h : line ∈ linesOf text) :
    ¬ crlf <:+: line :=
  firstAt_crlf.mp (pieces_firstAt crlf_ne_nil text line h)

theorem linesOf_of_cut {text line rest : Bytes}
    (hcut : cut crlf text = some (line, rest)) :
    linesOf text = line :: linesOf rest := by
  rw [linesOf, pieces_of_cut crlf_ne_nil hcut]
  rfl

theorem linesOf_of_cut_none {text : Bytes} (hcut : cut crlf text = none) :
    linesOf text = [] := by
  rw [linesOf, pieces_of_cut_none hcut]

@[simp] theorem linesOf_nil : linesOf [] = [] := linesOf_of_cut_none (by decide)

/-- The field of a header line: the name before its first colon and the trimmed
text behind it. -/
def fieldOf (line : Bytes) : Option (Bytes × Bytes) :=
  (cut colonMark line).map fun parts => (parts.1, trimValue parts.2)

/-- The fields of some lines, lines without a colon left out. -/
def fieldsOf (lines : List Bytes) : List (Bytes × Bytes) := lines.filterMap fieldOf

theorem fieldsOf_append (lines more : List Bytes) :
    fieldsOf (lines ++ more) = fieldsOf lines ++ fieldsOf more :=
  List.filterMap_append

theorem trimValue_space {b : Byte} (h : isBlank b = false) (text : Bytes) :
    trimValue (space ++ b :: text) = b :: text := by
  have hspace : isBlank 32 = true := rfl
  have hindex : (space ++ b :: text).findIdx? (fun b => !isBlank b) = some 1 := by
    simp [space, List.findIdx?_cons, hspace, h]
  simp only [trimValue, hindex]
  rfl

/-- `name: value` is read back, if the value begins with something visible. -/
theorem fieldOf_written {name value : Bytes} (hname : (58 : Byte) ∉ name)
    (hvalue : ∃ b text, value = b :: text ∧ isBlank b = false) :
    fieldOf (name ++ colonMark ++ (space ++ value)) = some (name, value) := by
  obtain ⟨b, text, rfl, hblank⟩ := hvalue
  have hcut : cut colonMark (name ++ colonMark ++ (space ++ b :: text)) =
      some (name, space ++ b :: text) :=
    cut_append (firstAt_singleton.mpr hname) _
  rw [fieldOf, hcut, Option.map_some, trimValue_space hblank]

/-- The header map of a window. -/
def headersOf (window : Bytes) : HeaderMap :=
  NormMap.empty.collect (fieldsOf (linesOf window))

/-- The colon the loop looks at belongs to the line exactly when the line has
one; otherwise it lies behind the end of the line or is missing. -/
theorem colon_beyond_line {line : Bytes} (hno : (58 : Byte) ∉ line) (rest : Bytes) :
    search colonMark (line ++ crlf ++ rest) = none ∨
      ∃ i, search colonMark (line ++ crlf ++ rest) = some i ∧ line.length < i := by
  have hcrlf : (58 : Byte) ∉ line ++ crlf := by
    simp [hno, crlf]
  cases hrest : search colonMark rest with
  | none =>
    left
    rw [colonMark, search_singleton_append hcrlf]
    simp_all [colonMark]
  | some j =>
    refine Or.inr ⟨(line ++ crlf).length + j, ?_, ?_⟩
    · rw [colonMark, search_singleton_append hcrlf]
      simp_all [colonMark]
    · simp [crlf]
      omega

/-- So the loop passes a line without a colon over. -/
theorem find_colon_beyond {headers line rest : Bytes} {beg : Nat}
    (hlen : headers.length < 2 ^ 31) (hbeg : beg ≤ headers.length)
    (hdrop : headers.drop beg = line ++ crlf ++ rest) (hno : (58 : Byte) ∉ line) :
    toSize (toInt (find headers colonMark beg)) = npos ∨
      toInt (find headers colonMark beg) > ((beg + line.length : Nat) : Int) := by
  rcases colon_beyond_line hno rest with hnone | ⟨i, hi, hlt⟩
  · left
    rw [toInt_find_of_search_none (by rw [hdrop]; exact hnone), toSize_neg_one]
  · right
    rw [toInt_find_of_search hlen hbeg (by rw [hdrop]; exact hi)]
    exact Int.ofNat_lt.mpr (Nat.add_lt_add_left hlt beg)

/-- Where the colon of a line stands, and the texts on its two sides. -/
theorem field_of_line {headers line rest key text : Bytes} {beg : Nat}
    (hbeg : beg ≤ headers.length) (hdrop : headers.drop beg = line ++ crlf ++ rest)
    (hcolon : cut colonMark line = some (key, text)) :
    search colonMark (headers.drop beg) = some key.length ∧
      substr headers beg key.length = .ok key ∧
      substr headers (beg + key.length + 1) text.length = .ok text := by
  have hcolonText :
      cut colonMark (headers.drop beg) = some (key, text ++ (crlf ++ rest)) := by
    rw [hdrop, List.append_assoc]
    exact cut_append_right hcolon _
  have hbehind :
      (headers.drop beg).drop (key.length + 1) = text ++ (crlf ++ rest) :=
    drop_behind_cut hcolonText
  have htextLen := cut_length hcolonText
  have hone : colonMark.length = 1 := rfl
  rw [List.length_drop] at htextLen
  refine ⟨search_of_cut hcolonText, ?_, ?_⟩
  · rw [substr_ok hbeg, take_before_cut hcolonText]
  · rw [substr_ok (by omega), Nat.add_assoc, ← List.drop_drop, hbehind,
      List.take_left]

/-- What a turn of the loop cuts out: a name and the text behind the colon, or
nothing. -/
def turnTexts (headers : Bytes) (beg lineEnd : Int) :
    Run (Option (Bytes × Bytes)) := do
  let colon := toInt (find headers colonMark (toSize beg))
  if toSize colon = npos ∨ colon > lineEnd then
    return none
  else
    let key ← substr headers (toSize beg) (toSize (← subInt colon beg))
    let behindColon ← addInt colon 1
    let width ← subInt (← subInt lineEnd colon) 1
    let value ← substr headers (toSize behindColon) (toSize width)
    return some (key, value)

/-- The field that these texts make. -/
def trimText (parts : Bytes × Bytes) : Bytes × Bytes := (parts.1, trimValue parts.2)

/-- A turn of the loop: what it cuts out goes into the map, and the cursors go to
the next line. -/
theorem scanHeaders_succ (headers : Bytes) (fuel : Nat) (beg lineEnd : Int)
    (fields : HeaderMap) :
    scanHeaders headers (fuel + 1) beg lineEnd fields = (do
      let texts ← turnTexts headers beg lineEnd
      let fields := fields.collect (texts.map trimText).toList
      let beg ← addInt lineEnd 2
      let lineEnd := toInt (find headers crlf (toSize beg))
      if toSize lineEnd = npos then return fields
      else scanHeaders headers fuel beg lineEnd fields) := by
  rw [scanHeaders, turnTexts]
  simp only []
  split
  · rfl
  · simp only [bind_assoc]
    rfl

/-- A turn cuts the line at its cursor at its first colon. -/
theorem turnTexts_eq {headers line rest : Bytes} {beg : Nat}
    (hlen : headers.length < 2 ^ 31) (hbeg : beg ≤ headers.length)
    (hcut : cut crlf (headers.drop beg) = some (line, rest)) :
    turnTexts headers beg ((beg + line.length : Nat) : Int) =
      .ok (cut colonMark line) := by
  have hcutLen := cut_length hcut
  have htwo : crlf.length = 2 := rfl
  rw [List.length_drop, htwo] at hcutLen
  have hdrop := split_of_cut hcut
  have hsize : ∀ n ≤ beg + line.length + 2, toSize (n : Int) = n := fun n hn =>
    toSize_natCast (by omega)
  rw [turnTexts]
  simp only [hsize beg (by omega)]
  cases hcolon : cut colonMark line with
  | none =>
    have hno : (58 : Byte) ∉ line := cut_singleton_eq_none_iff.mp hcolon
    have hskip := find_colon_beyond hlen hbeg hdrop hno
    rw [if_pos hskip, Run.pure_eq]
  | some parts =>
    obtain ⟨key, text⟩ := parts
    have hlineLen : line.length = key.length + 1 + text.length := cut_length hcolon
    -- the bounds of the cursors, before any of them is a position in the text
    have hcolonLe : beg + key.length ≤ beg + line.length := by omega
    have hkeyWidth : beg + key.length - beg = key.length := by omega
    have hlineWidth :
        beg + line.length - (beg + key.length) = text.length + 1 := by omega
    obtain ⟨hsearch, hkey, hvalue⟩ := field_of_line hbeg hdrop hcolon
    have hadd : addInt ((beg + key.length : Nat) : Int) 1 =
        .ok ((beg + key.length + 1 : Nat) : Int) := addInt_natCast _ 1 (by omega)
    have hsubKey : subInt ((beg + key.length : Nat) : Int) (beg : Int) =
        .ok (key.length : Int) := by
      rw [subInt_natCast _ _ (Nat.le_add_right _ _) (by omega), hkeyWidth]
    have hsubLine :
        subInt ((beg + line.length : Nat) : Int) ((beg + key.length : Nat) : Int) =
        .ok ((text.length + 1 : Nat) : Int) := by
      rw [subInt_natCast _ _ hcolonLe (by omega), hlineWidth]
    have hsubOne :
        subInt ((text.length + 1 : Nat) : Int) 1 = .ok (text.length : Int) :=
      subInt_natCast (text.length + 1) 1 (Nat.le_add_left _ _) (by omega)
    have hfind :
        toInt (find headers colonMark beg) = ((beg + key.length : Nat) : Int) :=
      toInt_find_of_search hlen hbeg hsearch
    have htake : ¬ (toSize ((beg + key.length : Nat) : Int) = npos ∨
        ((beg + key.length : Nat) : Int) > ((beg + line.length : Nat) : Int)) := by
      rintro (hpos | hlt)
      · exact toSize_natCast_ne_npos (by omega) hpos
      · exact absurd (Int.ofNat_lt.mp hlt) (Nat.not_lt.mpr hcolonLe)
    simp only [hfind, if_neg htake, hsubKey, Run.ok_bind,
      hsize key.length (by omega), hkey, hadd, hsubLine, hsubOne,
      hsize text.length (by omega), hsize (beg + key.length + 1) (by omega),
      hvalue, Run.pure_eq]

/-- Behind a line the cursor is where the next one begins. -/
theorem addInt_lineEnd {headers line rest : Bytes} {beg : Nat}
    (hlen : headers.length < 2 ^ 31)
    (hcut : cut crlf (headers.drop beg) = some (line, rest)) :
    addInt ((beg + line.length : Nat) : Int) 2 =
        .ok ((beg + line.length + 2 : Nat) : Int) ∧
      toSize ((beg + line.length + 2 : Nat) : Int) = beg + line.length + 2 := by
  have hcutLen := cut_length hcut
  have htwo : crlf.length = 2 := rfl
  rw [List.length_drop, htwo] at hcutLen
  exact ⟨addInt_natCast _ 2 (by omega), toSize_natCast (by omega)⟩

/-- What all turns of the loop cut out, in order. -/
def scannedTexts (headers : Bytes) :
    Nat → Int → Int → Run (List (Bytes × Bytes))
  | 0, _, _ => .error .diverge
  | fuel + 1, beg, lineEnd => do
      let texts ← turnTexts headers beg lineEnd
      let beg ← addInt lineEnd 2
      let lineEnd := toInt (find headers crlf (toSize beg))
      if toSize lineEnd = npos then
        return texts.toList
      else
        return texts.toList ++ (← scannedTexts headers fuel beg lineEnd)

/-- The map of the loop is made of these texts, on texts of any length. -/
theorem scanHeaders_eq_scannedTexts (headers : Bytes) (fuel : Nat)
    (beg lineEnd : Int) (fields : HeaderMap) :
    scanHeaders headers fuel beg lineEnd fields =
      (scannedTexts headers fuel beg lineEnd).map fun texts =>
        fields.collect (texts.map trimText) := by
  induction fuel generalizing beg lineEnd fields with
  | zero => rfl
  | succ fuel ih =>
    rw [scanHeaders_succ, scannedTexts]
    cases turnTexts headers beg lineEnd with
    | error e => rfl
    | ok texts =>
      have hfield : (texts.map trimText).toList = texts.toList.map trimText := by
        cases texts <;> rfl
      simp only [Run.ok_bind, Run.pure_eq, hfield, ih]
      cases addInt lineEnd 2 with
      | error e => rfl
      | ok next =>
        simp only [Run.ok_bind]
        split
        · rfl
        · cases scannedTexts headers fuel next
              (toInt (find headers crlf (toSize next))) with
          | error e => rfl
          | ok more =>
            simp only [Except.map, Run.ok_bind, List.map_append,
              NormMap.collect_append]

/-- The loop cuts every line from the cursor on, in order. -/
theorem scannedTexts_eq {headers : Bytes} (hlen : headers.length < 2 ^ 31) :
    ∀ (fuel beg : Nat) (line rest : Bytes),
      beg ≤ headers.length → headers.length - beg < fuel →
      cut crlf (headers.drop beg) = some (line, rest) →
      scannedTexts headers fuel beg ((beg + line.length : Nat) : Int) =
        .ok ((linesOf (headers.drop beg)).filterMap (cut colonMark)) := by
  intro fuel
  induction fuel with
  | zero => intro beg line rest _ hfuel; omega
  | succ fuel ih =>
    intro beg line rest hbeg hfuel hcut
    have hcutLen := cut_length hcut
    rw [List.length_drop] at hcutLen
    have htwo : crlf.length = 2 := rfl
    have hbehind : headers.drop (beg + line.length + 2) = rest := by
      rw [Nat.add_assoc, ← List.drop_drop]
      exact drop_behind_cut hcut
    obtain ⟨hadd, hsizeNext⟩ := addInt_lineEnd hlen hcut
    have hsplit : (line :: linesOf rest).filterMap (cut colonMark) =
        (cut colonMark line).toList ++
          (linesOf rest).filterMap (cut colonMark) := by
      rw [List.filterMap_cons]
      cases cut colonMark line <;> rfl
    rw [scannedTexts, turnTexts_eq hlen hbeg hcut, linesOf_of_cut hcut, hsplit]
    simp only [Run.ok_bind, hadd, hsizeNext]
    cases hnext : cut crlf rest with
    | none =>
      have hfind : toInt (find headers crlf (beg + line.length + 2)) = -1 :=
        toInt_find_of_search_none (by rw [hbehind]; exact search_of_cut_none hnext)
      simp only [hfind, toSize_neg_one, if_true, linesOf_of_cut_none hnext,
        Run.pure_eq, List.filterMap_nil, List.append_nil]
    | some parts =>
      obtain ⟨line₂, rest₂⟩ := parts
      have hnextDrop : cut crlf (headers.drop (beg + line.length + 2)) =
          some (line₂, rest₂) := by
        rw [hbehind]
        exact hnext
      have hnextLen := cut_length hnext
      have hfind : toInt (find headers crlf (beg + line.length + 2)) =
          ((beg + line.length + 2 + line₂.length : Nat) : Int) :=
        toInt_find_of_search hlen (by omega) (search_of_cut hnextDrop)
      have hsize :
          toSize ((beg + line.length + 2 + line₂.length : Nat) : Int) ≠ npos :=
        toSize_natCast_ne_npos (by omega)
      have hrec := ih (beg + line.length + 2) line₂ rest₂ (by omega) (by omega)
        hnextDrop
      simp only [hfind, if_neg hsize]
      rw [hrec, hbehind, Run.ok_bind, Run.pure_eq]

theorem fieldsOf_eq_map (lines : List Bytes) :
    fieldsOf lines = (lines.filterMap (cut colonMark)).map trimText := by
  rw [fieldsOf, List.map_filterMap]
  rfl

/-- The loop collects the fields of every line from the cursor on, in order. -/
theorem scanHeaders_eq {headers : Bytes} (hlen : headers.length < 2 ^ 31)
    (fuel beg : Nat) (line rest : Bytes) (fields : HeaderMap)
    (hbeg : beg ≤ headers.length) (hfuel : headers.length - beg < fuel)
    (hcut : cut crlf (headers.drop beg) = some (line, rest)) :
    scanHeaders headers fuel beg ((beg + line.length : Nat) : Int) fields =
      .ok (fields.collect (fieldsOf (linesOf (headers.drop beg)))) := by
  rw [scanHeaders_eq_scannedTexts,
    scannedTexts_eq hlen fuel beg line rest hbeg hfuel hcut, fieldsOf_eq_map]
  rfl

/-- `parseHeaders` accepts a window when one of its lines is a Host field. -/
theorem parseHeaders_eq {headers : Bytes} (hlen : headers.length < 2 ^ 31) :
    parseHeaders headers = .ok
      (if (headersOf headers).contains (ascii "Host") then some (headersOf headers)
       else none) := by
  rw [parseHeaders, headersOf]
  cases hcut : cut crlf headers with
  | none =>
    have hfind : toInt (find headers crlf 0) = -1 := toInt_find_of_cut_none hcut
    have hlines : linesOf headers = [] := linesOf_of_cut_none hcut
    simp [hfind, hlines, fieldsOf, NormMap.contains]
  | some parts =>
    obtain ⟨line, rest⟩ := parts
    have hcutLen := cut_length hcut
    have hfind : toInt (find headers crlf 0) = (line.length : Int) :=
      toInt_find_of_cut hlen hcut
    have hsize : toSize (line.length : Int) ≠ npos :=
      toSize_natCast_ne_npos (by omega)
    have hscan := scanHeaders_eq hlen (headers.length + 1) 0 line rest NormMap.empty
      (Nat.zero_le _) (by omega) hcut
    rw [List.drop_zero, Nat.zero_add, Int.natCast_zero] at hscan
    simp only [hfind, if_neg hsize]
    rw [hscan]
    simp only [Run.ok_bind, Run.pure_eq]
    split <;> rfl

/-! ## The body -/

/-- The text behind the blank line. -/
def bodyText (raw : Bytes) : Option Bytes := (cut crlfcrlf raw).map (·.2)

/-- The document of a body text; a missing or empty text is null. -/
def readBody (json : Nlohmann) : Option Bytes → Run (Option Json)
  | none => .ok (some .null)
  | some [] => .ok (some .null)
  | some (b :: text) =>
      match json.read (b :: text) with
      | .ok document => .ok (some document.sorted.toOrdered)
      | .error .parseError => .ok none
      | .error .outOfRange => .error (.throw .jsonOutOfRange)

/-- A text that the library reads is a body. -/
theorem readBody_of_parse {json : Nlohmann} {text : Bytes} {document : Json}
    (hne : text ≠ []) (h : json.parse text = .ok document) :
    readBody json (some text) = .ok (some document.toOrdered) := by
  obtain ⟨b, rest, rfl⟩ := List.exists_cons_of_ne_nil hne
  rw [Nlohmann.parse] at h
  rw [readBody]
  cases hread : json.read (b :: rest) with
  | ok read =>
    rw [hread] at h
    exact congrArg (fun d => Except.ok (some d)) (Except.ok.inj h)
  | error e =>
    rw [hread] at h
    cases e <;> cases h

/-- Behind a blank line within the range of `int` there is the body. -/
theorem parseBody_of_cut (json : Nlohmann) {raw head body : Bytes}
    (hcut : cut crlfcrlf raw = some (head, body)) (hlen : raw.length < 2 ^ 64)
    (hhead : head.length + 4 < 2 ^ 31) :
    parseBody json raw (head.length : Int) = readBody json (some body) := by
  have hcutLen : raw.length = head.length + 4 + body.length := cut_length hcut
  have hadd : addInt (head.length : Int) 4 = .ok ((head.length + 4 : Nat) : Int) :=
    addInt_natCast _ 4 hhead
  have hsize : toSize ((head.length + 4 : Nat) : Int) = head.length + 4 :=
    toSize_natCast (by omega)
  have hbody : substr raw (head.length + 4) npos = .ok body := by
    rw [substr_all (by omega) (by unfold npos; omega)]
    exact congrArg Except.ok (drop_behind_cut hcut)
  have hblank : toSize (head.length : Int) ≠ npos :=
    toSize_natCast_ne_npos (by omega)
  rw [parseBody]
  simp only [if_neg hblank, hadd, Run.ok_bind, hsize, hbody, Run.pure_eq]
  cases body with
  | nil => rfl
  | cons b body =>
    simp only [reduceCtorEq, if_false, readBody, Nlohmann.parse]
    cases json.read (b :: body) with
    | ok document => rfl
    | error e => cases e <;> rfl

theorem parseBody_eq (json : Nlohmann) {raw : Bytes} (hlen : raw.length < 2 ^ 31) :
    parseBody json raw (toInt (find raw crlfcrlf 0)) =
      readBody json (bodyText raw) := by
  cases hcut : cut crlfcrlf raw with
  | none =>
    have hfind : toInt (find raw crlfcrlf 0) = -1 := toInt_find_of_cut_none hcut
    simp only [parseBody, bodyText, hcut, hfind, toSize_neg_one, if_true,
      Option.map_none, readBody, Run.pure_eq]
  | some parts =>
    obtain ⟨head, body⟩ := parts
    have hcutLen : raw.length = head.length + 4 + body.length := cut_length hcut
    rw [toInt_find_of_cut hlen hcut, bodyText, hcut, Option.map_some]
    exact parseBody_of_cut json hcut (by omega) (by omega)

/-! ## The request -/

/-- What `parse` takes from everything but the body. -/
structure Head where
  method : Method
  path : Bytes
  version : Bytes
  headers : HeaderMap

/-- The text the header scan runs over, given the text behind the request line:
as much of it as the position of the blank line says, or all. -/
def headerWindow (raw rest : Bytes) : Bytes :=
  match cut crlfcrlf raw with
  | none => rest
  | some (head, _) => rest.take head.length

/-- The head that a request line and some header fields make, or none where the
method is unknown or no field is named Host. -/
def headOf (line : Bytes) (fields : List (Bytes × Bytes)) : Option Head :=
  let parts := targetParts line
  let headers : HeaderMap := NormMap.empty.collect fields
  if toMethod parts.1 = .unknown then none
  else if headers.contains (ascii "Host") then
    some { method := toMethod parts.1, path := parts.2.1, version := parts.2.2,
           headers := headers }
  else none

/-- The request line and the headers. -/
def parseHead (raw : Bytes) : Option Head :=
  match cut crlf raw with
  | none => none
  | some (line, rest) => headOf line (fieldsOf (linesOf (headerWindow raw rest)))

/-- The request that a head and a document make. -/
def Head.request (head : Head) (id : Bytes) (body : Json) : Request where
  id := id
  method := head.method
  path := head.path
  version := head.version
  headers := head.headers
  body := body

/-- `parse` in terms of the text. -/
def parseReference (json : Nlohmann) (id raw : Bytes) : Run (Option Request) :=
  match parseHead raw with
  | none => .ok none
  | some head => (readBody json (bodyText raw)).map fun body =>
      body.map (head.request id)

/-- The window that `parse` cuts out is `headerWindow`: without a blank line its
count is `npos`. -/
theorem substr_headerWindow {raw line rest : Bytes} (hlen : raw.length < 2 ^ 31)
    (hcut : cut crlf raw = some (line, rest)) :
    substr raw (line.length + 2) (toSize (toInt (find raw crlfcrlf 0))) =
      .ok (headerWindow raw rest) := by
  have hcutLen : raw.length = line.length + 2 + rest.length := cut_length hcut
  have hrest : raw.drop (line.length + 2) = rest := drop_behind_cut hcut
  unfold headerWindow
  cases hblank : cut crlfcrlf raw with
  | none =>
    have hall : raw.length ≤ npos := by unfold npos; omega
    rw [toInt_find_of_cut_none hblank, toSize_neg_one, substr_all (by omega) hall,
      hrest]
  | some parts =>
    have hblankLen := cut_length hblank
    have hsize : toSize (parts.1.length : Int) = parts.1.length :=
      toSize_natCast (by omega)
    rw [toInt_find_of_cut hlen hblank, hsize, substr_ok (by omega), hrest]

/-- On texts shorter than 2^31 octets `parse` is its reference: it ends, leaves
the range of `int` nowhere, and raises nothing but what reading the body does. -/
theorem parse_eq_reference (json : Nlohmann) (id : Bytes) {raw : Bytes}
    (hlen : raw.length < 2 ^ 31) :
    parse json id raw = parseReference json id raw := by
  rw [parse, parseReference, parseHead]
  simp only [headOf]
  cases hcut : cut crlf raw with
  | none =>
    have hfind : toInt (find raw crlf 0) = -1 := toInt_find_of_cut_none hcut
    simp only [hfind, toSize_neg_one, if_true, Run.pure_eq]
  | some parts =>
    obtain ⟨line, rest⟩ := parts
    have hcutLen : raw.length = line.length + 2 + rest.length := cut_length hcut
    have hline : substr raw 0 line.length = .ok line := substr_before_cut hcut
    have hadd :
        addInt (line.length : Int) 2 = .ok ((line.length + 2 : Nat) : Int) :=
      addInt_natCast _ 2 (by omega)
    have hsizeLine : toSize (line.length : Int) = line.length :=
      toSize_natCast (by omega)
    have hsizeNext : toSize ((line.length + 2 : Nat) : Int) = line.length + 2 :=
      toSize_natCast (by omega)
    have hposLine : line.length ≠ npos := by unfold npos; omega
    have hwindowLen : (headerWindow raw rest).length < 2 ^ 31 := by
      unfold headerWindow
      split
      · omega
      · rw [List.length_take]
        omega
    have hlineLen : line.length < 2 ^ 31 := by omega
    have htarget := parseTarget_eq hlineLen
    have hwindow := substr_headerWindow hlen hcut
    have hheaders := parseHeaders_eq hwindowLen
    have hbody := parseBody_eq json hlen
    have hfind : toInt (find raw crlf 0) = (line.length : Int) :=
      toInt_find_of_cut hlen hcut
    simp only [hfind, hsizeLine, if_neg hposLine, hline, Run.ok_bind, htarget]
    by_cases hmethod : toMethod (targetParts line).1 = .unknown
    · simp only [if_pos hmethod, Run.pure_eq]
    · simp only [if_neg hmethod, hadd, Run.ok_bind, hsizeNext, hwindow, hheaders]
      rw [← headersOf]
      by_cases hhost :
          (headersOf (headerWindow raw rest)).contains (ascii "Host") = true
      · simp only [if_pos hhost, hbody]
        cases readBody json (bodyText raw) with
        | error e => rfl
        | ok body => cases body <;> rfl
      · simp only [if_neg hhost, Run.pure_eq]

theorem parse_of_noHead {json : Nlohmann} {id raw : Bytes}
    (hlen : raw.length < 2 ^ 31) (hhead : parseHead raw = none) :
    parse json id raw = .ok none := by
  rw [parse_eq_reference json id hlen, parseReference, hhead]

theorem parse_of_head (json : Nlohmann) (id : Bytes) {raw : Bytes} {head : Head}
    (hlen : raw.length < 2 ^ 31) (hhead : parseHead raw = some head) :
    parse json id raw =
      (readBody json (bodyText raw)).map fun body =>
        body.map (head.request id) := by
  rw [parse_eq_reference json id hlen, parseReference, hhead]

/-- What it takes for a request to be accepted. -/
theorem parse_eq_some_iff {json : Nlohmann} {id raw : Bytes} {req : Request}
    (hlen : raw.length < 2 ^ 31) :
    parse json id raw = .ok (some req) ↔
      ∃ head body, parseHead raw = some head ∧
        readBody json (bodyText raw) = .ok (some body) ∧
          req = head.request id body := by
  cases hhead : parseHead raw with
  | none => simp [parse_of_noHead hlen hhead]
  | some head =>
    rw [parse_of_head json id hlen hhead]
    cases readBody json (bodyText raw) with
    | error e => simp [Except.map]
    | ok body => cases body <;> simp [Except.map, eq_comm]

end UniServer.Http
