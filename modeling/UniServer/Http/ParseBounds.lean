/-
  Http/ParseBounds.lean --- the positions that `HttpCodec::parse` works with.

  The model of `Http/CodecParse` is run again with probes: one for every search
  whose result is kept in an `int`, one for every `substr` with the position it
  starts at, and one for every turn of the header loop with its cursors.  Probes
  change no result (`result_parse`).

  On texts shorter than 2^31 octets every search result is the true position or
  -1, whatever the cursors are: the strings that are searched are parts of the
  text.  A `substr` that starts too far behind raises, so that a run without
  `out_of_range` has none.  A turn of the loop starts two behind the CRLF of the one
  before.
-/
import Mathlib.Data.List.Perm.Subperm
import UniServer.Foundation.Traced
import UniServer.Http.RequestHead

set_option autoImplicit false

namespace UniServer.Http

open UniServer.Foundation

/-! ## Probes -/

/-- The cursors at the start of a turn of the header loop. -/
structure HeaderTurn where
  headers : Bytes
  beg : Int
  lineEnd : Int

/-- What is watched in a run. -/
inductive Probe where
  /-- a search of `pattern` from `pos` on, and the `int` its result is kept in -/
  | search (s pattern : Bytes) (pos : Nat) (found : Int)
  /-- a `substr` of `s` that starts at `pos` -/
  | substr (s : Bytes) (pos : Nat)
  | turn (t : HeaderTurn)

/-- The `int` is the position of the first occurrence, or -1 where there is none;
a `substr` starts in the text. -/
def Probe.Safe : Probe → Prop
  | .search s pattern pos found =>
      (∃ n : Nat, found = n ∧ FirstFrom pattern s pos n) ∨
        (found = -1 ∧ ∀ m, pos ≤ m → m ≤ s.length → ¬ pattern <+: s.drop m)
  | .substr s pos => pos ≤ s.length
  | .turn _ => True

/-- The turns among the probes. -/
def Probe.turn? : Probe → Option HeaderTurn
  | .turn t => some t
  | _ => none

/-- A call with probes. -/
abbrev Probed (α : Type) : Type := Traced Probe Abort α

namespace Probed

/-- `int found = s.find(pattern, pos)`. -/
def find (s pattern : Bytes) (pos : Nat) : Probed Int := do
  Traced.emit (.search s pattern pos (toInt (Foundation.find s pattern pos)))
  return toInt (Foundation.find s pattern pos)

/-- `s.substr(pos, count)`. -/
def substr (s : Bytes) (pos count : Nat) : Probed Bytes := do
  Traced.emit (.substr s pos)
  Traced.lift (Foundation.substr s pos count)

/-- `/// parse target`. -/
def parseTarget (targets : Bytes) : Probed (Option (Method × Bytes × Bytes)) := do
  let firstSpace ← find targets space 0
  let behindFirst ← Traced.lift (addInt firstSpace 1)
  let secondSpace ← find targets space (toSize behindFirst)
  let word ← substr targets 0 (toSize firstSpace)
  let method := toMethod word
  if method = .unknown then
    return none
  else
    let between ← Traced.lift (subInt secondSpace firstSpace)
    let width ← Traced.lift (subInt between 1)
    let path ← substr targets (toSize behindFirst) (toSize width)
    let behindSecond ← Traced.lift (addInt secondSpace 1)
    let version ← substr targets (toSize behindSecond) npos
    return some (method, path, version)

/-- `value.find_first_not_of(" \t")`, and the `substr` behind it. -/
def trimValue (value : Bytes) : Probed Bytes := do
  match value.findIdx? (fun b => !isBlank b) with
  | some valStart =>
      Traced.emit (.substr value valStart)
      return value.drop valStart
  | none => return value

/-- What a turn of the loop cuts out. -/
def turnField (headers : Bytes) (beg lineEnd : Int) (fields : HeaderMap) :
    Probed HeaderMap := do
  let colon ← find headers colonMark (toSize beg)
  if toSize colon = npos ∨ colon > lineEnd then
    return fields
  else
    let keyWidth ← Traced.lift (subInt colon beg)
    let key ← substr headers (toSize beg) (toSize keyWidth)
    let behindColon ← Traced.lift (addInt colon 1)
    let left ← Traced.lift (subInt lineEnd colon)
    let width ← Traced.lift (subInt left 1)
    let value ← substr headers (toSize behindColon) (toSize width)
    let value ← trimValue value
    return fields.assign key value

/-- The `while(true)` over the lines of `headers`. -/
def scanHeaders (headers : Bytes) : Nat → Int → Int → HeaderMap → Probed HeaderMap
  | 0, _, _, _ => Traced.lift (.error .diverge)
  | fuel + 1, beg, lineEnd, fields => do
      Traced.emit (.turn ⟨headers, beg, lineEnd⟩)
      let fields ← turnField headers beg lineEnd fields
      let beg ← Traced.lift (addInt lineEnd 2)
      let lineEnd ← find headers crlf (toSize beg)
      if toSize lineEnd = npos then
        return fields
      else
        scanHeaders headers fuel beg lineEnd fields

/-- `/// parse header`. -/
def parseHeaders (headers : Bytes) : Probed (Option HeaderMap) := do
  let lineEnd ← find headers crlf 0
  if toSize lineEnd = npos then
    return none
  else
    let fields ← scanHeaders headers (headers.length + 1) 0 lineEnd .empty
    if fields.contains (ascii "Host") then
      return some fields
    else
      return none

/-- `/// parse body`. -/
def parseBody (json : Nlohmann) (rawReq : Bytes) (endHeaders : Int) :
    Probed (Option Json) := do
  if toSize endHeaders = npos then
    return some .null
  else
    let start ← Traced.lift (addInt endHeaders 4)
    let body ← substr rawReq (toSize start) npos
    if body = [] then
      return some .null
    else
      match json.parse body with
      | .ok document => return some document.toOrdered
      | .error (.throw .jsonParseError) => return none
      | .error e => Traced.lift (.error e)

/-- `HttpCodec::parse`. -/
def parse (json : Nlohmann) (id : Bytes) (rawReq : Bytes) :
    Probed (Option Request) := do
  let endTargets ← find rawReq crlf 0
  let endHeaders ← find rawReq crlfcrlf 0
  if toSize endTargets = npos then
    return none
  else
    let targets ← substr rawReq 0 (toSize endTargets)
    match ← parseTarget targets with
    | none => return none
    | some (method, path, version) =>
      let start ← Traced.lift (addInt endTargets 2)
      let headers ← substr rawReq (toSize start) (toSize endHeaders)
      match ← parseHeaders headers with
      | none => return none
      | some fields =>
        match ← parseBody json rawReq endHeaders with
        | none => return none
        | some body =>
          return some
            { id := id, method := method, path := path, version := version,
              headers := fields, body := body }

/-! ## Probes change no result -/

@[simp] theorem result_find (s pattern : Bytes) (pos : Nat) :
    (find s pattern pos).result = .ok (toInt (Foundation.find s pattern pos)) :=
  rfl

@[simp] theorem result_substr (s : Bytes) (pos count : Nat) :
    (substr s pos count).result = Foundation.substr s pos count := by
  rw [substr, Traced.result_bind]
  rfl

theorem result_find_bind {α : Type} (s pattern : Bytes) (pos : Nat)
    (f : Int → Probed α) :
    (find s pattern pos >>= f).result =
      (f (toInt (Foundation.find s pattern pos))).result := by
  rw [Traced.result_bind, result_find, Run.ok_bind]

theorem result_parseTarget (targets : Bytes) :
    (parseTarget targets).result = Http.parseTarget targets := by
  unfold parseTarget Http.parseTarget
  rw [result_find_bind]
  apply Traced.result_bind_eq rfl
  intro behindFirst
  rw [result_find_bind]
  apply Traced.result_bind_eq (result_substr _ _ _)
  intro word
  simp only []
  split
  · rfl
  · apply Traced.result_bind_eq rfl
    intro between
    apply Traced.result_bind_eq rfl
    intro width
    apply Traced.result_bind_eq (result_substr _ _ _)
    intro path
    apply Traced.result_bind_eq rfl
    intro behindSecond
    apply Traced.result_bind_eq (result_substr _ _ _)
    intro version
    rfl

theorem result_trimValue (value : Bytes) :
    (trimValue value).result = .ok (Http.trimValue value) := by
  unfold trimValue Http.trimValue
  cases value.findIdx? fun b => !isBlank b with
  | none => rfl
  | some valStart => rfl

theorem result_turnField (headers : Bytes) (beg lineEnd : Int)
    (fields : HeaderMap) :
    (turnField headers beg lineEnd fields).result =
      turnTexts headers beg lineEnd >>= fun texts =>
        .ok (fields.collect (texts.map trimText).toList) := by
  unfold turnField turnTexts
  rw [result_find_bind]
  simp only []
  split
  · rfl
  · simp only [bind_assoc]
    apply Traced.result_bind_eq rfl
    intro keyWidth
    apply Traced.result_bind_eq (result_substr _ _ _)
    intro key
    apply Traced.result_bind_eq rfl
    intro behindColon
    apply Traced.result_bind_eq rfl
    intro left
    apply Traced.result_bind_eq rfl
    intro width
    apply Traced.result_bind_eq (result_substr _ _ _)
    intro value
    rw [Traced.result_bind, result_trimValue]
    rfl

theorem result_scanHeaders (headers : Bytes) (fuel : Nat) (beg lineEnd : Int)
    (fields : HeaderMap) :
    (scanHeaders headers fuel beg lineEnd fields).result =
      Http.scanHeaders headers fuel beg lineEnd fields := by
  induction fuel generalizing beg lineEnd fields with
  | zero => rfl
  | succ fuel ih =>
    rw [scanHeaders_succ, scanHeaders, Traced.result_bind, Traced.result_emit,
      Run.ok_bind, Traced.result_bind, result_turnField, bind_assoc]
    apply bind_congr
    intro texts
    rw [Run.ok_bind]
    apply Traced.result_bind_eq rfl
    intro next
    rw [result_find_bind]
    simp only []
    split
    · rfl
    · exact ih _ _ _

theorem result_parseHeaders (headers : Bytes) :
    (parseHeaders headers).result = Http.parseHeaders headers := by
  unfold parseHeaders Http.parseHeaders
  rw [result_find_bind]
  simp only []
  split
  · rfl
  · apply Traced.result_bind_eq (result_scanHeaders _ _ _ _ _)
    intro fields
    split
    · rfl
    · rfl

theorem result_parseBody (json : Nlohmann) (rawReq : Bytes) (endHeaders : Int) :
    (parseBody json rawReq endHeaders).result =
      Http.parseBody json rawReq endHeaders := by
  unfold parseBody Http.parseBody
  split
  · rfl
  · apply Traced.result_bind_eq rfl
    intro start
    apply Traced.result_bind_eq (result_substr _ _ _)
    intro body
    split
    · rfl
    · cases json.parse body with
      | ok document => rfl
      | error e =>
        cases e with
        | throw exn => cases exn <;> rfl
        | terminate => rfl
        | overflow => rfl
        | diverge => rfl

theorem result_parse (json : Nlohmann) (id rawReq : Bytes) :
    (parse json id rawReq).result = Http.parse json id rawReq := by
  unfold parse Http.parse
  rw [result_find_bind, result_find_bind]
  simp only []
  split
  · rfl
  · apply Traced.result_bind_eq (result_substr _ _ _)
    intro targets
    apply Traced.result_bind_eq (result_parseTarget targets)
    intro target
    cases target with
    | none => rfl
    | some target =>
      apply Traced.result_bind_eq rfl
      intro start
      apply Traced.result_bind_eq (result_substr _ _ _)
      intro headers
      apply Traced.result_bind_eq (result_parseHeaders headers)
      intro fields
      cases fields with
      | none => rfl
      | some fields =>
        apply Traced.result_bind_eq (result_parseBody json rawReq _)
        intro body
        cases body with
        | none => rfl
        | some body => rfl

/-! ## Where searches and cuts are -/

/-- In a short text a search result fits into an `int`. -/
theorem find_safe {s : Bytes} (hlen : s.length < 2 ^ 31) (pattern : Bytes)
    (pos : Nat) :
    (Probe.search s pattern pos (toInt (Foundation.find s pattern pos))).Safe := by
  rcases Nat.lt_or_ge s.length pos with hbehind | hpos
  · refine Or.inr ⟨?_, fun m hm hle => absurd hle (by omega)⟩
    rw [Foundation.find, if_neg (by omega), toInt_npos]
  · cases hcut : cut pattern (s.drop pos) with
    | none =>
      refine Or.inr ⟨toInt_find_of_search_none (search_of_cut_none hcut), ?_⟩
      exact fun m hm _ => not_from_of_cut_none hcut m hm
    | some parts =>
      obtain ⟨front, behind⟩ := parts
      refine Or.inl ⟨pos + front.length, ?_, firstFrom_of_cut hpos hcut⟩
      exact toInt_find_of_search hlen hpos (search_of_cut hcut)

/-- What is cut out of a text is a part of it. -/
theorem infix_of_substr {s t : Bytes} {pos count : Nat}
    (h : (substr s pos count).result = .ok t) : t <:+: s := by
  rw [result_substr] at h
  rw [(substr_eq_ok_iff.mp h).2]
  exact (List.take_prefix _ _).isInfix.trans (List.drop_suffix _ _).isInfix

/-! ## The turns of the header loop -/

/-- The turns of a run, in order. -/
def turns {α : Type} (x : Probed α) : List HeaderTurn := x.selected Probe.turn?

/-- Turns over the lines from `low` on: each ends at the next CRLF, and the next one
starts behind it. -/
def TurnsFrom (headers : Bytes) : Nat → List HeaderTurn → Prop
  | _, [] => True
  | low, t :: more =>
      ∃ e : Nat, t = ⟨headers, low, e⟩ ∧ FirstFrom crlf headers low e ∧
        TurnsFrom headers (e + 2) more

/-- The turns of a request are those over one window of it. -/
def TurnsIn (rawReq : Bytes) (turns : List HeaderTurn) : Prop :=
  ∃ headers, headers <:+: rawReq ∧ TurnsFrom headers 0 turns

theorem turnsIn_nil (rawReq : Bytes) : TurnsIn rawReq [] :=
  ⟨[], List.nil_infix, trivial⟩

/-! ## Calls that keep to their texts -/

/-- The probes of a call are safe, or it raises `out_of_range`; its turns are of
this kind. -/
structure Bounded {α : Type} (Q : List HeaderTurn → Prop) (x : Probed α) :
    Prop where
  safe : x.Guarded Probe.Safe (.throw .outOfRange)
  turns : Q x.turns

/-- The same of a call outside of the loop. -/
abbrev Straight {α : Type} (x : Probed α) : Prop := Bounded (· = []) x

section Rules

variable {α β : Type} {Q : List HeaderTurn → Prop}

theorem straight_pure (a : α) : Straight (pure a : Probed α) :=
  ⟨Traced.guarded_pure a, Traced.selected_pure _ a⟩

theorem straight_lift (x : Run α) : Straight (Traced.lift x : Probed α) :=
  ⟨Traced.guarded_lift x, Traced.selected_lift _ x⟩

theorem Bounded.of_straight {x : Probed α} (hnil : Q []) (hx : Straight x) :
    Bounded Q x := by
  refine ⟨hx.safe, ?_⟩
  rw [hx.turns]
  exact hnil

/-- A call in front of the loop adds no turns. -/
theorem bounded_bind {x : Probed α} {f : α → Probed β} (hnil : Q [])
    (hx : Straight x) (hf : ∀ a, x.result = .ok a → Bounded Q (f a)) :
    Bounded Q (x >>= f) :=
  ⟨Traced.guarded_bind hx.safe fun a ha => (hf a ha).safe,
    Traced.selected_bind_of_nil Probe.turn? hnil hx.turns
      fun a ha => (hf a ha).turns⟩

theorem straight_bind {x : Probed α} {f : α → Probed β} (hx : Straight x)
    (hf : ∀ a, x.result = .ok a → Straight (f a)) : Straight (x >>= f) :=
  bounded_bind rfl hx hf

/-- Nor does one behind it. -/
theorem bounded_bind_straight {x : Probed α} {f : α → Probed β} (hx : Bounded Q x)
    (hf : ∀ a, x.result = .ok a → Straight (f a)) : Bounded Q (x >>= f) := by
  refine ⟨Traced.guarded_bind hx.safe fun a ha => (hf a ha).safe, ?_⟩
  rw [turns, Traced.selected_bind_of_nil_right Probe.turn?
    fun a ha => (hf a ha).turns]
  exact hx.turns

/-- One turn, and what comes behind it. -/
theorem bounded_turn {t : HeaderTurn} {f : Unit → Probed β}
    (hf : Bounded (fun more => Q (t :: more)) (f ())) :
    Bounded Q (Traced.emit (.turn t) >>= f) := by
  have hsafe : (Probe.turn t).Safe := trivial
  refine ⟨Traced.guarded_bind (Traced.guarded_emit hsafe) fun _ _ => hf.safe, ?_⟩
  rw [turns, Traced.selected_bind]
  exact hf.turns

end Rules

/-! ## The parser keeps to its texts -/

theorem straight_find {s : Bytes} (hlen : s.length < 2 ^ 31) (pattern : Bytes)
    (pos : Nat) : Straight (find s pattern pos) :=
  ⟨Traced.guarded_bind (Traced.guarded_emit (find_safe hlen pattern pos))
    fun _ _ => Traced.guarded_pure _, rfl⟩

theorem straight_substr (s : Bytes) (pos count : Nat) :
    Straight (substr s pos count) := by
  refine ⟨?_, Traced.selected_bind_of_nil (Q := (· = [])) _ rfl rfl fun _ _ => rfl⟩
  rcases Nat.lt_or_ge s.length pos with hbehind | hpos
  · refine Or.inr ?_
    rw [result_substr, Foundation.substr, if_neg (by omega)]
  · have hsafe : (Probe.substr s pos).Safe := hpos
    exact Traced.guarded_bind (Traced.guarded_emit hsafe)
      fun _ _ => Traced.guarded_lift _

theorem straight_parseTarget {targets : Bytes} (hlen : targets.length < 2 ^ 31) :
    Straight (parseTarget targets) := by
  unfold parseTarget
  apply straight_bind (straight_find hlen _ _)
  intro firstSpace _
  apply straight_bind (straight_lift _)
  intro behindFirst _
  apply straight_bind (straight_find hlen _ _)
  intro secondSpace _
  apply straight_bind (straight_substr _ _ _)
  intro word _
  simp only []
  split
  · exact straight_pure _
  · apply straight_bind (straight_lift _)
    intro between _
    apply straight_bind (straight_lift _)
    intro width _
    apply straight_bind (straight_substr _ _ _)
    intro path _
    apply straight_bind (straight_lift _)
    intro behindSecond _
    apply straight_bind (straight_substr _ _ _)
    intro version _
    exact straight_pure _

theorem straight_trimValue (value : Bytes) : Straight (trimValue value) := by
  unfold trimValue
  cases hindex : value.findIdx? fun b => !isBlank b with
  | none => exact straight_pure _
  | some valStart =>
    have hlt := (List.findIdx?_eq_some_iff_findIdx_eq.mp hindex).1
    have hsafe : (Probe.substr value valStart).Safe := Nat.le_of_lt hlt
    exact ⟨Traced.guarded_bind (Traced.guarded_emit hsafe)
      fun _ _ => Traced.guarded_pure _, rfl⟩

theorem straight_turnField {headers : Bytes} (hlen : headers.length < 2 ^ 31)
    (beg lineEnd : Int) (fields : HeaderMap) :
    Straight (turnField headers beg lineEnd fields) := by
  unfold turnField
  apply straight_bind (straight_find hlen _ _)
  intro colon _
  split
  · exact straight_pure _
  · apply straight_bind (straight_lift _)
    intro keyWidth _
    apply straight_bind (straight_substr _ _ _)
    intro key _
    apply straight_bind (straight_lift _)
    intro behindColon _
    apply straight_bind (straight_lift _)
    intro left _
    apply straight_bind (straight_lift _)
    intro width _
    apply straight_bind (straight_substr _ _ _)
    intro value _
    apply straight_bind (straight_trimValue value)
    intro value _
    exact straight_pure _

/-- Whatever its fuel, the loop goes from a line end to the next. -/
theorem bounded_scanHeaders {headers : Bytes} (hlen : headers.length < 2 ^ 31)
    (fuel beg e : Nat) (fields : HeaderMap) (hend : FirstFrom crlf headers beg e) :
    Bounded (TurnsFrom headers beg) (scanHeaders headers fuel beg e fields) := by
  induction fuel generalizing beg e fields with
  | zero => exact .of_straight trivial (straight_lift _)
  | succ fuel ih =>
    have hbound : e + 2 ≤ headers.length := hend.2.1
    have hnil : TurnsFrom headers beg [⟨headers, beg, e⟩] := ⟨e, rfl, hend, trivial⟩
    rw [scanHeaders]
    apply bounded_turn
    apply bounded_bind hnil (straight_turnField hlen _ _ _)
    intro fields _
    apply bounded_bind hnil (straight_lift _)
    intro next hnext
    have hadd : addInt (e : Int) 2 = .ok ((e + 2 : Nat) : Int) :=
      addInt_natCast e 2 (by omega)
    rw [Traced.result_lift, hadd] at hnext
    obtain rfl := Except.ok.inj hnext
    apply bounded_bind hnil (straight_find hlen _ _)
    intro found hfound
    have hsize : toSize ((e + 2 : Nat) : Int) = e + 2 := toSize_natCast (by omega)
    have hsafe := find_safe hlen crlf (e + 2)
    rw [result_find, hsize] at hfound
    rw [Except.ok.inj hfound] at hsafe
    rcases hsafe with ⟨n, hn, hfirst⟩ | ⟨hn, _⟩
    · rw [hn]
      split
      · exact .of_straight hnil (straight_pure _)
      · have hmore := ih (e + 2) n fields hfirst
        exact ⟨hmore.safe, e, rfl, hend, hmore.turns⟩
    · rw [hn, if_pos toSize_neg_one]
      exact .of_straight hnil (straight_pure _)

theorem bounded_parseHeaders {headers : Bytes} (hlen : headers.length < 2 ^ 31) :
    Bounded (TurnsFrom headers 0) (parseHeaders headers) := by
  unfold parseHeaders
  apply bounded_bind trivial (straight_find hlen _ _)
  intro found hfound
  have hsafe := find_safe hlen crlf 0
  rw [result_find] at hfound
  rw [Except.ok.inj hfound] at hsafe
  rcases hsafe with ⟨n, hn, hfirst⟩ | ⟨hn, _⟩
  · rw [hn]
    split
    · exact .of_straight trivial (straight_pure _)
    · apply bounded_bind_straight (bounded_scanHeaders hlen _ 0 n .empty hfirst)
      intro fields _
      split
      · exact straight_pure _
      · exact straight_pure _
  · rw [hn, if_pos toSize_neg_one]
    exact .of_straight trivial (straight_pure _)

theorem straight_parseBody (json : Nlohmann) (rawReq : Bytes) (endHeaders : Int) :
    Straight (parseBody json rawReq endHeaders) := by
  unfold parseBody
  split
  · exact straight_pure _
  · apply straight_bind (straight_lift _)
    intro start _
    apply straight_bind (straight_substr _ _ _)
    intro body _
    split
    · exact straight_pure _
    · split
      · exact straight_pure _
      · exact straight_pure _
      · exact straight_lift _

theorem bounded_parse (json : Nlohmann) (id : Bytes) {rawReq : Bytes}
    (hlen : rawReq.length < 2 ^ 31) :
    Bounded (TurnsIn rawReq) (parse json id rawReq) := by
  have hnil := turnsIn_nil rawReq
  unfold parse
  apply bounded_bind hnil (straight_find hlen _ _)
  intro endTargets _
  apply bounded_bind hnil (straight_find hlen _ _)
  intro endHeaders _
  split
  · exact .of_straight hnil (straight_pure _)
  · apply bounded_bind hnil (straight_substr _ _ _)
    intro targets htargets
    have hline := (infix_of_substr htargets).length_le
    apply bounded_bind hnil (straight_parseTarget (by omega))
    intro target _
    cases target with
    | none => exact .of_straight hnil (straight_pure _)
    | some target =>
      apply bounded_bind hnil (straight_lift _)
      intro start _
      apply bounded_bind hnil (straight_substr _ _ _)
      intro headers hheaders
      have hwindow := infix_of_substr hheaders
      have hlength := hwindow.length_le
      have hshort : headers.length < 2 ^ 31 := by omega
      have hloop := bounded_parseHeaders hshort
      apply bounded_bind_straight ⟨hloop.safe, headers, hwindow, hloop.turns⟩
      intro fields _
      cases fields with
      | none => exact straight_pure _
      | some fields =>
        apply straight_bind (straight_parseBody json rawReq _)
        intro body _
        cases body with
        | none => exact straight_pure _
        | some body => exact straight_pure _

/-! ## What the turns are -/

theorem TurnsFrom.headers_eq {headers : Bytes} {low : Nat} {turns : List HeaderTurn}
    (h : TurnsFrom headers low turns) : ∀ t ∈ turns, t.headers = headers := by
  induction turns generalizing low with
  | nil =>
    intro t ht
    cases ht
  | cons first more ih =>
    obtain ⟨e, rfl, _, hmore⟩ := h
    intro t ht
    rcases List.mem_cons.mp ht with rfl | ht
    · rfl
    · exact ih hmore t ht

theorem TurnsFrom.low_le {headers : Bytes} {low : Nat} {turns : List HeaderTurn}
    (h : TurnsFrom headers low turns) : ∀ t ∈ turns, (low : Int) ≤ t.beg := by
  induction turns generalizing low with
  | nil =>
    intro t ht
    cases ht
  | cons first more ih =>
    obtain ⟨e, rfl, hend, hmore⟩ := h
    intro t ht
    rcases List.mem_cons.mp ht with rfl | ht
    · exact Int.le_refl _
    · have hbeg := ih hmore t ht
      have hle := hend.1
      omega

/-- The cursor moves on from turn to turn. -/
theorem TurnsFrom.beg_pairwise {headers : Bytes} {low : Nat}
    {turns : List HeaderTurn} (h : TurnsFrom headers low turns) :
    (turns.map HeaderTurn.beg).Pairwise (· < ·) := by
  induction turns generalizing low with
  | nil => exact List.Pairwise.nil
  | cons first more ih =>
    obtain ⟨e, rfl, hend, hmore⟩ := h
    refine List.Pairwise.cons (fun b hb => ?_) (ih hmore)
    obtain ⟨t, ht, rfl⟩ := List.mem_map.mp hb
    have hbeg := hmore.low_le t ht
    have hle := hend.1
    show (low : Int) < t.beg
    omega

/-- Where the CRLFs of a text are. -/
def crlfPositions (s : Bytes) : List Nat :=
  (List.range s.length).filter fun n => crlf.isPrefixOf (s.drop n)

theorem mem_crlfPositions {s : Bytes} {pos n : Nat} (h : FirstFrom crlf s pos n) :
    n ∈ crlfPositions s := by
  obtain ⟨_, hbound, hoccurs, _⟩ := h
  have hbound : n + 2 ≤ s.length := hbound
  exact List.mem_filter.mpr
    ⟨List.mem_range.mpr (by omega), List.isPrefixOf_iff_prefix.mpr hoccurs⟩

/-- Every turn has a CRLF of its own, its line end. -/
theorem TurnsFrom.lineEnds {headers : Bytes} {low : Nat} {turns : List HeaderTurn}
    (h : TurnsFrom headers low turns) :
    ∃ ends : List Nat, turns.map HeaderTurn.lineEnd = ends.map Nat.cast ∧
      ends.Pairwise (· < ·) ∧ ∀ n ∈ ends, low ≤ n ∧ n ∈ crlfPositions headers := by
  induction turns generalizing low with
  | nil =>
    refine ⟨[], rfl, List.Pairwise.nil, fun n hn => ?_⟩
    cases hn
  | cons first more ih =>
    obtain ⟨e, rfl, hend, hmore⟩ := h
    obtain ⟨ends, hends, hsorted, hmem⟩ := ih hmore
    have hle := hend.1
    refine ⟨e :: ends, congrArg (List.cons _) hends,
      List.Pairwise.cons (fun n hn => ?_) hsorted, fun n hn => ?_⟩
    · have hlow := (hmem n hn).1
      omega
    · rcases List.mem_cons.mp hn with rfl | hn
      · exact ⟨hle, mem_crlfPositions hend⟩
      · have hlow := (hmem n hn).1
        exact ⟨by omega, (hmem n hn).2⟩

theorem TurnsFrom.length_le {headers : Bytes} {low : Nat} {turns : List HeaderTurn}
    (h : TurnsFrom headers low turns) :
    turns.length ≤ (crlfPositions headers).length := by
  obtain ⟨ends, hends, hsorted, hmem⟩ := h.lineEnds
  have hlength : turns.length = ends.length := by
    rw [← List.length_map (f := HeaderTurn.lineEnd), hends, List.length_map]
  have hnodup : ends.Nodup := hsorted.imp Nat.ne_of_lt
  rw [hlength]
  exact (List.subperm_of_subset hnodup fun n hn => (hmem n hn).2).length_le

/-! ## Index arithmetic -/

/-- On texts shorter than 2^31 octets the parser raises nothing of its own and
ends. -/
theorem error_of_parse {json : Nlohmann} {id raw : Bytes} {e : Abort}
    (hlen : raw.length < 2 ^ 31) (h : Http.parse json id raw = .error e) :
    e = .throw .jsonOutOfRange := by
  rw [parse_eq_reference json id hlen, parseReference] at h
  cases hhead : parseHead raw with
  | none =>
    rw [hhead] at h
    cases h
  | some head =>
    rw [hhead] at h
    cases hbody : bodyText raw with
    | none =>
      rw [hbody] at h
      cases h
    | some text =>
      rw [hbody] at h
      cases text with
      | nil => cases h
      | cons b text =>
        simp only [readBody] at h
        cases hread : json.read (b :: text) with
        | ok document =>
          rw [hread] at h
          cases h
        | error e' =>
          rw [hread] at h
          cases e' with
          | parseError => cases h
          | outOfRange => exact (Except.error.inj h).symm

/-- Every `substr` of a run starts in its text, every search result is the true
position or -1, and the header loop moves on, one turn for a CRLF of its window at
most.  Nothing is raised but what the reading of a huge number raises. -/
theorem parse_in_bounds (json : Nlohmann) (id : Bytes) {raw : Bytes}
    (hlen : raw.length < 2 ^ 31) :
    (parse json id raw).result = Http.parse json id raw ∧
      (parse json id raw).Each Probe.Safe ∧
      (∀ e, Http.parse json id raw = .error e → e = .throw .jsonOutOfRange) ∧
      ∃ headers, headers <:+: raw ∧
        (∀ t ∈ (parse json id raw).turns, t.headers = headers) ∧
        ((parse json id raw).turns.map HeaderTurn.beg).Pairwise (· < ·) ∧
        (parse json id raw).turns.length ≤ (crlfPositions headers).length := by
  have hresult := result_parse json id raw
  refine ⟨hresult, ?_, fun e he => error_of_parse hlen he, ?_⟩
  · rcases (bounded_parse json id hlen).safe with hsafe | hraised
    · exact hsafe
    · rw [hresult] at hraised
      have herror := error_of_parse hlen hraised
      cases herror
  · obtain ⟨headers, hwindow, hturns⟩ := (bounded_parse json id hlen).turns
    exact ⟨headers, hwindow, hturns.headers_eq, hturns.beg_pairwise,
      hturns.length_le⟩

/-- A request with a header line that has no colon. -/
def loneWordRequest : Bytes := ascii "GET / HTTP/1.1\r\nHost: a\r\nword\r\n\r\n"

/-- The blank line is a turn of its own. -/
example : (parse readsNothing [] loneWordRequest).turns.map
    (fun t => (t.beg, t.lineEnd)) = [(0, 7), (9, 13), (15, 15)] := by
  decide +kernel

theorem parse_in_bounds_loneWord :
    (parse readsNothing [] loneWordRequest).result =
        Http.parse readsNothing [] loneWordRequest ∧
      (parse readsNothing [] loneWordRequest).Each Probe.Safe ∧
      ∃ headers, headers <:+: loneWordRequest ∧
        ((parse readsNothing [] loneWordRequest).turns.map HeaderTurn.beg).Pairwise
          (· < ·) ∧
        (parse readsNothing [] loneWordRequest).turns.length ≤
          (crlfPositions headers).length := by
  have hlen : loneWordRequest.length < 2 ^ 31 := by decide +kernel
  obtain ⟨hresult, hsafe, _, headers, hwindow, _, hincreases, hcount⟩ :=
    parse_in_bounds readsNothing [] hlen
  exact ⟨hresult, hsafe, headers, hwindow, hincreases, hcount⟩

end Probed

end UniServer.Http
