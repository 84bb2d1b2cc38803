/-
  Http/RequestLine.lean --- what `HttpCodec::parse` makes of the request line of a
  text of any length.

  A position of 2^31 or more does not fit the cursors.  A text whose first line is
  so long is never accepted: the cursor that should stand behind the line wraps to
  a negative one, at which `substr` raises, or to one inside the line, and then the
  header loop takes its next CRLF to be at -2 and turns round for ever.  So the
  request line of an accepted text is always cut off exactly.
-/
import UniServer.Http.RequestHead

set_option autoImplicit false

namespace UniServer.Http

open UniServer.Foundation

/-! ## The steps of an accepting run -/

/-- What the steps of `parse` came to when it accepts. -/
structure Accepted (json : Nlohmann) (id raw : Bytes) (req : Request)
    (targets headers : Bytes) (start : Int) : Prop where
  ended : toSize (toInt (find raw crlf 0)) ≠ npos
  line : substr raw 0 (toSize (toInt (find raw crlf 0))) = .ok targets
  target : parseTarget targets = .ok (some (req.method, req.path, req.version))
  next : addInt (toInt (find raw crlf 0)) 2 = .ok start
  window : substr raw (toSize start) (toSize (toInt (find raw crlfcrlf 0))) =
    .ok headers
  fields : parseHeaders headers = .ok (some req.headers)
  body : parseBody json raw (toInt (find raw crlfcrlf 0)) = .ok (some req.body)
  drawn : req.id = id

/-- An accepting run has gone through every step of `parse`. -/
theorem accepted_of_parse {json : Nlohmann} {id raw : Bytes} {req : Request}
    (h : parse json id raw = .ok (some req)) :
    ∃ targets headers start, Accepted json id raw req targets headers start := by
  rw [parse] at h
  split at h
  · cases h
  rename_i hended
  obtain ⟨targets, htargets, h⟩ := Run.bind_eq_ok.mp h
  obtain ⟨target, htarget, h⟩ := Run.bind_eq_ok.mp h
  rcases target with _ | ⟨method, path, version⟩
  · cases h
  obtain ⟨start, hstart, h⟩ := Run.bind_eq_ok.mp h
  obtain ⟨headers, hwindow, h⟩ := Run.bind_eq_ok.mp h
  obtain ⟨fields, hfields, h⟩ := Run.bind_eq_ok.mp h
  rcases fields with _ | fields
  · cases h
  obtain ⟨body, hbody, h⟩ := Run.bind_eq_ok.mp h
  rcases body with _ | body
  · cases h
  cases h
  exact ⟨targets, headers, start, hended, htargets, htarget, hstart, hwindow,
    hfields,
    hbody, rfl⟩

/-! ## A first line that is too long -/

/-- A header loop that takes its line to end at -2 never ends well. -/
theorem scanHeaders_stuck {headers : Bytes} (hlen : headers.length < 2 ^ 63)
    (hend : toInt (find headers crlf 0) = -2) (fuel : Nat) (fields : HeaderMap) :
    ∀ result, scanHeaders headers fuel 0 (-2) fields ≠ .ok result := by
  induction fuel generalizing fields with
  | zero =>
    intro result h
    cases h
  | succ fuel ih =>
    intro result h
    have hzero : toSize 0 = 0 := rfl
    have hback : addInt (-2) 2 = .ok 0 := rfl
    have hnpos : toSize (-2) ≠ npos := by decide
    obtain ⟨hlow, hhigh, _⟩ := toInt_spec (find headers colonMark 0)
    rw [scanHeaders] at h
    simp only [hzero] at h
    split at h
    · -- the colon is passed over, and the cursors stay where they are
      simp only [Run.pure_eq, Run.ok_bind, hback, hzero, hend, if_neg hnpos] at h
      exact ih fields result h
    · -- the value would begin at a negative position
      rename_i hcolon
      rw [not_or] at hcolon
      obtain ⟨_, _, h⟩ := Run.bind_eq_ok.mp h
      obtain ⟨_, _, h⟩ := Run.bind_eq_ok.mp h
      obtain ⟨behindColon, hbehind, h⟩ := Run.bind_eq_ok.mp h
      obtain ⟨_, _, h⟩ := Run.bind_eq_ok.mp h
      obtain ⟨_, _, h⟩ := Run.bind_eq_ok.mp h
      obtain ⟨value, hvalue, _⟩ := Run.bind_eq_ok.mp h
      obtain ⟨rfl, hrange⟩ := intResult_ok_iff.mp hbehind
      have hfar := le_toSize_of_neg hrange.1 (by omega)
      have hinside := (substr_eq_ok_iff.mp hvalue).1
      omega

/-- A window that begins inside a line of 2^32 octets or more is not accepted. -/
theorem parseHeaders_stuck {window line rest : Bytes} {m : Nat} {count : Nat}
    (hlen : window.length < 2 ^ 63) (hcut : cut crlf window = some (line, rest))
    (hline : line.length + 2 = 2 ^ 32 * m) :
    ∀ fields, parseHeaders (window.take count) ≠ .ok (some fields) := by
  intro fields h
  rw [parseHeaders] at h
  cases hpart : cut crlf (window.take count) with
  | none =>
    have hfind : toInt (find (window.take count) crlf 0) = -1 :=
      toInt_find_of_cut_none hpart
    simp only [hfind, toSize_neg_one, if_true] at h
    cases h
  | some parts =>
    obtain ⟨front, more⟩ := parts
    have hwhole := cut_append_right hpart (window.drop count)
    rw [List.take_append_drop, hcut, Option.some_inj, Prod.mk.injEq] at hwhole
    have hfind : find (window.take count) crlf 0 = front.length := by
      rw [find_of_search (Nat.zero_le _) (search_of_cut hpart), Nat.zero_add]
    have hwrap : toInt (find (window.take count) crlf 0) = -2 := by
      obtain ⟨hlow, hhigh, k, hk⟩ := toInt_spec (find (window.take count) crlf 0)
      rw [hfind, ← hwhole.1] at hk
      rw [hfind, ← hwhole.1] at hlow hhigh ⊢
      omega
    have hnpos : toSize (-2) ≠ npos := by decide
    simp only [hwrap, if_neg hnpos] at h
    obtain ⟨fields', hscan, _⟩ := Run.bind_eq_ok.mp h
    have hshort : (window.take count).length < 2 ^ 63 := by
      rw [List.length_take]
      omega
    exact scanHeaders_stuck hshort hwrap _ _ fields' hscan

/-- The first line of an accepted text is within the range of the cursors. -/
theorem line_lt_of_accepted {json : Nlohmann} {id raw : Bytes} {req : Request}
    {targets headers : Bytes} {start : Int} {line rest : Bytes}
    (hlen : raw.length < 2 ^ 63) (hcut : cut crlf raw = some (line, rest))
    (h : Accepted json id raw req targets headers start) :
    line.length < 2 ^ 31 := by
  by_contra hlong
  have hfind : find raw crlf 0 = line.length := by
    rw [find_of_search (Nat.zero_le _) (search_of_cut hcut), Nat.zero_add]
  have hstart := h.next
  have hended := h.ended
  rw [hfind] at hstart hended
  obtain ⟨rfl, hrange⟩ := intResult_ok_iff.mp hstart
  obtain ⟨hlow, _, m, hm⟩ := toInt_spec line.length
  obtain ⟨hinside, hwindow⟩ := substr_eq_ok_iff.mp h.window
  have hne : toInt line.length ≠ -1 := by
    intro hminus
    rw [hminus, toSize_neg_one] at hended
    exact hended rfl
  have hpos : 0 ≤ toInt line.length + 2 := by
    by_contra hneg
    have hfar := le_toSize_of_neg hrange.1 (Int.not_le.mp hneg)
    omega
  obtain ⟨begin, hbegin⟩ := Int.eq_ofNat_of_zero_le hpos
  have hsize : toSize (toInt line.length + 2) = begin := by
    rw [hbegin]
    exact toSize_natCast (by omega)
  rw [hsize] at hinside hwindow
  -- the window begins inside the line, a multiple of 2^32 before its end
  obtain ⟨hshape, hfirst⟩ := cut_eq_some_iff.mp hcut
  have hle : begin ≤ line.length := by omega
  have hdrop : cut crlf (raw.drop begin) = some (line.drop begin, rest) := by
    refine cut_eq_some_iff.mpr ⟨?_, ?_⟩
    · rw [hshape, List.append_assoc, List.drop_append_of_le_length hle,
        List.append_assoc]
    · apply firstAt_crlf.mpr
      intro hocc
      apply firstAt_crlf.mp hfirst
      exact hocc.trans (List.drop_suffix begin line).isInfix
  have hheaders := h.fields
  rw [hwindow] at hheaders
  refine parseHeaders_stuck (m := m) ?_ hdrop ?_ req.headers hheaders
  · rw [List.length_drop]
    omega
  · rw [List.length_drop]
    omega

/-- The method, the path and the version of an accepted text are those of its first
line. -/
theorem target_of_parse {json : Nlohmann} {id raw : Bytes} {req : Request}
    (hlen : raw.length < 2 ^ 63) (h : parse json id raw = .ok (some req)) :
    ∃ rest, cut crlf raw = some (requestLine raw, rest) ∧
      (requestLine raw).length < 2 ^ 31 ∧
      (req.method, req.path, req.version) =
        (toMethod (targetParts (requestLine raw)).1,
          (targetParts (requestLine raw)).2) ∧
      req.method ≠ .unknown := by
  obtain ⟨targets, headers, start, haccepted⟩ := accepted_of_parse h
  cases hcut : cut crlf raw with
  | none =>
    have hended := haccepted.ended
    rw [toInt_find_of_cut_none hcut, toSize_neg_one] at hended
    exact absurd rfl hended
  | some parts =>
    obtain ⟨line, rest⟩ := parts
    have hline : requestLine raw = line := by
      rw [requestLine, linesOf_of_cut hcut, List.headD_cons]
    have hshort := line_lt_of_accepted hlen hcut haccepted
    have hfind : toInt (find raw crlf 0) = (line.length : Int) := by
      rw [find_of_search (Nat.zero_le _) (search_of_cut hcut), Nat.zero_add,
        toInt_of_lt hshort]
    have hsize : toSize (line.length : Int) = line.length :=
      toSize_natCast (by omega)
    have htargets := haccepted.line
    rw [hfind, hsize, substr_before_cut hcut, Except.ok.injEq] at htargets
    have htarget := haccepted.target
    rw [← htargets, parseTarget_eq hshort, Except.ok.injEq] at htarget
    rw [hline]
    split at htarget
    · cases htarget
    · rename_i hmethod
      simp only [Option.some_inj, Prod.mk.injEq] at htarget
      obtain ⟨hm, hpath, hversion⟩ := htarget
      refine ⟨rest, rfl, hshort, ?_, hm ▸ hmethod⟩
      rw [← hm, ← hpath, ← hversion]

/-! ## The grammar of the line -/

/-- The line is `method SP path SP version`, with the method in any case and no
space in the method and the path. -/
def FollowsGrammar (line : Bytes) (req : Request) : Prop :=
  ∃ word, line = word ++ space ++ req.path ++ space ++ req.version ∧
    (32 : Byte) ∉ word ∧ (32 : Byte) ∉ req.path ∧
    req.method = toMethod word ∧ lower word = lower req.method.toText

/-- A known method is named by its own text, in any case. -/
theorem lower_toMethod {word : Bytes} (h : toMethod word ≠ .unknown) :
    lower word = lower (toMethod word).toText := by
  unfold toMethod at h ⊢
  split_ifs at h ⊢ with _ hget hpost hput hdelete hpatch
  · exact absurd rfl h
  · exact hget.trans (by decide)
  · exact hpost.trans (by decide)
  · exact hput.trans (by decide)
  · exact hdelete.trans (by decide)
  · exact hpatch.trans (by decide)
  · exact absurd rfl h

/-- With two spaces the three parts are what stands between them. -/
theorem targetParts_of_count {line : Bytes} (h : 2 ≤ line.count 32) :
    line = (targetParts line).1 ++ space ++ (targetParts line).2.1 ++ space ++
        (targetParts line).2.2 ∧
      (32 : Byte) ∉ (targetParts line).1 ∧
        (32 : Byte) ∉ (targetParts line).2.1 := by
  have hsome : ∀ text : Bytes, 1 ≤ text.count 32 →
      ∃ parts, cut space text = some parts := by
    intro text htext
    refine Option.isSome_iff_exists.mp
      (Option.isSome_iff_ne_none.mpr fun hnone => ?_)
    rw [List.count_eq_zero.mpr (cut_singleton_eq_none_iff.mp hnone)] at htext
    omega
  obtain ⟨⟨word, rest⟩, hword⟩ := hsome line (Nat.le_of_succ_le h)
  have hcount := count_of_cut_singleton hword
  obtain ⟨⟨path, version⟩, hpath⟩ := hsome rest (by omega)
  have hparts : targetParts line = (word, path, version) := by
    simp [targetParts, hword, hpath]
  obtain ⟨hline, hfirstWord⟩ := cut_eq_some_iff.mp hword
  obtain ⟨hrest, hfirstPath⟩ := cut_eq_some_iff.mp hpath
  rw [hparts]
  refine ⟨?_, firstAt_singleton.mp hfirstWord, firstAt_singleton.mp hfirstPath⟩
  rw [hline, hrest]
  simp only [List.append_assoc]

/-- The request line of an accepted text follows the grammar, with the parts that
the request holds, exactly when it has two spaces. -/
theorem followsGrammar_iff {json : Nlohmann} {id raw : Bytes} {req : Request}
    (hlen : raw.length < 2 ^ 63) (haccept : parse json id raw = .ok (some req)) :
    FollowsGrammar (requestLine raw) req ↔ 2 ≤ (requestLine raw).count 32 := by
  obtain ⟨_, _, _, htarget, hmethod⟩ := target_of_parse hlen haccept
  have hreqMethod : req.method = toMethod (targetParts (requestLine raw)).1 :=
    congrArg Prod.fst htarget
  have hpath : req.path = (targetParts (requestLine raw)).2.1 :=
    congrArg (fun parts => parts.2.1) htarget
  have hversion : req.version = (targetParts (requestLine raw)).2.2 :=
    congrArg (fun parts => parts.2.2) htarget
  constructor
  · rintro ⟨word, hline, _⟩
    rw [hline]
    have hone : space.count 32 = 1 := by decide
    simp only [List.count_append, hone]
    omega
  · intro hcount
    obtain ⟨hline, hword, hno⟩ := targetParts_of_count hcount
    refine ⟨(targetParts (requestLine raw)).1, ?_, hword, hpath ▸ hno,
      hreqMethod, ?_⟩
    · rw [hpath, hversion]
      exact hline
    · rw [hreqMethod] at hmethod ⊢
      exact lower_toMethod hmethod

/-- A request line without a version. -/
def shortLine : Bytes := ascii "GET /a\r\nHost: a\r\n\r\n"

theorem shortLine_accepted :
    ∃ req, parse readsNothing [] shortLine = .ok (some req) :=
  returnsValue_iff.mp (by decide +kernel)

theorem followsGrammar_iff_shortLine :
    ∃ req, parse readsNothing [] shortLine = .ok (some req) ∧
      (FollowsGrammar (requestLine shortLine) req ↔
        2 ≤ (requestLine shortLine).count 32) := by
  obtain ⟨req, haccept⟩ := shortLine_accepted
  exact ⟨req, haccept, followsGrammar_iff (by decide +kernel) haccept⟩

/-- It is accepted, and the version is the whole line. -/
theorem shortLine_breaks_grammar :
    ¬ ∀ (json : Nlohmann) (id raw : Bytes) (req : Request), raw.length < 2 ^ 63 →
      parse json id raw = .ok (some req) →
      2 ≤ (requestLine raw).count 32 ∧ FollowsGrammar (requestLine raw) req := by
  intro hclaim
  obtain ⟨req, haccept⟩ := shortLine_accepted
  have hcount := (hclaim _ _ _ req (by decide +kernel) haccept).1
  exact absurd hcount (by decide +kernel)

end UniServer.Http
