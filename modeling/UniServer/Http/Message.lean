/-
  Http/Message.lean --- requests and responses (`http_message`).

  The header map of both ignores the case of the names: two names are the same
  key when they have the same length and agree octet by octet after
  `std::tolower`, that is, when their lower-cased texts are equal.
-/
import UniServer.Foundation.Assoc
import UniServer.Common.Status
import UniServer.Http.Json

set_option autoImplicit false

namespace UniServer.Http

open UniServer.Foundation UniServer.Common

/-! ## Methods -/

/-- `enum class Method : uint8_t`. -/
inductive Method where
  | get
  | post
  | put
  | delete
  | patch
  | unknown
  deriving DecidableEq, Repr, Inhabited

namespace Method

/-- `static_cast<size_t>(mtd)`. -/
def index : Method → Nat
  | .get => 0
  | .post => 1
  | .put => 2
  | .delete => 3
  | .patch => 4
  | .unknown => 5

/-- `to_string(Method)`. -/
def toText : Method → Bytes
  | .get => ascii "GET"
  | .post => ascii "POST"
  | .put => ascii "PUT"
  | .delete => ascii "DELETE"
  | .patch => ascii "PATCH"
  | .unknown => ascii "UNKNOWN"

theorem index_injective {m₁ m₂ : Method} (h : m₁.index = m₂.index) : m₁ = m₂ := by
  cases m₁ <;> cases m₂ <;> first | rfl | exact absurd h (by decide)

/-- Only `UNKNOWN` has no place in an array of five. -/
theorem index_lt_iff (m : Method) : m.index < 5 ↔ m ≠ .unknown := by
  cases m <;> decide

end Method

/-- `to_method`. -/
def toMethod (s : Bytes) : Method :=
  if s.length > 6 then .unknown
  else if lower s = ascii "get" then .get
  else if lower s = ascii "post" then .post
  else if lower s = ascii "put" then .put
  else if lower s = ascii "delete" then .delete
  else if lower s = ascii "patch" then .patch
  else .unknown

/-- Reading back the name of a method gives the method, `UNKNOWN` included. -/
theorem toMethod_toText (m : Method) : toMethod m.toText = m := by
  cases m <;> decide

/-- A known method is named by at least three octets. -/
theorem three_le_length_of_toMethod {s : Bytes} (h : toMethod s ≠ .unknown) :
    3 ≤ s.length := by
  by_contra hlt
  apply h
  have hshort : ∀ text : Bytes, 3 ≤ text.length → lower s ≠ text := by
    intro text htext heq
    rw [← heq, lower_length] at htext
    omega
  unfold toMethod
  rw [if_neg (by omega), if_neg (hshort _ (by decide)),
    if_neg (hshort _ (by decide)), if_neg (hshort _ (by decide)),
    if_neg (hshort _ (by decide)), if_neg (hshort _ (by decide))]

/-! ## Headers -/

/-- `CaseInsensitiveEqual`. -/
def caseInsensitiveEqual (a b : Bytes) : Bool :=
  if a.length ≠ b.length then false
  else (a.zip b).all fun pair => decide (toLower pair.1 = toLower pair.2)

/-- `std::unordered_map<std::string, std::string, CaseInsensitiveHash,
CaseInsensitiveEqual>`. -/
abbrev HeaderMap : Type := NormMap lower Bytes

/-- The keys of a `HeaderMap` are told apart as `CaseInsensitiveEqual` does. -/
theorem caseInsensitiveEqual_iff (a b : Bytes) :
    caseInsensitiveEqual a b = true ↔ lower a = lower b := by
  unfold caseInsensitiveEqual
  induction a generalizing b with
  | nil => cases b <;> simp [lower]
  | cons x a ih =>
    cases b with
    | nil => simp [lower]
    | cons y b =>
      have hrec := ih b
      simp only [lower, List.map_cons, List.length_cons, List.zip_cons_cons,
        List.all_cons, List.cons.injEq] at hrec ⊢
      by_cases hlen : a.length = b.length
      · simpa [hlen] using fun _ => hrec
      · have hne : List.map toLower a ≠ List.map toLower b := fun h => hlen (by
          simpa using congrArg List.length h)
        simp [hlen, hne]

/-- `CaseInsensitiveHash`, over `std::hash<std::string>`. -/
def caseInsensitiveHash (hash : Bytes → Nat) (s : Bytes) : Nat := hash (lower s)

/-- Names that are the same key have the same hash, as an unordered map needs it. -/
theorem caseInsensitiveHash_eq (hash : Bytes → Nat) {a b : Bytes}
    (h : caseInsensitiveEqual a b = true) :
    caseInsensitiveHash hash a = caseInsensitiveHash hash b := by
  unfold caseInsensitiveHash
  rw [(caseInsensitiveEqual_iff a b).mp h]

/-! ## Messages -/

/-- `struct Request`, with the defaults of its fields. -/
structure Request where
  id : Bytes := []
  method : Method := .unknown
  path : Bytes := ascii "none"
  version : Bytes := ascii "HTTP/1.1"
  headers : HeaderMap := .empty
  body : Json := .null

/-- `struct Response`. -/
structure Response where
  status : HttpStatus
  headers : HeaderMap
  body : Json

/-- `makeResp(retcode, id, result)`; `now` is what `get_timestamp_ms` returns. -/
def makeResp (retcode : RetCode) (id : Bytes) (now : Int)
    (result : Json := .object []) : Response where
  status := retcode.toHttpStatus
  headers := NormMap.empty.assign (ascii "X-Request-Id") id
  body := .object
    [ (ascii "retCode", .number (.unsigned retcode.value)),
      (ascii "retMesg", .string retcode.retMesg),
      (ascii "time", .number (.integer now)),
      (ascii "result", result) ]

/-- The envelope itself never keeps a response from being dumped. -/
theorem makeResp_dumpable (retcode : RetCode) (id : Bytes) (now : Int)
    {result : Json} (h : result.dumpable = true) :
    (makeResp retcode id now result).body.dumpable = true := by
  have hmesg : validUtf8 retcode.retMesg = true :=
    validUtf8_of_ascii retcode.retMesg_ascii
  have hnames : validUtf8 (ascii "retCode") = true ∧
      validUtf8 (ascii "retMesg") = true ∧ validUtf8 (ascii "time") = true ∧
      validUtf8 (ascii "result") = true := by
    decide
  simp [makeResp, Json.dumpable, Json.membersDumpable, hmesg, hnames, h]

end UniServer.Http
