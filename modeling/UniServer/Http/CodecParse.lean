/-
  Http/CodecParse.lean --- `HttpCodec::parse`, with its positions as the source
  has them.

  The source keeps every search result in an `int`.  A search that finds nothing
  gives -1 there, and the -1 is not always tested before it is used: it enters
  sums, differences and the counts of `substr`.  All of that arithmetic is here,
  so that a result of `parse` is one the source computes; `Http/ParseReference`
  says what it amounts to.

  `parse` also draws an id for the request (`generate_uuid_v4`), the argument
  `id`.  Log calls are left out: the model is a server without an installed
  logger, where `LOG` does nothing.  They are in `Http/ParseLog`.
-/
import UniServer.Http.Message

set_option autoImplicit false

namespace UniServer.Http

open UniServer.Foundation

/-! ## Separators -/

/-- `"\r\n"`. -/
def crlf : Bytes := [13, 10]

/-- `"\r\n\r\n"`. -/
def crlfcrlf : Bytes := [13, 10, 13, 10]

/-- `' '`. -/
def space : Bytes := [32]

/-- `":"`. -/
def colonMark : Bytes := [58]

/-- One of the octets of `" \t"`. -/
def isBlank (b : Byte) : Bool := b == 32 || b == 9

/-! ## The request line -/

/-- `/// parse target`: method, path and version of the request line, or none
when the method is unknown. -/
def parseTarget (targets : Bytes) : Run (Option (Method × Bytes × Bytes)) := do
  let firstSpace := toInt (find targets space 0)
  let behindFirst ← addInt firstSpace 1
  let secondSpace := toInt (find targets space (toSize behindFirst))
  let word ← substr targets 0 (toSize firstSpace)
  let method := toMethod word
  if method = .unknown then
    return none
  else
    let width ← subInt (← subInt secondSpace firstSpace) 1
    let path ← substr targets (toSize behindFirst) (toSize width)
    let behindSecond ← addInt secondSpace 1
    let version ← substr targets (toSize behindSecond) npos
    return some (method, path, version)

/-! ## The headers -/

/-- `value.find_first_not_of(" \t")`, and what is kept of the value: a value of
blanks only stays as it is. -/
def trimValue (value : Bytes) : Bytes :=
  match value.findIdx? (fun b => !isBlank b) with
  | some valStart => value.drop valStart
  | none => value

/-- The `while(true)` over the lines of `headers`, with its cursors `beg` and
`end`.  A line without a colon, or whose next colon lies behind `end`, is passed
over.  `fuel` bounds the number of turns; the loop that outlasts it is one that
does not end. -/
def scanHeaders (headers : Bytes) : Nat → Int → Int → HeaderMap → Run HeaderMap
  | 0, _, _, _ => .error .diverge
  | fuel + 1, beg, lineEnd, fields => do
      let colon := toInt (find headers colonMark (toSize beg))
      let fields ←
        if toSize colon = npos ∨ colon > lineEnd then
          pure fields
        else do
          let key ← substr headers (toSize beg) (toSize (← subInt colon beg))
          let behindColon ← addInt colon 1
          let width ← subInt (← subInt lineEnd colon) 1
          let value ← substr headers (toSize behindColon) (toSize width)
          pure (fields.assign key (trimValue value))
      -- both branches of the source end with the same step to the next line
      let beg ← addInt lineEnd 2
      let lineEnd := toInt (find headers crlf (toSize beg))
      if toSize lineEnd = npos then
        return fields
      else
        scanHeaders headers fuel beg lineEnd fields

/-- `/// parse header`: the header map, or none when no header line is there or
none of them is named Host. -/
def parseHeaders (headers : Bytes) : Run (Option HeaderMap) := do
  let lineEnd := toInt (find headers crlf 0)
  if toSize lineEnd = npos then
    return none
  else
    let fields ← scanHeaders headers (headers.length + 1) 0 lineEnd .empty
    if fields.contains (ascii "Host") then
      return some fields
    else
      return none

/-! ## The body -/

/-- `/// parse body`: the document behind the blank line, or none when it does
not parse.  Only `parse_error` is caught. -/
def parseBody (json : Nlohmann) (rawReq : Bytes) (endHeaders : Int) :
    Run (Option Json) := do
  if toSize endHeaders = npos then
    return some .null
  else
    let body ← substr rawReq (toSize (← addInt endHeaders 4)) npos
    if body = [] then
      return some .null
    else
      match json.parse body with
      | .ok document => return some document.toOrdered
      | .error (.throw .jsonParseError) => return none
      | .error e => .error e

/-! ## The request -/

/-- `HttpCodec::parse`. -/
def parse (json : Nlohmann) (id : Bytes) (rawReq : Bytes) :
    Run (Option Request) := do
  let endTargets := toInt (find rawReq crlf 0)
  let endHeaders := toInt (find rawReq crlfcrlf 0)
  if toSize endTargets = npos then
    return none
  else
    let targets ← substr rawReq 0 (toSize endTargets)
    match ← parseTarget targets with
    | none => return none
    | some (method, path, version) =>
      -- the count of the window is a position, not a length
      let headers ←
        substr rawReq (toSize (← addInt endTargets 2)) (toSize endHeaders)
      match ← parseHeaders headers with
      | none => return none
      | some fields =>
        match ← parseBody json rawReq endHeaders with
        | none => return none
        | some body =>
          return some
            { id := id, method := method, path := path, version := version,
              headers := fields, body := body }

end UniServer.Http
