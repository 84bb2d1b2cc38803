/-
  Common/Status.lean --- the status tables: HTTP status codes with their reason
  phrases, the result codes of the JSON envelope, and the levels of the log.

  The first two are C++ enumerations over `unsigned`.  A result code is one of
  the named ones.  A handler may put any `unsigned` into the status of its
  response, so an HTTP status is its number, and the enumerators are the known
  numbers.
-/
import UniServer.Foundation.Bytes

set_option autoImplicit false

namespace UniServer.Common

open UniServer.Foundation

/-! ## HTTP status codes -/

/-- `enum class http : unsigned`. -/
structure HttpStatus where
  code : UInt32
  deriving DecidableEq, Repr, Inhabited

/-- `http::unknown`. -/
def HttpStatus.unknown : HttpStatus := ⟨0⟩

/-- The enumerators other than `unknown`. -/
def knownCodes : List Nat :=
  [ 100, 101, 102, 103,
    200, 201, 202, 203, 204, 205, 206, 207, 208, 226,
    300, 301, 302, 303, 304, 305, 307, 308,
    400, 401, 402, 403, 404, 405, 406, 407, 408, 409, 410, 411, 412, 413, 414,
    415, 416, 417, 418, 421, 422, 423, 424, 425, 426, 428, 429, 431, 451,
    500, 501, 502, 503, 504, 505, 506, 507, 508, 510, 511 ]

/-- `int_to_status`: an unknown number becomes `http::unknown`. -/
def intToStatus (v : Nat) : HttpStatus :=
  if v ∈ knownCodes then ⟨UInt32.ofNat v⟩ else .unknown

/-- `obsolete_reason(http)`. -/
def obsoleteReason (v : HttpStatus) : Bytes :=
  ascii (match v.code.toNat with
    | 100 => "Continue"
    | 101 => "Switching Protocols"
    | 102 => "Processing"
    | 103 => "Early Hints"
    | 200 => "OK"
    | 201 => "Created"
    | 202 => "Accepted"
    | 203 => "Non-Authoritative Information"
    | 204 => "No Content"
    | 205 => "Reset Content"
    | 206 => "Partial Content"
    | 207 => "Multi-Status"
    | 208 => "Already Reported"
    | 226 => "IM Used"
    | 300 => "Multiple Choices"
    | 301 => "Moved Permanently"
    | 302 => "Found"
    | 303 => "See Other"
    | 304 => "Not Modified"
    | 305 => "Use Proxy"
    | 307 => "Temporary Redirect"
    | 308 => "Permanent Redirect"
    | 400 => "Bad Request"
    | 401 => "Unauthorized"
    | 402 => "Payment Required"
    | 403 => "Forbidden"
    | 404 => "Not Found"
    | 405 => "Method Not Allowed"
    | 406 => "Not Acceptable"
    | 407 => "Proxy Authentication Required"
    | 408 => "Request Timeout"
    | 409 => "Conflict"
    | 410 => "Gone"
    | 411 => "Length Required"
    | 412 => "Precondition Failed"
    | 413 => "Payload Too Large"
    | 414 => "URI Too Long"
    | 415 => "Unsupported Media Type"
    | 416 => "Range Not Satisfiable"
    | 417 => "Expectation Failed"
    | 418 => "I'm a teapot"
    | 421 => "Misdirected Request"
    | 422 => "Unprocessable Entity"
    | 423 => "Locked"
    | 424 => "Failed Dependency"
    | 425 => "Too Early"
    | 426 => "Upgrade Required"
    | 428 => "Precondition Required"
    | 429 => "Too Many Requests"
    | 431 => "Request Header Fields Too Large"
    | 451 => "Unavailable For Legal Reasons"
    | 500 => "Internal Server Error"
    | 501 => "Not Implemented"
    | 502 => "Bad Gateway"
    | 503 => "Service Unavailable"
    | 504 => "Gateway Timeout"
    | 505 => "HTTP Version Not Supported"
    | 506 => "Variant Also Negotiates"
    | 507 => "Insufficient Storage"
    | 508 => "Loop Detected"
    | 510 => "Not Extended"
    | 511 => "Network Authentication Required"
    | _ => "<unknown-status>")

/-- A reason phrase is printable ASCII: no line can end inside it. -/
theorem obsoleteReason_printable (v : HttpStatus) :
    ∀ b ∈ obsoleteReason v, 32 ≤ b.toNat ∧ b.toNat < 127 := by
  apply forall_of_all
  unfold obsoleteReason
  split <;> decide +kernel

/-! ## Result codes -/

/-- `enum class retCode : unsigned`. -/
inductive RetCode where
  | success
  | invalidJsonOrParams
  | authError
  | forbidden
  | notFound
  | conflictDuplicateClientOrderId
  | invalidSimulationState
  | rateLimitExceeded
  | internalError
  | insufficientBalance
  | priceOrQtyNotAligned
  | positionOrOrderLimitExceeded
  | unknownSymbolOrDataset
  | simulationNotRunning
  | clientOrderIdAlreadyUsed
  | sessionOrSignatureExpired
  | invalidSignature
  | clockSkewExceedsRecvWindow
  | postOnlyWouldCross
  | requestBufferOverflow
  | methodNotAllowed
  | notAcceptable
  | requestTimeout
  | unsupportedMediaType
  | missingContentLength
  | uriTooLong
  | preconditionFailed
  | expectationFailed
  | resourceGone
  | tooManyOpenOrders
  | requestHeaderFieldsTooLarge
  | unavailableForLegalReasons
  | notImplemented
  | badGateway
  | serviceUnavailable
  | gatewayTimeout
  | insufficientStorage
  deriving DecidableEq, Repr, Inhabited

namespace RetCode

/-- The number of a result code. -/
def value : RetCode → Nat
  | .success => 20000
  | .invalidJsonOrParams => 40000
  | .authError => 40100
  | .forbidden => 40300
  | .notFound => 40400
  | .conflictDuplicateClientOrderId => 40900
  | .invalidSimulationState => 42200
  | .rateLimitExceeded => 42900
  | .internalError => 50000
  | .insufficientBalance => 40001
  | .priceOrQtyNotAligned => 40002
  | .positionOrOrderLimitExceeded => 42201
  | .unknownSymbolOrDataset => 40401
  | .simulationNotRunning => 42202
  | .clientOrderIdAlreadyUsed => 40901
  | .sessionOrSignatureExpired => 40101
  | .invalidSignature => 40102
  | .clockSkewExceedsRecvWindow => 40103
  | .postOnlyWouldCross => 42203
  | .requestBufferOverflow => 41300
  | .methodNotAllowed => 40500
  | .notAcceptable => 40600
  | .requestTimeout => 40800
  | .unsupportedMediaType => 41500
  | .missingContentLength => 41100
  | .uriTooLong => 41400
  | .preconditionFailed => 41200
  | .expectationFailed => 41700
  | .resourceGone => 41000
  | .tooManyOpenOrders => 42901
  | .requestHeaderFieldsTooLarge => 43100
  | .unavailableForLegalReasons => 45100
  | .notImplemented => 50100
  | .badGateway => 50200
  | .serviceUnavailable => 50300
  | .gatewayTimeout => 50400
  | .insufficientStorage => 50700

/-- `retMesg`: the description of a result code. -/
def retMesg (code : RetCode) : Bytes :=
  ascii (match code with
    | .success => "Success"
    | .invalidJsonOrParams => "Invalid JSON or parameters"
    | .authError => "Authorization error"
    | .forbidden => "Forbidden (insufficient scope)"
    | .notFound => "Resource not found"
    | .conflictDuplicateClientOrderId => "Conflict or duplicated clientOrderId"
    | .invalidSimulationState => "Command not valid for current simulation state"
    | .rateLimitExceeded => "Rate limit exceeded"
    | .internalError => "Internal error"
    | .insufficientBalance => "Insufficient balance"
    | .priceOrQtyNotAligned => "Price/quantity not aligned with tickSize/qtyStep"
    | .positionOrOrderLimitExceeded => "Position or order size limit exceeded"
    | .unknownSymbolOrDataset => "Unknown symbol or dataset"
    | .simulationNotRunning => "Simulation is not in Running state"
    | .clientOrderIdAlreadyUsed => "clientOrderId already used in this simulation"
    | .sessionOrSignatureExpired => "Session/signature expired"
    | .invalidSignature => "Invalid signature"
    | .clockSkewExceedsRecvWindow => "Clock skew exceeds recvWindow"
    | .postOnlyWouldCross => "PostOnly order would cross the book (WouldCross)"
    | .requestBufferOverflow => "Request exceeded receive buffer size"
    | .methodNotAllowed => "HTTP method not allowed for this endpoint"
    | .notAcceptable => "Requested representation not available (Accept header)"
    | .requestTimeout => "Client took too long to send the request"
    | .unsupportedMediaType =>
        "Unsupported Content-Type (expected application/json)"
    | .missingContentLength => "Content-Length header is required"
    | .uriTooLong => "Request URI too long"
    | .preconditionFailed => "Precondition failed"
    | .expectationFailed => "Expectation failed"
    | .resourceGone => "Resource permanently removed"
    | .tooManyOpenOrders => "Too many open orders for this account/symbol"
    | .requestHeaderFieldsTooLarge => "Request header fields too large"
    | .unavailableForLegalReasons => "Unavailable for legal reasons"
    | .notImplemented => "Not implemented"
    | .badGateway => "Upstream matching engine/data feed error"
    | .serviceUnavailable => "Service temporarily unavailable"
    | .gatewayTimeout => "Upstream matching engine/data feed timeout"
    | .insufficientStorage => "Insufficient storage")

/-- `to_http_status`: the HTTP status is the number without its last two digits. -/
def toHttpStatus (code : RetCode) : HttpStatus := intToStatus (code.value / 100)

/-- Every result code maps to a known HTTP status. -/
theorem toHttpStatus_known (code : RetCode) :
    code.toHttpStatus.code.toNat ∈ knownCodes := by
  cases code <;> decide +kernel

/-- A result code's description is plain ASCII. -/
theorem retMesg_ascii (code : RetCode) : ∀ b ∈ code.retMesg, b.toNat < 128 := by
  apply forall_of_all
  cases code <;> decide +kernel

end RetCode

/-! ## Log levels -/

/-- `enum class log : int16_t`. -/
inductive Log where
  | unknown
  | trace
  | debug
  | info
  | warning
  | error
  | critical
  deriving DecidableEq, Repr, Inhabited

/-- `to_log(std::string_view)`. -/
def toLog (v : Bytes) : Log :=
  if v = ascii "info" then .info
  else if v = ascii "error" then .error
  else if v = ascii "warning" then .warning
  else if v = ascii "debug" then .debug
  else if v = ascii "trace" then .trace
  else if v = ascii "critical" then .critical
  else .unknown

namespace Log

/-- The underlying `int16_t`. -/
def value : Log → Int
  | .unknown => 0
  | .trace => 1
  | .debug => 2
  | .info => 3
  | .warning => 4
  | .error => 5
  | .critical => 6

/-- `obsolete_reason(log)`. -/
def obsoleteReason : Log → Bytes
  | .trace => ascii "TRACE"
  | .debug => ascii "DEBUG"
  | .info => ascii "INFO"
  | .warning => ascii "WARN"
  | .error => ascii "ERROR"
  | .critical => ascii "CRIT"
  | .unknown => ascii "<unknown-log>"

/-- `log_color`. -/
def logColor : Log → Bytes
  | .trace => ascii "\x1b[90m"
  | .debug => ascii "\x1b[36m"
  | .info => ascii "\x1b[32m"
  | .warning => ascii "\x1b[33m"
  | .error => ascii "\x1b[31m"
  | .critical => ascii "\x1b[1;31m"
  | .unknown => ascii "\x1b[0m"

/-- `colored_reason`; the text at the end is `log_reset`. -/
def coloredReason (v : Log) : Bytes :=
  v.logColor ++ v.obsoleteReason ++ ascii "\x1b[0m"

/-- `important_log`. -/
def important : Log → Bool
  | .info => false
  | .trace => false
  | .debug => false
  | _ => true

theorem obsoleteReason_ascii (v : Log) : ∀ b ∈ v.obsoleteReason, b.toNat < 128 := by
  apply forall_of_all
  cases v <;> decide +kernel

end Log

end UniServer.Common
