import Dodo.Network.Http.Request

/-!
# `Http.Response` — `HTTPResponse` and its status line

`HTTPCode` is an enumeration over `unsigned int`, so a parsed status code may be any 32-bit number.
-/

namespace Dodo.Network.Http

open Common Lib

/-- `HTTPResponse::HTTPCodeAsString`. -/
def HTTPCodeAsString (code : UInt32) : Str :=
  match code.toNat with
  | 100 => lit "CONTINUE"
  | 101 => lit "SWITCHING PROTOCOLS"
  | 102 => lit "PROCESSING"
  | 103 => lit "EARLY HINTS"
  | 200 => lit "OK"
  | 201 => lit "CREATED"
  | 202 => lit "ACCEPTED"
  | 203 => lit "NON-AUTHORITATIVE INFORMATION"
  | 204 => lit "NO CONTENT"
  | 205 => lit "RESET CONTENT"
  | 206 => lit "PARTIAL CONTENT"
  | 207 => lit "MULTI-STATUS"
  | 208 => lit "ALREADY REPORTED"
  | 226 => lit "IM USED"
  | 300 => lit "MULTIPLE CHOICES"
  | 301 => lit "MOVED PERMANENTLY"
  | 302 => lit "FOUND"
  | 303 => lit "SEE OTHER"
  | 304 => lit "NOT MODIFIED"
  | 305 => lit "USE PROXY"
  | 306 => lit "SWITCH PROXY"
  | 307 => lit "TEMPORARY REDIRECT"
  | 308 => lit "PERMANENT REDIRECT"
  | 400 => lit "BAD REQUEST"
  | 401 => lit "UNAUTHORIZED"
  | 402 => lit "PAYMENT REQUIRED"
  | 403 => lit "FORBIDDEN"
  | 404 => lit "NOT FOUND"
  | 405 => lit "METHOD NOT ALLOWED"
  | 406 => lit "NOT ACCEPTABLE"
  | 407 => lit "PROXY AUTHENTICATION REQUIRED"
  | 408 => lit "REQUEST TIMEOUT"
  | 409 => lit "CONFLICT"
  | 410 => lit "GONE"
  | 411 => lit "LENGTH REQUIRED"
  | 412 => lit "PRECONDITION FAILED"
  | 413 => lit "PAYLOAD TOO LARGE"
  | 414 => lit "URI TOO LONG"
  | 415 => lit "UNSUPPORTED MEDIA TYPE"
  | 416 => lit "RANGE NOT SATISFIABLE"
  | 417 => lit "EXPECTATION FAILED"
  | 418 => lit "I'M A TEAPOT"
  | 421 => lit "MISDIRECTED REQUEST"
  | 422 => lit "UNPROCESSABLE ENTITY"
  | 423 => lit "LOCKED"
  | 424 => lit "FAILED DEPENDENCY"
  | 426 => lit "UPGRADE REQUIRED"
  | 428 => lit "PRECONDITION REQUIRED"
  | 429 => lit "TOO MANY REQUESTS"
  | 431 => lit "REQUEST HEADER FIELDS TOO LARGE"
  | 451 => lit "UNAVAILABLE FOR LEGAL REASONS"
  | 500 => lit "INTERNAL SERVER ERROR"
  | 501 => lit "NOT IMPLEMENTED"
  | 502 => lit "BAD GATEWAY"
  | 503 => lit "SERVICE UNAVAILABLE"
  | 504 => lit "GATEWAY TIMEOUT"
  | 505 => lit "HTTP VERSION NOT SUPPORTED"
  | 506 => lit "VARIANT ALSO NEGOTIATES"
  | 507 => lit "INSUFFICIENT STORAGE"
  | 508 => lit "LOOP DETECTED"
  | 510 => lit "NOT EXTENDED"
  | 511 => lit "NETWORK AUTHENTICATION REQUIRED"
  | 218 => lit "THIS IS FINE"
  | 419 => lit "PAGE EXPIRED"
  | 420 => lit "METHOD FAILURE"
  | 450 => lit "BLOCKED BY WINDOWS PARENTAL CONTROLS"
  | 498 => lit "INVALID TOKEN"
  | 509 => lit "BANDWIDTH LIMIT EXCEEDED"
  | 526 => lit "INVALID SSL CERTIFICATE"
  | 598 => lit "NETWORK READ TIMEOUT ERROR"
  | 440 => lit "LOGIN TIME-OUT"
  | 449 => lit "RETRY WITH"
  | 444 => lit "NO RESPONSE"
  | 494 => lit "REQUEST HEADER TOO LARGE"
  | 495 => lit "SSL CERTIFICATE ERROR"
  | 496 => lit "SSL CERTIFICATE REQUIRED"
  | 497 => lit "HTTP REQUEST SENT TO HTTPS PORT"
  | 499 => lit "CLIENT CLOSED REQUEST"
  | 520 => lit "UNKNOWN ERROR"
  | 521 => lit "WEB SERVER IS DOWN"
  | 522 => lit "CONNECTION TIMED OUT"
  | 523 => lit "ORIGIN IS UNREACHABLE"
  | 524 => lit "A TIMEOUT OCCURRED"
  | 525 => lit "SSL HANDSHAKE FAILED"
  | 527 => lit "RAILGUN ERROR"
  | 530 => lit "ORIGIN DNS ERROR"
  | _ => lit "UNKNOWN HTTP CODE"

structure HTTPResponseLine where
  version_ : HTTPVersion := {}
  http_code_ : UInt32 := 200
deriving DecidableEq, Repr

namespace HTTPResponseLine

def asString (l : HTTPResponseLine) : Str :=
  l.version_.asString ++ [charSP] ++ (decimal l.http_code_.toNat ++ [charSP])
    ++ HTTPCodeAsString l.http_code_ ++ [charCR, charLF]

variable {β ω : Type} [VirtualReadBuffer β]

def skipReasonPass (_ : Unit) : Comp (β × ω) Exn (Unit ⊕ ParseResult) := do
  let c ← get
  if c ≠ charCR then
    let parseResult := ParseResult.setSystemError (← next)
    if !parseResult.ok then pure (.inr parseResult) else pure (.inl ())
  else pure (.inr {})

/-- The loop over the reason phrase, up to the CR behind it. -/
def skipReason : Comp (β × ω) Exn ParseResult := .loop skipReasonPass ()

def parse : Comp (β × HTTPResponseLine) Exn ParseResult := do
  let parseResult ← part (·.version_) (fun v l => { l with version_ := v }) HTTPVersion.parse
  if parseResult.ok then
    let parseResult := ParseResult.setSystemError (← HTTPMessage.eatSpace)
    if !parseResult.ok then pure parseResult else
    let (parseResult, i) ← HTTPMessage.parseUInt
    if parseResult.ok then
      modifySelf (fun l => { l with http_code_ := i })
      let parseResult ← skipReason
      if !parseResult.ok then pure parseResult else
      -- the tests of `parseCRLF`, written out in the source
      HTTPMessage.parseCRLF
    else pure parseResult
  else pure parseResult

end HTTPResponseLine

structure HTTPResponse extends HTTPMessage where
  response_line_ : HTTPResponseLine := {}
deriving DecidableEq

namespace HTTPResponse

/-- `Bytes::asString` may throw, and then so does this. -/
def asString (r : HTTPResponse) : Except Exn Str :=
  let head := r.response_line_.asString ++ (headerLines r.headers_ ++ [charCR, charLF])
  if 0 < r.body_.length then (HTTPMessage.bytesAsString r.body_).map (head ++ ·) else .ok head

/-- `hasBody` reads the headers only; a content-length that is no number makes it throw. -/
def hasBody (m : HTTPMessage) : Except Exn Bool := do
  let (found, content_length) ← m.getHeaderULong (lit "content-length")
  if found && 0 < content_length then return true
  if m.getHeaderValue (lit "transfer-encoding") = some (lit "chunked") then return true
  if m.getHeaderValue (lit "connection") = some (lit "close") then return true
  return false

variable {β : Type} [VirtualReadBuffer β]

/-- A method of the base class. -/
def onMessage {α : Type} (p : Comp (β × HTTPMessage) Exn α) : Comp (β × HTTPResponse) Exn α :=
  part (·.toHTTPMessage) (fun m r => { r with toHTTPMessage := m }) p

/-- `response_line_.parse( data )`. -/
def parseResponseLine : Comp (β × HTTPResponse) Exn ParseResult :=
  part (·.response_line_) (fun l r => { r with response_line_ := l }) HTTPResponseLine.parse

def parseUntilClosePass (_ : Unit) : Comp (β × HTTPMessage) Exn (Unit ⊕ ParseResult) := do
  let c ← get
  modifySelf (fun m => m.append c)
  let parseResult := ParseResult.setSystemError (← next)
  if parseResult.ok then pure (.inl ()) else pure (.inr {})

/-- `connection: close`: read anything there is and ignore all errors. -/
def parseUntilClose : Comp (β × HTTPMessage) Exn ParseResult := .loop parseUntilClosePass ()

def parseBody : Comp (β × HTTPMessage) Exn ParseResult := do
  let (found, content_length) ← liftExcept ((← self).getHeaderULong (lit "content-length"))
  if found then HTTPMessage.parseContent content_length
  else
    match (← self).getHeaderValue (lit "transfer-encoding") with
    | some transfer_encoding =>
      if transfer_encoding = lit "chunked" then HTTPMessage.parseChunkedBody
      else pure (.error .peInvalidTransferEncoding)
    | none =>
      match (← self).getHeaderValue (lit "connection") with
      | some connection_close =>
        if connection_close = lit "close" then parseUntilClose else pure (.error .peUnexpectedBody)
      | none => pure {}

/-- The branch of `parse` where something else than a CR follows the status line. After the headers
    every outcome of `next()` but success is returned as `peOk`. -/
def parseWithHeaders : Comp (β × HTTPResponse) Exn ParseResult := do
  let parseResult ← onMessage HTTPMessage.parseHeaders
  if !parseResult.ok then pure parseResult else
  let c ← get
  if c = charLF then
    if ← liftExcept (hasBody (← self).toHTTPMessage) then
      let parseResult := ParseResult.setSystemError (← next)
      if parseResult.ok then onMessage parseBody
      else if parseResult.eof then pure {}
      else pure {}
    else pure {}
  else pure {}

def parse : Comp (β × HTTPResponse) Exn ParseResult := do
  let parseResult ← parseResponseLine
  if parseResult.ok then
    let c ← get
    if c = charCR then HTTPMessage.parseBare (onMessage parseBody) else parseWithHeaders
  else pure parseResult

end HTTPResponse
end Dodo.Network.Http
