import Dodo.Network.Http.Version

/-!
# `Http.Request` — `HTTPRequest` and its request line
-/

namespace Dodo.Network.Http

open Common Lib

/-- `HTTPRequest::Method`. -/
inductive Method where
  | meGET
  | meHEAD
  | mePOST
  | mePUT
  | mePATCH
  | meDELETE
  | meCONNECT
  | meOPTIONS
  | meTRACE
  | meINVALID
deriving DecidableEq, Repr

namespace Method

def methodAsString : Method → Str
  | meGET => lit "GET"
  | meHEAD => lit "HEAD"
  | mePOST => lit "POST"
  | mePUT => lit "PUT"
  | mePATCH => lit "PATCH"
  | meDELETE => lit "DELETE"
  | meCONNECT => lit "CONNECT"
  | meOPTIONS => lit "OPTIONS"
  | meTRACE => lit "TRACE"
  | meINVALID => lit "INVALID_METHOD"

def methodFromString (s : Str) : Method :=
  if s = lit "GET" then meGET
  else if s = lit "HEAD" then meHEAD
  else if s = lit "POST" then mePOST
  else if s = lit "PUT" then mePUT
  else if s = lit "PATCH" then mePATCH
  else if s = lit "DELETE" then meDELETE
  else if s = lit "CONNECT" then meCONNECT
  else if s = lit "OPTIONS" then meOPTIONS
  else if s = lit "TRACE" then meTRACE
  else meINVALID

/-- A valid method is known by its name only. -/
theorem methodAsString_methodFromString {s : Str} (h : methodFromString s ≠ .meINVALID) :
    (methodFromString s).methodAsString = s := by
  generalize hm : methodFromString s = m at h
  unfold methodFromString at hm
  split_ifs at hm <;> subst hm
  all_goals first | exact Eq.symm ‹_› | exact absurd rfl h

def methodAllowsBody : Method → Bool
  | mePOST | mePUT | mePATCH | meOPTIONS => true
  | _ => false

end Method

/-! ## The request line -/

structure HTTPRequestLine where
  method_ : Method := .meGET
  request_uri_ : Str := lit "\"*\""
  http_version_ : HTTPVersion := {}
deriving DecidableEq, Repr

/-- The part `ω'` of an object, worked on by a method of the part. -/
def part {β ω ω' α : Type} (view : ω → ω') (put : ω' → ω → ω) (p : Comp (β × ω') Exn α) :
    Comp (β × ω) Exn α :=
  .zoom (fun s => (s.1, view s.2)) (fun t s => (t.1, put t.2 s.2)) p

namespace HTTPRequestLine

def asString (l : HTTPRequestLine) : Str :=
  l.method_.methodAsString ++ [charSP] ++ (l.request_uri_ ++ [charSP]) ++ l.http_version_.asString
    ++ [charCR, charLF]

/-- The states of `HTTPRequestLine::parse`. -/
inductive ParseState where
  | psMethodStart
  | psMethodEnd
  | psRequestURIStart
  | psRequestURIEnd
  | psHTTPVersionCR
  | psHTTPVersionLF
  | psDone
deriving DecidableEq, Repr

variable {β : Type} [VirtualReadBuffer β]

/-- `http_version_.parse( data )`. -/
def parseVersion : Comp (β × HTTPRequestLine) Exn ParseResult :=
  part (·.http_version_) (fun v l => { l with http_version_ := v }) HTTPVersion.parse

/-- The `switch` in the loop, on the variables `state` and `method_string`; `.inr` is a `return`. -/
def step (state : ParseState) (method_string : Str) :
    Comp (β × HTTPRequestLine) Exn ((ParseState × Str × ParseResult) ⊕ ParseResult) :=
  match state with
  | .psMethodStart => do
    let c ← get
    if isspace c then pure (.inl (.psMethodEnd, method_string, {}))
    else
      let parseResult := ParseResult.setSystemError (← next)
      if !parseResult.ok then pure (.inr parseResult)
      else pure (.inl (.psMethodStart, method_string ++ [c], parseResult))
  | .psMethodEnd => do
    let parseResult := ParseResult.setSystemError (← HTTPMessage.eatSpace)
    if !parseResult.ok then pure (.inr parseResult)
    else pure (.inl (.psRequestURIStart, method_string, parseResult))
  | .psRequestURIStart => do
    let c ← get
    if isspace c then pure (.inl (.psRequestURIEnd, method_string, {}))
    else
      modifySelf (fun l => { l with request_uri_ := l.request_uri_ ++ [c] })
      let parseResult := ParseResult.setSystemError (← next)
      if !parseResult.ok then pure (.inr parseResult)
      else pure (.inl (.psRequestURIStart, method_string, parseResult))
  | .psRequestURIEnd => do
    let parseResult ← parseVersion
    if parseResult.ok then
      let se ← HTTPMessage.eatSpace
      pure (.inl (.psHTTPVersionCR, method_string, .setSystemError se))
    else pure (.inr parseResult)
  | .psHTTPVersionCR => do
    let c ← get
    if c = charCR then
      let parseResult := ParseResult.setSystemError (← next)
      if !parseResult.ok then pure (.inr parseResult)
      else pure (.inl (.psHTTPVersionLF, method_string, parseResult))
    else pure (.inr (.error .peExpectCRLF))
  | .psHTTPVersionLF => do
    let c ← get
    if c = charLF then
      let parseResult := ParseResult.setSystemError (← next)
      if !parseResult.ok then pure (.inr parseResult)
      else pure (.inl (.psDone, method_string, parseResult))
    else pure (.inr (.error .peExpectCRLF))
  | .psDone => pure (.inl (.psDone, method_string, {}))

def parsePass : ParseState × Str × ParseResult →
    Comp (β × HTTPRequestLine) Exn ((ParseState × Str × ParseResult) ⊕ ParseResult)
  | (state, method_string, parseResult) =>
    if state ≠ .psDone && parseResult.ok then step state method_string
    else if state = .psDone then do
      modifySelf (fun l => { l with method_ := .methodFromString method_string })
      if Method.methodFromString method_string = .meINVALID then pure (.inr (.error .peInvalidMethod))
      else pure (.inr parseResult)
    else pure (.inr (.error .peInvalidRequestLine))

def parse : Comp (β × HTTPRequestLine) Exn ParseResult := do
  modifySelf (fun l => { l with request_uri_ := [] })
  .loop parsePass (.psMethodStart, [], {})

end HTTPRequestLine

/-! ## The request -/

/-- The header lines both `asString` functions print. -/
def headerLines (headers : Headers) : Str :=
  headers.toList.flatMap (fun h => h.1 ++ (lit ": " ++ (h.2 ++ [charCR, charLF])))

structure HTTPRequest extends HTTPMessage where
  request_line_ : HTTPRequestLine := {}
deriving DecidableEq

namespace HTTPRequest

/-- `Bytes::asString` may throw, and then so does this. -/
def asString (r : HTTPRequest) : Except Exn Str :=
  let head := r.request_line_.asString ++ (headerLines r.headers_ ++ [charCR, charLF])
  if r.request_line_.method_.methodAllowsBody && 0 < r.body_.length then
    (HTTPMessage.bytesAsString r.body_).map (head ++ ·)
  else .ok head

variable {β : Type} [VirtualReadBuffer β]

/-- A method of the base class. -/
def onMessage {α : Type} (p : Comp (β × HTTPMessage) Exn α) : Comp (β × HTTPRequest) Exn α :=
  part (·.toHTTPMessage) (fun m r => { r with toHTTPMessage := m }) p

/-- `request_line_.parse( data )`. -/
def parseRequestLine : Comp (β × HTTPRequest) Exn ParseResult :=
  part (·.request_line_) (fun l r => { r with request_line_ := l }) HTTPRequestLine.parse

def parseBody : Comp (β × HTTPMessage) Exn ParseResult := do
  let (found, content_length) ← liftExcept ((← self).getHeaderULong (lit "content-length"))
  if found then HTTPMessage.parseContent content_length
  else
    match (← self).getHeaderValue (lit "transfer-encoding") with
    | some transfer_encoding =>
      if transfer_encoding = lit "chunked" then HTTPMessage.parseChunkedBody
      else pure (.error .peInvalidTransferEncoding)
    | none => pure (.error .peUnexpectedBody)

/-- The branch of `parse` where something else than a CR follows the request line. -/
def parseWithHeaders : Comp (β × HTTPRequest) Exn ParseResult := do
  let parseResult ← onMessage HTTPMessage.parseHeaders
  if !parseResult.ok then pure parseResult else
  let c ← get
  if c = charLF then
    let parseResult := ParseResult.setSystemError (← next)
    if parseResult.ok then onMessage parseBody
    else if parseResult.eof then pure {}
    else pure parseResult
  else pure {}

def parse : Comp (β × HTTPRequest) Exn ParseResult := do
  let parseResult ← parseRequestLine
  if parseResult.ok then
    let c ← get
    if c = charCR then HTTPMessage.parseBare (onMessage parseBody) else parseWithHeaders
  else pure parseResult

end HTTPRequest
end Dodo.Network.Http
