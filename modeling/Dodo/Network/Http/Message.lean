import Dodo.Network.ReadBuffer

/-!
# `Http.Message` — `HTTPFragment` and `HTTPMessage`

The scanners that requests and responses share. Each is a computation over the read buffer and the
object it belongs to; an out-parameter of the source is part of the result. The local variables of a
`while` loop are the loop's argument, a `return` inside the loop leaves it with the function's result;
the body of the loop of `f` is `fPass`.
-/

namespace Dodo.Network.Http

open Common Lib

/-! ## `HTTPFragment` -/

/-- `HTTPFragment::ParseError`. -/
inductive ParseError where
  | peOk
  | peIncomplete
  | peSystemError
  | peExpectCRLF
  | peUnFinishedToken
  | peExpectingHeaderColon
  | peInvalidHeaderFieldValue
  | peInvalidHeaderListEnd
  | peInvalidMethod
  | peInvalidHTTPVersion
  | peInvalidRequestLine
  | peInvalidContentLength
  | peUnexpectedBody
  | peInvalidTransferEncoding
  | peInvalidChunkHex
  | peInvalidLastChunk
  | peExpectingUnsignedInt
deriving DecidableEq, Repr

/-- `HTTPFragment::ParseResult`; the default constructor is success. -/
structure ParseResult where
  parseError : ParseError := .peOk
  systemError : SystemError := .ecOK
deriving DecidableEq, Repr

namespace ParseResult

def ok (r : ParseResult) : Bool := r.parseError = .peOk && r.systemError = .ecOK

def eof (r : ParseResult) : Bool := r.systemError = .ecEAGAIN

/-- `setSystemError` overwrites both fields, so the result is a function of its argument. -/
def setSystemError (se : SystemError) : ParseResult :=
  if se ≠ .ecOK then ⟨.peSystemError, se⟩ else ⟨.peOk, se⟩

/-- `{ pe, common::SystemError::ecOK }`. -/
def error (pe : ParseError) : ParseResult := ⟨pe, .ecOK⟩

@[simp] theorem ok_default : ok {} = true := rfl

@[simp] theorem ok_error {pe : ParseError} : ok (error pe) = true ↔ pe = .peOk := by
  cases pe <;> simp [ok, error]

@[simp] theorem setSystemError_ecOK : setSystemError .ecOK = {} := by simp [setSystemError]

@[simp] theorem ok_setSystemError {se : SystemError} : ok (setSystemError se) = true ↔ se = .ecOK := by
  unfold ok setSystemError
  split <;> simp_all

theorem eq_default_of_ok {r : ParseResult} (h : r.ok = true) : r = {} := by
  obtain ⟨pe, se⟩ := r
  simp only [ok, Bool.and_eq_true, decide_eq_true_eq] at h
  obtain ⟨rfl, rfl⟩ := h
  rfl

end ParseResult

/-! ## `HTTPMessage` -/

/-- `std::map<std::string,std::string>`: iterated in the order of its keys. -/
abbrev Headers := Std.ExtTreeMap Str Str compare

structure HTTPMessage where
  headers_ : Headers := ∅
  body_ : Str := []
deriving DecidableEq

def charCR : Octet := 13
def charLF : Octet := 10
def charSP : Octet := 32
def charHT : Octet := 9

section Self

variable {β ω : Type}

/-- The object a method is called on. -/
def self : Comp (β × ω) Exn ω := .prim (fun s => (.ok s.2, s))

/-- Assign to fields of the object. -/
def modifySelf (f : ω → ω) : Comp (β × ω) Exn Unit := .prim (fun s => (.ok (), s.1, f s.2))

/-- The value of an expression that may throw. -/
def liftExcept {α : Type} (x : Except Exn α) : Comp (β × ω) Exn α := .prim (fun s => (x, s))

end Self

namespace HTTPMessage

/-- `char` is signed: `c <= 31` holds of the octets from 128 on too. -/
def isCTL (c : Octet) : Bool := c ≤ 31 || 128 ≤ c || c = 127

def isSeparator (c : Octet) : Bool :=
  c = 40 || c = 41 || c = 60 || c = 62 || c = 64 ||   -- ( ) < > @
  c = 44 || c = 59 || c = 58 || c = 92 || c = 34 ||   -- , ; : \ "
  c = 47 || c = 91 || c = 93 || c = 63 || c = 61 ||   -- / [ ] ? =
  c = 123 || c = 125 || c = charSP || c = charHT      -- braces, SP, HT

def isSP (c : Octet) : Bool := c = charSP || c = charHT

def addHeader (m : HTTPMessage) (key value : Str) : HTTPMessage :=
  match m.headers_[key]? with
  | none => { m with headers_ := m.headers_.insert key value }
  | some v => { m with headers_ := m.headers_.insert key (v ++ (lit "," ++ value)) }

def replaceHeader (m : HTTPMessage) (key value : Str) : HTTPMessage :=
  { m with headers_ := m.headers_.insert key value }

/-- The `std::string` overload: the value, if the key was found. -/
def getHeaderValue (m : HTTPMessage) (key : Str) : Option Str := m.headers_[key]?

/-- The `unsigned long` overload: what it returns and the value it stores. -/
def getHeaderULong (m : HTTPMessage) (key : Str) : Except Exn (Bool × Nat) :=
  match m.headers_[key]? with
  | some v => (stoul v).map (fun r => (r.2 = v.length, r.1))
  | none => .ok (false, 0)

def setBody (m : HTTPMessage) (body : Str) : HTTPMessage :=
  replaceHeader { m with body_ := body } (lit "content-length") (decimal body.length)

/-- `body_.append( c )`. -/
def append (m : HTTPMessage) (c : Octet) : HTTPMessage := { m with body_ := m.body_ ++ [c] }

/-- `Bytes::asString`: a zero octet is dropped at the end and throws before it. -/
def bytesAsString (body : Str) : Except Exn Str :=
  if 0 ∈ body.dropLast then .error .exception else .ok (body.filter (· ≠ 0))

section Scanners

variable {β ω : Type} [VirtualReadBuffer β]

def eatSpacePass (error : SystemError) : Comp (β × ω) Exn (SystemError ⊕ SystemError) := do
  let c ← get
  if isSP c ∧ error = .ecOK then
    let error ← next
    pure (.inl error)
  else pure (.inr error)

def eatSpace : Comp (β × ω) Exn SystemError := .loop eatSpacePass .ecOK

def parseCRLF : Comp (β × ω) Exn ParseResult := do
  let c ← get
  if c ≠ charCR then pure (.error .peExpectCRLF) else
  let parseResult := ParseResult.setSystemError (← next)
  if !parseResult.ok then pure parseResult else
  let c ← get
  if c ≠ charLF then pure (.error .peExpectCRLF) else
  let se ← next
  pure (.setSystemError se)

def parseChunkHexPass (ss : Str) : Comp (β × ω) Exn (Str ⊕ (ParseResult × Nat)) := do
  let c ← get
  if isxdigit c then
    let parseResult := ParseResult.setSystemError (← next)
    if !parseResult.ok then pure (.inr (parseResult, 0)) else pure (.inl (ss ++ [c]))
  else if ss.length = 0 then pure (.inr (.error .peInvalidChunkHex, 0))
  else
    let parseResult ← parseCRLF
    pure (.inr (parseResult, extractHex ss))

/-- The out-parameter `value` is assigned only when a number was read. -/
def parseChunkHex : Comp (β × ω) Exn (ParseResult × Nat) := .loop parseChunkHexPass []

/-- The states of `parseFieldValue`. -/
inductive FieldState where
  | psStart
  | psReadValue
  | psCR
  | psSP
  | psDone
deriving DecidableEq, Repr

/-- The `switch` in `parseFieldValue`, on its variables `value` and `state`; the third component is
    `parseResult` afterwards, and `.inr` a `return`. -/
def fieldValueStep (value : Str) (state : FieldState) :
    Comp (β × ω) Exn ((Str × FieldState × ParseResult) ⊕ ParseResult) := do
  let c ← get
  match state with
  | .psStart =>
    if !isSP c then pure (.inl (value, .psReadValue, {}))
    else
      let se ← next
      pure (.inl (value, .psStart, .setSystemError se))
  | .psReadValue =>
    if c = charCR then
      let se ← next
      pure (.inl (value, .psCR, .setSystemError se))
    else if isSP c then
      let se ← next
      pure (.inl (value, .psSP, .setSystemError se))
    else
      let se ← next
      pure (.inl (value ++ [c], .psReadValue, .setSystemError se))
  | .psCR =>
    if c = charLF then
      let parseResult := ParseResult.setSystemError (← next)
      if parseResult.ok then
        let d ← get
        if isSP d then
          let se ← next
          pure (.inl (value, .psSP, .setSystemError se))
        else pure (.inl (value, .psDone, parseResult))
      else pure (.inl (value, .psDone, parseResult))
    else pure (.inr (.error .peExpectCRLF))
  | .psSP =>
    if isSP c then
      let se ← next
      pure (.inl (value, .psSP, .setSystemError se))
    else pure (.inl (value ++ [charSP], .psReadValue, {}))
  | .psDone => pure (.inl (value, .psDone, {}))

def parseFieldValuePass : Str × FieldState × ParseResult →
    Comp (β × ω) Exn ((Str × FieldState × ParseResult) ⊕ (ParseResult × Str))
  | (value, state, parseResult) =>
    if parseResult.ok && state ≠ .psDone then do
      match ← fieldValueStep value state with
      | .inl vars => pure (.inl vars)
      | .inr parseResult => pure (.inr (parseResult, value))
    else if state ≠ .psDone then pure (.inr (.error .peInvalidHeaderFieldValue, value))
    else pure (.inr (parseResult, value))

def parseFieldValue : Comp (β × ω) Exn (ParseResult × Str) :=
  .loop parseFieldValuePass ([], .psStart, {})

def parseTokenPass (stoken : Str) : Comp (β × ω) Exn (Str ⊕ (ParseResult × Str)) := do
  let c ← get
  if !isSeparator c && !isCTL c then
    let parseResult := ParseResult.setSystemError (← next)
    if !parseResult.ok then pure (.inr (parseResult, [])) else pure (.inl (stoken ++ [c]))
  else if isSeparator c || isCTL c then pure (.inr ({}, stoken))
  else pure (.inr (.error .peUnFinishedToken, []))

def parseToken : Comp (β × ω) Exn (ParseResult × Str) := .loop parseTokenPass []

/-- The end of `parseUInt`, when the digits `ss` have been read. -/
def parseUIntEnd (ss : Str) (parseResult : ParseResult) : ParseResult × UInt32 :=
  if ss.length = 0 then (.error .peExpectingUnsignedInt, 0) else (parseResult, extractUInt ss 0)

def parseUIntPass : Str × ParseResult → Comp (β × ω) Exn ((Str × ParseResult) ⊕ (ParseResult × UInt32))
  | (ss, parseResult) =>
    if parseResult.ok then do
      let c ← get
      if isdigit c then
        let se ← next
        pure (.inl (ss ++ [c], .setSystemError se))
      else pure (.inr (parseUIntEnd ss parseResult))
    else pure (.inr (parseUIntEnd ss parseResult))

def parseUInt : Comp (β × ω) Exn (ParseResult × UInt32) := .loop parseUIntPass ([], {})

end Scanners

section Parsers

variable {β : Type} [VirtualReadBuffer β]

/-- The end of a pass of `parseHeaders`: add the header, and see whether the list goes on. -/
def parseHeadersAdd (header_key header_value : Str) :
    Comp (β × HTTPMessage) Exn (Unit ⊕ ParseResult) := do
  modifySelf (fun m => m.addHeader header_key header_value)
  let parseResult := ParseResult.setSystemError (← eatSpace)
  if !parseResult.ok then pure (.inr parseResult) else
  let c ← get
  if c ≠ charCR then pure (.inl ()) else
  let parseResult := ParseResult.setSystemError (← next)
  if !parseResult.ok then pure (.inr parseResult) else
  let c ← get
  if c ≠ charLF then pure (.inr (.error .peInvalidHeaderListEnd)) else pure (.inr parseResult)

def parseHeadersPass (_ : Unit) : Comp (β × HTTPMessage) Exn (Unit ⊕ ParseResult) := do
  let (parseResult, header_key) ← parseToken
  if parseResult.ok then
    let header_key := header_key.map tolower
    let parseResult := ParseResult.setSystemError (← eatSpace)
    if !parseResult.ok then pure (.inr parseResult) else
    let c ← get
    if c ≠ 58 then pure (.inr (.error .peExpectingHeaderColon)) else    -- :
    let parseResult := ParseResult.setSystemError (← eatSpace)
    if !parseResult.ok then pure (.inr parseResult) else
    let parseResult := ParseResult.setSystemError (← next)
    if !parseResult.ok then pure (.inr parseResult) else
    let (parseResult, header_value) ← parseFieldValue
    if parseResult.ok || parseResult.eof then parseHeadersAdd header_key header_value
    else pure (.inr parseResult)
  else pure (.inr parseResult)

/-- The error of the first `eatSpace` is overwritten by the first statement of the loop. -/
def parseHeaders : Comp (β × HTTPMessage) Exn ParseResult := do
  let _ ← eatSpace
  .loop parseHeadersPass ()

def parseChunkPass (chunk_size i : Nat) : Comp (β × HTTPMessage) Exn (Nat ⊕ ParseResult) :=
  if i < chunk_size then do
    let c ← get
    modifySelf (fun m => m.append c)
    let parseResult := ParseResult.setSystemError (← next)
    if !parseResult.ok then pure (.inr parseResult) else pure (.inl (i + 1))
  else pure (.inr {})

/-- The octets of one chunk: every one of them is followed by a `next()` that has to succeed. -/
def parseChunk (chunk_size : Nat) : Comp (β × HTTPMessage) Exn ParseResult :=
  .loop (parseChunkPass chunk_size) 0

def parseChunkedBodyPass (_ : Unit) : Comp (β × HTTPMessage) Exn (Unit ⊕ ParseResult) := do
  let (parseResult, chunk_size) ← parseChunkHex
  if parseResult.ok then
    if chunk_size = 0 then
      if parseResult.eof then pure (.inr {}) else pure (.inr parseResult)
    else
      let parseResult ← parseChunk chunk_size
      if !parseResult.ok then pure (.inr parseResult) else
      let parseResult ← parseCRLF
      if !parseResult.ok then pure (.inr parseResult) else pure (.inl ())
  else pure (.inr parseResult)

/-- The loop is left with `chunk_size = 0` or by a `return`, so the tests after it are not reached with
    another value. -/
def parseChunkedBody : Comp (β × HTTPMessage) Exn ParseResult := .loop parseChunkedBodyPass ()

def parseContentPass (content_length : Nat) :
    Nat × ParseResult → Comp (β × HTTPMessage) Exn ((Nat × ParseResult) ⊕ ParseResult)
  | (i, parseResult) =>
    if i < content_length then do
      let c ← get
      modifySelf (fun m => m.append c)
      if i < content_length - 1 then
        let parseResult := ParseResult.setSystemError (← next)
        if !parseResult.ok then pure (.inr parseResult) else pure (.inl (i + 1, parseResult))
      else pure (.inl (i + 1, parseResult))
    else pure (.inr parseResult)

/-- The loop over `content_length` octets of both `parseBody` functions. It stops on the last octet of
    the body, not behind it. -/
def parseContent (content_length : Nat) : Comp (β × HTTPMessage) Exn ParseResult :=
  .loop (parseContentPass content_length) (0, {})

/-- The branch of both `parse` functions where a CR follows the start line: there are no headers. -/
def parseBare {ω : Type} (parseBody : Comp (β × ω) Exn ParseResult) : Comp (β × ω) Exn ParseResult := do
  let parseResult := ParseResult.setSystemError (← next)
  if parseResult.ok then
    let c ← get
    if c = charLF then
      let parseResult := ParseResult.setSystemError (← next)
      if parseResult.ok then parseBody else pure parseResult
    else pure {}
  else pure {}

end Parsers

end HTTPMessage
end Dodo.Network.Http
