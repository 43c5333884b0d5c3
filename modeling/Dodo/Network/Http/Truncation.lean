import Dodo.Network.Http.Frames

/-!
# `Http.Truncation` — the declared and the delivered length of a body

Nothing is assumed about the read buffer here: `get()` and `next()` may return anything. Requests and responses are
parsed in one way, with another start line, another body and another test behind the headers; what follows is said of
this common parser (`MessageParser`).
-/

namespace Dodo.Network.Http

open Common Lib Lib.Comp

variable {β ω : Type} [VirtualReadBuffer β]

omit [VirtualReadBuffer β] in
theorem returns_part {α ω' : Type} {view : ω → ω'} {put : ω' → ω → ω} {p : Comp (β × ω') Exn α}
    {b b' : β} {o o' : ω} {x : Except Exn α} : Returns (part view put p) (b, o) x (b', o') ↔
      ∃ t, Returns p (b, view o) x (b', t) ∧ o' = put t o := by
  rw [part, returns_zoom]
  constructor
  · rintro ⟨⟨b₁, t⟩, ht, hs⟩
    obtain ⟨rfl, rfl⟩ := Prod.mk.inj hs
    exact ⟨t, ht, rfl⟩
  · rintro ⟨t, ht, rfl⟩
    exact ⟨(b', t), ht, rfl⟩

/-! ## What the scanners leave alone -/

/-- Whatever way `p` ends, the object keeps the property `P`. -/
def KeepsObject {α : Type} (P : ω → Prop) (p : Comp (β × ω) Exn α) : Prop := Keeps (fun s => P s.2) p

/-- Reading from a buffer leaves the object alone. -/
theorem scans_object (P : ω → Prop) : Scans (fun s : β × ω => P s.2) True :=
  ⟨stays_prim fun _ h => ⟨h, fun _ _ => trivial⟩, stays_prim fun _ h => ⟨h, fun _ _ => trivial⟩⟩

namespace HTTPMessage

/-- Adding headers leaves the body alone. -/
theorem keeps_body_parseHeaders {body : Str} :
    KeepsObject (fun m => m.body_ = body) (parseHeaders : Comp (β × HTTPMessage) Exn _) := by
  refine keeps_of_stays ((scans_object fun m : HTTPMessage => m.body_ = body).reading.parseHeaders fun k v =>
    stays_modifySelf ?_)
  rintro ⟨b, m⟩ hm
  show (m.addHeader k v).body_ = body
  unfold addHeader
  split <;> exact hm

section Headers

variable {headers : Headers}

omit [VirtualReadBuffer β] in
/-- Appending to the body leaves the headers alone. -/
theorem headers_append (c : Octet) (s : β × HTTPMessage) (h : s.2.headers_ = headers) :
    (s.2.append c).headers_ = headers := h

omit [VirtualReadBuffer β] in
/-- So does asking for the content-length, though it may throw. -/
theorem stays_headers_readLength (f : Bool × Nat → Comp (β × HTTPMessage) Exn ParseResult)
    (hf : ∀ x, Stays (fun s => s.2.headers_ = headers) True (f x)) :
    Stays (fun s => s.2.headers_ = headers) True
      (self >>= fun m => liftExcept (m.getHeaderULong (lit "content-length")) >>= f) :=
  stays_self.bind fun _ => (stays_prim fun _ h => ⟨h, fun _ _ => trivial⟩).bind hf

theorem stays_headers_requestBody : Stays (fun s => s.2.headers_ = headers) True
    (HTTPRequest.parseBody : Comp (β × HTTPMessage) Exn _) :=
  (scans_object fun m : HTTPMessage => m.headers_ = headers).requestBody headers_append stays_headers_readLength

theorem stays_headers_responseBody : Stays (fun s => s.2.headers_ = headers) True
    (HTTPResponse.parseBody : Comp (β × HTTPMessage) Exn _) :=
  (scans_object fun m : HTTPMessage => m.headers_ = headers).responseBody headers_append stays_headers_readLength

end Headers

end HTTPMessage

/-! ## The length of a body that was read -/

namespace HTTPMessage

variable {b b' : β} {m m' : HTTPMessage} {n i : Nat} {parseResult : ParseResult}

/-- One pass: nothing is left to do, or one octet is appended; an error leaves the loop. -/
theorem returns_parseContentPass {x : (Nat × ParseResult) ⊕ ParseResult}
    (h : Returns (parseContentPass n (i, parseResult)) (b, m) (.ok x) (b', m')) :
    (n ≤ i ∧ m' = m ∧ x = .inr parseResult) ∨ (i < n ∧ (∃ c, m' = m.append c) ∧
      ((∃ pr, x = .inl (i + 1, pr)) ∨ ∃ pr : ParseResult, x = .inr pr ∧ pr.ok = false)) := by
  rw [parseContentPass] at h
  split at h
  case isFalse hi =>
    obtain ⟨hx, hs⟩ := returns_pure.mp h
    exact Or.inl ⟨Nat.le_of_not_lt hi, (Prod.mk.inj hs).2, Except.ok.inj hx⟩
  case isTrue hi =>
    obtain ⟨c, s₁, hget, h⟩ := returns_bind_ok.mp h
    obtain ⟨-, rfl⟩ := Prod.mk.inj (returns_prim.mp hget)
    obtain ⟨_, s₂, hmod, h⟩ := returns_bind_ok.mp h
    obtain ⟨-, rfl⟩ := Prod.mk.inj (returns_prim.mp hmod)
    refine Or.inr ⟨hi, ?_⟩
    split at h
    case isFalse =>
      obtain ⟨hx, hs⟩ := returns_pure.mp h
      exact ⟨⟨c, (Prod.mk.inj hs).2⟩, Or.inl ⟨_, Except.ok.inj hx⟩⟩
    case isTrue =>
      obtain ⟨se, s₃, hnext, h⟩ := returns_bind_ok.mp h
      obtain ⟨-, rfl⟩ := Prod.mk.inj (returns_prim.mp hnext)
      dsimp only at h
      split at h
      case isTrue hpr =>
        obtain ⟨hx, hs⟩ := returns_pure.mp h
        exact ⟨⟨c, (Prod.mk.inj hs).2⟩, Or.inr ⟨_, Except.ok.inj hx, by simpa using hpr⟩⟩
      case isFalse =>
        obtain ⟨hx, hs⟩ := returns_pure.mp h
        exact ⟨⟨c, (Prod.mk.inj hs).2⟩, Or.inl ⟨_, Except.ok.inj hx⟩⟩

/-- A success of the loop over the body appended `n` octets. -/
theorem length_body_parseContent (h : Returns (parseContent n) (b, m) (.ok {}) (b', m')) :
    m'.body_.length = m.body_.length + n := by
  -- after `i` passes, `i` octets have been appended
  let Inv : Nat × ParseResult → β × HTTPMessage → Prop := fun v s =>
    v.1 ≤ n ∧ s.2.body_.length = m.body_.length + v.1
  have hstep : ∀ v s v' s', Inv v s → Returns (parseContentPass n v) s (.ok (.inl v')) s' → Inv v' s' := by
    rintro ⟨i, pr⟩ ⟨b₁, m₁⟩ ⟨i', pr'⟩ ⟨b₂, m₂⟩ ⟨hle, hlen⟩ hpass
    obtain ⟨-, -, hx⟩ | ⟨hi, ⟨c, rfl⟩, ⟨pr'', hx⟩ | ⟨_, hx, -⟩⟩ := returns_parseContentPass hpass
    · cases hx
    · obtain ⟨rfl, rfl⟩ := Prod.mk.inj (Sum.inl.inj hx)
      refine ⟨hi, ?_⟩
      simp only [append, List.length_append, List.length_singleton] at hlen ⊢
      omega
    · cases hx
  obtain ⟨⟨i, pr⟩, ⟨b₁, m₁⟩, ⟨hle, hlen⟩, hlast⟩ :=
    Returns.loop_invariant Inv hstep ⟨Nat.zero_le n, rfl⟩ h
  obtain ⟨a, hlast, ha⟩ | ⟨x, -, hx⟩ := hlast
  · obtain ⟨hi, rfl, -⟩ | ⟨-, -, ⟨_, hx⟩ | ⟨pr', hx, hpr⟩⟩ := returns_parseContentPass hlast
    · rw [hlen, Nat.le_antisymm hle hi]
    · cases hx
    · obtain rfl := Sum.inr.inj hx
      obtain rfl := Except.ok.inj ha
      cases hpr
  · cases hx

theorem getHeaderULong_congr {key : Str} (h : m'.headers_ = m.headers_) :
    m'.getHeaderULong key = m.getHeaderULong key := by simp only [getHeaderULong, h]

theorem getHeaderULong_empty {key : Str} (h : m.headers_ = ∅) : m.getHeaderULong key = .ok (false, 0) := by
  simp [getHeaderULong, h]

omit [VirtualReadBuffer β] in
/-- How both `parseBody` functions begin. -/
theorem returns_withLength {f : Bool × Nat → Comp (β × HTTPMessage) Exn ParseResult} {v : Bool × Nat}
    {s : β × HTTPMessage}
    (h : Returns (self >>= fun m => liftExcept (m.getHeaderULong (lit "content-length")) >>= f) (b, m) (.ok {}) s)
    (hv : m.getHeaderULong (lit "content-length") = .ok v) : Returns (f v) (b, m) (.ok {}) s := by
  obtain ⟨_, _, hself, h⟩ := returns_bind_ok.mp h
  obtain ⟨hm, rfl⟩ := Prod.mk.inj (returns_prim.mp hself)
  obtain rfl := Except.ok.inj hm
  obtain ⟨v', _, hlift, h⟩ := returns_bind_ok.mp h
  obtain ⟨hv', rfl⟩ := Prod.mk.inj (returns_prim.mp hlift)
  obtain rfl := Except.ok.inj (hv.symm.trans hv')
  exact h

/-- A success of code that begins so, and goes on with the loop over the body where there is a content length, appended
    that many octets. -/
theorem length_body_of_content {f : Bool × Nat → Comp (β × HTTPMessage) Exn ParseResult}
    (hf : ∀ n, f (true, n) = parseContent n)
    (hheaders : ∀ headers : Headers, Stays (fun s => s.2.headers_ = headers) True
      (self >>= fun m => liftExcept (m.getHeaderULong (lit "content-length")) >>= f))
    (h : Returns (self >>= fun m => liftExcept (m.getHeaderULong (lit "content-length")) >>= f) (b, m) (.ok {}) (b', m'))
    (hn : m'.getHeaderULong (lit "content-length") = .ok (true, n)) :
    m'.body_.length = m.body_.length + n := by
  rw [getHeaderULong_congr (hheaders _ _ _ _ rfl h).1] at hn
  have hrest := returns_withLength h hn
  rw [hf] at hrest
  exact length_body_parseContent hrest

end HTTPMessage

/-! ## Start line, headers and body -/

/-- What the two parsers have in common: an object that holds a message, code for its start line and for its body, and
    code for what follows the LF that ends the headers. -/
structure MessageParser (β ω : Type) [VirtualReadBuffer β] where
  new : ω
  message : ω → HTTPMessage
  put : HTTPMessage → ω → ω
  startLine : Comp (β × ω) Exn ParseResult
  body : Comp (β × HTTPMessage) Exn ParseResult
  behindLF : Comp (β × ω) Exn ParseResult
  message_put : ∀ m o, message (put m o) = m
  /-- The start line is no part of the message. -/
  message_startLine : ∀ {b b' o x}, Returns startLine (b, new) x (b', o) → message o = {}
  headers_body : ∀ headers, Stays (fun s => s.2.headers_ = headers) True body
  length_body : ∀ {b b' m m' n}, Returns body (b, m) (.ok {}) (b', m') →
    m'.getHeaderULong (lit "content-length") = .ok (true, n) → m'.body_.length = m.body_.length + n
  /-- The body was read, or there was nothing to move to, or the headers declare no body. -/
  behindLF_cases : ∀ {b b' o o'}, Returns behindLF (b, o) (.ok {}) (b', o') →
    ((VirtualReadBuffer.next b).1 = .ok .ecOK ∧ ∃ b₂, Returns (part message put body) (b₂, o) (.ok {}) (b', o')) ∨
      (o' = o ∧ ((VirtualReadBuffer.next b).1 ≠ .ok .ecOK ∨
        ∀ n, (message o).getHeaderULong (lit "content-length") = .ok (true, n) → n = 0))

namespace MessageParser

open HTTPMessage

variable (P : MessageParser β ω)

def parseWithHeaders : Comp (β × ω) Exn ParseResult :=
  part P.message P.put parseHeaders >>= fun parseResult =>
    if !parseResult.ok then pure parseResult
    else get >>= fun c => if c = charLF then P.behindLF else pure {}

def parse : Comp (β × ω) Exn ParseResult :=
  P.startLine >>= fun parseResult =>
    if parseResult.ok then
      get >>= fun c => if c = charCR then parseBare (part P.message P.put P.body) else P.parseWithHeaders
    else pure parseResult

/-- `b₁` is the buffer `b` behind the start line and the header lines in it; `o₁` is what has been read of the
    message. -/
def HeadersRead (b b₁ : β) (o₁ : ω) : Prop :=
  ∃ b₀ o₀, Returns P.startLine (b, P.new) (.ok {}) (b₀, o₀) ∧
    Returns (part P.message P.put parseHeaders) (b₀, o₀) (.ok {}) (b₁, o₁)

/-- The buffer can move past the LF that ends the header section. -/
def MoreAfterHeaders (b : β) : Prop :=
  ∃ b₁ o₁, P.HeadersRead b b₁ o₁ ∧ VirtualReadBuffer.get b₁ = .ok charLF ∧
    (VirtualReadBuffer.next b₁).1 = .ok .ecOK

variable {P} {b b' b₀ b₁ : β} {o o₀ o₁ : ω} {n : Nat}

/-- Parsing is deterministic, so that any run tells. -/
theorem HeadersRead.more_iff (h : P.HeadersRead b b₁ o₁) : P.MoreAfterHeaders b ↔
    VirtualReadBuffer.get b₁ = .ok charLF ∧ (VirtualReadBuffer.next b₁).1 = .ok .ecOK := by
  constructor
  · rintro ⟨b₂, o₂, ⟨b₀', o₀', hline', hheaders'⟩, hmore⟩
    obtain ⟨b₀, o₀, hline, hheaders⟩ := h
    obtain ⟨-, hs⟩ := hline.unique hline'
    obtain ⟨rfl, rfl⟩ := Prod.mk.inj hs
    obtain ⟨rfl, -⟩ := Prod.mk.inj (hheaders.unique hheaders').2
    exact hmore
  · intro hmore
    exact ⟨b₁, o₁, h, hmore⟩

/-- Neither the start line nor the headers touch the body. -/
theorem HeadersRead.body_eq (h : P.HeadersRead b b₁ o₁) : (P.message o₁).body_ = [] := by
  obtain ⟨b₀, o₀, hline, hheaders⟩ := h
  obtain ⟨m, hm, rfl⟩ := returns_part.mp hheaders
  rw [P.message_startLine hline] at hm
  rw [P.message_put]
  exact keeps_body_parseHeaders _ _ _ rfl hm

/-- A success has a start line, and then a message without or with headers. -/
theorem returns_parse (h : Returns P.parse (b, P.new) (.ok {}) (b', o)) :
    ∃ b₀ o₀, Returns P.startLine (b, P.new) (.ok {}) (b₀, o₀) ∧
      (Returns (parseBare (part P.message P.put P.body)) (b₀, o₀) (.ok {}) (b', o) ∨
        Returns P.parseWithHeaders (b₀, o₀) (.ok {}) (b', o)) := by
  obtain ⟨pr, ⟨b₀, o₀⟩, hline, h⟩ := returns_bind_ok.mp h
  split at h
  case isFalse hpr =>
    obtain ⟨hx, -⟩ := returns_pure.mp h
    exact absurd (by rw [← Except.ok.inj hx]; rfl) hpr
  case isTrue hpr =>
    obtain rfl := ParseResult.eq_default_of_ok hpr
    obtain ⟨c, _, hget, h⟩ := returns_bind_ok.mp h
    obtain ⟨-, rfl⟩ := Prod.mk.inj (returns_prim.mp hget)
    refine ⟨b₀, o₀, hline, ?_⟩
    split at h
    case isTrue => exact Or.inl h
    case isFalse => exact Or.inr h

/-- A success of the branch with headers has read them, and it goes on to the body only at a LF. -/
theorem returns_parseWithHeaders (h : Returns P.parseWithHeaders (b₀, o₀) (.ok {}) (b', o)) :
    ∃ b₁ o₁, Returns (part P.message P.put parseHeaders) (b₀, o₀) (.ok {}) (b₁, o₁) ∧
      ((VirtualReadBuffer.get b₁ ≠ .ok charLF ∧ o = o₁) ∨
       (VirtualReadBuffer.get b₁ = .ok charLF ∧ Returns P.behindLF (b₁, o₁) (.ok {}) (b', o))) := by
  obtain ⟨pr, ⟨b₁, o₁⟩, hheaders, h⟩ := returns_bind_ok.mp h
  split at h
  case isTrue hpr =>
    obtain ⟨hx, -⟩ := returns_pure.mp h
    obtain rfl := Except.ok.inj hx
    cases hpr
  case isFalse hpr =>
    obtain rfl := ParseResult.eq_default_of_ok (by simpa using hpr)
    obtain ⟨c, _, hget, h⟩ := returns_bind_ok.mp h
    obtain ⟨hc, rfl⟩ := Prod.mk.inj (returns_prim.mp hget)
    refine ⟨b₁, o₁, hheaders, ?_⟩
    split at h
    case isFalse hlf =>
      refine Or.inl ⟨fun hget => ?_, (Prod.mk.inj (returns_pure.mp h).2).2⟩
      exact hlf (Except.ok.inj (hc.symm.trans hget))
    case isTrue hlf => exact Or.inr ⟨hlf ▸ hc, h⟩

/-- The branch with headers: the body was read, or there was nothing behind the headers, or they declare no body. -/
theorem parseWithHeaders_cases (hline : Returns P.startLine (b, P.new) (.ok {}) (b₀, o₀))
    (h : Returns P.parseWithHeaders (b₀, o₀) (.ok {}) (b', o)) :
    ∃ b₁ o₁, P.HeadersRead b b₁ o₁ ∧
      ((P.MoreAfterHeaders b ∧ ∃ b₂, Returns (part P.message P.put P.body) (b₂, o₁) (.ok {}) (b', o)) ∨
       (o = o₁ ∧ (¬ P.MoreAfterHeaders b ∨
         ∀ n, (P.message o₁).getHeaderULong (lit "content-length") = .ok (true, n) → n = 0))) := by
  obtain ⟨b₁, o₁, hheaders, hend⟩ := returns_parseWithHeaders h
  have hread : P.HeadersRead b b₁ o₁ := ⟨b₀, o₀, hline, hheaders⟩
  refine ⟨b₁, o₁, hread, ?_⟩
  rw [hread.more_iff]
  obtain ⟨hlf, rfl⟩ | ⟨hlf, h⟩ := hend
  · exact Or.inr ⟨rfl, Or.inl fun hmore => hlf hmore.1⟩
  · obtain ⟨hnext, hbody⟩ | ⟨rfl, hnext | hzero⟩ := P.behindLF_cases h
    · exact Or.inl ⟨⟨hlf, hnext⟩, hbody⟩
    · exact Or.inr ⟨rfl, Or.inl fun hmore => hnext hmore.2⟩
    · exact Or.inr ⟨rfl, Or.inr hzero⟩

/-- Without headers there is no content length. -/
theorem parseBare_headers (hline : Returns P.startLine (b, P.new) (.ok {}) (b₀, o₀))
    (h : Returns (parseBare (part P.message P.put P.body)) (b₀, o₀) (.ok {}) (b', o)) :
    (P.message o).headers_ = ∅ := by
  have hbody : Stays (fun s => (P.message s.2).headers_ = ∅) True (part P.message P.put P.body) := by
    refine stays_part (P.headers_body ∅) (fun _ _ h => h) fun _ o m hm => ?_
    rw [P.message_put]
    exact hm
  have hnew : (P.message o₀).headers_ = ∅ := by rw [P.message_startLine hline]
  exact ((scans_object fun o : ω => (P.message o).headers_ = ∅).reading.parseBare hbody _ _ _ hnew h).1

/-- **The body of an accepted message has the declared length** if and only if that is 0 or there is something behind
    the header section. -/
theorem length_body_iff (h : Returns P.parse (b, P.new) (.ok {}) (b', o))
    (hn : (P.message o).getHeaderULong (lit "content-length") = .ok (true, n)) :
    (P.message o).body_.length = n ↔ n = 0 ∨ P.MoreAfterHeaders b := by
  obtain ⟨b₀, o₀, hline, h | h⟩ := returns_parse h
  · rw [getHeaderULong_empty (parseBare_headers hline h)] at hn
    cases hn
  · obtain ⟨b₁, o₁, hread, ⟨hmore, b₂, hbody⟩ | ⟨rfl, hend⟩⟩ := parseWithHeaders_cases hline h
    · obtain ⟨m, hm, rfl⟩ := returns_part.mp hbody
      rw [P.message_put] at hn ⊢
      have hlen := P.length_body hm hn
      rw [hread.body_eq, List.length_nil, Nat.zero_add] at hlen
      exact ⟨fun _ => Or.inr hmore, fun _ => hlen⟩
    · rw [hread.body_eq, List.length_nil]
      refine ⟨fun h => Or.inl h.symm, ?_⟩
      rintro (rfl | hmore)
      · rfl
      · exact (hend.resolve_left (not_not_intro hmore) n hn).symm

end MessageParser

/-- A success of what both parsers do with `next()` behind the headers: the body was read, or there was nothing to
    move to. -/
theorem returns_behindLF {bodyEnd : Comp (β × ω) Exn ParseResult} {b : β} {o : ω} {s' : β × ω}
    {other : ParseResult → Comp (β × ω) Exn ParseResult}
    (hother : ∀ pr s s', Returns (other pr) s (.ok {}) s' → s' = s)
    (h : Returns (next >>= fun error =>
      if (ParseResult.setSystemError error).ok then bodyEnd else other (ParseResult.setSystemError error))
      (b, o) (.ok {}) s') :
    ((VirtualReadBuffer.next b).1 = .ok .ecOK ∧ ∃ b₂, Returns bodyEnd (b₂, o) (.ok {}) s') ∨
      (s'.2 = o ∧ (VirtualReadBuffer.next b).1 ≠ .ok .ecOK) := by
  obtain ⟨error, _, hnext, h⟩ := returns_bind_ok.mp h
  obtain ⟨herror, rfl⟩ := Prod.mk.inj (returns_prim.mp hnext)
  split at h
  case isTrue hok =>
    rw [ParseResult.ok_setSystemError.mp hok] at herror
    exact Or.inl ⟨herror, _, h⟩
  case isFalse hok =>
    refine Or.inr ⟨?_, fun hmore => ?_⟩
    · rw [hother _ _ _ h]
    · exact hok (ParseResult.ok_setSystemError.mpr (Except.ok.inj (herror.symm.trans hmore)))

/-! ## Requests -/

namespace HTTPRequest

/-- What `parse` does behind the LF that ends the headers. -/
def parseBehindLF : Comp (β × HTTPRequest) Exn ParseResult := do
  let parseResult := ParseResult.setSystemError (← next)
  if parseResult.ok then onMessage parseBody
  else if parseResult.eof then pure {}
  else pure parseResult

def parser : MessageParser β HTTPRequest where
  new := {}
  message r := r.toHTTPMessage
  put m r := { r with toHTTPMessage := m }
  startLine := parseRequestLine
  body := parseBody
  behindLF := parseBehindLF
  message_put _ _ := rfl
  message_startLine h := by
    obtain ⟨line, -, rfl⟩ := returns_part.mp h
    rfl
  headers_body _ := HTTPMessage.stays_headers_requestBody
  length_body := HTTPMessage.length_body_of_content (fun _ => rfl) fun _ => HTTPMessage.stays_headers_requestBody
  behindLF_cases h := by
    have hother : ∀ (pr : ParseResult) (s s' : β × HTTPRequest),
        Returns (if pr.eof then pure {} else pure pr : Comp _ Exn ParseResult) s (.ok {}) s' → s' = s := by
      intro pr s s' h
      split at h <;> exact (returns_pure.mp h).2
    exact (returns_behindLF hother h).imp_right fun ⟨hsame, hnext⟩ => ⟨hsame, .inl hnext⟩

/-- The buffer can move past the LF that ends the header section of the request. -/
def MoreAfterHeaders (b : β) : Prop := parser.MoreAfterHeaders b

end HTTPRequest

/-! ## Responses -/

namespace HTTPResponse

/-- What `parse` does behind the LF that ends the headers. -/
def parseBehindLF : Comp (β × HTTPResponse) Exn ParseResult := do
  if ← liftExcept (hasBody (← self).toHTTPMessage) then
    let parseResult := ParseResult.setSystemError (← next)
    if parseResult.ok then onMessage parseBody
    else if parseResult.eof then pure {}
    else pure {}
  else pure {}

/-- A content length that leaves a response without a body is 0. -/
theorem eq_zero_of_hasBody {m : HTTPMessage} {n : Nat} (hbody : hasBody m = .ok false)
    (hn : m.getHeaderULong (lit "content-length") = .ok (true, n)) : n = 0 := by
  by_contra hpos
  have hpos : 0 < n := Nat.pos_of_ne_zero hpos
  simp [hasBody, hn, hpos, Bind.bind, Except.bind, pure, Except.pure] at hbody

/-- A success behind the LF: the body was read, or there was nothing to move to, or no body is expected. -/
theorem returns_parseBehindLF {b b' : β} {r r' : HTTPResponse} (h : Returns parseBehindLF (b, r) (.ok {}) (b', r')) :
    ((VirtualReadBuffer.next b).1 = .ok .ecOK ∧ ∃ b₂, Returns (onMessage parseBody) (b₂, r) (.ok {}) (b', r')) ∨
      (r' = r ∧ ((VirtualReadBuffer.next b).1 ≠ .ok .ecOK ∨
        ∀ n, r.getHeaderULong (lit "content-length") = .ok (true, n) → n = 0)) := by
  obtain ⟨_, _, hself, h⟩ := returns_bind_ok.mp h
  obtain ⟨hm, rfl⟩ := Prod.mk.inj (returns_prim.mp hself)
  obtain rfl := Except.ok.inj hm
  obtain ⟨body, _, hlift, h⟩ := returns_bind_ok.mp h
  obtain ⟨hbody, rfl⟩ := Prod.mk.inj (returns_prim.mp hlift)
  split at h
  case isFalse hfalse =>
    rw [Bool.not_eq_true] at hfalse
    exact Or.inr ⟨(Prod.mk.inj (returns_pure.mp h).2).2, Or.inr fun n hn => eq_zero_of_hasBody (hfalse ▸ hbody) hn⟩
  case isTrue =>
    have hother : ∀ (pr : ParseResult) (s s' : β × HTTPResponse),
        Returns (if pr.eof then pure {} else pure {} : Comp _ Exn ParseResult) s (.ok {}) s' → s' = s := by
      intro pr s s' h
      rw [ite_self] at h
      exact (returns_pure.mp h).2
    exact (returns_behindLF hother h).imp_right fun ⟨hsame, hnext⟩ => ⟨hsame, .inl hnext⟩

def parser : MessageParser β HTTPResponse where
  new := {}
  message r := r.toHTTPMessage
  put m r := { r with toHTTPMessage := m }
  startLine := parseResponseLine
  body := parseBody
  behindLF := parseBehindLF
  message_put _ _ := rfl
  message_startLine h := by
    obtain ⟨line, -, rfl⟩ := returns_part.mp h
    rfl
  headers_body _ := HTTPMessage.stays_headers_responseBody
  length_body := HTTPMessage.length_body_of_content (fun _ => rfl) fun _ => HTTPMessage.stays_headers_responseBody
  behindLF_cases := returns_parseBehindLF

/-- The buffer can move past the LF that ends the header section of the response. -/
def MoreAfterHeaders (b : β) : Prop := parser.MoreAfterHeaders b

end HTTPResponse

/-- **Declared and delivered length.** Over any buffer, a message that was accepted and declares a body
    of `n` octets has a body of `n` octets if and only if `n` is 0 or the buffer can move past the header
    section: an end of the data right behind the headers is taken for the end of the message. -/
theorem length_body_eq_content_length_iff (b b' : β) (n : Nat) :
    (∀ r : HTTPRequest, Returns HTTPRequest.parse (b, {}) (.ok {}) (b', r) →
      r.getHeaderULong (lit "content-length") = .ok (true, n) →
      (r.body_.length = n ↔ n = 0 ∨ HTTPRequest.MoreAfterHeaders b)) ∧
    (∀ r : HTTPResponse, Returns HTTPResponse.parse (b, {}) (.ok {}) (b', r) →
      r.getHeaderULong (lit "content-length") = .ok (true, n) →
      (r.body_.length = n ↔ n = 0 ∨ HTTPResponse.MoreAfterHeaders b)) :=
  -- both `parse` functions have the common shape by definition
  ⟨fun _ h hn => MessageParser.length_body_iff (P := HTTPRequest.parser) h hn,
    fun _ h hn => MessageParser.length_body_iff (P := HTTPResponse.parser) h hn⟩

theorem length_body_eq_content_length_two :
    (∃ (b' : StringReadBuffer) (r : HTTPRequest), Returns HTTPRequest.parse
        (.ofString (lit "POST / HTTP/1.1\r\ncontent-length: 2\r\n\r\nab"), {}) (.ok {}) (b', r) ∧
      r.getHeaderULong (lit "content-length") = .ok (true, 2) ∧
      (r.body_.length = 2 ↔ 2 = 0 ∨ HTTPRequest.MoreAfterHeaders
        (StringReadBuffer.ofString (lit "POST / HTTP/1.1\r\ncontent-length: 2\r\n\r\nab")))) ∧
    (∃ (b' : StringReadBuffer) (r : HTTPResponse), Returns HTTPResponse.parse
        (.ofString (lit "HTTP/1.1 200 OK\r\ncontent-length: 2\r\n\r\nab"), {}) (.ok {}) (b', r) ∧
      r.getHeaderULong (lit "content-length") = .ok (true, 2) ∧
      (r.body_.length = 2 ↔ 2 = 0 ∨ HTTPResponse.MoreAfterHeaders
        (StringReadBuffer.ofString (lit "HTTP/1.1 200 OK\r\ncontent-length: 2\r\n\r\nab")))) := by
  have hreq : wp HTTPRequest.parse
      (fun x s => x = .ok {} ∧ s.2.getHeaderULong (lit "content-length") = .ok (true, 2))
      (StringReadBuffer.ofString (lit "POST / HTTP/1.1\r\ncontent-length: 2\r\n\r\nab"), {}) :=
    wp_of_run 60 (by decide +kernel)
  have hresp : wp HTTPResponse.parse
      (fun x s => x = .ok {} ∧ s.2.getHeaderULong (lit "content-length") = .ok (true, 2))
      (StringReadBuffer.ofString (lit "HTTP/1.1 200 OK\r\ncontent-length: 2\r\n\r\nab"), {}) :=
    wp_of_run 60 (by decide +kernel)
  obtain ⟨_, ⟨b₁, r₁⟩, h₁, rfl, hn₁⟩ := hreq
  obtain ⟨_, ⟨b₂, r₂⟩, h₂, rfl, hn₂⟩ := hresp
  exact ⟨⟨b₁, r₁, h₁, hn₁, (length_body_eq_content_length_iff _ _ _).1 _ h₁ hn₁⟩,
    ⟨b₂, r₂, h₂, hn₂, (length_body_eq_content_length_iff _ _ _).2 _ h₂ hn₂⟩⟩

/-- Messages cut off behind the header section are accepted with an empty body. -/
theorem truncated_message_accepted :
    wp HTTPRequest.parse
      (fun x s => x = .ok {} ∧ s.2.getHeaderULong (lit "content-length") = .ok (true, 5) ∧
        s.2.getHeaderValue (lit "transfer-encoding") = none ∧ s.2.body_ = [])
      (StringReadBuffer.ofString (lit "POST / HTTP/1.1\r\ncontent-length: 5\r\n\r\n"), {}) ∧
    wp HTTPResponse.parse
      (fun x s => x = .ok {} ∧ s.2.getHeaderULong (lit "content-length") = .ok (true, 5) ∧
        s.2.getHeaderValue (lit "transfer-encoding") = none ∧ s.2.body_ = [])
      (StringReadBuffer.ofString (lit "HTTP/1.1 200 OK\r\ncontent-length: 5\r\n\r\n"), {}) :=
  ⟨wp_of_run 60 (by decide +kernel), wp_of_run 60 (by decide +kernel)⟩

end Dodo.Network.Http
