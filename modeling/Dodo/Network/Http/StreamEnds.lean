import Dodo.Network.Http.Buffers
import Dodo.Network.Http.Frames
import Dodo.Network.Http.RoundTrip
import Dodo.Network.SocketStream
import Dodo.Network.TLSSocket

/-!
# `Http.StreamEnds` — how the end of the stream decides what a parser makes of a message

The parsers call `next()` behind the last octet of a message, and what that returns depends on the socket: `ecEAGAIN`
where a plain socket has nothing more for now, `ecOK` where its peer has closed the connection, and a code of its own
where a TLS connection has come to its end. The response parser does not distinguish errors, so over TLS it reads what it
reads from a string; the request parser takes only `ecEAGAIN` for the end of a request without a body. And a body that
reaches up to the end of the connection has no end where `next()` does not fail.
-/

namespace Dodo.Network.Http

open Common Lib Lib.Comp HTTPMessage

/-! ## Other errors than `ecEAGAIN` -/

namespace Grammar

/-- The part of a request behind its headers, where the stream ends in another error than `ecEAGAIN`. -/
def requestEndStrict (m : HTTPMessage) (rest : Str) : Option (HTTPMessage × Str) :=
  if rest = [] then none else requestBody m rest

def requestStrict (r : HTTPRequest) (l : Str) : Option (HTTPRequest × Str) :=
  (requestLine r.request_line_ l).bind fun (line, l₁) =>
    (messageRest requestBody requestEndStrict r.toHTTPMessage l₁).map fun (m, rest) =>
      ({ toHTTPMessage := m, request_line_ := line }, rest)

/-- The requests that end with their headers are missing, and no others. -/
theorem requestStrict_eq_some {text rest : Str} {r : HTTPRequest} : requestStrict {} text = some (r, rest) ↔
    request {} text = some (r, rest) ∧ ∀ m, messageHead (requestLine {}) text ≠ some (m, []) := by
  cases hline : requestLine {} text with
  | none => simp [requestStrict, request, hline]
  | some v =>
      obtain ⟨line, l⟩ := v
      have hhead : (∀ m, messageHead (requestLine {}) text ≠ some (m, [])) ↔
          ¬ (l.head? ≠ some charCR ∧ ∃ kvs, headerSection l = some (kvs, [])) := by
        rw [← not_exists, not_iff_not]
        simp only [messageHead_eq_some]
        constructor
        · rintro ⟨m, x, l', kvs, hstart, hcr, hsec, -⟩
          rw [hline] at hstart
          obtain ⟨rfl, rfl⟩ := Prod.mk.inj (Option.some.inj hstart)
          exact ⟨hcr, kvs, hsec⟩
        · rintro ⟨hcr, kvs, hsec⟩
          exact ⟨_, line, l, kvs, hline, hcr, hsec, rfl⟩
      rw [hhead]
      simp only [requestStrict, request, requestRest, hline, Option.bind_some, messageRest]
      by_cases hcr : l.head? = some charCR
      · simp [hcr]
      · simp only [if_neg hcr]
        cases hsec : headerSection l with
        | none => simp
        | some v =>
            obtain ⟨kvs, rest'⟩ := v
            by_cases hrest : rest' = []
            · subst hrest
              refine iff_of_false ?_ fun h => h.2 ⟨hcr, kvs, rfl⟩
              simp [requestEndStrict]
            · simp [requestEnd, requestEndStrict, hrest]

end Grammar

namespace HTTPRequest

variable {β : Type} [VirtualReadBuffer β] {e : SystemError} {D : Delivers β e} {b : β} {l : Str}

/-- **The request parser on a stream that ends in another error than `ecEAGAIN`.** -/
theorem parse_strict {r : HTTPRequest} (he : e ≠ .ecEAGAIN) (h : D.At b l) (hl : l ≠ []) :
    wp parse (Decodes D (Grammar.requestStrict r l)) (b, r) := by
  have heof : (ParseResult.setSystemError e).eof = false := by
    unfold ParseResult.eof ParseResult.setSystemError
    split <;> simpa using he
  refine parse_ending (fun m => ?_) (fun _ _ _ => rfl) h hl
  rw [heof]
  rfl

end HTTPRequest

/-- **Parsing over TLS**, for every text, every division of it into chunks and every error in which the connection ends:
    the response parser makes of the text what it makes of a string, and the request parser returns ok with the same
    requests, apart from those that end with their headers; it never returns ok with one of these. -/
theorem parse_over_tls {atEnd : SslError} {e : SystemError} (he : atEnd.received = some e)
    (chunks : List (Octet × Str)) (bufsize : Nat) (array : Nat → Octet) (hne : chunks ≠ [])
    (hfit : ∀ c ∈ chunks, c.2.length < bufsize) :
    ∃ b, (SocketReadBuffer.ofSocket (TLSSocket.ofChunks chunks atEnd) bufsize array).underflow = (.ok .ecOK, b) ∧
      (∃ out, ParsesTo HTTPResponse.parse (StringReadBuffer.ofString (chunks.flatMap fun c => c.1 :: c.2)) {} out ∧
        ParsesTo HTTPResponse.parse b {} out) ∧
      ∀ r, (∃ b', Returns HTTPRequest.parse (b, {}) (.ok {}) (b', r)) ↔
        HTTPRequest.Accepts (chunks.flatMap fun c => c.1 :: c.2) r ∧
          ∀ m, Grammar.messageHead (Grammar.requestLine {}) (chunks.flatMap fun c => c.1 :: c.2) ≠ some (m, []) := by
  obtain ⟨b, hunderflow, hat⟩ := TLSSocket.delivers_ofChunks he array hne hfit
  have htext : chunks.flatMap (fun c => c.1 :: c.2) ≠ [] := by
    obtain ⟨c, cs, rfl⟩ := List.exists_cons_of_ne_nil hne
    simp
  generalize chunks.flatMap (fun c => c.1 :: c.2) = text at hat htext ⊢
  refine ⟨b, hunderflow, ⟨(Grammar.response {} text).map Prod.fst, ?_, ?_⟩, fun r => ?_⟩
  · exact parsesTo_of_decodes (HTTPResponse.parse_spec (StringReadBuffer.delivers_ofString text htext) htext)
  · exact parsesTo_of_decodes (HTTPResponse.parse_spec hat htext)
  · have hends := HTTPRequest.parse_strict (r := {}) (SslError.received_ne he).2 hat htext
    rw [exists_returns_iff hends, HTTPRequest.accepts_iff]
    simp only [Grammar.requestStrict_eq_some, exists_and_right]

/-- The peer sends a request and closes the connection. -/
theorem parse_over_tls_zeroReturn :
    let text := lit "GET / HTTP/1.1\r\nhost: a\r\n\r\n"
    let chunks := [((71 : Octet), text.tail)]
    ∃ b, (SocketReadBuffer.ofSocket (TLSSocket.ofChunks chunks .zeroReturn) 99 fun _ => 0).underflow = (.ok .ecOK, b) ∧
      (∃ out, ParsesTo HTTPResponse.parse (StringReadBuffer.ofString text) {} out ∧ ParsesTo HTTPResponse.parse b {} out) ∧
      ∀ r, (∃ b', Returns HTTPRequest.parse (b, {}) (.ok {}) (b', r)) ↔
        HTTPRequest.Accepts text r ∧ ∀ m, Grammar.messageHead (Grammar.requestLine {}) text ≠ some (m, []) := by
  intro text chunks
  exact parse_over_tls rfl chunks 99 (fun _ => 0) (by simp [chunks]) (by decide)

/-! ## A plain socket that is closed -/

end Dodo.Network.Http

namespace Dodo.Network

open Common

/-- A socket delivers one list of chunks. -/
theorem Yields.unique {σ : Type} [VirtualSocket σ] {s : σ} {n : Nat} {e : SystemError} {chunks chunks' : List Str}
    (h : Yields n e s chunks) (h' : Yields n e s chunks') : chunks = chunks' := by
  induction h generalizing chunks' with
  | nil hrecv =>
      cases h' with
      | nil => rfl
      | cons hx hrecv' =>
          obtain ⟨hnil, -⟩ := Prod.mk.inj (Prod.mk.inj (hrecv.symm.trans hrecv')).2
          exact absurd hnil.symm hx
  | cons hx hrecv _ ih =>
      cases h' with
      | nil hrecv' =>
          obtain ⟨hnil, -⟩ := Prod.mk.inj (Prod.mk.inj (hrecv.symm.trans hrecv')).2
          exact absurd hnil hx
      | cons _ hrecv' hrest =>
          obtain ⟨rfl, rfl⟩ := Prod.mk.inj (Prod.mk.inj (hrecv.symm.trans hrecv')).2
          rw [ih hrest]

namespace Socket

variable {s s' : Socket} {n : Nat} {e : SystemError} {x : Str} {chunks : List Str}

/-- The same socket, where the peer closes the connection behind what is still to come. -/
def closed (s : Socket) : Socket := { s with atEnd := .data [] }

theorem receive_data {l : Str} {rest : List RecvResult} {atEnd : RecvResult} :
    receive ⟨.data l :: rest, atEnd⟩ n =
      (.ok .ecOK, l.take n, ⟨if l.length ≤ n then rest else .data (l.drop n) :: rest, atEnd⟩) := by
  by_cases h : l.length ≤ n
  · simp [receive, recv, h, List.take_of_length_le h]
  · simp [receive, recv, h]

theorem pending_of_receive_end (he : e ≠ .ecOK) (hrecv : s.receive n = (.ok e, [], s)) : s.pending = [] := by
  rcases s with ⟨_ | ⟨l | errno, rest⟩, atEnd⟩
  · rfl
  · rw [receive_data] at hrecv
    exact absurd (Except.ok.inj (Prod.mk.inj hrecv).1).symm he
  · simp only [receive, recv] at hrecv
    split at hrecv <;> simp at hrecv

theorem pending_of_yields (h : Yields n e s (x :: chunks)) : s.pending ≠ [] := by
  intro hnil
  have hstay : (s.receive n).2.2 = s := by
    simp only [receive, recv, hnil]
    cases s.atEnd with
    | data l => rfl
    | fail errno =>
        simp only
        split <;> rfl
  cases h with
  | @cons _ s' _ _ hx hrecv hrest =>
      have hsame : s' = s := by
        rw [← hstay, show s.receive n = _ from hrecv]
      have := (hsame ▸ hrest).unique (.cons hx hrecv hrest)
      simp at this

/-- What is still to come does not depend on how the stream ends. -/
theorem receive_closed (hpending : s.pending ≠ []) (hrecv : s.receive n = (.ok .ecOK, x, s')) :
    s.closed.receive n = (.ok .ecOK, x, s'.closed) := by
  rcases s with ⟨_ | ⟨l | errno, rest⟩, atEnd⟩
  · exact absurd rfl hpending
  · rw [receive_data] at hrecv
    obtain ⟨rfl, rfl⟩ := Prod.mk.inj (Prod.mk.inj hrecv).2
    exact receive_data
  · simp only [receive, recv] at hrecv
    split at hrecv
    case isTrue herr =>
      obtain rfl : errno = .ecOK := Except.ok.inj (Prod.mk.inj hrecv).1
      exact absurd herr (by decide)
    case isFalse => cases hrecv

theorem yields_closed (h : Yields n .ecEAGAIN s chunks) : Yields n .ecOK s.closed chunks := by
  induction h with
  | @nil s hrecv =>
      refine .nil ?_
      have hnil : s.pending = [] := pending_of_receive_end (by decide) hrecv
      show s.closed.receive n = _
      simp [receive, recv, closed, hnil]
  | cons hx hrecv hrest ih =>
      exact .cons hx (receive_closed (pending_of_yields (.cons hx hrecv hrest)) hrecv) ih

end Socket

namespace SocketReadBuffer

variable {b : SocketReadBuffer Socket} {c : Octet} {l l' : Str}

/-- The same buffer, where the peer closes the connection behind what is still to come. -/
def closed (b : SocketReadBuffer Socket) : SocketReadBuffer Socket := { b with socket_ := b.socket_.closed }

/-- There is something left. -/
def More (b : SocketReadBuffer Socket) : Prop := ∃ c l, Socket.delivers.At b (c :: l)

theorem at_unique (h : Socket.delivers.At b l) (h' : Socket.delivers.At b l') : l = l' := by
  obtain ⟨⟨chunks, hyields, rfl⟩, -⟩ := h
  obtain ⟨⟨chunks', hyields', rfl⟩, -⟩ := h'
  rw [hyields.unique hyields']

/-- As long as there is something left, nobody sees the end. -/
theorem underflow_closed (h : Feeds b .ecEAGAIN (c :: l)) :
    b.closed.underflow = (b.underflow.1, b.underflow.2.closed) := by
  obtain ⟨chunks, hyields, hrem⟩ := h
  by_cases hle : b.received_ ≤ b.idx_
  · rw [window_of_le hle, List.nil_append] at hrem
    cases hyields with
    | nil => cases hrem
    | @cons _ s' x _ hx hrecv hrest =>
        have hrecv' : VirtualSocket.receive b.closed.socket_ b.closed.bufsize_ = (.ok .ecOK, x, s'.closed) :=
          Socket.receive_closed (Socket.pending_of_yields (.cons hx hrecv hrest)) hrecv
        rw [underflow_of_receive hle hrecv, underflow_of_receive (b := b.closed) hle hrecv']
        rfl
  · have hsame : b.underflow = (.ok .ecOK, b) := if_neg hle
    rw [hsame]
    exact if_neg hle

theorem onClosed_closed (h : Socket.delivers.At b l) : OnClosed b.closed l := by
  obtain ⟨⟨chunks, hyields, hrem⟩, hlt⟩ := h
  exact ⟨⟨chunks, Socket.yields_closed hyields, hrem⟩, hlt⟩

end SocketReadBuffer
end Dodo.Network

namespace Dodo.Network.Http

open Common Lib Lib.Comp HTTPMessage SocketReadBuffer

section Follows

variable {ω α : Type}

/-- If the code ends on an open connection with something left, it ends in the same way on a closed one. -/
def Follows (p : Comp (SocketReadBuffer Socket × ω) Exn α) : Prop :=
  ∀ b o x b' o', (∃ l, Socket.delivers.At b l) → Returns p (b, o) x (b', o') →
    (∃ l, Socket.delivers.At b' l) ∧ (b'.More → b.More ∧ Returns p (b.closed, o) x (b'.closed, o'))

theorem compositional_follows : Compositional fun _ (p : Comp (SocketReadBuffer Socket × ω) Exn _) => Follows p where
  pure := by
    intro α a b o x b' o' hat h
    obtain ⟨rfl, hs⟩ := returns_pure.mp h
    obtain ⟨rfl, rfl⟩ := Prod.mk.inj hs
    exact ⟨hat, fun hmore => ⟨hmore, returns_pure.mpr ⟨rfl, rfl⟩⟩⟩
  bind := by
    intro α γ p f hp hf b o x b' o' hat h
    rcases returns_bind.mp h with ⟨a, ⟨b₁, o₁⟩, hp', hf'⟩ | ⟨e, hp', rfl⟩
    · obtain ⟨hat₁, hmore₁⟩ := hp b o _ b₁ o₁ hat hp'
      obtain ⟨hat', hmore'⟩ := hf a b₁ o₁ x b' o' hat₁ hf'
      refine ⟨hat', fun hmore => ?_⟩
      obtain ⟨hleft₁, hret'⟩ := hmore' hmore
      obtain ⟨hleft, hret⟩ := hmore₁ hleft₁
      exact ⟨hleft, returns_bind.mpr (.inl ⟨a, _, hret, hret'⟩)⟩
    · obtain ⟨hat', hmore'⟩ := hp b o _ b' o' hat hp'
      refine ⟨hat', fun hmore => ?_⟩
      obtain ⟨hleft, hret⟩ := hmore' hmore
      exact ⟨hleft, returns_bind.mpr (.inr ⟨e, hret, rfl⟩)⟩
  loop := by
    intro L α body l hbody b o x b' o' hat h
    refine Returns.loop_induction (motive := fun l s x s' => (∃ l, Socket.delivers.At s.1 l) →
      (∃ l, Socket.delivers.At s'.1 l) ∧
        (s'.1.More → s.1.More ∧ Returns (.loop body l) (s.1.closed, s.2) x (s'.1.closed, s'.2))) ?_ ?_ ?_ h hat
    · rintro l ⟨b, o⟩ e ⟨b', o'⟩ hpass hat
      obtain ⟨hat', hmore'⟩ := hbody l b o _ b' o' hat hpass
      refine ⟨hat', fun hmore => ?_⟩
      obtain ⟨hleft, hret⟩ := hmore' hmore
      exact ⟨hleft, returns_loop.mpr (returns_bind.mpr (.inr ⟨e, hret, rfl⟩))⟩
    · rintro l ⟨b, o⟩ a ⟨b', o'⟩ hpass hat
      obtain ⟨hat', hmore'⟩ := hbody l b o _ b' o' hat hpass
      refine ⟨hat', fun hmore => ?_⟩
      obtain ⟨hleft, hret⟩ := hmore' hmore
      exact ⟨hleft, returns_loop.mpr (hret.bind_iff.mpr (returns_pure.mpr ⟨rfl, rfl⟩))⟩
    · rintro l ⟨b, o⟩ l₁ ⟨b₁, o₁⟩ x ⟨b', o'⟩ hpass ih hat
      obtain ⟨hat₁, hmore₁⟩ := hbody l b o _ b₁ o₁ hat hpass
      obtain ⟨hat', hmore'⟩ := ih hat₁
      refine ⟨hat', fun hmore => ?_⟩
      obtain ⟨hleft₁, hret'⟩ := hmore' hmore
      obtain ⟨hleft, hret⟩ := hmore₁ hleft₁
      exact ⟨hleft, returns_loop.mpr (hret.bind_iff.mpr hret')⟩

theorem follows_modifySelf {f : ω → ω} : Follows (modifySelf f : Comp (SocketReadBuffer Socket × ω) Exn Unit) := by
  intro b o x b' o' hat h
  obtain ⟨rfl, hs⟩ := Prod.mk.inj (returns_prim.mp h)
  obtain ⟨rfl, rfl⟩ := Prod.mk.inj hs
  exact ⟨hat, fun hmore => ⟨hmore, returns_prim.mpr rfl⟩⟩

theorem follows_part {ω' : Type} {view : ω → ω'} {put : ω' → ω → ω} {p : Comp (SocketReadBuffer Socket × ω') Exn α}
    (hp : Follows p) : Follows (part view put p) := by
  intro b o x b' o' hat h
  obtain ⟨⟨b₁, t⟩, ht, hs⟩ := returns_zoom.mp h
  obtain ⟨rfl, rfl⟩ := Prod.mk.inj hs
  obtain ⟨hat', hmore'⟩ := hp b (view o) x b' t hat ht
  refine ⟨hat', fun hmore => ?_⟩
  obtain ⟨hleft, hret⟩ := hmore' hmore
  exact ⟨hleft, returns_zoom.mpr ⟨_, hret, rfl⟩⟩

theorem follows_get : Follows (get : Comp (SocketReadBuffer Socket × ω) Exn Octet) := by
  intro b o x b' o' hat h
  obtain ⟨rfl, hs⟩ := Prod.mk.inj (returns_prim.mp h)
  obtain ⟨rfl, rfl⟩ := Prod.mk.inj hs
  exact ⟨hat, fun hmore => ⟨hmore, returns_prim.mpr rfl⟩⟩

theorem follows_next : Follows (next : Comp (SocketReadBuffer Socket × ω) Exn SystemError) := by
  rintro b o x b' o' ⟨l, hat⟩ h
  obtain ⟨hx, hs⟩ := Prod.mk.inj (returns_prim.mp h)
  obtain ⟨rfl, rfl⟩ := Prod.mk.inj hs
  cases l with
  | nil =>
      obtain ⟨-, hat'⟩ := Socket.delivers.next_nil hat
      refine ⟨⟨[], hat'⟩, fun ⟨c, l, hmore⟩ => ?_⟩
      cases at_unique hat' hmore
  | cons c l =>
      obtain ⟨-, hat'⟩ := Socket.delivers.next_cons hat
      refine ⟨⟨l, hat'⟩, fun ⟨d, l', hmore⟩ => ⟨⟨c, l, hat⟩, returns_prim.mpr ?_⟩⟩
      obtain rfl := at_unique hat' hmore
      have hclosed := underflow_closed (hat.1.advance (hat.2 (by simp))).2
      have hnext : b.closed.next = (b.next.1, b.next.2.closed) := hclosed
      show ((b.closed.next).1, (b.closed.next).2, o) = _
      rw [hnext, ← hx]
      rfl

theorem reading_follows : Reading fun _ (p : Comp (SocketReadBuffer Socket × ω) Exn _) => Follows p :=
  ⟨compositional_follows, follows_get, follows_next⟩

end Follows

theorem follows_responseLine : Follows (HTTPResponse.parseResponseLine : Comp (SocketReadBuffer Socket × HTTPResponse) Exn _) := by
  refine follows_part ?_
  have h : Reading fun _ (p : Comp (SocketReadBuffer Socket × HTTPResponseLine) Exn _) => Follows p := reading_follows
  have hversion : Follows (HTTPVersion.parse : Comp (SocketReadBuffer Socket × HTTPVersion) Exn _) :=
    reading_follows.parseVersion fun _ _ => follows_modifySelf
  have hreason : Follows (HTTPResponseLine.skipReason : Comp (SocketReadBuffer Socket × HTTPResponseLine) Exn _) :=
    h.loop fun _ => h.bind h.get fun _ => h.ite (h.bind h.next fun _ => h.ite h.pure h.pure) h.pure
  refine h.bind (follows_part hversion) fun _ => h.ite (h.bind h.eatSpace fun _ => h.ite h.pure ?_) h.pure
  refine h.bind h.parseUInt fun _ => h.ite (h.bind follows_modifySelf fun _ => ?_) h.pure
  exact h.bind hreason fun _ => h.ite h.pure h.parseCRLF

theorem follows_headers :
    Follows (HTTPResponse.onMessage parseHeaders : Comp (SocketReadBuffer Socket × HTTPResponse) Exn _) :=
  follows_part (reading_follows.parseHeaders fun _ _ => follows_modifySelf)

namespace HTTPResponse

variable {b : SocketReadBuffer Socket} {l text body : Str} {m : HTTPMessage} {r : HTTPResponse}
  {x : Except Exn ParseResult}

/-- The loop for `connection: close` goes on for ever, since `next()` never fails. -/
theorem not_returns_parseUntilClose {s' : SocketReadBuffer Socket × HTTPMessage} (h : OnClosed b l) :
    ¬ Returns parseUntilClose (b, m) x s' := by
  intro hret
  have hpass : ∀ (s : SocketReadBuffer Socket × HTTPMessage) l, OnClosed s.1 l →
      Returns (parseUntilClosePass ()) s (.ok (.inl ())) (s.1.next.2, s.2.append s.1.get) := by
    intro s l hclosed
    obtain ⟨hok, -⟩ := next_onClosed hclosed
    have hget : Returns get s (.ok s.1.get) s := returns_prim.mpr rfl
    have hmodify : Returns (modifySelf fun m => m.append s.1.get) s (.ok ()) (s.1, s.2.append s.1.get) :=
      returns_prim.mpr rfl
    have hnext : Returns next (s.1, s.2.append s.1.get) (.ok .ecOK) (s.1.next.2, s.2.append s.1.get) :=
      returns_prim.mpr (by rw [← hok]; rfl)
    exact hget.bind_iff.mpr (hmodify.bind_iff.mpr (hnext.bind_iff.mpr (returns_pure.mpr ⟨rfl, rfl⟩)))
  refine Returns.loop_induction (motive := fun _ s _ _ => (∃ l, OnClosed s.1 l) → False) ?_ ?_ ?_ hret ⟨l, h⟩
  · rintro _ s e s' hthrow ⟨l, hclosed⟩
    cases (hthrow.unique (hpass s l hclosed)).1
  · rintro _ s a s' hbreak ⟨l, hclosed⟩
    cases (hbreak.unique (hpass s l hclosed)).1
  · rintro _ s _ s₁ _ _ hnext ih ⟨l, hclosed⟩
    obtain ⟨-, rfl⟩ := hnext.unique (hpass s l hclosed)
    exact ih ⟨_, (next_onClosed hclosed).2⟩

/-- The headers say that the body reaches up to the end of the connection. -/
structure CloseDelimited (m : HTTPMessage) : Prop where
  content_length : m.headers_[lit "content-length"]? = none
  transfer_encoding : m.headers_[lit "transfer-encoding"]? = none
  connection : m.headers_[lit "connection"]? = some (lit "close")

namespace CloseDelimited

theorem getHeaderULong (h : CloseDelimited m) : m.getHeaderULong (lit "content-length") = .ok (false, 0) := by
  simp only [HTTPMessage.getHeaderULong, h.content_length]

theorem hasBody (h : CloseDelimited m) : hasBody m = .ok true := by
  simp [HTTPResponse.hasBody, h.getHeaderULong, HTTPMessage.getHeaderValue, h.transfer_encoding, h.connection, Bind.bind,
    Except.bind, pure, Except.pure]

theorem not_returns_parseBody {s' : SocketReadBuffer Socket × HTTPMessage} (hm : CloseDelimited m) (h : OnClosed b l) :
    ¬ Returns parseBody (b, m) x s' := by
  intro hret
  have hself : Returns (self : Comp (SocketReadBuffer Socket × HTTPMessage) Exn _) (b, m) (.ok m) (b, m) := returns_prim.mpr rfl
  have hlength : Returns (liftExcept (m.getHeaderULong (lit "content-length"))) (b, m) (.ok (false, 0)) (b, m) :=
    returns_prim.mpr (by rw [hm.getHeaderULong])
  replace hret := hself.bind_iff.mp (hlength.bind_iff.mp (hself.bind_iff.mp hret))
  simp only [HTTPMessage.getHeaderValue, hm.transfer_encoding] at hret
  replace hret := hself.bind_iff.mp hret
  simp only [hm.connection, if_true] at hret
  exact not_returns_parseUntilClose h hret

/-- `get()` shows the current octet, whether the connection is open or closed. -/
theorem returns_get_closed {c : Octet} (hat : Socket.delivers.At b (c :: l)) :
    Returns get (b.closed, r) (.ok c) (b.closed, r) := by
  refine returns_prim.mpr ?_
  show (VirtualReadBuffer.get b, (b.closed, r)) = _
  rw [Socket.delivers.get_cons hat]

theorem not_returns_parseWithHeaders {b b₂ : SocketReadBuffer Socket} {r₂ : HTTPResponse}
    {s' : SocketReadBuffer Socket × HTTPResponse} (hm : CloseDelimited r₂.toHTTPMessage)
    (hheaders : Returns (onMessage parseHeaders) (b, r) (.ok {}) (b₂.closed, r₂))
    (hat : Socket.delivers.At b₂ (charLF :: body)) : ¬ Returns parseWithHeaders (b, r) x s' := by
  intro hret
  have hclosed := onClosed_closed hat
  have hget := returns_get_closed (r := r₂) hat
  have hself : Returns self (b₂.closed, r₂) (.ok r₂) (b₂.closed, r₂) := returns_prim.mpr rfl
  have hbody : Returns (liftExcept (HTTPResponse.hasBody r₂.toHTTPMessage)) (b₂.closed, r₂) (.ok true)
      (b₂.closed, r₂) := returns_prim.mpr (by rw [hm.hasBody])
  have hnext : Returns next (b₂.closed, r₂) (.ok .ecOK) (b₂.closed.next.2, r₂) :=
    returns_prim.mpr (by rw [← (next_onClosed hclosed).1]; rfl)
  replace hret := hheaders.bind_iff.mp hret
  rw [ite_default] at hret
  replace hret := hget.bind_iff.mp hret
  rw [if_pos rfl] at hret
  replace hret := hbody.bind_iff.mp (hself.bind_iff.mp hret)
  rw [if_pos rfl] at hret
  replace hret := hnext.bind_iff.mp hret
  simp only [ParseResult.setSystemError_ecOK, ParseResult.ok_default, if_true] at hret
  rw [onMessage, part, returns_zoom] at hret
  obtain ⟨t, ht, -⟩ := hret
  exact hm.not_returns_parseBody (next_onClosed hclosed).2 ht

end CloseDelimited

/-- **A body that reaches up to the end of the connection**, over a plain socket, for every division of the message into
    chunks: while the connection stays open, the parser returns ok with what has arrived as the body. When the peer closes
    the connection, as the header announces, the parser does not return. -/
theorem close_delimited_body (hhead : Grammar.messageHead (Grammar.responseLine {}) text = some (m, body))
    (hm : CloseDelimited m) (chunks : List Str) (bufsize : Nat) (array : Nat → Octet)
    (hchunks : chunks.flatten = text) (hfit : ∀ c ∈ chunks, c ≠ [] ∧ c.length ≤ bufsize) :
    (∃ b, (ofSocket (Socket.ofChunks chunks (.fail .ecEAGAIN)) bufsize array).underflow = (.ok .ecOK, b) ∧
      ∃ b' r, Returns parse (b, {}) (.ok {}) (b', r) ∧ r.headers_ = m.headers_ ∧ r.body_ = body) ∧
    (∃ b, (ofSocket (Socket.ofChunks chunks (.data [])) bufsize array).underflow = (.ok .ecOK, b) ∧
      ∀ x s', ¬ Returns parse (b, {}) x s') := by
  obtain ⟨line, l, kvs, hline, hcr, hsec, rfl⟩ := Grammar.messageHead_eq_some.mp hhead
  have htext : text ≠ [] := by
    rintro rfl
    cases hline
  obtain ⟨c, l, rfl⟩ := List.exists_cons_of_ne_nil (Grammar.responseLine_rest hline)
  have hc : c ≠ charCR := fun heq => hcr (congrArg some heq)
  have hfeeds : Feeds (ofSocket (Socket.ofChunks chunks (.fail .ecEAGAIN)) bufsize array) .ecEAGAIN text :=
    hchunks ▸ feeds_ofSocket array (Socket.yields_ofChunks rfl hfit)
  obtain ⟨herr, hfeeds', hlt⟩ := hfeeds.underflow htext
  have hat := (show Socket.delivers.At _ text from ⟨hfeeds', fun _ => hlt⟩)
  refine ⟨⟨_, Prod.ext herr rfl, ?_⟩, ?_⟩
  · have hrest : Grammar.response {} text =
        some ({ toHTTPMessage := (addHeaders {} kvs).appendAll body, response_line_ := line }, []) := by
      refine Grammar.response_eq_some.mpr ⟨c :: l, hline, ?_⟩
      rw [Grammar.responseRest, Grammar.messageRest, if_neg hcr, hsec]
      show Grammar.responseEnd (addHeaders {} kvs) body = _
      rw [Grammar.responseEnd, hm.hasBody]
      by_cases hbody : body = []
      · simp only [if_pos hbody]
        rw [hbody, appendAll_nil]
      · simp only [if_neg hbody]
        rw [Grammar.responseBody, hm.getHeaderULong]
        simp only [HTTPMessage.getHeaderValue, hm.transfer_encoding, hm.connection, if_true]
    obtain ⟨b', hret, -⟩ := returns_of_eq_some (parse_spec hat htext) hrest
    refine ⟨b', _, hret, headers_appendAll, ?_⟩
    show (addHeaders {} kvs).body_ ++ body = body
    rw [body_addHeaders, List.nil_append]
  · obtain ⟨c₀, l₀, rfl⟩ := List.exists_cons_of_ne_nil htext
    have hunderflow := underflow_closed hfeeds
    rw [herr] at hunderflow
    refine ⟨_, hunderflow, fun x s' hret => ?_⟩
    -- the start line and the headers are read as on the open connection
    obtain ⟨b₁, hline₁, hat₁⟩ : ∃ b₁, Returns parseResponseLine (_, {}) (.ok {}) (b₁, { response_line_ := line }) ∧
        Socket.delivers.At b₁ (c :: l) :=
      returns_of_eq_some (part_spec _ (HTTPResponseLine.parse_spec hat htext)) (by rw [hline]; rfl)
    obtain ⟨b₂, hheaders₂, hat₂⟩ : ∃ b₂, Returns (onMessage parseHeaders) (b₁, { response_line_ := line }) (.ok {})
        (b₂, { toHTTPMessage := addHeaders {} kvs, response_line_ := line }) ∧ Socket.delivers.At b₂ (charLF :: body) :=
      returns_of_eq_some (part_spec _ (parseHeaders_spec hat₁ (by simp))) (by rw [hsec]; rfl)
    have hline₁' := ((follows_responseLine _ _ _ _ _ ⟨_, hat⟩ hline₁).2 ⟨c, l, hat₁⟩).2
    have hheaders₂' := ((follows_headers _ _ _ _ _ ⟨_, hat₁⟩ hheaders₂).2 ⟨_, _, hat₂⟩).2
    replace hret := hline₁'.bind_iff.mp hret
    rw [if_pos ParseResult.ok_default] at hret
    replace hret := (CloseDelimited.returns_get_closed hat₁).bind_iff.mp hret
    rw [if_neg hc] at hret
    exact CloseDelimited.not_returns_parseWithHeaders hm hheaders₂' hat₂ hret

def closing : Str × Str := (lit "connection", lit "close")

theorem messageHead_closing (body : Str) :
    Grammar.messageHead (Grammar.responseLine {})
      (({} : HTTPResponseLine).asString ++ (Grammar.fieldText closing ++ charCR :: charLF :: body)) =
        some (addHeaders {} [closing], body) := by
  have hplain : Grammar.PlainLine closing := by
    refine ⟨?_, by decide, by decide⟩
    show ∀ c ∈ lit "connection", isToken c = true ∧ tolower c = c
    decide +kernel
  have hsec : Grammar.headerSection ([closing].flatMap Grammar.fieldText ++ charCR :: charLF :: body) =
      some ([closing], body) :=
    Grammar.headerSection_fieldText (by simp) (by simpa using hplain)
  rw [List.flatMap_singleton] at hsec
  refine Grammar.messageHead_eq_some.mpr ⟨{}, _, [closing], Grammar.responseLine_asString (by simp), ?_, hsec, rfl⟩
  have hhead : (Grammar.fieldText closing).head? = some 99 := by decide
  rw [List.head?_append, hhead, Option.some_or]
  decide

/-- The start line, the header and the body arrive one by one. -/
theorem close_delimited_body_closing :
    let chunks := [({} : HTTPResponseLine).asString, Grammar.fieldText closing ++ [charCR, charLF], lit "ab"]
    (∃ b, (ofSocket (Socket.ofChunks chunks (.fail .ecEAGAIN)) 99 fun _ => 0).underflow = (.ok .ecOK, b) ∧
      ∃ b' r, Returns parse (b, {}) (.ok {}) (b', r) ∧ r.headers_ = (addHeaders {} [closing]).headers_ ∧
        r.body_ = lit "ab") ∧
    (∃ b, (ofSocket (Socket.ofChunks chunks (.data [])) 99 fun _ => 0).underflow = (.ok .ecOK, b) ∧
      ∀ x s', ¬ Returns parse (b, {}) x s') := by
  intro chunks
  refine close_delimited_body (messageHead_closing (lit "ab")) ⟨by decide, by decide, by decide⟩ chunks 99
    (fun _ => 0) (by simp [chunks]) (by decide)

end HTTPResponse

end Dodo.Network.Http
