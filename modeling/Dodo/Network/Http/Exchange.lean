import Dodo.Network.Http.Locality
import Dodo.Network.Http.Transmit
import Dodo.Network.SocketSend

/-!
# `Http.Exchange` — a message from `send` to `parse`

A message is sent with `send` over a `Socket`, and what the system accepted of it arrives at the peer, who reads it with
a `SocketReadBuffer` and parses it. The system may accept any part of a buffer at a time, and the octets may arrive in
any pieces. `send` hands over the head and then the body, in two calls of `Socket::send`; when one of them fails, the
peer has got a part of the message. What matters is where that part ends: only behind the head, or behind all of it, is
there something that the parser takes for a message.
-/

namespace Dodo.Network

open Common Lib Lib.Comp

namespace Socket

variable {buf wire wire' : Str} {results rest : List SendResult} {x : Except Exn SystemError} {more : Bool}

end Socket

namespace Http

open HTTPMessage

/-! ## A part of a printed message -/

namespace HTTPMessage

/-- The same message with other octets in its body. -/
def masked (m : HTTPMessage) : HTTPMessage := { m with body_ := m.body_.map fun _ => 1 }

/-- A message that `send` transmits in a readable way: the octets of its body do not matter. -/
def Sendable (m : HTTPMessage) : Prop := m.masked.Encodable

namespace Sendable

variable {m : HTTPMessage}

theorem plainHeaders (h : Sendable m) : PlainHeaders m.headers_ :=
  Encodable.plainHeaders (m := m.masked) h

theorem readHeaders_eq (h : Sendable m) : readHeaders m.headers_ = m.headers_ :=
  Encodable.readHeaders_eq (m := m.masked) h

theorem content_length (h : Sendable m) (hne : m.body_ ≠ []) :
    getHeaderULong { headers_ := m.headers_ } (lit "content-length") = .ok (true, m.body_.length) := by
  have hlength := Encodable.content_length (m := m.masked) h fun hnil => hne (List.map_eq_nil_iff.mp hnil)
  rwa [show m.masked.body_.length = m.body_.length from List.length_map _] at hlength

theorem content_length_ok (h : Sendable m) :
    ∃ x, getHeaderULong { headers_ := m.headers_ } (lit "content-length") = .ok x :=
  Encodable.content_length_ok (m := m.masked) h

end Sendable
end HTTPMessage

namespace Grammar

variable {headers : Headers} {body part lost rest : Str} {m : HTTPMessage}

end Grammar

/-! ## What arrives -/

/-- In whatever pieces the octets `wire` arrive, the parser ends, and it returns ok with the objects of which `Accepted`
    holds, and with no others. -/
def Arrives {ω : Type} (p : Comp (SocketReadBuffer Socket × ω) Exn ParseResult) (o : ω) (wire : Str) (Accepted : ω → Prop) :
    Prop :=
  ∀ (chunks : List Str) (bufsize : Nat) (array : Nat → Octet), chunks.flatten = wire →
    (∀ c ∈ chunks, c ≠ [] ∧ c.length ≤ bufsize) →
    ∃ buffer, (SocketReadBuffer.ofSocket (Socket.ofChunks chunks (.fail .ecEAGAIN)) bufsize array).underflow =
        (.ok .ecOK, buffer) ∧
      (∃ x s', Returns p (buffer, o) x s') ∧ ∀ o', (∃ b', Returns p (buffer, o) (.ok {}) (b', o')) ↔ Accepted o'

namespace HTTPResponse

/-- The status line, the headers and the empty line behind them. -/
def head (r : HTTPResponse) : Str := r.response_line_.asString ++ (headerLines r.headers_ ++ [charCR, charLF])

def send {σ : Type} (socketSend : Str → Bool → Comp σ Exn SystemError) (r : HTTPResponse) :
    Comp σ Exn SystemError := do
  let rc ← socketSend r.head false
  if !rc.ok then pure rc
  else if 0 < r.body_.length then socketSend r.body_ false
  else pure rc

variable {r r' : HTTPResponse} {wire lost : Str}

end HTTPResponse

namespace HTTPRequest

variable {r r' : HTTPRequest} {wire lost : Str}

end HTTPRequest

end Http
end Dodo.Network
