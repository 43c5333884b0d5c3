import Dodo.Network.Stream

/-!
# `Network.TLSSocket` — reading from a TLS connection

`TLSSocket::receive` returns an error code for every result of `SSL_read` that is not positive, also where the peer has
closed the connection. So a `SocketReadBuffer` on a `TLSSocket` is a stream that ends in an error, and the error is
another one than that of a plain socket.
-/

namespace Dodo.Common.SystemError

-- the header gives the first two the same number
def ecSSL_ERROR_NONE : SystemError := ⟨10003⟩
def ecSSL_ERROR_ZERO_RETURN : SystemError := ⟨10003⟩
def ecSSL_ERROR_WANT_READ : SystemError := ⟨10004⟩
def ecSSL_ERROR_WANT_WRITE : SystemError := ⟨10005⟩
def ecSSL_ERROR_WANT_CONNECT : SystemError := ⟨10006⟩
def ecSSL_ERROR_WANT_ACCEPT : SystemError := ⟨10007⟩
def ecSSL_ERROR_WANT_X509_LOOKUP : SystemError := ⟨10008⟩
def ecSSL_ERROR_SYSCALL : SystemError := ⟨10012⟩

end Dodo.Common.SystemError

namespace Dodo.Network

open Common

/-- What `SSL_get_error` returns. -/
inductive SslError where
  | none
  | zeroReturn
  | wantRead
  | wantWrite
  | wantConnect
  | wantAccept
  | wantX509Lookup
  | syscall
  /-- `SSL_ERROR_SSL`, and all the others. -/
  | ssl
deriving DecidableEq, Repr

/-- The code that `receive` returns for it, if it does not throw. -/
def SslError.received : SslError → Option SystemError
  | .none => some .ecSSL_ERROR_NONE
  | .zeroReturn => some .ecSSL_ERROR_ZERO_RETURN
  | .wantRead => some .ecSSL_ERROR_WANT_READ
  | .wantWrite => some .ecSSL_ERROR_WANT_WRITE
  | .wantConnect => some .ecSSL_ERROR_WANT_CONNECT
  | .wantAccept => some .ecSSL_ERROR_WANT_ACCEPT
  | .wantX509Lookup => some .ecSSL_ERROR_WANT_X509_LOOKUP
  | .syscall => some .ecSSL_ERROR_SYSCALL
  | .ssl => Option.none

theorem SslError.received_ne {error : SslError} {e : SystemError} (h : error.received = some e) :
    e ≠ .ecOK ∧ e ≠ .ecEAGAIN := by
  cases error <;> cases h <;> decide

/-- A result of `SSL_read`: some octets, or none and an error. -/
inductive SslRead where
  | data (c : Octet) (l : Str)
  | fail (error : SslError)
deriving DecidableEq, Repr

/-- A connected socket, as the results its `SSL_read` calls will have: those of `pending` in their order, and the error
    `atEnd` ever after. -/
structure TLSSocket where
  pending : List SslRead
  atEnd : SslError
deriving DecidableEq, Repr

namespace TLSSocket

/-- `SSL_read( ssl_, buf, request )`: at most `request` octets; the others stay for the next call. -/
def sslRead (s : TLSSocket) (request : Nat) : SslRead × TLSSocket :=
  match s.pending with
  | [] => (.fail s.atEnd, s)
  | .fail error :: rest => (.fail error, { s with pending := rest })
  | .data c l :: rest =>
    match l.drop (request - 1) with
    | [] => (.data c l, { s with pending := rest })
    | d :: l' => (.data c (l.take (request - 1)), { s with pending := .data d l' :: rest })

/-- `TLSSocket::receive`: the error or exception, and the octets written to the caller's array. -/
def receive (s : TLSSocket) (request : Nat) : Except Exn SystemError × Str × TLSSocket :=
  match s.sslRead request with
  | (.fail error, s') =>
    match error.received with
    | some code => (.ok code, [], s')
    | none => (.error .exception, [], s')
  | (.data c l, s') => (.ok .ecOK, c :: l, s')

instance : VirtualSocket TLSSocket := ⟨receive⟩

/-- A socket that delivers the octets of `chunks`, a chunk at a time. -/
def ofChunks (chunks : List (Octet × Str)) (atEnd : SslError) : TLSSocket :=
  ⟨chunks.map fun c => .data c.1 c.2, atEnd⟩

/-- As long as there are chunks, each `receive` delivers one; then it returns the code of `atEnd`. -/
theorem yields_ofChunks {chunks : List (Octet × Str)} {atEnd : SslError} {e : SystemError} {n : Nat}
    (he : atEnd.received = some e) (h : ∀ c ∈ chunks, c.2.length < n) :
    Yields n e (ofChunks chunks atEnd) (chunks.map fun c => c.1 :: c.2) := by
  induction chunks with
  | nil =>
      refine .nil ?_
      show receive (ofChunks [] atEnd) n = _
      simp [receive, sslRead, ofChunks, he]
  | cons x xs ih =>
      refine .cons (by simp) ?_ (ih fun c hc => h c (by simp [hc]))
      have hlen : x.2.drop (n - 1) = [] := by
        have := h x (by simp)
        exact List.drop_eq_nil_of_le (by omega)
      show receive (ofChunks (x :: xs) atEnd) n = _
      simp [receive, sslRead, ofChunks, hlen]

/-- A new buffer on a TLS connection, behind its first `underflow`. -/
theorem delivers_ofChunks {chunks : List (Octet × Str)} {atEnd : SslError} {e : SystemError} {bufsize : Nat}
    (he : atEnd.received = some e) (buffer : Nat → Octet) (hne : chunks ≠ [])
    (hfit : ∀ c ∈ chunks, c.2.length < bufsize) :
    ∃ b, (SocketReadBuffer.ofSocket (ofChunks chunks atEnd) bufsize buffer).underflow = (.ok .ecOK, b) ∧
      (SocketReadBuffer.delivers (SslError.received_ne he).1).At b (chunks.flatMap fun c => c.1 :: c.2) := by
  have htext : (chunks.map fun c => c.1 :: c.2).flatten ≠ [] := by
    obtain ⟨c, cs, rfl⟩ := List.exists_cons_of_ne_nil hne
    simp
  exact SocketReadBuffer.delivers_ofSocket _ buffer (yields_ofChunks he hfit) htext

end TLSSocket
end Dodo.Network
