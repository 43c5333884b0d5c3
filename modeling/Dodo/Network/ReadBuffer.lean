import Mathlib.Data.List.Basic
import Dodo.Lib.Comp
import Dodo.Common.Text

/-!
# `Network.ReadBuffer` — sockets, and the buffers the parsers read from

`VirtualReadBuffer` gives one octet at a time: `get()` is the current octet and `next()` moves on,
refilling an internal array when it is used up. The three implementations are modelled as they stand:

* `StringReadBuffer` reads from a string and never leaves its last octet;
* `FileReadBuffer` reads a file in pieces of `bufsize_`;
* `SocketReadBuffer` reads whatever `BaseSocket::receive` delivers, at most `bufsize_` octets at a time.

A `char*` array is a function from indices to octets, so that a read behind its end, which the code
does after a failed `next()`, yields whatever is in memory there.
-/

namespace Dodo.Network

open Common Lib

/-! ## Sockets -/

/-- A result of the `recv` system call: octets (none at the end of the stream), or an error number. -/
inductive RecvResult where
  | data (l : Str)
  | fail (errno : SystemError)
deriving DecidableEq, Repr

/-- A connected socket, as the results its `recv` calls will have: those of `pending` in their order,
    and `atEnd` ever after. -/
structure Socket where
  pending : List RecvResult
  atEnd : RecvResult
deriving DecidableEq, Repr

namespace Socket

/-- `::recv( socket_, buf, request, 0 )`: at most `request` octets; the others stay for the next call. -/
def recv (s : Socket) (request : Nat) : RecvResult × Socket :=
  match s.pending with
  | [] =>
    match s.atEnd with
    | .data l => (.data (l.take request), s)
    | .fail errno => (.fail errno, s)
  | .fail errno :: rest => (.fail errno, { s with pending := rest })
  | .data l :: rest =>
    if l.length ≤ request then (.data l, { s with pending := rest })
    else (.data (l.take request), { s with pending := .data (l.drop request) :: rest })

/-- `Socket::receive`: the error or exception, and the octets written to the caller's array (their
    number is `received`, which is 0 on every error). -/
def receive (s : Socket) (request : Nat) : Except Exn SystemError × Str × Socket :=
  match s.recv request with
  | (.fail errno, s') =>
    if errno = .ecEAGAIN ∨ errno = .ecECONNREFUSED ∨ errno = .ecENOTCONN then (.ok errno, [], s')
    else (.error (.systemException errno), [], s')
  | (.data l, s') => (.ok .ecOK, l, s')

end Socket

/-- The `receive` of a `BaseSocket`, which is virtual: each kind of socket has its own. -/
class VirtualSocket (σ : Type) where
  receive : σ → Nat → Except Exn SystemError × Str × σ

instance : VirtualSocket Socket := ⟨Socket.receive⟩

/-! ## The interface -/

/-- `VirtualReadBuffer`: the two operations the parsers use. -/
class VirtualReadBuffer (β : Type) where
  /-- The current octet. -/
  get : β → Except Exn Octet
  /-- Move to the next octet. -/
  next : β → Except Exn SystemError × β

section Operations

variable {β ω : Type} [VirtualReadBuffer β]

/-- `buffer.get()`, in code that works on the buffer and on an object `ω` (its `this`). -/
def get : Comp (β × ω) Exn Octet := .prim (fun s => (VirtualReadBuffer.get s.1, s))

/-- `buffer.next()`. -/
def next : Comp (β × ω) Exn SystemError :=
  .prim (fun s => ((VirtualReadBuffer.next s.1).1, (VirtualReadBuffer.next s.1).2, s.2))

end Operations

/-- `memcpy` of `l` to the start of the array `a`. -/
def fill (l : Str) (a : Nat → Octet) : Nat → Octet := fun i => l.getD i (a i)

/-! ## `StringReadBuffer` -/

structure StringReadBuffer where
  data_ : Str
  idx_ : Nat
deriving DecidableEq, Repr

namespace StringReadBuffer

/-- The constructor. -/
def ofString (data : Str) : StringReadBuffer := ⟨data, 0⟩

/-- `data_.at(idx_)`. -/
def get (b : StringReadBuffer) : Except Exn Octet :=
  match b.data_[b.idx_]? with
  | some c => .ok c
  | none => .error .outOfRange

/-- At the last octet `next()` fails and stays there. On the empty string `length() - 1` wraps around
    to the largest `size_t`, so there it moves on. -/
def next (b : StringReadBuffer) : Except Exn SystemError × StringReadBuffer :=
  if b.data_ ≠ [] ∧ b.data_.length - 1 ≤ b.idx_ then (.ok .ecEAGAIN, b)
  else (.ok .ecOK, { b with idx_ := b.idx_ + 1 })

instance : VirtualReadBuffer StringReadBuffer := ⟨get, next⟩

end StringReadBuffer

/-! ## `FileReadBuffer` -/

structure FileReadBuffer where
  /-- What is still to be read of the file. -/
  file_ : Str
  bufsize_ : Nat
  buffer_ : Nat → Octet
  idx_ : Nat
  read_ : Nat
  underflows_ : Nat

namespace FileReadBuffer

def underflow (b : FileReadBuffer) : SystemError × FileReadBuffer :=
  if b.read_ ≤ b.idx_ then
    let piece := b.file_.take b.bufsize_
    (if piece.length = 0 then .ecEAGAIN else .ecOK,
     { b with file_ := b.file_.drop b.bufsize_, buffer_ := fill piece b.buffer_, read_ := piece.length,
              idx_ := 0, underflows_ := b.underflows_ + 1 })
  else (.ecOK, b)

/-- The constructor on a file that can be opened and holds `content`; `buffer` is the array as it was
    allocated. An empty file makes it throw. -/
def ofFile (content : Str) (bufsize : Nat) (buffer : Nat → Octet) : Except Exn FileReadBuffer :=
  match underflow ⟨content, bufsize, buffer, 0, 0, 0⟩ with
  | (error, b) => if error ≠ .ecOK then .error (.systemException error) else .ok b

def get (b : FileReadBuffer) : Octet := b.buffer_ b.idx_

def next (b : FileReadBuffer) : SystemError × FileReadBuffer := underflow { b with idx_ := b.idx_ + 1 }

instance : VirtualReadBuffer FileReadBuffer :=
  ⟨fun b => .ok b.get, fun b => (.ok b.next.1, b.next.2)⟩

end FileReadBuffer

/-! ## `SocketReadBuffer` -/

structure SocketReadBuffer (σ : Type) where
  socket_ : σ
  bufsize_ : Nat
  buffer_ : Nat → Octet
  idx_ : Nat
  received_ : Nat
  underflows_ : Nat

namespace SocketReadBuffer

variable {σ : Type}

/-- The constructor on a blocking socket; `buffer` is the array as it was allocated. -/
def ofSocket (socket : σ) (bufsize : Nat) (buffer : Nat → Octet) : SocketReadBuffer σ :=
  ⟨socket, bufsize, buffer, 0, 0, 0⟩

variable [VirtualSocket σ]

/-- `received_` is overwritten by every `receive`, `idx_` is reset only when it returned `ecOK`. -/
def underflow (b : SocketReadBuffer σ) : Except Exn SystemError × SocketReadBuffer σ :=
  if b.received_ ≤ b.idx_ then
    match VirtualSocket.receive b.socket_ b.bufsize_ with
    | (error, l, socket) =>
      let b' := { b with socket_ := socket, buffer_ := fill l b.buffer_, received_ := l.length,
                         underflows_ := b.underflows_ + 1 }
      (error, if error = .ok .ecOK then { b' with idx_ := 0 } else b')
  else (.ok .ecOK, b)

def get (b : SocketReadBuffer σ) : Octet := b.buffer_ b.idx_

def next (b : SocketReadBuffer σ) : Except Exn SystemError × SocketReadBuffer σ :=
  underflow { b with idx_ := b.idx_ + 1 }

instance : VirtualReadBuffer (SocketReadBuffer σ) := ⟨fun b => .ok b.get, next⟩

end SocketReadBuffer
end Dodo.Network
