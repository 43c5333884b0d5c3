import Mathlib.Data.Finset.Insert
import Mathlib.Data.Finset.Erase
import Mathlib.Data.List.Basic
import Dodo.Common.SystemError
import Dodo.Lib.Machine

/-!
# `Network.TCPListener` — the listener, its work queue and its servers

The listener thread accepts connections and puts the sockets on which something happens into `workload_`;
`TCPServer` threads take them out, call `handShake`, `readSocket` and `shutDown`, and give them back. One
state holds what they share, what each thread is about to do, and what the kernel knows: the descriptors
that are open and those in the epoll set. `clientmutex_` makes `pushWork`, `popWork` and the second part of
`releaseWork` single steps. An accept is one step with its `pushWork`: nobody else can get at the new entry
of `clients_` before it is pushed. The model ends where `stop()` is called.
-/

namespace Dodo.Network

open Common

/-! ## Socket states and events -/

/-- `TCPListener::SockState`, a set of flags. -/
abbrev SockState := BitVec 3

namespace SockState

def None : SockState := 0
def New : SockState := 1
def Read : SockState := 2
def Shut : SockState := 4

/-- `operator&`. -/
def has (self other : SockState) : Bool := self &&& other != 0

end SockState

/-- A file descriptor. -/
abbrev Fd := Nat

/-- The events that `epoll_wait` reports on a descriptor; there is one at least. -/
structure Events where
  epollin : Bool
  epollpri : Bool
  epollrdhup : Bool
  epollerr : Bool
  epollhup : Bool
  reported : (epollin || epollpri || epollrdhup || epollerr || epollhup) = true

/-- `combined_state`, in the loop over `poll_sockets`. -/
def Events.combinedState (e : Events) : SockState :=
  (if e.epollin || e.epollpri then .Read else .None) |||
    (if e.epollrdhup || e.epollerr || e.epollhup then .Shut else .None)

theorem Events.combinedState_has_New (e : Events) : e.combinedState.has .New = false := by
  obtain ⟨i, p, r, e, h, hreported⟩ := e
  revert i p r e h
  decide

theorem Events.combinedState_ne_None (e : Events) : e.combinedState ≠ .None := by
  obtain ⟨i, p, r, e, h, hreported⟩ := e
  revert i p r e h
  decide

/-! ## The state -/

/-- `TCPListener::SocketWork`; a socket is given by its descriptor, `none` is the null pointer. -/
structure SocketWork where
  socket : Option Fd := none
  state : SockState := .New
deriving DecidableEq, Repr

/-- An entry of `clients_`. The number of its allocation tells it from other entries that have the same
    descriptor at other times. -/
structure Client extends SocketWork where
  alloc : Nat
deriving DecidableEq, Repr

/-- A pointer to an entry of `clients_`. -/
structure Ptr where
  fd : Fd
  alloc : Nat
deriving DecidableEq, Repr

/-- The parts of serving a work item, each under its own test of `sockmap->state`. -/
inductive Stage where
  | handShake
  | readSocket
  | shutDown
deriving DecidableEq, Repr

/-- What is called, or done, on a connection. -/
inductive Call where
  | handShake
  | readSocket
  | shutDown
  | close
deriving DecidableEq, Repr

/-- Where a `TCPServer` thread is in `run`. -/
inductive TCPServer where
  /-- It has no work item. -/
  | waiting
  /-- It is about to test `sockmap->state` for the stage. -/
  | serving (sockmap : Ptr) (stage : Stage) (completion_state : SockState)
  /-- It is about to call `releaseWork`. -/
  | served (sockmap : Ptr) (completion_state : SockState)
  /-- It is in `releaseWork( work )`, where the counter has been decremented. -/
  | releasing (sockmap : Ptr) (work : SocketWork)
deriving DecidableEq, Repr

/-- The item a server holds between `popWork` and the end of `releaseWork`. -/
def TCPServer.sockmap : TCPServer → Option Ptr
  | waiting => none
  | serving p _ _ => some p
  | served p _ => some p
  | releasing p _ => some p

structure TCPListener where
  maxconnections : Nat
  clients_ : Std.ExtTreeMap Fd Client compare := ∅
  workload_ : List Ptr := []
  work_q_sz_ : BitVec 64 := 0
  servers_ : List TCPServer := []
  /-- The events of the last `epoll_wait` that the listener has not handled yet. -/
  poll_sockets : List (Fd × Events) := []
  /-- The kernel: descriptors that are open. -/
  opened : Finset Fd := ∅
  /-- The kernel: descriptors that were added to the epoll set and not deleted from it. -/
  epoll : Finset Fd := ∅
  /-- The number of allocations of entries so far. -/
  allocs : Nat := 0
  /-- All items pushed so far, all items popped so far, and all calls made so far, the oldest first. -/
  pushed : List Ptr := []
  popped : List Ptr := []
  calls : List (Ptr × Call) := []

namespace TCPListener

/-- `clients_[fd]` makes an entry with default values where there is none. -/
def clientAt (l : TCPListener) (fd : Fd) : Client := l.clients_[fd]?.getD { alloc := l.allocs }

/-- Write the entry `clients_[fd]`. -/
def store (l : TCPListener) (fd : Fd) (c : Client) : TCPListener :=
  { l with clients_ := l.clients_.insert fd c, allocs := max l.allocs (c.alloc + 1) }

/-- `&clients_[fd]`. -/
def ptr (l : TCPListener) (fd : Fd) : Ptr := ⟨fd, (l.clientAt fd).alloc⟩

/-- The entry a pointer points to, if it still exists. -/
def deref (l : TCPListener) (p : Ptr) : Option Client := l.clients_[p.fd]?.filter (·.alloc = p.alloc)

/-! ## The functions of the listener

They fail (`none`) on a null pointer, and where `epoll_ctl` fails: a descriptor is added twice, or one is
deleted that is not there. -/

def pollAdd (l : TCPListener) (socket : Option Fd) : Option TCPListener := do
  let fd ← socket
  if fd ∈ l.epoll then none else some { l with epoll := insert fd l.epoll }

def pollDel (l : TCPListener) (socket : Option Fd) : Option TCPListener := do
  let fd ← socket
  if fd ∈ l.epoll then some { l with epoll := l.epoll.erase fd } else none

/-- `pushWork( fd, state )`. -/
def pushWork (l : TCPListener) (fd : Fd) (state : SockState) : Option TCPListener :=
  let l := l.store fd { l.clientAt fd with state := (l.clientAt fd).state ||| state }
  let l := { l with
    workload_ := l.workload_ ++ [l.ptr fd]
    work_q_sz_ := l.work_q_sz_ + 1
    pushed := l.pushed ++ [l.ptr fd] }
  if state.has .New then some l else l.pollDel (l.clientAt fd).socket

/-- `pushWork( work )`: the same with the descriptor of the socket. -/
def pushSocketWork (l : TCPListener) (work : SocketWork) : Option TCPListener := do
  let fd ← work.socket
  l.pushWork fd work.state

def popWork (l : TCPListener) : Option Ptr × TCPListener :=
  match l.workload_ with
  | [] => (none, l)
  | p :: ps => (some p, { l with workload_ := ps, popped := l.popped ++ [p] })

/-- `closeSocket( socket )`; closing a descriptor also takes it out of the epoll set. -/
def closeSocket (l : TCPListener) (socket : Option Fd) : Option TCPListener := do
  let fd ← socket
  some { l with
    clients_ := l.clients_.erase fd
    opened := l.opened.erase fd
    epoll := l.epoll.erase fd
    calls := l.calls ++ [(l.ptr fd, .close)] }

/-- The body of the accept loop, for a new descriptor. -/
def acceptClient (l : TCPListener) (fd : Fd) : Option TCPListener :=
  -- the new socket is closed again
  if l.maxconnections ≤ l.clients_.size then some l
  else
    let l := { l with opened := insert fd l.opened }
    let l := l.store fd { l.clientAt fd with socket := some fd, state := .New }
    l.pushSocketWork ⟨some fd, .New⟩

/-- The loop over `poll_sockets`, for the event on a client. -/
def handleEvent (l : TCPListener) (fd : Fd) (events : Events) : Option TCPListener :=
  if events.combinedState ≠ .None then l.pushWork fd events.combinedState else some l

/-- `releaseWork( work )` behind the decrement of `work_q_sz_`. -/
def finishWork (l : TCPListener) (work : SocketWork) : Option TCPListener :=
  if work.state.has .Shut then l.closeSocket work.socket
  else do
    let fd ← work.socket
    let l ← l.pollAdd work.socket
    some (l.store fd { l.clientAt fd with state := (l.clientAt fd).state ^^^ work.state })

end TCPListener

/-! ## The functions of the servers -/

/-- How a callback ends. -/
inductive Ended (α : Type) where
  | returned (result : α)
  | threw
deriving DecidableEq, Repr

namespace Stage

/-- The flag that is tested before the stage. -/
def flag : Stage → SockState
  | handShake => .New
  | readSocket => .Read
  | shutDown => .Shut

/-- What the server does after the stage. -/
def after : Stage → Ptr → SockState → TCPServer
  | handShake, p, c => .serving p readSocket c
  | readSocket, p, c => .serving p shutDown c
  | shutDown, p, c => .served p c

end Stage

/-- What `handShake` adds to `completion_state`. -/
def handShakeDone : Ended Bool → SockState
  | .returned true => .New
  | .returned false => .New ||| .Shut
  | .threw => .None

/-- What `readBuffer` and `readSocket` add to `completion_state`. -/
def readSocketDone : Ended SystemError → Ended SystemError → SockState
  | .returned buffer, .returned error =>
    if buffer = .ecOK ∧ (error = .ecOK ∨ error = .ecEAGAIN) then .Read else .Read ||| .Shut
  | _, _ => .None

/-- `readSocket` is called where `readBuffer` returns, whatever it returns. -/
def readSocketCalls : Ended SystemError → List Call
  | .returned _ => [.readSocket]
  | .threw => []

/-- What `shutDown` adds to `completion_state`. -/
def shutDownDone : Ended Unit → SockState
  | .returned _ => .Shut
  | .threw => .None

/-! ## Steps -/

/-- The steps of the listener and of the server threads, each with what its environment decides. -/
inductive Action where
  /-- The kernel gives the listener a new connection. -/
  | accept (fd : Fd)
  /-- The listener adds a server. -/
  | addServer
  /-- `epoll_wait` returns. -/
  | epollWait (events : List (Fd × Events))
  /-- The listener handles the next event. -/
  | event
  | popWork (server : Nat)
  | handShake (server : Nat) (result : Ended Bool)
  | readSocket (server : Nat) (buffer result : Ended SystemError)
  | shutDown (server : Nat) (result : Ended Unit)
  /-- `releaseWork` decrements the counter. -/
  | decrement (server : Nat)
  /-- `releaseWork` goes on to its end. -/
  | release (server : Nat)

namespace TCPListener

/-- A server passes the stage: if the flag is set, it makes the calls and adds to `completion_state`. -/
def pass (l : TCPListener) (w : Nat) (stage : Stage) (made : List Call) (completion : SockState) :
    Option TCPListener :=
  match l.servers_[w]? with
  | some (.serving p now c) =>
    if now = stage then do
      let client ← l.deref p
      if client.state.has stage.flag then
        some { l with
          servers_ := l.servers_.set w (stage.after p (c ||| completion))
          calls := l.calls ++ made.map (p, ·) }
      else some { l with servers_ := l.servers_.set w (stage.after p c) }
    else none
  | _ => none

/-- The state after an action. It fails where the thread is not there, where the kernel does not do such a
    thing, and where the code follows a pointer to an entry that is gone. -/
def step (l : TCPListener) : Action → Option TCPListener
  -- the kernel gives a new connection a descriptor that is not in use
  | .accept fd => if fd ∈ l.opened then none else l.acceptClient fd
  | .addServer => some { l with servers_ := l.servers_ ++ [.waiting] }
  -- a descriptor is armed until it is reported, and reported once
  | .epollWait events =>
    if l.poll_sockets.isEmpty ∧ (events.map Prod.fst).Nodup ∧ ∀ e ∈ events, e.1 ∈ l.epoll then
      some { l with poll_sockets := events }
    else none
  | .event =>
    match l.poll_sockets with
    | [] => none
    | (fd, events) :: rest => { l with poll_sockets := rest }.handleEvent fd events
  | .popWork w =>
    match l.servers_[w]? with
    | some .waiting =>
      match l.popWork with
      | (some p, l) => some { l with servers_ := l.servers_.set w (.serving p .handShake .None) }
      | (none, l) => some l
    | _ => none
  | .handShake w result => l.pass w .handShake [.handShake] (handShakeDone result)
  | .readSocket w buffer result =>
    l.pass w .readSocket (readSocketCalls buffer) (readSocketDone buffer result)
  | .shutDown w result => l.pass w .shutDown [.shutDown] (shutDownDone result)
  | .decrement w =>
    match l.servers_[w]? with
    | some (.served p c) => do
      let client ← l.deref p
      some { l with
        work_q_sz_ := l.work_q_sz_ - 1
        servers_ := l.servers_.set w (.releasing p ⟨client.socket, c⟩) }
    | _ => none
  | .release w =>
    match l.servers_[w]? with
    | some (.releasing _ work) => do
      let l ← l.finishWork work
      some { l with servers_ := l.servers_.set w .waiting }
    | _ => none

/-- The listener with its first servers, before the first connection. -/
def start (maxconnections servers : Nat) : TCPListener :=
  { maxconnections := maxconnections, servers_ := List.replicate servers .waiting }

end TCPListener
end Dodo.Network
