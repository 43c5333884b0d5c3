import Dodo.Network.WorkCounter

/-!
# `Network.ListenerRun` — the loops of the listener and of its servers, to their end

Behind its loop the listener waits until `work_q_sz_` is 0, asks all servers to stop, waits for each of them and
closes the connections that are left. Meanwhile the servers go on: the outer loop of `TCPServer::run` waits for work
or for the request to stop, the inner loop takes work items until there are none, and the request is looked at in
between. The counter is 0 before the last item has gone back to the epoll set, so a server may still be in the second
part of `releaseWork` when it is asked to stop.

The state is that of the listener with its work items, where each server is in its loops, and how far the listener is
in `run`. The listener leaves its loop because `stop()` was called or because something was thrown; the events of the
last `epoll_wait` that it has not handled are not looked at any more. A server other than the first one may be asked
to stop before (`cleanStoppedServers`); one that has stopped takes no steps, and stays in the list here.
-/

namespace Dodo.Network

open Lib Lib.Ownership

/-- Where a server is in the loops of `TCPServer::run`. -/
inductive ServerLoop where
  /-- In `waitForActivity`. -/
  | waiting
  /-- In the loop that takes work items. -/
  | popping
  /-- Before `while ( !request_stop_ )`. -/
  | testing
  | stopped
deriving DecidableEq, Repr

structure ServerThread where
  request_stop_ : Bool := false
  loop : ServerLoop := .waiting
deriving DecidableEq, Repr

/-- How far the listener is in `TCPListener::run`. -/
inductive Phase where
  /-- In the loop over connections and events. -/
  | serving
  /-- `while( work_q_sz_ > 0 )` -/
  | draining
  /-- In the loop that asks the servers to stop, before the server with this index. -/
  | asking (i : Nat)
  /-- In the loop that waits for them. -/
  | joining (i : Nat)
  /-- In the loop over `clients_copy`, before these sockets. -/
  | closing (sockets : List (Option Fd))
  | returned
deriving DecidableEq, Repr

/-- The listener and its servers, while `run` is running. -/
structure ListenerRun where
  listener : TCPListener
  /-- The threads of `servers_`. -/
  threads : List ServerThread
  phase : Phase := .serving

/-- The server that takes the step, if it is not the listener. -/
def Action.server : Action → Option Nat
  | .popWork w => some w
  | .handShake w _ => some w
  | .readSocket w _ _ => some w
  | .shutDown w _ => some w
  | .decrement w => some w
  | .release w => some w
  | _ => none

/-- Where the server is after its step: the inner loop ends where `popWork` finds nothing. -/
def ServerLoop.after (l : TCPListener) : Action → ServerLoop
  | .popWork _ => if l.workload_.isEmpty then .testing else .popping
  | _ => .popping

/-- The thread of a server that the listener adds. -/
def Action.started : Action → List ServerThread
  | .addServer => [{}]
  | _ => []

inductive RunAction where
  /-- A step of the listener in its loop, or of a server in its inner loop. -/
  | work (a : Action)
  /-- `cleanStoppedServers` asks a server to stop. -/
  | askIdle (w : Nat)
  /-- `waitForActivity` returns. -/
  | wait (w : Nat)
  /-- A server looks at the request to stop. -/
  | test (w : Nat)
  /-- The listener leaves its loop. -/
  | leave
  /-- The listener goes on behind its loop. -/
  | shutdown

namespace ListenerRun

/-- The thread that takes the step; `none` is the listener. -/
def thread : RunAction → Option Nat
  | .work a => a.server
  | .wait w => some w
  | .test w => some w
  | _ => none

def setThread (r : ListenerRun) (w : Nat) (t : ServerThread) : ListenerRun := { r with threads := r.threads.set w t }

/-- What the listener does next behind its loop. -/
def shutdownStep (r : ListenerRun) : Option ListenerRun :=
  match r.phase with
  | .serving => none
  | .draining => if 0 < r.listener.work_q_sz_ then none else some { r with phase := .asking 0 }
  | .asking i =>
    match r.threads[i]? with
    | some t => some { r.setThread i { t with request_stop_ := true } with phase := .asking (i + 1) }
    | none => some { r with phase := .joining 0 }
  | .joining i =>
    match r.threads[i]? with
    | some t => if t.loop = .stopped then some { r with phase := .joining (i + 1) } else none
    | none =>
      some {
        listener := { r.listener with servers_ := [] }
        threads := []
        phase := .closing (r.listener.clients_.toList.map fun c => c.2.socket) }
  | .closing (socket :: sockets) => do
    let l ← r.listener.closeSocket socket
    some { r with listener := l, phase := .closing sockets }
  | .closing [] => some { r with phase := .returned }
  | .returned => none

/-- The state after an action. It fails where the thread cannot take the step, or follows a bad pointer. -/
def step (r : ListenerRun) : RunAction → Option ListenerRun
  | .work a =>
    match a.server with
    | none =>
      if r.phase = .serving then do
        let l ← r.listener.step a
        some { r with
          listener := l
          threads := r.threads ++ a.started }
      else none
    | some w =>
      match r.threads[w]? with
      | some ⟨request_stop, .popping⟩ => do
        let l ← r.listener.step a
        some ({ r with listener := l }.setThread w ⟨request_stop, .after r.listener a⟩)
      | _ => none
  | .askIdle w =>
    match r.threads[w]? with
    | some t => if r.phase = .serving ∧ w ≠ 0 then some (r.setThread w { t with request_stop_ := true }) else none
    | none => none
  | .wait w =>
    match r.threads[w]? with
    | some ⟨request_stop, .waiting⟩ =>
      -- where the condition does not hold, the time has run out
      if 0 < r.listener.work_q_sz_ ∨ request_stop then some (r.setThread w ⟨request_stop, .popping⟩)
      else some (r.setThread w ⟨request_stop, .testing⟩)
    | _ => none
  | .test w =>
    match r.threads[w]? with
    | some ⟨request_stop, .testing⟩ =>
      some (r.setThread w ⟨request_stop, if request_stop then .stopped else .waiting⟩)
    | _ => none
  | .leave =>
    if r.phase = .serving then
      some { r with listener := { r.listener with poll_sockets := [] }, phase := .draining }
    else none
  | .shutdown => r.shutdownStep

/-- The first servers have been started, and wait. -/
def start (maxconnections servers : Nat) : ListenerRun :=
  { listener := .start maxconnections servers, threads := List.replicate servers {} }

end ListenerRun

/-! ## What the steps of the listener and of the servers change -/

theorem Action.server_of_passing {a : Action} {x : Nat × Stage × List Call × SockState} (h : a.passing = some x) :
    a.server = some x.1 ∧ .close ∉ x.2.2.1 := by
  cases a with
  | handShake w result =>
      obtain rfl := Option.some.inj h
      exact ⟨rfl, by simp⟩
  | readSocket w buffer result =>
      obtain rfl := Option.some.inj h
      refine ⟨rfl, ?_⟩
      cases buffer <;> simp [readSocketCalls]
  | shutDown w result =>
      obtain rfl := Option.some.inj h
      exact ⟨rfl, by simp⟩
  | _ => cases h

namespace TCPListener

variable {l l' : TCPListener} {owner owner' : Owner Ptr Place} {a : Action} {p : Ptr} {w : Nat}

/-- A connection that is gone was closed once, and one that is there was not closed; all of them were pushed once at
    least, when they were accepted. -/
structure Accounted (l : TCPListener) : Prop where
  fresh : ∀ p ∈ l.pushed, p.alloc < l.allocs
  pushed : ∀ p, l.Live p → p ∈ l.pushed
  opened : ∀ fd ∈ l.opened, fd ∈ l.clients_
  closed : ∀ p, l.calls.count (p, .close) = if p ∈ l.pushed ∧ ¬ l.Live p then 1 else 0

namespace Accounted

/-- No connection comes or goes. -/
theorem of_same (h : Accounted l) (hlive : ∀ q, l'.Live q ↔ l.Live q) (hkeys : ∀ fd, fd ∈ l'.clients_ ↔ fd ∈ l.clients_)
    (hpushed : ∀ q, q ∈ l'.pushed ↔ q ∈ l.pushed) (hallocs : l'.allocs = l.allocs) (hopened : l'.opened = l.opened)
    (hcalls : ∀ q, l'.calls.count (q, .close) = l.calls.count (q, .close)) : Accounted l' where
  fresh := by
    intro q hq
    rw [hallocs]
    exact h.fresh q ((hpushed q).mp hq)
  pushed := fun q hq => (hpushed q).mpr (h.pushed q ((hlive q).mp hq))
  opened := by
    intro fd hfd
    rw [hopened] at hfd
    exact (hkeys fd).mpr (h.opened fd hfd)
  closed := by
    intro q
    rw [hcalls, h.closed]
    simp only [hlive, hpushed]

/-- A connection is closed. -/
theorem close (h : Accounted l) (hp : l.Live p) (hclients : l'.clients_ = l.clients_.erase p.fd)
    (hopened : l'.opened = l.opened.erase p.fd) (hcalls : l'.calls = l.calls ++ [(p, .close)])
    (hpushed : l'.pushed = l.pushed) (hallocs : l'.allocs = l.allocs) : Accounted l' where
  fresh := by
    rw [hpushed, hallocs]
    exact h.fresh
  pushed := by
    intro q hq
    rw [hpushed]
    exact h.pushed q ((live_erase hclients).mp hq).2
  opened := by
    intro fd hfd
    rw [hopened, Finset.mem_erase] at hfd
    rw [hclients, Std.ExtTreeMap.mem_erase]
    exact ⟨fun heq => hfd.1 (Std.LawfulEqOrd.eq_of_compare heq).symm, h.opened fd hfd.2⟩
  closed := by
    intro q
    have hlive := live_erase (q := q) hclients
    rw [hcalls, List.count_append, h.closed, hpushed]
    by_cases hq : q = p
    · subst hq
      simp [hp, hlive, h.pushed q hp]
    · -- another connection with the same descriptor is gone already
      have hsame : l'.Live q ↔ l.Live q := by
        rw [hlive]
        exact ⟨And.right, fun hq' => ⟨fun heq => hq (eq_of_live hq' hp heq.symm), hq'⟩⟩
      have hcount : [(p, Call.close)].count (q, .close) = 0 := by
        simp [List.count_eq_zero, hq]
      rw [hcount, Nat.add_zero]
      simp only [hsame]

/-- A new connection. -/
theorem accept {fd : Fd} {c : Client} (h : Accounted l) (hnew : fd ∉ l.clients_) (halloc : c.alloc = l.allocs)
    (hclients : l'.clients_ = l.clients_.insert fd c) (hopened : l'.opened = insert fd l.opened)
    (hcalls : l'.calls = l.calls) (hpushed : l'.pushed = l.pushed ++ [⟨fd, l.allocs⟩])
    (hallocs : l'.allocs = l.allocs + 1) : Accounted l' := by
  have hlive : ∀ q, l'.Live q ↔ q = ⟨fd, l.allocs⟩ ∨ l.Live q := by
    intro q
    rw [live_insert hclients]
    split
    · rename_i heq
      have hdead : ¬ l.Live q := by
        rw [live_iff, ← heq, Std.ExtTreeMap.getElem?_eq_none hnew]
        simp
      rw [halloc, or_iff_left hdead]
      constructor
      · intro ha
        rw [heq, ha]
      · rintro rfl
        rfl
    · rename_i hne
      refine (or_iff_right ?_).symm
      rintro rfl
      exact hne rfl
  refine ⟨?_, ?_, ?_, ?_⟩
  · intro q hq
    rw [hpushed, List.mem_append, List.mem_singleton] at hq
    rw [hallocs]
    rcases hq with hq | rfl
    · exact Nat.lt_succ_of_lt (h.fresh q hq)
    · exact Nat.lt_succ_self _
  · intro q hq
    rw [hpushed, List.mem_append, List.mem_singleton]
    exact ((hlive q).mp hq).symm.imp_left (h.pushed q)
  · intro fd' hfd
    rw [hopened, Finset.mem_insert] at hfd
    rw [hclients, Std.ExtTreeMap.mem_insert]
    rcases hfd with rfl | hfd
    · exact Or.inl Std.ReflCmp.compare_self
    · exact Or.inr (h.opened fd' hfd)
  · intro q
    rw [hcalls, h.closed]
    simp only [hlive, hpushed, List.mem_append, List.mem_singleton]
    by_cases hq : q = ⟨fd, l.allocs⟩
    · have hnot : q ∉ l.pushed := by
        intro hmem
        have := h.fresh q hmem
        rw [hq] at this
        exact Nat.lt_irrefl _ this
      simp [hq ▸ hnot, hq]
    · simp [hq]

end Accounted

/-- Calls that close nothing. -/
theorem count_close_append {made : List Call} (hmade : .close ∉ made) (q : Ptr) :
    (l.calls ++ made.map (p, ·)).count (q, .close) = l.calls.count (q, .close) := by
  have hzero : (made.map (p, ·)).count (q, Call.close) = 0 := by
    rw [List.count_eq_zero]
    intro hmem
    obtain ⟨call, hcall, heq⟩ := List.mem_map.mp hmem
    exact hmade ((Prod.mk.inj heq).2 ▸ hcall)
  rw [List.count_append, hzero, Nat.add_zero]

/-- An entry that is only changed keeps its key. -/
theorem mem_insert_of_mem {fd fd' : Fd} {c : Client} (h : fd ∈ l.clients_) :
    fd' ∈ l.clients_.insert fd c ↔ fd' ∈ l.clients_ := by
  rw [Std.ExtTreeMap.mem_insert]
  refine or_iff_right_of_imp fun heq => ?_
  rwa [← Std.LawfulEqOrd.eq_of_compare heq]

/-- **One step** keeps the account of the connections. -/
theorem Outcome.accounted (howned : Owned owner l) (h : Accounted l) (ho : Outcome l owner a l' owner') :
    Accounted l' := by
  cases ho with
  | rejected | idle => exact h
  | added | reported | popped | decremented =>
      exact h.of_same (fun _ => Iff.rfl) (fun _ => Iff.rfl) (fun _ => Iff.rfl) rfl rfl fun _ => rfl
  | accepted fd unused room =>
      exact h.accept (fun hmem => unused (howned.opened fd hmem)) rfl rfl rfl rfl rfl rfl
  | event fd c events rest next found =>
      have hlive : l.Live ⟨fd, c.alloc⟩ := live_iff.mpr ⟨c, found, rfl⟩
      have hmem : fd ∈ l.clients_ := by
        rw [Std.ExtTreeMap.mem_iff_isSome_getElem?, found]
        rfl
      refine h.of_same (fun q => live_modify found rfl) (fun fd' => mem_insert_of_mem hmem) ?_ rfl rfl fun _ => rfl
      intro q
      show q ∈ l.pushed ++ [_] ↔ q ∈ l.pushed
      rw [List.mem_append, List.mem_singleton, or_iff_left_of_imp]
      rintro rfl
      exact h.pushed _ hlive
  | called a w p stage s made completion c passing serving found flag =>
      exact h.of_same (fun _ => Iff.rfl) (fun _ => Iff.rfl) (fun _ => Iff.rfl) rfl rfl
        (count_close_append (Action.server_of_passing passing).2)
  | skipped a w p stage s made completion c passing serving found flag =>
      exact h.of_same (fun _ => Iff.rfl) (fun _ => Iff.rfl) (fun _ => Iff.rfl) rfl rfl fun _ => rfl
  | closed w p s c releasing found shut =>
      exact h.close (Option.isSome_iff_exists.mpr ⟨c, found⟩) rfl rfl rfl rfl rfl
  | rearmed w p s c releasing found shut =>
      exact h.of_same (fun q => live_modify (deref_eq_some.mp found).1 rfl)
        (fun fd => mem_insert_of_mem (mem_clients_of_deref found)) (fun _ => Iff.rfl) rfl rfl fun _ => rfl

/-- No item is queued, and none is in the hands of a server that has not begun to release it. -/
def Settled (l : TCPListener) : Prop := l.workload_ = [] ∧ l.inHand = []

theorem Settled.not_inHand (h : Settled l) {server : TCPServer} (hserver : l.servers_[w]? = some server) :
    server.unreleased = none := by
  by_contra hne
  obtain ⟨p, hp⟩ := Option.ne_none_iff_exists'.mp hne
  have hmem : p ∈ l.inHand := List.mem_filterMap.mpr ⟨server, List.mem_of_getElem? hserver, hp⟩
  rw [h.2] at hmem
  cases hmem

/-- What a server can still do then: find nothing, and end its `releaseWork`. No callback is called. -/
theorem Outcome.settled (h : Settled l) (hserver : a.server = some w) (ho : Outcome l owner a l' owner') :
    Settled l' ∧ l'.pushed = l.pushed ∧ l'.popped = l.popped ∧
      l'.calls.filter (·.2 ≠ .close) = l.calls.filter (·.2 ≠ .close) := by
  have hreleased : ∀ {v : Nat} {p : Ptr} {work : SocketWork} {l' : TCPListener},
      l.servers_[v]? = some (.releasing p work) → l'.servers_ = l.servers_.set v .waiting → l'.inHand = [] := by
    intro v p work l' hv hset
    have hperm : l'.inHand.Perm l.inHand := perm_inHand hv hset
    rw [h.2] at hperm
    exact hperm.eq_nil
  cases ho with
  | rejected | accepted | added | reported | event => cases hserver
  | idle => exact ⟨h, rfl, rfl, rfl⟩
  | popped v p ps waiting first =>
      rw [h.1] at first
      cases first
  | called a v p stage s made completion c passing serving found flag => cases h.not_inHand serving
  | skipped a v p stage s made completion c passing serving found flag => cases h.not_inHand serving
  | decremented v p s c served found => cases h.not_inHand served
  | closed v p s c releasing found shut =>
      refine ⟨⟨h.1, hreleased releasing rfl⟩, rfl, rfl, ?_⟩
      show (l.calls ++ [(p, Call.close)]).filter _ = _
      simp
  | rearmed v p s c releasing found shut => exact ⟨⟨h.1, hreleased releasing rfl⟩, rfl, rfl, rfl⟩

/-- A step of a server concerns no other server. -/
theorem Outcome.other_servers (hserver : a.server = some w) (ho : Outcome l owner a l' owner') :
    l'.servers_.length = l.servers_.length ∧ ∀ v, v ≠ w → l'.servers_[v]? = l.servers_[v]? := by
  have hset : ∀ {v : Nat} {new : TCPServer}, v = w →
      (l.servers_.set v new).length = l.servers_.length ∧
        ∀ u, u ≠ w → (l.servers_.set v new)[u]? = l.servers_[u]? := by
    rintro v new rfl
    exact ⟨List.length_set, fun u hu => List.getElem?_set_ne (Ne.symm hu)⟩
  cases ho with
  | rejected | accepted | added | reported | event => cases hserver
  | idle => exact ⟨rfl, fun _ _ => rfl⟩
  | popped => exact hset (Option.some.inj hserver)
  | called a v p stage s made completion c passing serving found flag =>
      exact hset (Option.some.inj ((Action.server_of_passing passing).1.symm.trans hserver))
  | skipped a v p stage s made completion c passing serving found flag =>
      exact hset (Option.some.inj ((Action.server_of_passing passing).1.symm.trans hserver))
  | decremented => exact hset (Option.some.inj hserver)
  | closed => exact hset (Option.some.inj hserver)
  | rearmed => exact hset (Option.some.inj hserver)

/-- A step of the listener concerns no server; it may add one. -/
theorem Outcome.servers_listener (hserver : a.server = none) (ho : Outcome l owner a l' owner') :
    l'.servers_ = l.servers_ ++ List.replicate a.started.length .waiting := by
  cases ho with
  | rejected | accepted | reported | event => exact (List.append_nil _).symm
  | added => rfl
  | idle | popped | decremented | closed | rearmed => cases hserver
  | called a v p stage s made completion c passing serving found flag =>
      cases (Action.server_of_passing passing).1.symm.trans hserver
  | skipped a v p stage s made completion c passing serving found flag =>
      cases (Action.server_of_passing passing).1.symm.trans hserver

end TCPListener

end Dodo.Network
