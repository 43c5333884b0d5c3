import Dodo.Network.ListenerRun

/-!
# `Network.ListenerShutdown` — what is left when `TCPListener::run` comes to its end

When the wait for `work_q_sz_` is over, the queue is empty and no server has an item that it has not begun to release.
From then on a server can only end its `releaseWork` and stop. So the copy of `clients_` that the listener makes when
all of them have stopped holds the connections that are left, and closing them leaves none.
-/

namespace Dodo.Network

open Lib Lib.Ownership

/-! ## The invariant -/

namespace ListenerRun

variable {r r' : ListenerRun} {a : RunAction} {w : Nat} {t t' : ServerThread} {phase : Phase}

/-- What holds as long as there are servers. -/
structure WithServers (r : ListenerRun) : Prop where
  owned : ∃ owner, TCPListener.Owned owner r.listener
  counted : ∃ begun, TCPListener.Counted r.listener begun
  bound : r.listener.maxconnections < 2 ^ 64
  length : r.threads.length = r.listener.servers_.length
  /-- A server with a work item is in its inner loop. -/
  busy : ∀ (w : Nat) (server : TCPServer), r.listener.servers_[w]? = some server → server ≠ .waiting →
    ∃ request_stop, r.threads[w]? = some ⟨request_stop, .popping⟩
  asked : ∀ (w : Nat) (t : ServerThread), r.threads[w]? = some t → t.loop = .stopped → t.request_stop_ = true

/-- The first server has not been asked to stop. -/
def FirstRuns (r : ListenerRun) : Prop := ∃ t, r.threads[0]? = some t ∧ t.request_stop_ = false

/-- What holds when all servers are gone, with the sockets that are still to be closed. -/
structure Closing (r : ListenerRun) (sockets : List (Option Fd)) : Prop where
  threads : r.threads = []
  servers : r.listener.servers_ = []
  workload : r.listener.workload_ = []
  popped : r.listener.popped = r.listener.pushed
  epoll : ∀ fd ∈ r.listener.epoll, fd ∈ r.listener.clients_
  /-- They are those of the connections that are left, each one once. -/
  sockets : ∃ fds : List Fd, sockets = fds.map some ∧ fds.Nodup ∧ ∀ fd, fd ∈ fds ↔ fd ∈ r.listener.clients_

/-- What holds in each phase. -/
def InPhase (r : ListenerRun) : Phase → Prop
  | .serving => r.WithServers ∧ r.FirstRuns
  | .draining => r.WithServers ∧ r.FirstRuns
  | .asking i => r.WithServers ∧ r.listener.Settled ∧
      ∀ (w : Nat) (t : ServerThread), w < i → r.threads[w]? = some t → t.request_stop_ = true
  | .joining i => r.WithServers ∧ r.listener.Settled ∧
      (∀ (w : Nat) (t : ServerThread), r.threads[w]? = some t → t.request_stop_ = true) ∧
      ∀ (w : Nat) (t : ServerThread), w < i → r.threads[w]? = some t → t.loop = .stopped
  | .closing sockets => r.Closing sockets
  | .returned => r.Closing []

structure Sound (r : ListenerRun) : Prop where
  accounted : r.listener.Accounted
  inPhase : r.InPhase r.phase

/-! ### Steps of one thread -/

theorem getElem?_setThread (h : r.threads[w]? = some t) (t' : ServerThread) (v : Nat) :
    (r.setThread w t').threads[v]? = if w = v then some t' else r.threads[v]? := by
  have hlt := (List.getElem?_eq_some_iff.mp h).1
  rw [setThread, List.getElem?_set, if_pos hlt]

/-- A server goes on in its loops; outside of the inner loop it has no work item. -/
theorem WithServers.setThread (h : r.WithServers) (hw : r.threads[w]? = some t)
    (hidle : t'.loop ≠ .popping → ∀ server, r.listener.servers_[w]? = some server → server = .waiting)
    (hasked : t'.loop = .stopped → t'.request_stop_ = true) : (r.setThread w t').WithServers where
  owned := h.owned
  counted := h.counted
  bound := h.bound
  length := by
    rw [ListenerRun.setThread, List.length_set]
    exact h.length
  busy := by
    intro v server hv hbusy
    rw [getElem?_setThread hw]
    by_cases hvw : w = v
    · subst hvw
      rw [if_pos rfl]
      by_cases hloop : t'.loop = .popping
      · exact ⟨t'.request_stop_, by rw [← hloop]⟩
      · exact absurd (hidle hloop server hv) hbusy
    · rw [if_neg hvw]
      exact h.busy v server hv hbusy
  asked := by
    intro v t'' hv
    rw [getElem?_setThread hw] at hv
    split at hv
    · obtain rfl := Option.some.inj hv
      exact hasked
    · exact h.asked v t'' hv

/-- A server that is not in its inner loop has no work item. -/
theorem WithServers.idle (h : r.WithServers) (hw : r.threads[w]? = some t) (hloop : t.loop ≠ .popping)
    {server : TCPServer} (hserver : r.listener.servers_[w]? = some server) : server = .waiting := by
  by_contra hbusy
  obtain ⟨request_stop, ht⟩ := h.busy w server hserver hbusy
  rw [hw] at ht
  obtain rfl := Option.some.inj ht
  exact hloop rfl

/-- A thread that keeps its request, and does not come back once it has stopped. -/
theorem InPhase.setThread (h : r.InPhase phase) (hw : r.threads[w]? = some t)
    (hrequest : t'.request_stop_ = t.request_stop_) (hrunning : t.loop ≠ .stopped)
    (hidle : t'.loop ≠ .popping → ∀ server, r.listener.servers_[w]? = some server → server = .waiting)
    (hasked : t'.loop = .stopped → t'.request_stop_ = true) : (r.setThread w t').InPhase phase := by
  have hfirst : r.FirstRuns → (r.setThread w t').FirstRuns := by
    rintro ⟨t₀, ht₀, hnot⟩
    unfold FirstRuns
    rw [getElem?_setThread hw]
    by_cases hw0 : w = 0
    · subst hw0
      rw [hw] at ht₀
      obtain rfl := Option.some.inj ht₀
      exact ⟨t', if_pos rfl, hrequest.trans hnot⟩
    · exact ⟨t₀, (if_neg hw0).trans ht₀, hnot⟩
  have hrequests : ∀ (P : Nat → Prop), (∀ v t, P v → r.threads[v]? = some t → t.request_stop_ = true) →
      ∀ v t, P v → (r.setThread w t').threads[v]? = some t → t.request_stop_ = true := by
    intro P hall v t'' hv hget
    rw [getElem?_setThread hw] at hget
    split at hget
    · rename_i heq
      subst heq
      obtain rfl := Option.some.inj hget
      rw [hrequest]
      exact hall w t hv hw
    · exact hall v t'' hv hget
  cases phase with
  | serving =>
      exact ⟨h.1.setThread hw hidle hasked, hfirst h.2⟩
  | draining =>
      exact ⟨h.1.setThread hw hidle hasked, hfirst h.2⟩
  | asking i =>
      exact ⟨h.1.setThread hw hidle hasked, h.2.1, hrequests (· < i) h.2.2⟩
  | joining i =>
      obtain ⟨hwith, hsettled, hall, hstopped⟩ := h
      refine ⟨hwith.setThread hw hidle hasked, hsettled, ?_, ?_⟩
      · intro v t'' hget
        exact hrequests (fun _ => True) (fun v t _ => hall v t) v t'' trivial hget
      · intro v t'' hv hget
        rw [getElem?_setThread hw] at hget
        split at hget
        · rename_i heq
          subst heq
          exact absurd (hstopped w t hv hw) hrunning
        · exact hstopped v t'' hv hget
  | closing sockets =>
      rw [h.threads] at hw
      cases hw
  | returned =>
      rw [h.threads] at hw
      cases hw

/-- The servers and their items change, and no thread moves. -/
theorem WithServers.of_outcome {a : Action} {l' : TCPListener} {owner owner' : Owner Ptr Place} {request_stop : Bool}
    (h : r.WithServers) (howned : TCPListener.Owned owner r.listener) (hserver : a.server = some w)
    (hw : r.threads[w]? = some ⟨request_stop, .popping⟩) (ho : TCPListener.Outcome r.listener owner a l' owner') :
    WithServers { r with listener := l' } := by
  obtain ⟨begun, hcounted⟩ := h.counted
  obtain ⟨hlength, hothers⟩ := ho.other_servers hserver
  refine ⟨⟨owner', ho.owned howned⟩, ⟨_, ho.counted howned hcounted⟩, ?_, h.length.trans hlength.symm, ?_, h.asked⟩
  · rw [ho.maxconnections_eq]
    exact h.bound
  · intro v server hv hbusy
    by_cases hvw : v = w
    · subst hvw
      exact ⟨request_stop, hw⟩
    · exact h.busy v server (hothers v hvw ▸ hv) hbusy

theorem InPhase.of_outcome {a : Action} {l' : TCPListener} {owner owner' : Owner Ptr Place} {request_stop : Bool}
    (h : r.InPhase phase) (howned : TCPListener.Owned owner r.listener) (hserver : a.server = some w)
    (hw : r.threads[w]? = some ⟨request_stop, .popping⟩) (ho : TCPListener.Outcome r.listener owner a l' owner') :
    InPhase { r with listener := l' } phase := by
  cases phase with
  | serving =>
      exact ⟨h.1.of_outcome howned hserver hw ho, h.2⟩
  | draining =>
      exact ⟨h.1.of_outcome howned hserver hw ho, h.2⟩
  | asking i =>
      exact ⟨h.1.of_outcome howned hserver hw ho, (ho.settled h.2.1 hserver).1, h.2.2⟩
  | joining i =>
      exact ⟨h.1.of_outcome howned hserver hw ho, (ho.settled h.2.1 hserver).1, h.2.2⟩
  | closing sockets =>
      rw [h.threads] at hw
      cases hw
  | returned =>
      rw [h.threads] at hw
      cases hw

/-- As long as there is a thread, there are servers. -/
theorem InPhase.withServers (h : r.InPhase phase) (hw : r.threads[w]? = some t) : r.WithServers := by
  cases phase with
  | serving | draining | asking i | joining i =>
      exact h.1
  | closing sockets =>
      rw [h.threads] at hw
      cases hw
  | returned =>
      rw [h.threads] at hw
      cases hw

/-- The inner loop ends where there is nothing to take, and the server has no work item then. -/
theorem waiting_of_after_ne {a : Action} {l l' : TCPListener} {owner owner' : Owner Ptr Place}
    (hserver : a.server = some w) (ho : TCPListener.Outcome l owner a l' owner')
    (hloop : ServerLoop.after l a ≠ .popping) : l' = l ∧ l.servers_[w]? = some .waiting ∧ l.workload_ = [] := by
  cases ho with
  | idle v waiting empty =>
      obtain rfl := Option.some.inj hserver
      exact ⟨rfl, waiting, empty⟩
  | popped v p ps waiting first => exact absurd (by simp [ServerLoop.after, first]) hloop
  | rejected | accepted | added | reported | event | decremented | closed | rearmed => exact absurd rfl hloop
  | called a v p stage s made completion c passing serving found flag =>
      cases a <;> first | exact absurd rfl hloop | cases passing
  | skipped a v p stage s made completion c passing serving found flag =>
      cases a <;> first | exact absurd rfl hloop | cases passing

theorem after_ne_stopped (l : TCPListener) (a : Action) : ServerLoop.after l a ≠ .stopped := by
  cases a <;> simp only [ServerLoop.after, ne_eq, reduceCtorEq, not_false_eq_true]
  split <;> nofun

/-- A step of a server in its inner loop. -/
theorem step_work_server {a : Action} (hserver : a.server = some w) (hstep : r.step (.work a) = some r') :
    ∃ request_stop l', r.threads[w]? = some ⟨request_stop, .popping⟩ ∧ r.listener.step a = some l' ∧
      r' = setThread { r with listener := l' } w ⟨request_stop, .after r.listener a⟩ := by
  simp only [step, hserver] at hstep
  split at hstep
  · rename_i request_stop hw
    obtain ⟨l', hl', hr'⟩ := Option.bind_eq_some_iff.mp hstep
    exact ⟨request_stop, l', hw, hl', (Option.some.inj hr').symm⟩
  · cases hstep

theorem Sound.work_server {a : Action} (h : r.Sound) (hserver : a.server = some w)
    (hstep : r.step (.work a) = some r') : r'.Sound := by
  obtain ⟨request_stop, l', hw, hl', rfl⟩ := step_work_server hserver hstep
  obtain ⟨owner, howned⟩ := (h.inPhase.withServers hw).owned
  obtain ⟨owner', ho⟩ := TCPListener.outcome_of_step howned hl'
  refine ⟨ho.accounted howned h.accounted, ?_⟩
  refine InPhase.setThread (r := { r with listener := l' }) (h.inPhase.of_outcome howned hserver hw ho) hw rfl ?_ ?_ ?_
  · nofun
  · intro hloop server hv
    obtain ⟨rfl, hwaiting, -⟩ := waiting_of_after_ne hserver ho hloop
    exact Option.some.inj (hv.symm.trans hwaiting)
  · intro hstopped
    exact absurd hstopped (after_ne_stopped r.listener a)

/-- A step of the listener in its loop. -/
theorem Sound.work_listener {a : Action} (h : r.Sound) (hserver : a.server = none)
    (hstep : r.step (.work a) = some r') : r'.Sound := by
  simp only [step, hserver] at hstep
  split at hstep
  · rename_i hphase
    obtain ⟨l', hl', hr'⟩ := Option.bind_eq_some_iff.mp hstep
    obtain rfl := Option.some.inj hr'
    have hin := h.inPhase
    rw [hphase] at hin
    obtain ⟨hwith, t₀, ht₀, hnot⟩ := hin
    obtain ⟨owner, howned⟩ := hwith.owned
    obtain ⟨begun, hcounted⟩ := hwith.counted
    obtain ⟨owner', ho⟩ := TCPListener.outcome_of_step howned hl'
    have hservers := ho.servers_listener hserver
    have hstarted : ∀ t ∈ a.started, t = {} := by cases a <;> simp [Action.started]
    have hthread : ∀ {v : Nat} {t : ServerThread}, (r.threads ++ a.started)[v]? = some t →
        r.threads[v]? = some t ∨ t = {} := by
      intro v t hv
      rw [List.getElem?_append] at hv
      split at hv
      · exact Or.inl hv
      · exact Or.inr (hstarted t (List.mem_of_getElem? hv))
    refine ⟨ho.accounted howned h.accounted, ?_⟩
    show InPhase _ r.phase
    rw [hphase]
    refine ⟨⟨⟨owner', ho.owned howned⟩, ⟨_, ho.counted howned hcounted⟩, ?_, ?_, ?_, ?_⟩, t₀, ?_, hnot⟩
    · show l'.maxconnections < _
      rw [ho.maxconnections_eq]
      exact hwith.bound
    · show (r.threads ++ a.started).length = l'.servers_.length
      rw [hservers, List.length_append, List.length_append, List.length_replicate, hwith.length]
    · intro v server hv hbusy
      rw [hservers, List.getElem?_append] at hv
      split at hv
      · rename_i hlt
        obtain ⟨request_stop, ht⟩ := hwith.busy v server hv hbusy
        exact ⟨request_stop, by rw [List.getElem?_append_left (hwith.length ▸ hlt), ht]⟩
      · rw [List.getElem?_replicate] at hv
        split at hv
        · exact absurd (Option.some.inj hv).symm hbusy
        · cases hv
    · intro v t hv hstopped
      rcases hthread hv with hv | rfl
      · exact hwith.asked v t hv hstopped
      · cases hstopped
    · rw [List.getElem?_append_left (List.getElem?_eq_some_iff.mp ht₀).1, ht₀]
  · cases hstep

/-- A server is asked to stop. -/
theorem WithServers.ask (h : r.WithServers) (hw : r.threads[w]? = some t) :
    (r.setThread w { t with request_stop_ := true }).WithServers :=
  h.setThread hw (fun hloop _ hserver => h.idle hw hloop hserver) fun _ => rfl

theorem Sound.askIdle (h : r.Sound) (hstep : r.step (.askIdle w) = some r') : r'.Sound := by
  simp only [step] at hstep
  split at hstep
  · rename_i t hw
    split at hstep
    · rename_i hguard
      obtain ⟨hphase, hne⟩ := hguard
      obtain rfl := Option.some.inj hstep
      have hin := h.inPhase
      rw [hphase] at hin
      obtain ⟨hwith, t₀, ht₀, hnot⟩ := hin
      refine ⟨h.accounted, ?_⟩
      show InPhase _ r.phase
      rw [hphase]
      refine ⟨hwith.ask hw, t₀, ?_, hnot⟩
      rw [getElem?_setThread hw, if_neg hne, ht₀]
    · cases hstep
  · cases hstep

theorem step_wait (hstep : r.step (.wait w) = some r') :
    ∃ request_stop, r.threads[w]? = some ⟨request_stop, .waiting⟩ ∧
      r' = r.setThread w ⟨request_stop,
        if 0 < r.listener.work_q_sz_ ∨ request_stop = true then .popping else .testing⟩ := by
  simp only [step] at hstep
  split at hstep
  · rename_i request_stop hw
    refine ⟨request_stop, hw, ?_⟩
    split at hstep
    · rename_i hactive
      rw [if_pos hactive]
      exact (Option.some.inj hstep).symm
    · rename_i hactive
      rw [if_neg hactive]
      exact (Option.some.inj hstep).symm
  · cases hstep

theorem step_test (hstep : r.step (.test w) = some r') :
    ∃ request_stop, r.threads[w]? = some ⟨request_stop, .testing⟩ ∧
      r' = r.setThread w ⟨request_stop, if request_stop then .stopped else .waiting⟩ := by
  simp only [step] at hstep
  split at hstep
  · rename_i request_stop hw
    exact ⟨request_stop, hw, (Option.some.inj hstep).symm⟩
  · cases hstep

theorem Sound.wait (h : r.Sound) (hstep : r.step (.wait w) = some r') : r'.Sound := by
  obtain ⟨request_stop, hw, rfl⟩ := step_wait hstep
  have hwith := h.inPhase.withServers hw
  refine ⟨h.accounted, h.inPhase.setThread hw rfl nofun (fun _ server => hwith.idle hw nofun) ?_⟩
  dsimp only
  split <;> nofun

theorem Sound.test (h : r.Sound) (hstep : r.step (.test w) = some r') : r'.Sound := by
  obtain ⟨request_stop, hw, rfl⟩ := step_test hstep
  have hwith := h.inPhase.withServers hw
  refine ⟨h.accounted, h.inPhase.setThread hw rfl nofun (fun _ server => hwith.idle hw nofun) ?_⟩
  cases request_stop with
  | true => exact fun _ => rfl
  | false => nofun

theorem Sound.leave (h : r.Sound) (hstep : r.step .leave = some r') : r'.Sound := by
  simp only [step] at hstep
  split at hstep
  · rename_i hphase
    obtain rfl := Option.some.inj hstep
    have hin := h.inPhase
    rw [hphase] at hin
    obtain ⟨hwith, hfirst⟩ := hin
    obtain ⟨owner, howned⟩ := hwith.owned
    obtain ⟨begun, hcounted⟩ := hwith.counted
    refine ⟨⟨h.accounted.fresh, h.accounted.pushed, h.accounted.opened, h.accounted.closed⟩, ?_, hfirst⟩
    exact ⟨⟨owner, { howned with once := List.nodup_nil, reported := nofun }⟩,
      ⟨begun, hcounted.counter, hcounted.conserved, hcounted.popped⟩, hwith.bound, hwith.length, hwith.busy, hwith.asked⟩
  · cases hstep

/-! ### Steps of the listener behind its loop -/

/-- What the listener can do behind its loop. -/
inductive Shutdown (r : ListenerRun) : ListenerRun → Prop where
  | drained (phase : r.phase = .draining) (zero : ¬ 0 < r.listener.work_q_sz_) :
      Shutdown r { r with phase := .asking 0 }
  | asked (i : Nat) (t : ServerThread) (phase : r.phase = .asking i) (found : r.threads[i]? = some t) :
      Shutdown r { r.setThread i { t with request_stop_ := true } with phase := .asking (i + 1) }
  | allAsked (i : Nat) (phase : r.phase = .asking i) (last : r.threads[i]? = none) :
      Shutdown r { r with phase := .joining 0 }
  | joined (i : Nat) (t : ServerThread) (phase : r.phase = .joining i) (found : r.threads[i]? = some t)
      (stopped : t.loop = .stopped) : Shutdown r { r with phase := .joining (i + 1) }
  | allJoined (i : Nat) (phase : r.phase = .joining i) (last : r.threads[i]? = none) :
      Shutdown r {
        listener := { r.listener with servers_ := [] }
        threads := []
        phase := .closing (r.listener.clients_.toList.map fun c => c.2.socket) }
  | closed (socket : Option Fd) (sockets : List (Option Fd)) (l' : TCPListener)
      (phase : r.phase = .closing (socket :: sockets)) (closes : r.listener.closeSocket socket = some l') :
      Shutdown r { r with listener := l', phase := .closing sockets }
  | finished (phase : r.phase = .closing []) : Shutdown r { r with phase := .returned }

theorem shutdown_of_shutdownStep (hstep : r.shutdownStep = some r') : r.Shutdown r' := by
  unfold shutdownStep at hstep
  split at hstep
  · cases hstep
  · rename_i hphase
    split at hstep
    · cases hstep
    · rename_i hzero
      obtain rfl := Option.some.inj hstep
      exact .drained hphase hzero
  · rename_i i hphase
    split at hstep
    · rename_i t hi
      obtain rfl := Option.some.inj hstep
      exact .asked i t hphase hi
    · rename_i hi
      obtain rfl := Option.some.inj hstep
      exact .allAsked i hphase hi
  · rename_i i hphase
    split at hstep
    · rename_i t hi
      split at hstep
      · rename_i hstopped
        obtain rfl := Option.some.inj hstep
        exact .joined i t hphase hi hstopped
      · cases hstep
    · rename_i hi
      obtain rfl := Option.some.inj hstep
      exact .allJoined i hphase hi
  · rename_i socket sockets hphase
    obtain ⟨l', hclose, hr'⟩ := Option.bind_eq_some_iff.mp hstep
    obtain rfl := Option.some.inj hr'
    exact .closed socket sockets l' hphase hclose
  · rename_i hphase
    obtain rfl := Option.some.inj hstep
    exact .finished hphase
  · cases hstep

/-- Where the counter is 0, everything that was pushed has been served. -/
theorem WithServers.settled (h : r.WithServers) (hzero : ¬ 0 < r.listener.work_q_sz_) : r.listener.Settled := by
  obtain ⟨owner, howned⟩ := h.owned
  obtain ⟨begun, hcounted⟩ := h.counted
  have hcounter := hcounted.toNat_counter (Nat.lt_of_le_of_lt howned.size h.bound)
  have hsum : r.listener.work_q_sz_.toNat = 0 := by
    rw [BitVec.lt_def] at hzero
    simpa using hzero
  rw [hsum] at hcounter
  exact ⟨List.eq_nil_of_length_eq_zero (by omega), List.eq_nil_of_length_eq_zero (by omega)⟩

/-- When all servers have stopped, the copy of `clients_` holds the connections that are left. -/
theorem WithServers.closing (h : r.WithServers) (hsettled : r.listener.Settled) :
    Closing {
        listener := { r.listener with servers_ := [] }
        threads := []
        phase := .closing (r.listener.clients_.toList.map fun c => c.2.socket) }
      (r.listener.clients_.toList.map fun c => c.2.socket) := by
  obtain ⟨owner, howned⟩ := h.owned
  refine ⟨rfl, rfl, hsettled.1, ?_, howned.epoll, r.listener.clients_.keys, ?_, ?_, ?_⟩
  · show r.listener.popped = r.listener.pushed
    rw [howned.fifo, hsettled.1, List.append_nil]
  · rw [← Std.ExtTreeMap.map_fst_toList_eq_keys, List.map_map]
    refine List.map_congr_left ?_
    rintro ⟨fd, c⟩ hmem
    exact howned.socket fd c (Std.ExtTreeMap.mem_toList_iff_getElem?_eq_some.mp hmem)
  · exact Std.ExtTreeMap.nodup_keys
  · exact fun fd => Std.ExtTreeMap.mem_keys

/-- A connection that is left is closed. -/
theorem closeSocket_of_closing {socket : Option Fd} {sockets : List (Option Fd)} (h : r.Closing (socket :: sockets)) :
    ∃ p c, socket = some p.fd ∧ r.listener.deref p = some c ∧
      r.listener.closeSocket socket = some
        { r.listener with
          clients_ := r.listener.clients_.erase p.fd
          opened := r.listener.opened.erase p.fd
          epoll := r.listener.epoll.erase p.fd
          calls := r.listener.calls ++ [(p, .close)] } := by
  obtain ⟨fds, hfds, hnodup, hmem⟩ := h.sockets
  match fds with
  | [] => cases hfds
  | fd :: fds =>
      rw [List.map_cons, List.cons.injEq] at hfds
      obtain ⟨rfl, rfl⟩ := hfds
      obtain ⟨c, hc⟩ := Option.isSome_iff_exists.mp
        (Std.ExtTreeMap.mem_iff_isSome_getElem?.mp ((hmem fd).mp List.mem_cons_self))
      have hfound : r.listener.deref ⟨fd, c.alloc⟩ = some c := TCPListener.deref_eq_some.mpr ⟨hc, rfl⟩
      exact ⟨⟨fd, c.alloc⟩, c, rfl, hfound, TCPListener.closeSocket_eq hfound⟩

theorem Sound.close {socket : Option Fd} {sockets : List (Option Fd)} (h : r.Sound)
    (hphase : r.phase = .closing (socket :: sockets)) {l' : TCPListener}
    (hclose : r.listener.closeSocket socket = some l') :
    Sound { r with listener := l', phase := .closing sockets } := by
  have hin := h.inPhase
  rw [hphase] at hin
  obtain ⟨p, c, rfl, hfound, heq⟩ := closeSocket_of_closing hin
  obtain rfl := Option.some.inj (heq.symm.trans hclose)
  refine ⟨h.accounted.close (Option.isSome_iff_exists.mpr ⟨c, hfound⟩) rfl rfl rfl rfl rfl, ?_⟩
  refine ⟨hin.threads, hin.servers, hin.workload, hin.popped, ?_, ?_⟩
  · intro fd hfd
    rw [Finset.mem_erase] at hfd
    exact Std.ExtTreeMap.mem_erase.mpr
      ⟨fun hcmp => hfd.1 (Std.LawfulEqOrd.eq_of_compare hcmp).symm, hin.epoll fd hfd.2⟩
  · obtain ⟨fds, hfds, hnodup, hmem⟩ := hin.sockets
    match fds with
    | [] => cases hfds
    | fd :: fds =>
        rw [List.map_cons, List.cons.injEq, Option.some.injEq] at hfds
        obtain ⟨rfl, rfl⟩ := hfds
        rw [List.nodup_cons] at hnodup
        refine ⟨fds, rfl, hnodup.2, fun fd => ?_⟩
        show fd ∈ fds ↔ fd ∈ r.listener.clients_.erase p.fd
        rw [Std.ExtTreeMap.mem_erase, ← hmem fd, List.mem_cons]
        constructor
        · intro hfd
          refine ⟨fun hcmp => ?_, Or.inr hfd⟩
          rw [Std.LawfulEqOrd.eq_of_compare hcmp] at hnodup
          exact hnodup.1 hfd
        · rintro ⟨hne, rfl | hfd⟩
          · exact absurd Std.ReflCmp.compare_self hne
          · exact hfd

/-- No thread moves, and the listener stays as it is. -/
theorem WithServers.withPhase (h : r.WithServers) (phase : Phase) : WithServers { r with phase } :=
  ⟨h.owned, h.counted, h.bound, h.length, h.busy, h.asked⟩

theorem Sound.shutdown (h : r.Sound) (hstep : r.Shutdown r') : r'.Sound := by
  have hin := h.inPhase
  cases hstep with
  | drained hphase zero =>
      rw [hphase] at hin
      exact ⟨h.accounted, hin.1.withPhase _, hin.1.settled zero, fun w t hw => absurd hw (Nat.not_lt_zero w)⟩
  | asked i t hphase found =>
      rw [hphase] at hin
      obtain ⟨hwith, hsettled, hasked⟩ := hin
      refine ⟨h.accounted, (hwith.ask found).withPhase _, hsettled, ?_⟩
      intro w t' hw hget
      replace hget : (r.setThread i { t with request_stop_ := true }).threads[w]? = some t' := hget
      rw [getElem?_setThread found] at hget
      split at hget
      · rw [← Option.some.inj hget]
      · rename_i hne
        exact hasked w t' (Nat.lt_of_le_of_ne (Nat.le_of_lt_succ hw) (Ne.symm hne)) hget
  | allAsked i hphase last =>
      rw [hphase] at hin
      obtain ⟨hwith, hsettled, hasked⟩ := hin
      refine ⟨h.accounted, hwith.withPhase _, hsettled, ?_, fun w t hw => absurd hw (Nat.not_lt_zero w)⟩
      intro w t hget
      have hlt := (List.getElem?_eq_some_iff.mp hget).1
      exact hasked w t (Nat.lt_of_lt_of_le hlt (List.getElem?_eq_none_iff.mp last)) hget
  | joined i t hphase found hstopped =>
      rw [hphase] at hin
      obtain ⟨hwith, hsettled, hasked, hbefore⟩ := hin
      refine ⟨h.accounted, hwith.withPhase _, hsettled, hasked, ?_⟩
      intro w t' hw hget
      by_cases hwi : w = i
      · subst hwi
        obtain rfl := Option.some.inj (found.symm.trans hget)
        exact hstopped
      · exact hbefore w t' (Nat.lt_of_le_of_ne (Nat.le_of_lt_succ hw) hwi) hget
  | allJoined i hphase last =>
      rw [hphase] at hin
      exact ⟨⟨h.accounted.fresh, h.accounted.pushed, h.accounted.opened, h.accounted.closed⟩, hin.1.closing hin.2.1⟩
  | closed socket sockets l' hphase closes => exact h.close hphase closes
  | finished hphase =>
      rw [hphase] at hin
      exact ⟨h.accounted, hin.threads, hin.servers, hin.workload, hin.popped, hin.epoll, hin.sockets⟩

/-- **One step** keeps the invariant. -/
theorem Sound.step (h : r.Sound) (hstep : r.step a = some r') : r'.Sound := by
  cases a with
  | work a =>
      cases hserver : a.server with
      | none => exact h.work_listener hserver hstep
      | some w => exact h.work_server hserver hstep
  | askIdle w => exact h.askIdle hstep
  | wait w => exact h.wait hstep
  | test w => exact h.test hstep
  | leave => exact h.leave hstep
  | shutdown => exact h.shutdown (shutdown_of_shutdownStep hstep)

theorem Sound.start (maxconnections : BitVec 64) {servers : Nat} (hservers : 0 < servers) :
    (start maxconnections.toNat servers).Sound := by
  refine ⟨⟨nofun, ?_, nofun, ?_⟩, ⟨⟨_, .start _ _⟩, ⟨_, .start _ _⟩, maxconnections.isLt, ?_, ?_, ?_⟩, {}, ?_, rfl⟩
  · intro p hp
    obtain ⟨c, hc, -⟩ := TCPListener.live_iff.mp hp
    cases (Std.ExtTreeMap.getElem?_empty).symm.trans hc
  · intro p
    simp [ListenerRun.start, TCPListener.start]
  · show (List.replicate servers _).length = (List.replicate servers _).length
    rw [List.length_replicate, List.length_replicate]
  · intro w server hw hbusy
    exact absurd (List.eq_of_mem_replicate (List.mem_of_getElem? hw)) hbusy
  · intro w t hw hstopped
    rw [List.eq_of_mem_replicate (List.mem_of_getElem? hw)] at hstopped
    cases hstopped
  · show (List.replicate servers _)[0]? = some _
    rw [List.getElem?_replicate, if_pos hservers]

/-- **Every run** keeps the invariant. -/
theorem Sound.run {maxconnections : BitVec 64} {servers : Nat} (hservers : 0 < servers) {as : List RunAction}
    (hrun : Machine.exec ListenerRun.step (ListenerRun.start maxconnections.toNat servers) as = some r) : r.Sound :=
  Machine.exec_invariant Sound (fun _ _ _ h hstep => h.step hstep) (.start maxconnections hservers) hrun

/-! ## What is left in the end -/

/-- A run that is asked to stop while its server is between the two parts of `releaseWork`. -/
def stoppedWhileReleasing : List RunAction :=
  [.work (.accept 5), .wait 0, .work (.popWork 0), .work (.handShake 0 (.returned true)),
    .work (.readSocket 0 .threw .threw), .work (.shutDown 0 .threw), .leave, .work (.decrement 0), .shutdown,
    .shutdown, .work (.release 0), .work (.popWork 0), .test 0, .shutdown, .shutdown, .shutdown, .shutdown, .shutdown]

/-- The phases behind the wait for `work_q_sz_`. -/
def Drained (r : ListenerRun) : Prop := r.phase ≠ .serving ∧ r.phase ≠ .draining

/-- The calls of the handlers of a server. -/
def callbacks (r : ListenerRun) : List (Ptr × Call) := r.listener.calls.filter (·.2 ≠ .close)

theorem Drained.settled (h : r.Sound) (hdrained : r.Drained) (hw : r.threads[w]? = some t) : r.listener.Settled := by
  have hin := h.inPhase
  cases hphase : r.phase with
  | serving => exact absurd hphase hdrained.1
  | draining => exact absurd hphase hdrained.2
  | asking i =>
      rw [hphase] at hin
      exact hin.2.1
  | joining i =>
      rw [hphase] at hin
      exact hin.2.1
  | closing sockets =>
      rw [hphase] at hin
      rw [hin.threads] at hw
      cases hw
  | returned =>
      rw [hphase] at hin
      rw [hin.threads] at hw
      cases hw

/-- Behind the wait nothing is pushed and no handler is called. -/
theorem Drained.step (h : r.Sound) (hdrained : r.Drained) (hstep : r.step a = some r') :
    r'.Drained ∧ r'.callbacks = r.callbacks ∧ r'.listener.pushed = r.listener.pushed := by
  cases a with
  | work a =>
      cases hserver : a.server with
      | none =>
          simp only [ListenerRun.step, hserver, if_neg hdrained.1] at hstep
          cases hstep
      | some w =>
          obtain ⟨request_stop, l', hw, hl', rfl⟩ := step_work_server hserver hstep
          obtain ⟨owner, howned⟩ := (h.inPhase.withServers hw).owned
          obtain ⟨owner', ho⟩ := TCPListener.outcome_of_step howned hl'
          obtain ⟨-, hpushed, -, hcalls⟩ := ho.settled (hdrained.settled h hw) hserver
          exact ⟨hdrained, hcalls, hpushed⟩
  | askIdle w =>
      simp only [ListenerRun.step, hdrained.1, false_and, if_false] at hstep
      split at hstep <;> cases hstep
  | wait w =>
      obtain ⟨request_stop, hw, rfl⟩ := step_wait hstep
      exact ⟨hdrained, rfl, rfl⟩
  | test w =>
      obtain ⟨request_stop, hw, rfl⟩ := step_test hstep
      exact ⟨hdrained, rfl, rfl⟩
  | leave =>
      simp only [ListenerRun.step, if_neg hdrained.1] at hstep
      cases hstep
  | shutdown =>
      cases shutdown_of_shutdownStep hstep with
      | drained hphase => exact absurd hphase hdrained.2
      | asked | allAsked | joined | allJoined | finished => exact ⟨⟨nofun, nofun⟩, rfl, rfl⟩
      | closed socket sockets l' hphase closes =>
          have hin := h.inPhase
          rw [hphase] at hin
          obtain ⟨p, c, rfl, -, heq⟩ := closeSocket_of_closing hin
          obtain rfl := Option.some.inj (heq.symm.trans closes)
          refine ⟨⟨nofun, nofun⟩, ?_, rfl⟩
          show (r.listener.calls ++ [(p, Call.close)]).filter _ = _
          simp [callbacks]

theorem Drained.popped (h : r.Sound) (hdrained : r.Drained) : r.listener.popped = r.listener.pushed := by
  have hfifo : r.WithServers → r.listener.Settled → r.listener.popped = r.listener.pushed := by
    rintro ⟨⟨owner, howned⟩, -, -, -, -, -⟩ hsettled
    rw [howned.fifo, hsettled.1, List.append_nil]
  have hin := h.inPhase
  cases hphase : r.phase with
  | serving => exact absurd hphase hdrained.1
  | draining => exact absurd hphase hdrained.2
  | asking i =>
      rw [hphase] at hin
      exact hfifo hin.1 hin.2.1
  | joining i =>
      rw [hphase] at hin
      exact hfifo hin.1 hin.2.1
  | closing sockets =>
      rw [hphase] at hin
      exact hin.popped
  | returned =>
      rw [hphase] at hin
      exact hin.popped

/-- **Once the wait for `work_q_sz_` is over**, all the work there will ever be has been taken, and no handler is
    called any more, in whatever order the threads go on: a connection that is closed at the end gets no `shutDown`. -/
theorem no_callback_behind_drain {maxconnections : BitVec 64} {servers : Nat} (hservers : 0 < servers)
    {as more : List RunAction}
    (hrun : Machine.exec ListenerRun.step (ListenerRun.start maxconnections.toNat servers) as = some r)
    (hdrained : r.Drained) (hmore : Machine.exec ListenerRun.step r more = some r') :
    r'.callbacks = r.callbacks ∧ r'.listener.pushed = r.listener.pushed ∧
      r'.listener.popped = r.listener.pushed := by
  let Inv (q : ListenerRun) : Prop :=
    q.Sound ∧ q.Drained ∧ q.callbacks = r.callbacks ∧ q.listener.pushed = r.listener.pushed
  have hinv : Inv r' := by
    refine Machine.exec_invariant Inv ?_ ⟨Sound.run hservers hrun, hdrained, rfl, rfl⟩ hmore
    rintro q a q' ⟨hsound, hq, hcallbacks, hpushed⟩ hstep
    obtain ⟨hq', hcallbacks', hpushed'⟩ := hq.step hsound hstep
    exact ⟨hsound.step hstep, hq', hcallbacks'.trans hcallbacks, hpushed'.trans hpushed⟩
  obtain ⟨hsound, hq, hcallbacks, hpushed⟩ := hinv
  exact ⟨hcallbacks, hpushed, (hq.popped hsound).trans hpushed⟩

theorem no_callback_behind_drain_stoppedWhileReleasing :
    ∃ r r', Machine.exec step (start (2 : BitVec 64).toNat 1) (stoppedWhileReleasing.take 9) = some r ∧ r.Drained ∧
      Machine.exec step r (stoppedWhileReleasing.drop 9) = some r' ∧
      r.callbacks = [(⟨5, 0⟩, .handShake)] ∧ r'.callbacks = r.callbacks := by
  have hrun : ∃ r ∈ Machine.exec step (start (2 : BitVec 64).toNat 1) (stoppedWhileReleasing.take 9),
      (r.phase ≠ .serving ∧ r.phase ≠ .draining) ∧ r.callbacks = [(⟨5, 0⟩, .handShake)] ∧
      (Machine.exec step r (stoppedWhileReleasing.drop 9)).isSome := by decide +kernel
  obtain ⟨r, hexec, hdrained, hcallbacks, hmore⟩ := hrun
  obtain ⟨r', hmore⟩ := Option.isSome_iff_exists.mp hmore
  exact ⟨r, r', hexec, hdrained, hmore, hcallbacks, (no_callback_behind_drain Nat.one_pos hexec hdrained hmore).1⟩

end ListenerRun
end Dodo.Network
