import Dodo.Lib.Multimap
import Dodo.Lib.Ownership
import Dodo.Network.TCPListener

/-!
# `Network.ListenerStep` — what a step of the listener and its servers can do

A connection is in the epoll set, in `workload_`, or with one server, and an owner map says where. `Owned` is
the invariant that ties the map to the state, and `step_outcome` lists what a step can do in a state that
meets it, with the owner map afterwards. Whatever is proved about whole runs is derived from that list.
-/

namespace Dodo.Network

open Lib Lib.Ownership

/-- The places a connection can be in. -/
inductive Place where
  | epoll
  | workload
  | server (w : Nat)
deriving DecidableEq, Repr

/-- The item that a server holds. -/
def heldBy (servers : List TCPServer) (w : Nat) : Option Ptr := servers[w]?.bind TCPServer.sockmap

/-- A callback step: its server, the stage it passes, the calls it makes and what they add to
    `completion_state`. -/
def Action.passing : Action → Option (Nat × Stage × List Call × SockState)
  | .handShake w result => some (w, .handShake, [.handShake], handShakeDone result)
  | .readSocket w buffer result =>
    some (w, .readSocket, readSocketCalls buffer, readSocketDone buffer result)
  | .shutDown w result => some (w, .shutDown, [.shutDown], shutDownDone result)
  | _ => none

namespace TCPListener

variable {l l' : TCPListener} {p q : Ptr} {fd : Fd} {w : Nat} {a : Action} {c : Client}

/-- The pointer points to an entry of `clients_`. -/
def Live (l : TCPListener) (p : Ptr) : Prop := (l.deref p).isSome

instance (l : TCPListener) (p : Ptr) : Decidable (l.Live p) := inferInstanceAs (Decidable (_ = true))

/-- How often a connection is in a place. -/
def count (l : TCPListener) : Place → Ptr → Nat
  | .epoll, p => if l.Live p ∧ p.fd ∈ l.epoll then 1 else 0
  | .workload, p => l.workload_.count p
  | .server w, p => if heldBy l.servers_ w = some p then 1 else 0

/-- The thread can take the step, and the kernel does what the step asks of it. -/
def Enabled (l : TCPListener) : Action → Prop
  | .accept fd => fd ∉ l.opened
  | .addServer => True
  | .epollWait events =>
    l.poll_sockets = [] ∧ (events.map Prod.fst).Nodup ∧ ∀ e ∈ events, e.1 ∈ l.epoll
  | .event => l.poll_sockets ≠ []
  | .popWork w => l.servers_[w]? = some .waiting
  | .handShake w _ => ∃ p c, l.servers_[w]? = some (.serving p .handShake c)
  | .readSocket w _ _ => ∃ p c, l.servers_[w]? = some (.serving p .readSocket c)
  | .shutDown w _ => ∃ p c, l.servers_[w]? = some (.serving p .shutDown c)
  | .decrement w => ∃ p c, l.servers_[w]? = some (.served p c)
  | .release w => ∃ p work, l.servers_[w]? = some (.releasing p work)

/-! ## Pointers and servers -/

theorem deref_eq_some : l.deref p = some c ↔ l.clients_[p.fd]? = some c ∧ c.alloc = p.alloc := by
  unfold deref
  rw [Option.filter_eq_some_iff, decide_eq_true_iff]

theorem live_iff : l.Live p ↔ ∃ c, l.clients_[p.fd]? = some c ∧ c.alloc = p.alloc := by
  unfold Live
  rw [Option.isSome_iff_exists]
  simp only [deref_eq_some]

theorem deref_insert_self (hclients : l'.clients_ = l.clients_.insert p.fd c) (halloc : c.alloc = p.alloc) :
    l'.deref p = some c := by
  rw [deref_eq_some, hclients]
  exact ⟨Std.ExtTreeMap.getElem?_insert_self, halloc⟩

/-- The entry of one connection does not change where the pointers of others point to. -/
theorem deref_insert_of_ne (hclients : l'.clients_ = l.clients_.insert p.fd c) (halloc : c.alloc = p.alloc)
    (hne : q ≠ p) (hdead : q.fd = p.fd → l.deref q = none) : l'.deref q = l.deref q := by
  by_cases hfd : q.fd = p.fd
  · rw [hdead hfd, deref, hclients, hfd, Std.ExtTreeMap.getElem?_insert_self, Option.filter_some, if_neg]
    intro heq
    apply hne
    cases p
    cases q
    simp_all
  · have hcmp : compare p.fd q.fd ≠ .eq := fun heq => hfd (Std.LawfulEqOrd.eq_of_compare heq).symm
    rw [deref, deref, hclients, Std.ExtTreeMap.getElem?_insert, if_neg hcmp]

theorem deref_erase_of_ne (hclients : l'.clients_ = l.clients_.erase p.fd)
    (hdead : q.fd = p.fd → l.deref q = none) : l'.deref q = l.deref q := by
  by_cases hfd : q.fd = p.fd
  · rw [hdead hfd, deref, hclients, hfd, Std.ExtTreeMap.getElem?_erase_self, Option.filter_none]
  · have hcmp : compare p.fd q.fd ≠ .eq := fun heq => hfd (Std.LawfulEqOrd.eq_of_compare heq).symm
    rw [deref, deref, hclients, Std.ExtTreeMap.getElem?_erase, if_neg hcmp]

theorem live_insert (hclients : l'.clients_ = l.clients_.insert fd c) :
    l'.Live q ↔ if fd = q.fd then c.alloc = q.alloc else l.Live q := by
  simp only [live_iff, hclients, Std.ExtTreeMap.getElem?_insert, Std.LawfulEqOrd.compare_eq_iff_eq]
  split <;> simp

/-- An entry that is only changed. -/
theorem live_modify (hfound : l.clients_[fd]? = some c) {state : SockState}
    (hclients : l'.clients_ = l.clients_.insert fd { c with state := state }) : l'.Live q ↔ l.Live q := by
  rw [live_insert hclients]
  split
  · rename_i heq
    rw [live_iff, ← heq, hfound]
    simp
  · rfl

theorem live_erase (hclients : l'.clients_ = l.clients_.erase fd) : l'.Live q ↔ fd ≠ q.fd ∧ l.Live q := by
  simp only [live_iff, hclients, Std.ExtTreeMap.getElem?_erase, Std.LawfulEqOrd.compare_eq_iff_eq]
  split <;> simp_all

/-- A descriptor has one connection at a time. -/
theorem eq_of_live (hp : l.Live p) (hq : l.Live q) (hfd : p.fd = q.fd) : p = q := by
  obtain ⟨c, hc, hpc⟩ := live_iff.mp hp
  obtain ⟨d, hd, hqd⟩ := live_iff.mp hq
  rw [hfd, hd] at hc
  cases p
  cases q
  simp_all

theorem deref_eq_none_of_ne (hp : l.Live p) (hne : q ≠ p) (hfd : q.fd = p.fd) : l.deref q = none := by
  rw [← Option.not_isSome_iff_eq_none]
  intro hq
  exact hne (eq_of_live hq hp hfd)

theorem heldBy_eq {servers : List TCPServer} {server : TCPServer} (h : servers[w]? = some server) :
    heldBy servers w = server.sockmap := by
  rw [heldBy, h, Option.bind_some]

theorem heldBy_set {servers : List TCPServer} {old new : TCPServer} (h : servers[w]? = some old) (v : Nat) :
    heldBy (servers.set w new) v = if w = v then new.sockmap else heldBy servers v := by
  have hlt := (List.getElem?_eq_some_iff.mp h).1
  unfold heldBy
  rw [List.getElem?_set, if_pos hlt]
  split <;> rfl

/-- Waiting servers hold nothing. -/
theorem heldBy_append_waiting (servers : List TCPServer) (n : Nat) :
    heldBy (servers ++ List.replicate n .waiting) = heldBy servers := by
  funext v
  unfold heldBy
  rw [List.getElem?_append]
  split
  · rfl
  · rename_i hge
    rw [List.getElem?_eq_none (Nat.not_lt.mp hge), List.getElem?_replicate]
    split <;> rfl

/-- A server that goes on with its item. -/
theorem heldBy_set_same {servers : List TCPServer} {old new : TCPServer} (h : servers[w]? = some old)
    (hsame : new.sockmap = old.sockmap) : heldBy (servers.set w new) = heldBy servers := by
  funext v
  rw [heldBy_set h]
  split
  · rename_i heq
    rw [hsame, ← heq, heldBy_eq h]
  · rfl

theorem sockmap_after (stage : Stage) (completion : SockState) :
    (stage.after p completion).sockmap = some p := by
  cases stage <;> rfl

/-! ## What a step can do -/

/-- The outcomes of a step, with the owner map afterwards. -/
inductive Outcome (l : TCPListener) (owner : Owner Ptr Place) :
    Action → TCPListener → Owner Ptr Place → Prop where
  | rejected (fd : Fd) (full : l.maxconnections ≤ l.clients_.size) : Outcome l owner (.accept fd) l owner
  | accepted (fd : Fd) (unused : fd ∉ l.opened) (room : l.clients_.size < l.maxconnections) :
      Outcome l owner (.accept fd)
        { l with
          clients_ := l.clients_.insert fd { socket := some fd, state := .New, alloc := l.allocs }
          workload_ := l.workload_ ++ [⟨fd, l.allocs⟩]
          work_q_sz_ := l.work_q_sz_ + 1
          opened := insert fd l.opened
          allocs := l.allocs + 1
          pushed := l.pushed ++ [⟨fd, l.allocs⟩] }
        (Function.update owner ⟨fd, l.allocs⟩ (some .workload))
  | added : Outcome l owner .addServer { l with servers_ := l.servers_ ++ [.waiting] } owner
  | reported (events : List (Fd × Events)) (handled : l.poll_sockets = [])
      (once : (events.map Prod.fst).Nodup) (armed : ∀ e ∈ events, e.1 ∈ l.epoll) :
      Outcome l owner (.epollWait events) { l with poll_sockets := events } owner
  | event (fd : Fd) (c : Client) (events : Events) (rest : List (Fd × Events))
      (next : l.poll_sockets = (fd, events) :: rest) (found : l.clients_[fd]? = some c) :
      Outcome l owner .event
        { l with
          clients_ := l.clients_.insert fd { c with state := c.state ||| events.combinedState }
          workload_ := l.workload_ ++ [⟨fd, c.alloc⟩]
          work_q_sz_ := l.work_q_sz_ + 1
          poll_sockets := rest
          epoll := l.epoll.erase fd
          pushed := l.pushed ++ [⟨fd, c.alloc⟩] }
        (Function.update owner ⟨fd, c.alloc⟩ (some .workload))
  | idle (w : Nat) (waiting : l.servers_[w]? = some .waiting) (empty : l.workload_ = []) :
      Outcome l owner (.popWork w) l owner
  | popped (w : Nat) (p : Ptr) (ps : List Ptr) (waiting : l.servers_[w]? = some .waiting)
      (first : l.workload_ = p :: ps) :
      Outcome l owner (.popWork w)
        { l with
          workload_ := ps
          servers_ := l.servers_.set w (.serving p .handShake .None)
          popped := l.popped ++ [p] }
        (Function.update owner p (some (.server w)))
  | called (a : Action) (w : Nat) (p : Ptr) (stage : Stage) (s : SockState) (made : List Call)
      (completion : SockState) (c : Client) (passing : a.passing = some (w, stage, made, completion))
      (serving : l.servers_[w]? = some (.serving p stage s)) (found : l.deref p = some c)
      (flag : c.state.has stage.flag = true) :
      Outcome l owner a
        { l with
          servers_ := l.servers_.set w (stage.after p (s ||| completion))
          calls := l.calls ++ made.map (p, ·) } owner
  | skipped (a : Action) (w : Nat) (p : Ptr) (stage : Stage) (s : SockState) (made : List Call)
      (completion : SockState) (c : Client) (passing : a.passing = some (w, stage, made, completion))
      (serving : l.servers_[w]? = some (.serving p stage s)) (found : l.deref p = some c)
      (flag : c.state.has stage.flag = false) :
      Outcome l owner a { l with servers_ := l.servers_.set w (stage.after p s) } owner
  | decremented (w : Nat) (p : Ptr) (s : SockState) (c : Client)
      (served : l.servers_[w]? = some (.served p s)) (found : l.deref p = some c) :
      Outcome l owner (.decrement w)
        { l with
          work_q_sz_ := l.work_q_sz_ - 1
          servers_ := l.servers_.set w (.releasing p ⟨some p.fd, s⟩) } owner
  | closed (w : Nat) (p : Ptr) (s : SockState) (c : Client)
      (releasing : l.servers_[w]? = some (.releasing p ⟨some p.fd, s⟩)) (found : l.deref p = some c)
      (shut : s.has .Shut = true) :
      Outcome l owner (.release w)
        { l with
          clients_ := l.clients_.erase p.fd
          servers_ := l.servers_.set w .waiting
          opened := l.opened.erase p.fd
          epoll := l.epoll.erase p.fd
          calls := l.calls ++ [(p, .close)] }
        (Function.update owner p none)
  | rearmed (w : Nat) (p : Ptr) (s : SockState) (c : Client)
      (releasing : l.servers_[w]? = some (.releasing p ⟨some p.fd, s⟩)) (found : l.deref p = some c)
      (shut : s.has .Shut = false) :
      Outcome l owner (.release w)
        { l with
          clients_ := l.clients_.insert p.fd { c with state := c.state ^^^ s }
          servers_ := l.servers_.set w .waiting
          epoll := insert p.fd l.epoll }
        (Function.update owner p (some .epoll))

/-- The entries of `clients_`: each has its own socket, which is open, and there is room for all. -/
structure Registered (l : TCPListener) : Prop where
  socket : ∀ (fd : Fd) (c : Client), l.clients_[fd]? = some c → c.socket = some fd
  alloc : ∀ (fd : Fd) (c : Client), l.clients_[fd]? = some c → c.alloc < l.allocs
  opened : ∀ fd ∈ l.clients_, fd ∈ l.opened
  size : l.clients_.size ≤ l.maxconnections

/-- The invariant: the maps and lists of the listener fit together, and the owner map says where each
    connection is. -/
structure Owned (owner : Owner Ptr Place) (l : TCPListener) : Prop extends Registered l where
  epoll : ∀ fd ∈ l.epoll, fd ∈ l.clients_
  once : (l.poll_sockets.map Prod.fst).Nodup
  reported : ∀ e ∈ l.poll_sockets, e.1 ∈ l.epoll
  releasing : ∀ p work, TCPServer.releasing p work ∈ l.servers_ → work.socket = some p.fd
  fifo : l.pushed = l.popped ++ l.workload_
  live : ∀ p, (owner p).isSome ↔ l.Live p
  tracks : Tracks owner l.count

variable {owner owner' : Owner Ptr Place}

namespace Owned

theorem epoll_iff (h : Owned owner l) : owner p = some .epoll ↔ l.Live p ∧ p.fd ∈ l.epoll := by
  rw [← h.tracks.count_eq_one, count]
  split <;> simp_all

theorem workload_count (h : Owned owner l) :
    l.workload_.count p = if owner p = some .workload then 1 else 0 :=
  h.tracks .workload p

theorem held_iff (h : Owned owner l) : heldBy l.servers_ w = some p ↔ owner p = some (.server w) := by
  rw [← h.tracks.count_eq_one, count]
  split <;> simp_all

/-- A server holds one item at most. -/
theorem owner_ne_of_held (h : Owned owner l) (hheld : heldBy l.servers_ w = some p) (hne : q ≠ p) :
    owner q ≠ some (.server w) := by
  intro howner
  rw [← h.held_iff, hheld] at howner
  exact hne (Option.some.inj howner).symm

/-- A descriptor that is not open has no connection. -/
theorem owner_unused (h : Owned owner l) (hunused : p.fd ∉ l.opened) : owner p = none := by
  rw [← Option.not_isSome_iff_eq_none, h.live, live_iff]
  rintro ⟨c, hc, -⟩
  exact hunused (h.opened p.fd (Std.ExtTreeMap.mem_iff_isSome_getElem?.mpr (by rw [hc]; rfl)))

theorem owner_reported {events : Events} {rest : List (Fd × Events)} (h : Owned owner l)
    (hnext : l.poll_sockets = (fd, events) :: rest) (hfound : l.clients_[fd]? = some c) :
    owner ⟨fd, c.alloc⟩ = some .epoll :=
  h.epoll_iff.mpr ⟨live_iff.mpr ⟨c, hfound, rfl⟩, h.reported (fd, events) (by simp [hnext])⟩

theorem owner_queued (h : Owned owner l) (hmem : p ∈ l.workload_) : owner p = some .workload := by
  by_contra hne
  have hcount := h.workload_count (p := p)
  rw [if_neg hne] at hcount
  exact absurd hmem (List.count_eq_zero.mp hcount)

/-- What a server holds exists. -/
theorem deref_held (h : Owned owner l) (hheld : heldBy l.servers_ w = some p) :
    ∃ c, l.deref p = some c := by
  apply Option.isSome_iff_exists.mp
  apply (h.live p).mp
  rw [h.held_iff.mp hheld, Option.isSome_some]

/-- What a server holds is not in the epoll set. -/
theorem notMem_epoll_of_held (h : Owned owner l) (hheld : heldBy l.servers_ w = some p) :
    p.fd ∉ l.epoll := by
  intro hmem
  obtain ⟨c, hfound⟩ := h.deref_held hheld
  have howner := h.epoll_iff.mpr ⟨Option.isSome_iff_exists.mpr ⟨c, hfound⟩, hmem⟩
  rw [h.held_iff.mp hheld] at howner
  exact absurd howner (by simp)

end Owned

/-! ### The functions, where their pointers are good -/

theorem clientAt_of_some (h : l.clients_[fd]? = some c) : l.clientAt fd = c := by
  unfold clientAt
  rw [h, Option.getD_some]

theorem serving_of_pass {stage : Stage} {made : List Call} {completion : SockState}
    (h : l.pass w stage made completion = some l') : ∃ p s, l.servers_[w]? = some (.serving p stage s) := by
  unfold pass at h
  split at h
  · rename_i p now s hserving
    by_cases hnow : now = stage
    · exact ⟨p, s, hnow ▸ hserving⟩
    · rw [if_neg hnow] at h
      exact absurd h (by simp)
  · exact absurd h (by simp)

/-- A step that is taken could be taken. -/
theorem enabled_of_step (h : l.step a = some l') : l.Enabled a := by
  cases a with
  | accept fd =>
      intro hopened
      simp only [step, if_pos hopened] at h
      exact absurd h (by simp)
  | addServer => trivial
  | epollWait events =>
      simp only [step] at h
      split at h
      · rename_i hguard
        exact ⟨List.isEmpty_iff.mp hguard.1, hguard.2⟩
      · exact absurd h (by simp)
  | event =>
      intro hempty
      simp only [step, hempty] at h
      exact absurd h (by simp)
  | popWork w =>
      simp only [step] at h
      split at h
      · assumption
      · exact absurd h (by simp)
  | handShake w result => exact serving_of_pass h
  | readSocket w buffer result => exact serving_of_pass h
  | shutDown w result => exact serving_of_pass h
  | decrement w =>
      simp only [step] at h
      split at h
      · exact ⟨_, _, by assumption⟩
      · exact absurd h (by simp)
  | release w =>
      simp only [step] at h
      split at h
      · exact ⟨_, _, by assumption⟩
      · exact absurd h (by simp)

/-- A server passes a stage. -/
theorem pass_outcome {stage : Stage} {made : List Call} {completion s : SockState} (h : Owned owner l)
    (hpassing : a.passing = some (w, stage, made, completion))
    (hserving : l.servers_[w]? = some (.serving p stage s)) :
    ∃ l', l.pass w stage made completion = some l' ∧ Outcome l owner a l' owner := by
  obtain ⟨c, hfound⟩ := h.deref_held (heldBy_eq hserving)
  simp only [pass, hserving, if_true, hfound, Option.bind_eq_bind, Option.bind_some]
  split
  · rename_i hflag
    exact ⟨_, rfl, .called a w p stage s made completion c hpassing hserving hfound hflag⟩
  · rename_i hflag
    exact ⟨_, rfl, .skipped a w p stage s made completion c hpassing hserving hfound
      (Bool.eq_false_iff.mpr hflag)⟩

/-- An event on a connection in the epoll set. -/
theorem handleEvent_eq (hepoll : fd ∈ l.epoll) (hfound : l.clients_[fd]? = some c)
    (hsocket : c.socket = some fd) (halloc : c.alloc < l.allocs) (events : Events) :
    l.handleEvent fd events = some
      { l with
        clients_ := l.clients_.insert fd { c with state := c.state ||| events.combinedState }
        workload_ := l.workload_ ++ [⟨fd, c.alloc⟩]
        work_q_sz_ := l.work_q_sz_ + 1
        epoll := l.epoll.erase fd
        pushed := l.pushed ++ [⟨fd, c.alloc⟩] } := by
  have hmax : max l.allocs (c.alloc + 1) = l.allocs := Nat.max_eq_left halloc
  unfold handleEvent pushWork
  rw [if_pos (Events.combinedState_ne_None events), clientAt_of_some hfound]
  simp [Events.combinedState_has_New, store, hmax, ptr, clientAt, pollDel, hsocket, hepoll]

/-- A new connection, where there is room for it. -/
theorem acceptClient_eq (h : Owned owner l) (hunused : fd ∉ l.opened)
    (hroom : l.clients_.size < l.maxconnections) :
    l.acceptClient fd = some
      { l with
        clients_ := l.clients_.insert fd { socket := some fd, state := .New, alloc := l.allocs }
        workload_ := l.workload_ ++ [⟨fd, l.allocs⟩]
        work_q_sz_ := l.work_q_sz_ + 1
        opened := insert fd l.opened
        allocs := l.allocs + 1
        pushed := l.pushed ++ [⟨fd, l.allocs⟩] } := by
  have hnew : SockState.New.has .New = true := rfl
  have hmissing : l.clients_[fd]? = none := by
    apply Std.ExtTreeMap.getElem?_eq_none
    intro hmem
    exact hunused (h.opened fd hmem)
  unfold acceptClient
  rw [if_neg (Nat.not_le.mpr hroom)]
  simp [pushSocketWork, pushWork, clientAt, hmissing, store, ptr, hnew, insert_insert]

/-- A server gives its item back. -/
theorem finishWork_eq {s : SockState} (h : Owned owner l) (hfound : l.deref p = some c)
    (hshut : s.has .Shut = false) (hepoll : p.fd ∉ l.epoll) :
    l.finishWork ⟨some p.fd, s⟩ = some
      { l with
        clients_ := l.clients_.insert p.fd { c with state := c.state ^^^ s }
        epoll := insert p.fd l.epoll } := by
  have hclient := (deref_eq_some.mp hfound).1
  have hlt : c.alloc + 1 ≤ l.allocs := h.alloc p.fd c hclient
  simp [finishWork, hshut, pollAdd, hepoll, clientAt, store, hclient, hlt]

theorem closeSocket_eq (hfound : l.deref p = some c) :
    l.closeSocket (some p.fd) = some
      { l with
        clients_ := l.clients_.erase p.fd
        opened := l.opened.erase p.fd
        epoll := l.epoll.erase p.fd
        calls := l.calls ++ [(p, .close)] } := by
  obtain ⟨hclient, halloc⟩ := deref_eq_some.mp hfound
  have hptr : l.ptr p.fd = p := by rw [ptr, clientAt_of_some hclient, halloc]
  simp [closeSocket, hptr]

/-- **A step that a thread can take is taken**, since every pointer it follows is good, and it has one of
    the listed outcomes. -/
theorem step_outcome (h : Owned owner l) (henabled : l.Enabled a) :
    ∃ l' owner', l.step a = some l' ∧ Outcome l owner a l' owner' := by
  cases a with
  | accept fd =>
      simp only [step, if_neg henabled]
      by_cases hfull : l.maxconnections ≤ l.clients_.size
      · rw [acceptClient, if_pos hfull]
        exact ⟨l, owner, rfl, .rejected fd hfull⟩
      · have hroom := Nat.not_le.mp hfull
        exact ⟨_, _, acceptClient_eq h henabled hroom, .accepted fd henabled hroom⟩
  | addServer => exact ⟨_, _, rfl, .added⟩
  | epollWait events =>
      obtain ⟨hempty, honce, harmed⟩ := henabled
      refine ⟨_, _, ?_, .reported events hempty honce harmed⟩
      simp only [step, hempty, List.isEmpty_nil, true_and]
      rw [if_pos ⟨honce, harmed⟩]
  | event =>
      cases hnext : l.poll_sockets with
      | nil => exact absurd hnext henabled
      | cons e rest =>
          obtain ⟨fd, events⟩ := e
          have hepoll : fd ∈ l.epoll := h.reported (fd, events) (by simp [hnext])
          obtain ⟨c, hfound⟩ := Option.isSome_iff_exists.mp
            (Std.ExtTreeMap.mem_iff_isSome_getElem?.mp (h.epoll fd hepoll))
          refine ⟨_, _, ?_, .event fd c events rest hnext hfound⟩
          simp only [step, hnext]
          exact handleEvent_eq (l := { l with poll_sockets := rest }) hepoll hfound
            (h.socket fd c hfound) (h.alloc fd c hfound) events
  | popWork w =>
      simp only [step, show l.servers_[w]? = some .waiting from henabled]
      cases hwork : l.workload_ with
      | nil =>
          simp only [popWork, hwork]
          exact ⟨l, owner, rfl, .idle w henabled hwork⟩
      | cons p ps =>
          simp only [popWork, hwork]
          exact ⟨_, _, rfl, .popped w p ps henabled hwork⟩
  | handShake w result =>
      obtain ⟨p, s, hserving⟩ := henabled
      obtain ⟨l', hpass, houtcome⟩ := pass_outcome h (a := .handShake w result) rfl hserving
      exact ⟨l', owner, hpass, houtcome⟩
  | readSocket w buffer result =>
      obtain ⟨p, s, hserving⟩ := henabled
      obtain ⟨l', hpass, houtcome⟩ := pass_outcome h (a := .readSocket w buffer result) rfl hserving
      exact ⟨l', owner, hpass, houtcome⟩
  | shutDown w result =>
      obtain ⟨p, s, hserving⟩ := henabled
      obtain ⟨l', hpass, houtcome⟩ := pass_outcome h (a := .shutDown w result) rfl hserving
      exact ⟨l', owner, hpass, houtcome⟩
  | decrement w =>
      obtain ⟨p, s, hserved⟩ := henabled
      obtain ⟨c, hfound⟩ := h.deref_held (heldBy_eq hserved)
      have hsocket : c.socket = some p.fd := h.socket p.fd c (deref_eq_some.mp hfound).1
      refine ⟨_, _, ?_, .decremented w p s c hserved hfound⟩
      simp only [step, hserved, hfound, hsocket, Option.bind_eq_bind, Option.bind_some]
  | release w =>
      obtain ⟨p, ⟨socket, s⟩, hreleasing⟩ := henabled
      have hheld : heldBy l.servers_ w = some p := heldBy_eq hreleasing
      obtain ⟨c, hfound⟩ := h.deref_held hheld
      obtain rfl : socket = some p.fd := h.releasing p _ (List.mem_of_getElem? hreleasing)
      cases hshut : s.has .Shut with
      | true =>
          refine ⟨_, _, ?_, .closed w p s c hreleasing hfound hshut⟩
          simp only [step, hreleasing, finishWork, hshut, if_true, closeSocket_eq hfound,
            Option.bind_eq_bind, Option.bind_some]
      | false =>
          have hepoll := h.notMem_epoll_of_held hheld
          refine ⟨_, _, ?_, .rearmed w p s c hreleasing hfound hshut⟩
          simp only [step, hreleasing, finishWork_eq h hfound hshut hepoll, Option.bind_eq_bind,
            Option.bind_some]

/-- Every step that is taken has one of the listed outcomes. -/
theorem outcome_of_step (h : Owned owner l) (hstep : l.step a = some l') :
    ∃ owner', Outcome l owner a l' owner' := by
  obtain ⟨l'', owner', hstep', houtcome⟩ := step_outcome h (enabled_of_step hstep)
  rw [hstep] at hstep'
  rw [Option.some.inj hstep']
  exact ⟨owner', houtcome⟩

end TCPListener
end Dodo.Network
