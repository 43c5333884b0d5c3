import Mathlib.Logic.Relation
import Dodo.Network.ListenerStep

/-!
# `Network.WorkDistribution` — every connection is in one place at a time

The abstract model is an owner map with five hand-overs: a new connection goes into the queue, an event
moves a connection from the epoll set into the queue, a server takes one out of the queue, and it gives it
back to the epoll set or closes it. Every outcome of a step keeps the invariant, so every run of the
listener refines a sequence of hand-overs.
-/

namespace Dodo.Network

open Lib Lib.Ownership

/-- The hand-overs; a connection that does not exist is nowhere. -/
inductive HandOver : Option Place → Option Place → Prop where
  | accept : HandOver none (some .workload)
  | event : HandOver (some .epoll) (some .workload)
  | pop (w : Nat) : HandOver (some .workload) (some (.server w))
  | rearm (w : Nat) : HandOver (some (.server w)) (some .epoll)
  | close (w : Nat) : HandOver (some (.server w)) none

namespace TCPListener

variable {l l' : TCPListener} {p q : Ptr} {fd : Fd} {w : Nat} {a : Action} {c : Client}
  {owner owner' : Owner Ptr Place}

/-! ## The invariant -/

namespace Registered

theorem insert (h : Registered l) (hroom : l.clients_.size < l.maxconnections)
    (hclients : l'.clients_ = l.clients_.insert fd { socket := some fd, state := .New, alloc := l.allocs })
    (hallocs : l'.allocs = l.allocs + 1) (hopened : l'.opened = insert fd l.opened)
    (hmax : l'.maxconnections = l.maxconnections) : Registered l' := by
  constructor
  · intro k c hc
    rw [hclients, Std.ExtTreeMap.getElem?_insert] at hc
    split at hc
    · rename_i heq
      rw [← Option.some.inj hc, Std.LawfulEqOrd.eq_of_compare heq]
    · exact h.socket k c hc
  · intro k c hc
    rw [hclients, Std.ExtTreeMap.getElem?_insert] at hc
    rw [hallocs]
    split at hc
    · rw [← Option.some.inj hc]
      exact Nat.lt_succ_self _
    · exact Nat.lt_succ_of_lt (h.alloc k c hc)
  · intro k hk
    rw [hclients, Std.ExtTreeMap.mem_insert] at hk
    rw [hopened, Finset.mem_insert]
    rcases hk with heq | hk
    · exact Or.inl (Std.LawfulEqOrd.eq_of_compare heq).symm
    · exact Or.inr (h.opened k hk)
  · rw [hclients, hmax]
    exact Nat.le_trans Std.ExtTreeMap.size_insert_le hroom

theorem modify (h : Registered l) (hfound : l.clients_[fd]? = some c) {state : SockState}
    (hclients : l'.clients_ = l.clients_.insert fd { c with state := state })
    (hallocs : l'.allocs = l.allocs) (hopened : l'.opened = l.opened)
    (hmax : l'.maxconnections = l.maxconnections) : Registered l' := by
  have hmem : fd ∈ l.clients_ := Std.ExtTreeMap.mem_iff_isSome_getElem?.mpr (by rw [hfound]; rfl)
  constructor
  · intro k c' hc
    rw [hclients, Std.ExtTreeMap.getElem?_insert] at hc
    split at hc
    · rename_i heq
      rw [← Option.some.inj hc, ← Std.LawfulEqOrd.eq_of_compare heq]
      exact h.socket fd c hfound
    · exact h.socket k c' hc
  · intro k c' hc
    rw [hclients, Std.ExtTreeMap.getElem?_insert] at hc
    rw [hallocs]
    split at hc
    · rw [← Option.some.inj hc]
      exact h.alloc fd c hfound
    · exact h.alloc k c' hc
  · intro k hk
    rw [hclients, Std.ExtTreeMap.mem_insert] at hk
    rw [hopened]
    rcases hk with heq | hk
    · rw [← Std.LawfulEqOrd.eq_of_compare heq]
      exact h.opened fd hmem
    · exact h.opened k hk
  · rw [hclients, hmax, Std.ExtTreeMap.size_insert,
      if_pos (Std.ExtTreeMap.mem_iff_contains.mp hmem)]
    exact h.size

theorem erase (h : Registered l) (hclients : l'.clients_ = l.clients_.erase fd)
    (hallocs : l'.allocs = l.allocs) (hopened : l'.opened = l.opened.erase fd)
    (hmax : l'.maxconnections = l.maxconnections) : Registered l' := by
  constructor
  · intro k c hc
    rw [hclients, Std.ExtTreeMap.getElem?_erase] at hc
    split at hc
    · exact absurd hc (by simp)
    · exact h.socket k c hc
  · intro k c hc
    rw [hclients, Std.ExtTreeMap.getElem?_erase] at hc
    rw [hallocs]
    split at hc
    · exact absurd hc (by simp)
    · exact h.alloc k c hc
  · intro k hk
    rw [hclients, Std.ExtTreeMap.mem_erase] at hk
    rw [hopened, Finset.mem_erase]
    refine ⟨?_, h.opened k hk.2⟩
    intro heq
    exact hk.1 (by rw [heq]; exact Std.ReflCmp.compare_self)
  · rw [hclients, hmax]
    exact Nat.le_trans Std.ExtTreeMap.size_erase_le h.size

end Registered

namespace Owned

/-- Nothing moves. -/
theorem tracks_of_same (h : Owned owner l) (hlive : ∀ q, l'.Live q ↔ l.Live q) (hepoll : l'.epoll = l.epoll)
    (hwork : l'.workload_ = l.workload_) (hheld : heldBy l'.servers_ = heldBy l.servers_) :
    Tracks owner l'.count := by
  have hcount : l'.count = l.count := by
    funext x q
    cases x with
    | epoll => simp only [count, hlive, hepoll]
    | workload => simp only [count, hwork]
    | server w => simp only [count, hheld]
  rw [hcount]
  exact h.tracks

/-- One connection moves: the other ones stay where they are. -/
theorem tracks_of_move {place : Option Place} (h : Owned owner l)
    (hepoll : ∀ q, q ≠ p → (l'.Live q ∧ q.fd ∈ l'.epoll ↔ l.Live q ∧ q.fd ∈ l.epoll))
    (hwork : ∀ q, q ≠ p → l'.workload_.count q = l.workload_.count q)
    (hheld : ∀ q, q ≠ p → ∀ w, heldBy l'.servers_ w = some q ↔ heldBy l.servers_ w = some q)
    (hmoved : ∀ x, l'.count x p = if place = some x then 1 else 0) :
    Tracks (Function.update owner p place) l'.count := by
  apply h.tracks.move hmoved
  intro x q hne
  cases x with
  | epoll => simp only [count, hepoll q hne]
  | workload => simp only [count, hwork q hne]
  | server w => simp only [count, hheld q hne w]

/-- The sockets of servers in `releaseWork`, when one server goes on. -/
theorem releasing_set {new : TCPServer} (h : Owned owner l)
    (hnew : ∀ p work, new = .releasing p work → work.socket = some p.fd) :
    ∀ p work, TCPServer.releasing p work ∈ l.servers_.set w new → work.socket = some p.fd := by
  intro p work hmem
  rcases List.mem_or_eq_of_mem_set hmem with hmem | heq
  · exact h.releasing p work hmem
  · exact hnew p work heq.symm

/-- A server goes on with its item. -/
theorem goOn {old new : TCPServer} (h : Owned owner l) (hserver : l.servers_[w]? = some old)
    (hsame : new.sockmap = old.sockmap)
    (hnew : ∀ p work, new = .releasing p work → work.socket = some p.fd)
    (work_q_sz : BitVec 64) (calls : List (Ptr × Call)) :
    Owned owner { l with work_q_sz_ := work_q_sz, servers_ := l.servers_.set w new, calls := calls } where
  __ := h
  releasing := h.releasing_set hnew
  live := h.live
  tracks := h.tracks_of_same (fun _ => Iff.rfl) rfl rfl (heldBy_set_same hserver hsame)

theorem accept (h : Owned owner l) (hunused : fd ∉ l.opened) (hroom : l.clients_.size < l.maxconnections) :
    Owned (Function.update owner ⟨fd, l.allocs⟩ (some .workload))
      { l with
        clients_ := l.clients_.insert fd { socket := some fd, state := .New, alloc := l.allocs }
        workload_ := l.workload_ ++ [⟨fd, l.allocs⟩]
        work_q_sz_ := l.work_q_sz_ + 1
        opened := insert fd l.opened
        allocs := l.allocs + 1
        pushed := l.pushed ++ [⟨fd, l.allocs⟩] } := by
  have hdisarmed : fd ∉ l.epoll := fun hmem => hunused (h.opened fd (h.epoll fd hmem))
  have hnowhere : owner ⟨fd, l.allocs⟩ = none := h.owner_unused hunused
  constructor
  case toRegistered => exact h.toRegistered.insert hroom rfl rfl rfl rfl
  case epoll =>
    intro k hk
    exact Std.ExtTreeMap.mem_insert.mpr (Or.inr (h.epoll k hk))
  case once => exact h.once
  case reported => exact h.reported
  case releasing => exact h.releasing
  case fifo => simp only [h.fifo, List.append_assoc]
  case live =>
    intro q
    rw [live_insert (l := l) rfl]
    by_cases hq : q = ⟨fd, l.allocs⟩
    · subst hq
      rw [Function.update_self]
      simp
    · rw [Function.update_of_ne hq]
      split
      · rename_i heq
        rw [h.owner_unused (heq ▸ hunused)]
        refine iff_of_false (by simp) ?_
        intro halloc
        exact hq (by cases q; simp_all)
      · exact h.live q
  case tracks =>
    apply h.tracks_of_move
    · intro q hq
      rw [live_insert (l := l) rfl]
      split
      · rename_i heq
        simp [← heq, hdisarmed]
      · rfl
    · intro q hq
      simp [List.count_append, Ne.symm hq]
    · intro q hq w
      rfl
    · intro x
      cases x with
      | epoll => simp [count, hdisarmed]
      | workload => simp [count, List.count_append, h.workload_count, hnowhere]
      | server w => simp [count, h.held_iff, hnowhere]

theorem event {events : Events} {rest : List (Fd × Events)} (h : Owned owner l)
    (hnext : l.poll_sockets = (fd, events) :: rest) (hfound : l.clients_[fd]? = some c) :
    Owned (Function.update owner ⟨fd, c.alloc⟩ (some .workload))
      { l with
        clients_ := l.clients_.insert fd { c with state := c.state ||| events.combinedState }
        workload_ := l.workload_ ++ [⟨fd, c.alloc⟩]
        work_q_sz_ := l.work_q_sz_ + 1
        poll_sockets := rest
        epoll := l.epoll.erase fd
        pushed := l.pushed ++ [⟨fd, c.alloc⟩] } := by
  have hlive : l.Live ⟨fd, c.alloc⟩ := live_iff.mpr ⟨c, hfound, rfl⟩
  have howner := h.owner_reported hnext hfound
  have honce := h.once
  rw [hnext, List.map_cons, List.nodup_cons] at honce
  constructor
  case toRegistered => exact h.toRegistered.modify hfound rfl rfl rfl rfl
  case epoll =>
    intro k hk
    exact Std.ExtTreeMap.mem_insert.mpr (Or.inr (h.epoll k (Finset.mem_of_mem_erase hk)))
  case once => exact honce.2
  case reported =>
    intro e he
    refine Finset.mem_erase.mpr ⟨?_, h.reported e (by simp [hnext, he])⟩
    intro heq
    have hmem : e.1 ∈ rest.map Prod.fst := List.mem_map_of_mem he
    exact honce.1 (heq ▸ hmem)
  case releasing => exact h.releasing
  case fifo => simp only [h.fifo, List.append_assoc]
  case live =>
    intro q
    rw [live_modify hfound rfl, isSome_update (by rw [howner]; rfl), h.live]
  case tracks =>
    apply h.tracks_of_move
    · intro q hq
      rw [live_modify hfound rfl, Finset.mem_erase]
      refine and_congr_right ?_
      intro hlive'
      refine and_iff_right ?_
      intro heq
      exact hq (eq_of_live hlive' hlive heq)
    · intro q hq
      simp [List.count_append, Ne.symm hq]
    · intro q hq w
      rfl
    · intro x
      cases x with
      | epoll => simp [count]
      | workload => simp [count, List.count_append, h.workload_count, howner]
      | server w => simp [count, h.held_iff, howner]

theorem pop {ps : List Ptr} (h : Owned owner l) (hwaiting : l.servers_[w]? = some .waiting)
    (hfirst : l.workload_ = p :: ps) :
    Owned (Function.update owner p (some (.server w)))
      { l with
        workload_ := ps
        servers_ := l.servers_.set w (.serving p .handShake .None)
        popped := l.popped ++ [p] } := by
  have howner : owner p = some .workload := h.owner_queued (by simp [hfirst])
  have hcount := h.workload_count (p := p)
  rw [hfirst, List.count_cons_self, if_pos howner] at hcount
  have hheld : ∀ v q, heldBy (l.servers_.set w (.serving p .handShake .None)) v = some q ↔
      (w = v ∧ p = q) ∨ heldBy l.servers_ v = some q := by
    intro v q
    rw [heldBy_set hwaiting]
    split
    · rename_i heq
      simp [← heq, heldBy, hwaiting, TCPServer.sockmap]
    · rename_i hne
      simp [hne]
  constructor
  case toRegistered => exact ⟨h.socket, h.alloc, h.opened, h.size⟩
  case epoll => exact h.epoll
  case once => exact h.once
  case reported => exact h.reported
  case releasing => exact h.releasing_set (by simp)
  case fifo => simp only [h.fifo, hfirst, List.append_assoc, List.singleton_append]
  case live =>
    intro q
    rw [isSome_update (by rw [howner]; rfl), h.live]
    rfl
  case tracks =>
    apply h.tracks_of_move
    · intro q hq
      rfl
    · intro q hq
      rw [hfirst, List.count_cons_of_ne (Ne.symm hq)]
    · intro q hq v
      rw [hheld]
      simp [Ne.symm hq]
    · intro x
      cases x with
      | epoll =>
          have hnot := (h.epoll_iff (p := p)).not.mp (by simp [howner])
          exact if_neg hnot
      | workload => simpa [count] using hcount
      | server v => simp [count, hheld, h.held_iff, howner]

/-- What the servers hold after one of them has given its item back. -/
theorem heldBy_released (h : Owned owner l) {old : TCPServer} (hserver : l.servers_[w]? = some old)
    (hold : old.sockmap = some p) (v : Nat) (q : Ptr) :
    heldBy (l.servers_.set w .waiting) v = some q ↔ q ≠ p ∧ heldBy l.servers_ v = some q := by
  have hheld : heldBy l.servers_ w = some p := by rw [heldBy_eq hserver, hold]
  rw [heldBy_set hserver]
  split
  · rename_i heq
    rw [← heq, hheld]
    simp [TCPServer.sockmap, eq_comm]
  · rename_i hne
    refine (and_iff_right_of_imp ?_).symm
    rintro hv rfl
    have howner := h.held_iff.mp hheld
    rw [h.held_iff.mp hv] at howner
    exact hne (by simpa using howner.symm)

theorem close {s : SockState} (h : Owned owner l)
    (hreleasing : l.servers_[w]? = some (.releasing p ⟨some p.fd, s⟩)) (hfound : l.deref p = some c) :
    Owned (Function.update owner p none)
      { l with
        clients_ := l.clients_.erase p.fd
        servers_ := l.servers_.set w .waiting
        opened := l.opened.erase p.fd
        epoll := l.epoll.erase p.fd
        calls := l.calls ++ [(p, .close)] } := by
  have hlive : l.Live p := by rw [Live, hfound]; rfl
  have hheldp : heldBy l.servers_ w = some p := heldBy_eq hreleasing
  have howner := h.held_iff.mp hheldp
  have hheld := h.heldBy_released hreleasing rfl
  have hfd : ∀ q, q ≠ p → l.Live q → p.fd ≠ q.fd := by
    intro q hq hliveq heq
    exact hq (eq_of_live hliveq hlive heq.symm)
  rw [Finset.erase_eq_of_notMem (h.notMem_epoll_of_held hheldp)]
  constructor
  case toRegistered => exact h.toRegistered.erase rfl rfl rfl rfl
  case epoll =>
    intro k hk
    refine Std.ExtTreeMap.mem_erase.mpr ⟨?_, h.epoll k hk⟩
    intro heq
    exact h.notMem_epoll_of_held hheldp (Std.LawfulEqOrd.eq_of_compare heq ▸ hk)
  case once => exact h.once
  case reported => exact h.reported
  case releasing => exact h.releasing_set (by simp)
  case fifo => exact h.fifo
  case live =>
    intro q
    rw [live_erase (l := l) rfl]
    by_cases hq : q = p
    · subst hq
      simp
    · rw [Function.update_of_ne hq, h.live]
      exact (and_iff_right_of_imp (hfd q hq)).symm
  case tracks =>
    apply h.tracks_of_move
    · intro q hq
      rw [live_erase (l := l) rfl, and_iff_right_of_imp (hfd q hq)]
    · intro q hq
      rfl
    · intro q hq v
      rw [hheld, and_iff_right hq]
    · intro x
      cases x with
      | epoll => simp [count, h.notMem_epoll_of_held hheldp]
      | workload => simp [count, h.workload_count, howner]
      | server v => simp [count, hheld]

theorem rearm {s : SockState} (h : Owned owner l)
    (hreleasing : l.servers_[w]? = some (.releasing p ⟨some p.fd, s⟩)) (hfound : l.deref p = some c) :
    Owned (Function.update owner p (some .epoll))
      { l with
        clients_ := l.clients_.insert p.fd { c with state := c.state ^^^ s }
        servers_ := l.servers_.set w .waiting
        epoll := insert p.fd l.epoll } := by
  have hclient := (deref_eq_some.mp hfound).1
  have hlive : l.Live p := by rw [Live, hfound]; rfl
  have hheldp : heldBy l.servers_ w = some p := heldBy_eq hreleasing
  have howner := h.held_iff.mp hheldp
  have hheld := h.heldBy_released hreleasing rfl
  constructor
  case toRegistered => exact h.toRegistered.modify hclient rfl rfl rfl rfl
  case epoll =>
    intro k hk
    rcases Finset.mem_insert.mp hk with rfl | hk
    · exact Std.ExtTreeMap.mem_insert_self
    · exact Std.ExtTreeMap.mem_insert.mpr (Or.inr (h.epoll k hk))
  case once => exact h.once
  case reported =>
    intro e he
    exact Finset.mem_insert_of_mem (h.reported e he)
  case releasing => exact h.releasing_set (by simp)
  case fifo => exact h.fifo
  case live =>
    intro q
    rw [live_modify hclient rfl, isSome_update (by rw [howner]; rfl), h.live]
  case tracks =>
    apply h.tracks_of_move
    · intro q hq
      rw [live_modify hclient rfl, Finset.mem_insert]
      refine and_congr_right ?_
      intro hliveq
      refine or_iff_right ?_
      intro heq
      exact hq (eq_of_live hliveq hlive heq)
    · intro q hq
      rfl
    · intro q hq v
      rw [hheld, and_iff_right hq]
    · intro x
      cases x with
      | epoll =>
          rw [if_pos rfl]
          exact if_pos ⟨(live_modify hclient rfl).mpr hlive, Finset.mem_insert_self p.fd l.epoll⟩
      | workload => simp [count, h.workload_count, howner]
      | server v => simp [count, hheld]

theorem start (maxconnections servers : Nat) :
    Owned (fun _ => none) (TCPListener.start maxconnections servers) where
  socket := by simp [TCPListener.start]
  alloc := by simp [TCPListener.start]
  opened := by simp [TCPListener.start]
  size := by simp [TCPListener.start]
  epoll := by simp [TCPListener.start]
  once := by simp [TCPListener.start]
  reported := by simp [TCPListener.start]
  releasing := by simp [TCPListener.start]
  fifo := by simp [TCPListener.start]
  live := by simp [TCPListener.start, live_iff]
  tracks := by
    intro x p
    cases x with
    | epoll => simp [count, TCPListener.start]
    | workload => simp [count, TCPListener.start]
    | server w =>
        have hnone : heldBy (List.replicate servers .waiting) w = none :=
          congrFun (heldBy_append_waiting [] servers) w
        simp [count, TCPListener.start, hnone]

end Owned

/-- **One step** keeps the invariant. -/
theorem Outcome.owned (h : Owned owner l) (ho : Outcome l owner a l' owner') : Owned owner' l' := by
  cases ho with
  | rejected fd full => exact h
  | accepted fd unused room => exact h.accept unused room
  | added =>
      exact { h with
        releasing := by
          intro p work hmem
          exact h.releasing p work (by simpa using hmem)
        tracks := h.tracks_of_same (fun _ => Iff.rfl) rfl rfl (heldBy_append_waiting l.servers_ 1) }
  | reported events handled once armed => exact { h with once := once, reported := armed }
  | event fd c events rest next found => exact h.event next found
  | idle w waiting empty => exact h
  | popped w p ps waiting first => exact h.pop waiting first
  | called a w p stage s made completion c passing serving found flag =>
      exact h.goOn serving (sockmap_after stage _) (by cases stage <;> simp [Stage.after]) _ _
  | skipped a w p stage s made completion c passing serving found flag =>
      exact h.goOn serving (sockmap_after stage _) (by cases stage <;> simp [Stage.after]) _ _
  | decremented w p s c served found =>
      refine h.goOn served ?_ ?_ _ _
      · rfl
      · rintro q work ⟨⟩
        rfl
  | closed w p s c releasing found shut => exact h.close releasing found
  | rearmed w p s c releasing found shut => exact h.rearm releasing found

/-- **One step** is no hand-over, or one of those of the abstract model. -/
theorem Outcome.handOver (h : Owned owner l) (ho : Outcome l owner a l' owner') :
    owner' = owner ∨ Step HandOver owner owner' := by
  cases ho with
  | rejected | added | reported | idle | called | skipped | decremented => exact Or.inl rfl
  | accepted fd unused room =>
      have howner : owner ⟨fd, l.allocs⟩ = none := h.owner_unused unused
      exact Or.inr ⟨_, _, howner ▸ .accept, rfl⟩
  | event fd c events rest next found =>
      exact Or.inr ⟨_, _, h.owner_reported next found ▸ .event, rfl⟩
  | popped w p ps waiting first =>
      have howner : owner p = some .workload := h.owner_queued (by simp [first])
      exact Or.inr ⟨_, _, howner ▸ .pop w, rfl⟩
  | closed w p s c releasing found shut =>
      exact Or.inr ⟨_, _, h.held_iff.mp (heldBy_eq releasing) ▸ .close w, rfl⟩
  | rearmed w p s c releasing found shut =>
      exact Or.inr ⟨_, _, h.held_iff.mp (heldBy_eq releasing) ▸ .rearm w, rfl⟩

theorem Outcome.maxconnections_eq (ho : Outcome l owner a l' owner') :
    l'.maxconnections = l.maxconnections := by
  cases ho <;> rfl

/-- **Every run** refines a sequence of hand-overs. -/
theorem run_refines {maxconnections servers : Nat} {as : List Action}
    (hrun : Machine.exec step (start maxconnections servers) as = some l) :
    l.maxconnections = maxconnections ∧ ∃ owner : Owner Ptr Place,
      Owned owner l ∧ Relation.ReflTransGen (Step HandOver) (fun _ => none) owner := by
  apply Machine.exec_invariant (s := start maxconnections servers)
    (fun l => l.maxconnections = maxconnections ∧ ∃ owner : Owner Ptr Place,
      Owned owner l ∧ Relation.ReflTransGen (Step HandOver) (fun _ => none) owner) _ _ hrun
  · rintro l a l' ⟨hmax, owner, howned, hsteps⟩ hstep
    obtain ⟨owner', houtcome⟩ := outcome_of_step howned hstep
    refine ⟨houtcome.maxconnections_eq.trans hmax, owner', houtcome.owned howned, ?_⟩
    rcases houtcome.handOver howned with heq | hover
    · rw [heq]
      exact hsteps
    · exact hsteps.tail hover
  · exact ⟨rfl, _, .start maxconnections servers, .refl⟩

/-- **Every connection is in exactly one place.** In every state that any interleaving of listener and
    server steps reaches, whatever the kernel and the callbacks do: an entry of `clients_` is in the epoll
    set, once in `workload_`, or with one server, and in no two of these places. So all pointers in
    `workload_` and with the servers point to entries that exist, and no two servers serve the same
    connection. Work items are handed out in the order in which they were pushed, each one once. There are
    never more than `maxconnections` connections, and no thread is ever stuck on a bad pointer. -/
theorem work_distribution (maxconnections servers : Nat) (as : List Action) (l : TCPListener)
    (hrun : Machine.exec step (start maxconnections servers) as = some l) :
    (∀ fd ∈ l.clients_, ∃ place, l.count place (l.ptr fd) = 1 ∧
      ∀ other, other ≠ place → l.count other (l.ptr fd) = 0) ∧
    (∀ p ∈ l.workload_, l.Live p) ∧
    (∀ v w p, heldBy l.servers_ v = some p → heldBy l.servers_ w = some p → v = w ∧ l.Live p) ∧
    l.pushed = l.popped ++ l.workload_ ∧
    l.clients_.size ≤ maxconnections ∧
    ∀ a, l.Enabled a → ∃ l', l.step a = some l' := by
  obtain ⟨hmax, owner, h, -⟩ := run_refines hrun
  have hlive : ∀ p place, owner p = some place → l.Live p := by
    intro p place howner
    rw [← h.live, howner]
    rfl
  refine ⟨?_, ?_, ?_, h.fifo, hmax ▸ h.size, ?_⟩
  · intro fd hfd
    obtain ⟨c, hc⟩ := Option.isSome_iff_exists.mp (Std.ExtTreeMap.mem_iff_isSome_getElem?.mp hfd)
    apply h.tracks.exactly_one
    rw [h.live, live_iff]
    exact ⟨c, hc, by rw [ptr, clientAt_of_some hc]⟩
  · intro p hp
    exact hlive p .workload (h.owner_queued hp)
  · intro v w p hv hw
    have hownerv := h.held_iff.mp hv
    have hownerw := h.held_iff.mp hw
    refine ⟨?_, hlive p _ hownerv⟩
    rw [hownerv] at hownerw
    simpa using hownerw
  · intro a ha
    obtain ⟨l', owner', hstep, -⟩ := step_outcome h ha
    exact ⟨l', hstep⟩

/-- Data arrive on the connection. -/
def input : List Action := [.epollWait [(5, ⟨true, false, false, false, false, rfl⟩)], .event]

/-- A connection is accepted, greeted and put into the epoll set; data arrive, and the second server takes
    it. -/
def servedTwice : List Action :=
  [.accept 5, .popWork 0, .handShake 0 (.returned true), .readSocket 0 .threw .threw,
    .shutDown 0 .threw, .decrement 0, .release 0] ++ input ++ [.popWork 1]

theorem work_distribution_servedTwice :
    ∃ l, Machine.exec step (start 1 2) servedTwice = some l ∧ 5 ∈ l.clients_ ∧
      heldBy l.servers_ 1 = some (l.ptr 5) ∧ ∃ place, l.count place (l.ptr 5) = 1 ∧
        ∀ other, other ≠ place → l.count other (l.ptr 5) = 0 := by
  have hrun : ∃ l ∈ Machine.exec step (start 1 2) servedTwice,
      5 ∈ l.clients_ ∧ heldBy l.servers_ 1 = some (l.ptr 5) := by decide +kernel
  obtain ⟨l, hexec, hmem, hheld⟩ := hrun
  exact ⟨l, hexec, hmem, hheld, (work_distribution 1 2 servedTwice l hexec).1 5 hmem⟩

end TCPListener
end Dodo.Network
