import Mathlib.Algebra.Group.Nat.Defs
import Mathlib.Data.Finset.Card
import Mathlib.Data.List.Perm.Basic
import Dodo.Network.WorkDistribution

/-!
# `Network.WorkCounter` — the counter of the work items

`work_q_sz_` counts the items of `workload_` and those that servers have taken and not begun to release. It
is an unsigned counter of 64 bits, and it does not wrap: every item belongs to a connection of its own, and
there are at most `maxconnections`.

Where `epoll_ctl` fails, the thread ends: a server stays in `releaseWork`, behind the decrement, and the
listener leaves its loop, behind the increment of `pushWork`. Such a run is one in which that thread takes no
more steps. The loop that waits for the counter at the end of `run` takes no steps of the model either.
-/

namespace Dodo.Network

open Lib Lib.Ownership

theorem filterMap_cons_toList {α β : Type} (f : α → Option β) (x : α) (xs : List α) :
    (x :: xs).filterMap f = (f x).toList ++ xs.filterMap f := by
  rw [List.filterMap_cons]
  cases f x <;> rfl

/-- Replacing one element of a list, in what `filterMap` gives. -/
theorem perm_filterMap_set {α β : Type} {f : α → Option β} {xs : List α} {i : Nat} {old : α}
    (h : xs[i]? = some old) (new : α) :
    ((f old).toList ++ (xs.set i new).filterMap f).Perm ((f new).toList ++ xs.filterMap f) := by
  obtain ⟨hlt, rfl⟩ := List.getElem?_eq_some_iff.mp h
  have hset := (List.set_perm_cons_eraseIdx hlt new).filterMap f
  have hself := (List.getElem_cons_eraseIdx_perm hlt).filterMap f
  rw [filterMap_cons_toList] at hset hself
  calc (f xs[i]).toList ++ (xs.set i new).filterMap f
      |>.Perm ((f xs[i]).toList ++ ((f new).toList ++ (xs.eraseIdx i).filterMap f)) := hset.append_left _
    _ |>.Perm ((f new).toList ++ ((f xs[i]).toList ++ (xs.eraseIdx i).filterMap f)) :=
        List.perm_append_comm_assoc _ _ _
    _ |>.Perm ((f new).toList ++ xs.filterMap f) := hself.append_left _

/-- The item that a server has taken and not begun to release. -/
def TCPServer.unreleased : TCPServer → Option Ptr
  | waiting => none
  | serving p _ _ => some p
  | served p _ => some p
  | releasing _ _ => none

namespace TCPListener

variable {l l' : TCPListener} {owner owner' : Owner Ptr Place} {a : Action} {p : Ptr} {w : Nat}

/-- The items that servers have taken and not begun to release. -/
def inHand (l : TCPListener) : List Ptr := l.servers_.filterMap TCPServer.unreleased

/-- The items that servers have taken and not released. -/
def held (l : TCPListener) : List Ptr := l.servers_.filterMap TCPServer.sockmap

/-- The items whose `releaseWork` begins with an action. -/
def releaseBegun (l : TCPListener) : Action → List Ptr
  | .decrement w => (heldBy l.servers_ w).toList
  | _ => []

/-! ## The servers -/

section Servers

variable {old new : TCPServer}

theorem perm_inHand (h : l.servers_[w]? = some old) (hservers : l'.servers_ = l.servers_.set w new) :
    (old.unreleased.toList ++ l'.inHand).Perm (new.unreleased.toList ++ l.inHand) := by
  unfold inHand
  rw [hservers]
  exact perm_filterMap_set h new

theorem length_held (h : l.servers_[w]? = some old) (hservers : l'.servers_ = l.servers_.set w new) :
    old.sockmap.toList.length + l'.held.length = new.sockmap.toList.length + l.held.length := by
  unfold held
  rw [hservers]
  simpa only [List.length_append] using (perm_filterMap_set (f := TCPServer.sockmap) h new).length_eq

theorem unreleased_after (stage : Stage) (completion : SockState) :
    (stage.after p completion).unreleased = some p := by
  cases stage <;> rfl

/-- An item is released after its `releaseWork` has begun. -/
theorem length_inHand_le : l.inHand.length ≤ l.held.length := by
  unfold inHand held
  induction l.servers_ with
  | nil => exact Nat.le_refl _
  | cons server servers ih =>
      rw [filterMap_cons_toList, filterMap_cons_toList, List.length_append, List.length_append]
      apply Nat.add_le_add _ ih
      cases server <;> simp [TCPServer.unreleased, TCPServer.sockmap]

end Servers

/-! ## The invariant -/

/-- The counter and the items; `begun` are the items whose `releaseWork` has begun so far. -/
structure Counted (l : TCPListener) (begun : List Ptr) : Prop where
  counter : l.work_q_sz_ = BitVec.ofNat 64 (l.workload_.length + l.inHand.length)
  /-- Every connection is in the epoll set, in `workload_` or with a server. -/
  conserved : l.clients_.size = l.epoll.card + l.workload_.length + l.held.length
  /-- An item that was popped is still in a server's hand, or its `releaseWork` has begun. -/
  popped : l.popped.Perm (begun ++ l.inHand)

namespace Counted

variable {begun : List Ptr} {old new : TCPServer}

/-- A server goes on with its item. -/
theorem goOn (h : Counted l begun) (hserver : l.servers_[w]? = some old)
    (hservers : l'.servers_ = l.servers_.set w new) (hinHand : new.unreleased = old.unreleased)
    (hheld : new.sockmap = old.sockmap) (hsame : l' = { l with servers_ := l'.servers_, calls := l'.calls }) :
    Counted l' begun := by
  have hperm : l'.inHand.Perm l.inHand := by
    have hperm := perm_inHand hserver hservers
    rw [hinHand] at hperm
    exact (List.perm_append_left_iff _).mp hperm
  have hlength : l'.held.length = l.held.length := by
    have hlength := length_held hserver hservers
    rw [hheld] at hlength
    exact Nat.add_left_cancel hlength
  rw [hsame] at hperm hlength ⊢
  refine ⟨?_, ?_, h.popped.trans (hperm.symm.append_left _)⟩
  · rw [hperm.length_eq]
    exact h.counter
  · rw [hlength]
    exact h.conserved

/-- A connection that is not in the epoll set becomes a work item. -/
theorem push (h : Counted l begun) (hservers : l'.servers_ = l.servers_) (hworkload : l'.workload_ = l.workload_ ++ [p])
    (hcounter : l'.work_q_sz_ = l.work_q_sz_ + 1) (hpopped : l'.popped = l.popped)
    (hsize : l'.clients_.size = l'.epoll.card + l.workload_.length + 1 + l.held.length) : Counted l' begun := by
  have hinHand : l'.inHand = l.inHand := by
    unfold inHand
    rw [hservers]
  have hheld : l'.held = l.held := by
    unfold held
    rw [hservers]
  refine ⟨?_, ?_, ?_⟩
  · rw [hcounter, h.counter, hworkload, hinHand, List.length_append, List.length_singleton, Nat.add_right_comm]
    exact (BitVec.ofNat_add _ 1).symm
  · rw [hsize, hworkload, hheld, List.length_append, List.length_singleton]
    omega
  · rw [hpopped, hinHand]
    exact h.popped

/-- A server takes the first item. -/
theorem pop {ps : List Ptr} {stage : Stage} {s : SockState} (h : Counted l begun)
    (hwaiting : l.servers_[w]? = some .waiting) (hfirst : l.workload_ = p :: ps)
    (hservers : l'.servers_ = l.servers_.set w (.serving p stage s)) (hworkload : l'.workload_ = ps)
    (hcounter : l'.work_q_sz_ = l.work_q_sz_) (hpopped : l'.popped = l.popped ++ [p])
    (hclients : l'.clients_ = l.clients_) (hepoll : l'.epoll = l.epoll) : Counted l' begun := by
  have hinHand : l'.inHand.Perm (p :: l.inHand) := perm_inHand hwaiting hservers
  have hheld : 0 + l'.held.length = 1 + l.held.length := length_held hwaiting hservers
  refine ⟨?_, ?_, ?_⟩
  · rw [hcounter, h.counter, hworkload, hfirst, hinHand.length_eq, List.length_cons, List.length_cons,
      Nat.add_right_comm, Nat.add_assoc]
  · rw [hclients, h.conserved, hepoll, hworkload, hfirst, List.length_cons]
    omega
  · rw [hpopped]
    calc l.popped ++ [p]
        |>.Perm ((begun ++ l.inHand) ++ [p]) := h.popped.append_right _
      _ |>.Perm (p :: (begun ++ l.inHand)) := List.perm_append_singleton _ _
      _ |>.Perm (begun ++ p :: l.inHand) := List.perm_middle.symm
      _ |>.Perm (begun ++ l'.inHand) := hinHand.symm.append_left _

/-- A server begins to release its item. -/
theorem begin {s : SockState} {work : SocketWork} (h : Counted l begun)
    (hserved : l.servers_[w]? = some (.served p s))
    (hservers : l'.servers_ = l.servers_.set w (.releasing p work)) (hworkload : l'.workload_ = l.workload_)
    (hcounter : l'.work_q_sz_ = l.work_q_sz_ - 1) (hpopped : l'.popped = l.popped)
    (hclients : l'.clients_ = l.clients_) (hepoll : l'.epoll = l.epoll) : Counted l' (begun ++ [p]) := by
  have hinHand : (p :: l'.inHand).Perm l.inHand := perm_inHand hserved hservers
  have hheld : 1 + l'.held.length = 1 + l.held.length := length_held hserved hservers
  refine ⟨?_, ?_, ?_⟩
  · rw [hcounter, h.counter, hworkload, ← hinHand.length_eq, List.length_cons, ← Nat.add_assoc, BitVec.ofNat_add]
    exact BitVec.add_sub_cancel _ _
  · rw [hclients, h.conserved, hepoll, hworkload]
    omega
  · rw [hpopped, List.append_assoc]
    exact h.popped.trans (hinHand.symm.append_left _)

/-- A server has released its item. -/
theorem release {work : SocketWork} (h : Counted l begun)
    (hreleasing : l.servers_[w]? = some (.releasing p work))
    (hservers : l'.servers_ = l.servers_.set w .waiting) (hworkload : l'.workload_ = l.workload_)
    (hcounter : l'.work_q_sz_ = l.work_q_sz_) (hpopped : l'.popped = l.popped)
    (hsize : l'.clients_.size + l.epoll.card + 1 = l.clients_.size + l'.epoll.card) : Counted l' begun := by
  have hinHand : l'.inHand.Perm l.inHand := perm_inHand hreleasing hservers
  have hheld : 1 + l'.held.length = 0 + l.held.length := length_held hreleasing hservers
  have hconserved := h.conserved
  refine ⟨?_, ?_, ?_⟩
  · rw [hcounter, h.counter, hworkload, hinHand.length_eq]
  · rw [hworkload]
    omega
  · rw [hpopped]
    exact h.popped.trans (hinHand.symm.append_left _)

/-- A new server has nothing in its hands. -/
theorem addServer (h : Counted l begun) : Counted { l with servers_ := l.servers_ ++ [.waiting] } begun := by
  have hwaiting : ∀ f : TCPServer → Option Ptr, f .waiting = none →
      (l.servers_ ++ [TCPServer.waiting]).filterMap f = l.servers_.filterMap f := by
    intro f hf
    rw [List.filterMap_append, filterMap_cons_toList, hf]
    exact List.append_nil _
  have hinHand : inHand { l with servers_ := l.servers_ ++ [.waiting] } = l.inHand :=
    hwaiting TCPServer.unreleased rfl
  have hheld : held { l with servers_ := l.servers_ ++ [.waiting] } = l.held :=
    hwaiting TCPServer.sockmap rfl
  exact ⟨by rw [hinHand]; exact h.counter, by rw [hheld]; exact h.conserved, by rw [hinHand]; exact h.popped⟩

/-- An action that is no decrement begins no `releaseWork`. -/
theorem of_nothing_begun (h : Counted l' begun) (hnil : l.releaseBegun a = []) :
    Counted l' (begun ++ l.releaseBegun a) := by
  rw [hnil, List.append_nil]
  exact h

end Counted

theorem releaseBegun_of_passing {x : Nat × Stage × List Call × SockState} (h : a.passing = some x) :
    l.releaseBegun a = [] := by
  cases a with
  | decrement w => cases h
  | _ => rfl

theorem mem_clients_of_deref {c : Client} (h : l.deref p = some c) : p.fd ∈ l.clients_ := by
  rw [Std.ExtTreeMap.mem_iff_isSome_getElem?, (deref_eq_some.mp h).1]
  rfl

/-- **One step** keeps the counter right. -/
theorem Outcome.counted {begun : List Ptr} (howned : Owned owner l) (h : Counted l begun)
    (ho : Outcome l owner a l' owner') : Counted l' (begun ++ l.releaseBegun a) := by
  cases ho with
  | rejected fd full => exact h.of_nothing_begun rfl
  | accepted fd unused room =>
      have hnew : fd ∉ l.clients_ := fun hmem => unused (howned.opened fd hmem)
      refine Counted.of_nothing_begun (h.push (p := ⟨fd, l.allocs⟩) rfl rfl rfl rfl ?_) rfl
      show (l.clients_.insert fd _).size = l.epoll.card + _ + 1 + _
      rw [Std.ExtTreeMap.size_insert, if_neg (fun hmem => hnew (Std.ExtTreeMap.mem_iff_contains.mpr hmem)),
        h.conserved]
      omega
  | added => exact h.addServer.of_nothing_begun rfl
  | reported events handled once armed =>
      exact Counted.of_nothing_begun ⟨h.counter, h.conserved, h.popped⟩ rfl
  | event fd c events rest next found =>
      have hepoll : fd ∈ l.epoll := howned.reported (fd, events) (by simp [next])
      have hmem : l.clients_.contains fd = true := by
        rw [← Std.ExtTreeMap.mem_iff_contains]
        exact howned.epoll fd hepoll
      have hcard : (l.epoll.erase fd).card + 1 = l.epoll.card := Finset.card_erase_add_one hepoll
      refine Counted.of_nothing_begun (h.push (p := ⟨fd, c.alloc⟩) rfl rfl rfl rfl ?_) rfl
      show (l.clients_.insert fd _).size = (l.epoll.erase fd).card + _ + 1 + _
      rw [Std.ExtTreeMap.size_insert, if_pos hmem, h.conserved]
      omega
  | idle w waiting empty => exact h.of_nothing_begun rfl
  | popped w p ps waiting first =>
      exact Counted.of_nothing_begun (h.pop waiting first rfl rfl rfl rfl rfl rfl) rfl
  | called a w p stage s made completion c passing serving found flag =>
      exact Counted.of_nothing_begun (h.goOn serving rfl (unreleased_after _ _) (sockmap_after _ _) rfl)
        (releaseBegun_of_passing passing)
  | skipped a w p stage s made completion c passing serving found flag =>
      exact Counted.of_nothing_begun (h.goOn serving rfl (unreleased_after _ _) (sockmap_after _ _) rfl)
        (releaseBegun_of_passing passing)
  | decremented w p s c served found =>
      have hbegun : l.releaseBegun (.decrement w) = [p] := by
        rw [releaseBegun, heldBy_eq served]
        rfl
      rw [hbegun]
      exact h.begin served rfl rfl rfl rfl rfl rfl
  | closed w p s c releasing found shut =>
      have hmem := mem_clients_of_deref found
      have hpos : 0 < l.clients_.size := by
        rw [← Std.ExtTreeMap.length_keys]
        exact List.length_pos_of_mem (Std.ExtTreeMap.mem_keys.mpr hmem)
      have hepoll := howned.notMem_epoll_of_held (heldBy_eq releasing)
      refine Counted.of_nothing_begun (h.release releasing rfl rfl rfl rfl ?_) rfl
      show (l.clients_.erase p.fd).size + _ + 1 = _ + (l.epoll.erase p.fd).card
      rw [Std.ExtTreeMap.size_erase, if_pos (Std.ExtTreeMap.mem_iff_contains.mp hmem),
        Finset.erase_eq_of_notMem hepoll]
      omega
  | rearmed w p s c releasing found shut =>
      have hmem := mem_clients_of_deref found
      have hepoll := howned.notMem_epoll_of_held (heldBy_eq releasing)
      refine Counted.of_nothing_begun (h.release releasing rfl rfl rfl rfl ?_) rfl
      show (l.clients_.insert p.fd _).size + _ + 1 = _ + (insert p.fd l.epoll).card
      rw [Std.ExtTreeMap.size_insert, if_pos (Std.ExtTreeMap.mem_iff_contains.mp hmem),
        Finset.card_insert_of_notMem hepoll]
      rfl

theorem Counted.start (maxconnections servers : Nat) : Counted (start maxconnections servers) [] := by
  have hwaiting : ∀ f : TCPServer → Option Ptr, f .waiting = none →
      (List.replicate servers TCPServer.waiting).filterMap f = [] := by
    intro f hf
    rw [List.filterMap_replicate_of_none hf]
  have hinHand : (TCPListener.start maxconnections servers).inHand = [] := hwaiting _ rfl
  have hheld : (TCPListener.start maxconnections servers).held = [] := hwaiting _ rfl
  refine ⟨?_, ?_, ?_⟩
  · rw [hinHand]
    rfl
  · rw [hheld]
    rfl
  · rw [hinHand]
    exact .nil

/-- The number of items is far from the end of the counter. -/
theorem Counted.toNat_counter {begun : List Ptr} (h : Counted l begun) (hbound : l.clients_.size < 2 ^ 64) :
    l.work_q_sz_.toNat = l.workload_.length + l.inHand.length := by
  have hle := length_inHand_le (l := l)
  have hconserved := h.conserved
  rw [h.counter, BitVec.toNat_ofNat]
  exact Nat.mod_eq_of_lt (by omega)

/-- **Every run** keeps the counter right. -/
theorem run_counted {maxconnections servers : Nat} {as : List Action}
    (hrun : Machine.exec step (start maxconnections servers) as = some l) :
    l.maxconnections = maxconnections ∧ ∃ owner : Owner Ptr Place, Owned owner l ∧
      Counted l (Machine.collect releaseBegun step (start maxconnections servers) as) := by
  apply Machine.exec_collect (s := start maxconnections servers)
    (fun l begun => l.maxconnections = maxconnections ∧ ∃ owner : Owner Ptr Place, Owned owner l ∧ Counted l begun)
    _ _ hrun
  · rintro l begun a l' ⟨hmax, owner, howned, hcounted⟩ hstep
    obtain ⟨owner', houtcome⟩ := outcome_of_step howned hstep
    exact ⟨houtcome.maxconnections_eq.trans hmax, owner', houtcome.owned howned, houtcome.counted howned hcounted⟩
  · exact ⟨rfl, _, .start maxconnections servers, .start maxconnections servers⟩

/-- **The work counter.** In every state that a run reaches, `work_q_sz_` is the number of items in
    `workload_` plus the number of items that were popped and whose `releaseWork` has not begun. So the
    decrement does not wrap, and where the counter is 0, every item that was ever pushed has been popped and
    its `releaseWork` has begun. -/
theorem work_counter (maxconnections : BitVec 64) (servers : Nat) (as : List Action) (l : TCPListener)
    (hrun : Machine.exec step (start maxconnections.toNat servers) as = some l) :
    l.work_q_sz_.toNat = l.workload_.length + l.inHand.length ∧
    l.popped.Perm (Machine.collect releaseBegun step (start maxconnections.toNat servers) as ++ l.inHand) ∧
    (∀ w l', l.step (.decrement w) = some l' → l.work_q_sz_.toNat = l'.work_q_sz_.toNat + 1) ∧
    (l.work_q_sz_ = 0 → l.popped = l.pushed ∧
      (Machine.collect releaseBegun step (start maxconnections.toNat servers) as).Perm l.pushed) := by
  obtain ⟨hmax, owner, howned, hcounted⟩ := run_counted hrun
  have hbound : l.clients_.size < 2 ^ 64 := by
    have hsize := howned.size
    rw [hmax] at hsize
    exact Nat.lt_of_le_of_lt hsize maxconnections.isLt
  have hcounter := hcounted.toNat_counter hbound
  refine ⟨hcounter, hcounted.popped, ?_, ?_⟩
  · intro w l' hstep
    have hpos : 0 < l.work_q_sz_.toNat := by
      obtain ⟨p, s, hserved⟩ := enabled_of_step hstep
      have hmem : p ∈ l.inHand := List.mem_filterMap.mpr ⟨_, List.mem_of_getElem? hserved, rfl⟩
      have := List.length_pos_of_mem hmem
      omega
    have hcounter' : l'.work_q_sz_ = l.work_q_sz_ - 1 := by
      obtain ⟨owner', houtcome⟩ := outcome_of_step howned hstep
      cases houtcome with
      | decremented w p s c served found => rfl
      | called _ _ _ _ _ _ _ _ passing => cases passing
      | skipped _ _ _ _ _ _ _ _ passing => cases passing
    have hle : (1 : BitVec 64) ≤ l.work_q_sz_ := BitVec.le_def.mpr hpos
    rw [hcounter', BitVec.toNat_sub_of_le hle]
    exact (Nat.sub_add_cancel hpos).symm
  · intro hzero
    have hsum : 0 = l.workload_.length + l.inHand.length := by
      rw [← hcounter, hzero]
      rfl
    have hworkload : l.workload_ = [] := List.eq_nil_of_length_eq_zero (by omega)
    have hinHand : l.inHand = [] := List.eq_nil_of_length_eq_zero (by omega)
    have hpopped : l.popped = l.pushed := by
      rw [howned.fifo, hworkload, List.append_nil]
    have hperm := hcounted.popped
    rw [hinHand, List.append_nil, hpopped] at hperm
    exact ⟨hpopped, hperm.symm⟩

/-- A new connection is greeted; then the counter is 0, and its item has been released. -/
theorem work_counter_greeted :
    ∃ l, Machine.exec step (start 1 2) (servedTwice.take 7) = some l ∧ l.work_q_sz_ = 0 ∧
      l.pushed = [⟨5, 0⟩] ∧
      (Machine.collect releaseBegun step (start 1 2) (servedTwice.take 7)).Perm l.pushed := by
  have hrun : ∃ l ∈ Machine.exec step (start 1 2) (servedTwice.take 7),
      l.work_q_sz_ = 0 ∧ l.pushed = [⟨5, 0⟩] := by decide +kernel
  obtain ⟨l, hexec, hzero, hpushed⟩ := hrun
  exact ⟨l, hexec, hzero, hpushed, ((work_counter 1 2 _ l hexec).2.2.2 hzero).2⟩

end TCPListener
end Dodo.Network
