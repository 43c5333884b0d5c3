import Dodo.Lib.Fair
import Dodo.Network.ListenerShutdown

/-!
# `Network.ShutdownEnds` — the listener comes to its end

That `TCPListener::run` returns, once it has left its loop, rests on the servers: the listener waits for the counter
and then for each of them. A server that is not asked to stop goes round in its loops for ever, so what is left to do
is not a sum over the steps of all threads. The rank counts the work, the requests to stop that are left, and the loops
of the servers that have been asked; and, when there is work that no server has taken, how far the first server is
from taking it. The first server is never asked to stop before the work is done, so there is always one that does it.

A handler that is called is a step that comes to its end, by returning or by throwing.
-/

namespace Dodo.Network

open Lib

/-! ## The rank -/

/-- The steps to the end of `releaseWork`. -/
def TCPServer.rank : TCPServer → Nat
  | .waiting => 0
  | .releasing _ _ => 1
  | .served _ _ => 2
  | .serving _ .shutDown _ => 3
  | .serving _ .readSocket _ => 4
  | .serving _ .handShake _ => 5

/-- The steps to the end of the thread, once it has been asked to stop and there is no work. -/
def ServerThread.rank : ServerThread → Nat
  | ⟨false, _⟩ => 3
  | ⟨true, .waiting⟩ => 3
  | ⟨true, .popping⟩ => 2
  | ⟨true, .testing⟩ => 1
  | ⟨true, .stopped⟩ => 0

/-- The steps until a server that has not been asked to stop calls `popWork`. -/
def ServerLoop.toPop : ServerLoop → Nat
  | .testing => 3
  | .waiting => 2
  | .popping => 1
  | .stopped => 0

def TCPListener.workLeft (l : TCPListener) : Nat := 6 * l.workload_.length + (l.servers_.map TCPServer.rank).sum

namespace ListenerRun

variable {r r' : ListenerRun} {a : RunAction} {w : Nat} {t t' : ServerThread}

def phaseLeft (r : ListenerRun) : Nat :=
  match r.phase with
  | .serving => 0
  | .draining => r.threads.length + r.threads.length + r.listener.clients_.size + 4
  | .asking i => (r.threads.length - i) + r.threads.length + r.listener.clients_.size + 3
  | .joining i => (r.threads.length - i) + r.listener.clients_.size + 2
  | .closing sockets => sockets.length + 1
  | .returned => 0

def left (r : ListenerRun) : Nat := r.listener.workLeft + r.phaseLeft + (r.threads.map ServerThread.rank).sum

/-- There is work, and no server has any of it. -/
def Unattended (r : ListenerRun) : Prop :=
  r.phase = .draining ∧ 0 < r.listener.work_q_sz_ ∧ ∀ server ∈ r.listener.servers_, server = .waiting

instance decidableUnattended (r : ListenerRun) : Decidable r.Unattended :=
  inferInstanceAs (Decidable (_ ∧ _))

/-- How far the first server is from taking the work that no server has. -/
def firstLeft (r : ListenerRun) : Nat :=
  if r.Unattended then r.threads[0]?.elim 0 (·.loop.toPop) else 0

def rank (r : ListenerRun) : Nat := 4 * r.left + r.firstLeft

/-- The thread that brings the end nearer: `none` is the listener. -/
def helpful (r : ListenerRun) : Option Nat :=
  match r.phase with
  | .draining =>
    if 0 < r.listener.work_q_sz_ then some ((r.listener.servers_.findIdx? (· ≠ .waiting)).getD 0) else none
  | .joining i =>
    match r.threads[i]? with
    | some t => if t.loop = .stopped then none else some i
    | none => none
  | _ => none

theorem firstLeft_le (r : ListenerRun) : r.firstLeft ≤ 3 := by
  unfold firstLeft
  split
  · cases r.threads[0]? with
    | none => exact Nat.zero_le 3
    | some t =>
        show t.loop.toPop ≤ 3
        cases t.loop <;> decide
  · exact Nat.zero_le 3

/-- What lowers the first part of the rank lowers it all. -/
theorem rank_lt (h : r'.left < r.left) : r'.rank < r.rank := by
  have hfirst := firstLeft_le r'
  unfold rank
  omega

/-! ## Steps of a server -/

/-- A server goes on in its loops, and takes no work. -/
inductive Move (l : TCPListener) (w : Nat) : ServerThread → ServerThread → Prop where
  | woken (request_stop : Bool) (active : 0 < l.work_q_sz_ ∨ request_stop = true) :
      Move l w ⟨request_stop, .waiting⟩ ⟨request_stop, .popping⟩
  | timedOut (empty : ¬ 0 < l.work_q_sz_) : Move l w ⟨false, .waiting⟩ ⟨false, .testing⟩
  | exhausted (request_stop : Bool) (empty : l.workload_ = []) (idle : l.servers_[w]? = some .waiting) :
      Move l w ⟨request_stop, .popping⟩ ⟨request_stop, .testing⟩
  | stopped : Move l w ⟨true, .testing⟩ ⟨true, .stopped⟩
  | resumed : Move l w ⟨false, .testing⟩ ⟨false, .waiting⟩

/-- What a step of a server does: there is less work, or the server moves. -/
inductive ServerStep (r : ListenerRun) (w : Nat) : ListenerRun → Prop where
  | worked (l' : TCPListener) (fewer : l'.workLeft < r.listener.workLeft)
      (clients : l'.clients_.size ≤ r.listener.clients_.size) : ServerStep r w { r with listener := l' }
  | moved (t t' : ServerThread) (found : r.threads[w]? = some t) (move : Move r.listener w t t') :
      ServerStep r w (r.setThread w t')

end ListenerRun

namespace TCPListener

variable {l l' : TCPListener} {owner owner' : Ownership.Owner Ptr Place} {a : Action} {w : Nat}

theorem workLeft_set {old new : TCPServer} (hw : l.servers_[w]? = some old)
    (hservers : l'.servers_ = l.servers_.set w new) (hworkload : l'.workload_ = l.workload_)
    (hlt : new.rank < old.rank) : l'.workLeft < l.workLeft := by
  have hsum := Machine.sum_map_set TCPServer.rank hw new
  rw [workLeft, workLeft, hservers, hworkload]
  omega

theorem rank_after (stage : Stage) (p : Ptr) (s s' : SockState) :
    (stage.after p s').rank < (TCPServer.serving p stage s).rank := by
  cases stage <;> exact Nat.lt_succ_self _

/-- A step of a server that finds work, or has some, leaves less of it. -/
theorem Outcome.workLeft (hserver : a.server = some w) (ho : Outcome l owner a l' owner') :
    l'.workLeft < l.workLeft ∧ l'.clients_.size ≤ l.clients_.size ∨
      l' = l ∧ a = .popWork w ∧ l.workload_ = [] ∧ l.servers_[w]? = some .waiting := by
  cases ho with
  | rejected | accepted | added | reported | event => cases hserver
  | idle v waiting empty =>
      obtain rfl := Option.some.inj hserver
      exact Or.inr ⟨rfl, rfl, empty, waiting⟩
  | popped v p ps waiting first =>
      refine Or.inl ⟨?_, Nat.le_refl _⟩
      have hsum := Machine.sum_map_set TCPServer.rank waiting (.serving p .handShake .None)
      simp only [TCPServer.rank] at hsum
      rw [TCPListener.workLeft, TCPListener.workLeft, first, List.length_cons]
      show 6 * ps.length + ((l.servers_.set v _).map TCPServer.rank).sum < _
      omega
  | called a v p stage s made completion c passing serving found flag =>
      exact Or.inl ⟨workLeft_set serving rfl rfl (rank_after stage p s _), Nat.le_refl _⟩
  | skipped a v p stage s made completion c passing serving found flag =>
      exact Or.inl ⟨workLeft_set serving rfl rfl (rank_after stage p s _), Nat.le_refl _⟩
  | decremented v p s c served found =>
      exact Or.inl ⟨workLeft_set served rfl rfl (Nat.lt_succ_self 1), Nat.le_refl _⟩
  | closed v p s c releasing found shut =>
      exact Or.inl ⟨workLeft_set releasing rfl rfl Nat.one_pos, Std.ExtTreeMap.size_erase_le⟩
  | rearmed v p s c releasing found shut =>
      refine Or.inl ⟨workLeft_set releasing rfl rfl Nat.one_pos, ?_⟩
      show (l.clients_.insert p.fd _).size ≤ _
      rw [Std.ExtTreeMap.size_insert, if_pos (Std.ExtTreeMap.mem_iff_contains.mp (mem_clients_of_deref found))]

/-- A server always has a step that it can take. -/
theorem exists_enabled {server : TCPServer} (hw : l.servers_[w]? = some server) :
    ∃ a : Action, a.server = some w ∧ l.Enabled a := by
  cases server with
  | waiting => exact ⟨.popWork w, rfl, hw⟩
  | serving p stage c =>
      cases stage with
      | handShake => exact ⟨.handShake w .threw, rfl, p, c, hw⟩
      | readSocket => exact ⟨.readSocket w .threw .threw, rfl, p, c, hw⟩
      | shutDown => exact ⟨.shutDown w .threw, rfl, p, c, hw⟩
  | served p c => exact ⟨.decrement w, rfl, p, c, hw⟩
  | releasing p work => exact ⟨.release w, rfl, p, work, hw⟩

end TCPListener

namespace ListenerRun

variable {r r' : ListenerRun} {a : RunAction} {w : Nat} {t t' : ServerThread}

theorem setThread_eq (hw : r.threads[w]? = some t) (l' : TCPListener) :
    setThread { r with listener := l' } w t = { r with listener := l' } := by
  obtain ⟨hlt, rfl⟩ := List.getElem?_eq_some_iff.mp hw
  show ({ r with listener := l', threads := r.threads.set w r.threads[w] } : ListenerRun) = _
  rw [List.set_getElem_self]

theorem serverStep_of_step (h : r.Sound) (hthread : thread a = some w) (hstep : r.step a = some r') :
    ServerStep r w r' := by
  cases a with
  | work a =>
      obtain ⟨request_stop, l', hw, hl', rfl⟩ := step_work_server hthread hstep
      obtain ⟨owner, howned⟩ := (h.inPhase.withServers hw).owned
      obtain ⟨owner', ho⟩ := TCPListener.outcome_of_step howned hl'
      rcases ho.workLeft hthread with ⟨hfewer, hclients⟩ | ⟨rfl, rfl, hempty, hidle⟩
      · have hafter : ServerLoop.after r.listener a = .popping := by
          by_contra hloop
          obtain ⟨rfl, -, -⟩ := waiting_of_after_ne hthread ho hloop
          exact Nat.lt_irrefl _ hfewer
        rw [hafter, setThread_eq hw]
        exact .worked l' hfewer hclients
      · have hafter : ServerLoop.after r.listener (.popWork w) = .testing := by simp [ServerLoop.after, hempty]
        rw [hafter]
        exact .moved _ _ hw (.exhausted request_stop hempty hidle)
  | wait v =>
      obtain rfl := Option.some.inj hthread
      obtain ⟨request_stop, hw, rfl⟩ := step_wait hstep
      refine .moved _ _ hw ?_
      split
      · rename_i hactive
        exact .woken request_stop hactive
      · rename_i hactive
        obtain ⟨hempty, hnot⟩ := not_or.mp hactive
        rw [Bool.not_eq_true] at hnot
        subst hnot
        exact .timedOut hempty
  | test v =>
      obtain rfl := Option.some.inj hthread
      obtain ⟨request_stop, hw, rfl⟩ := step_test hstep
      refine .moved _ _ hw ?_
      cases request_stop with
      | true => exact .stopped
      | false => exact .resumed
  | askIdle | leave | shutdown => cases hthread

theorem Move.request_stop {l : TCPListener} (h : Move l w t t') : t'.request_stop_ = t.request_stop_ := by
  cases h <;> rfl

/-- A server that was asked to stop comes nearer to its end with each move; another one does not come back. -/
theorem Move.rank {l : TCPListener} (h : Move l w t t') :
    t'.rank < t.rank ∨ t.request_stop_ = false ∧ t'.rank = t.rank := by
  cases h with
  | woken request_stop active | exhausted request_stop empty idle =>
      cases request_stop with
      | true => exact Or.inl (by decide)
      | false => exact Or.inr ⟨rfl, rfl⟩
  | timedOut | resumed => exact Or.inr ⟨rfl, rfl⟩
  | stopped => exact Or.inl (by decide)

theorem left_worked {l' : TCPListener} (hfewer : l'.workLeft < r.listener.workLeft)
    (hclients : l'.clients_.size ≤ r.listener.clients_.size) : ({ r with listener := l' } : ListenerRun).left < r.left := by
  have hphase : ({ r with listener := l' } : ListenerRun).phaseLeft ≤ r.phaseLeft := by
    unfold phaseLeft
    cases r.phase <;> simp only <;> omega
  simp only [left]
  omega

theorem left_setThread (hw : r.threads[w]? = some t) : (r.setThread w t').left + t.rank = r.left + t'.rank := by
  have hsum := Machine.sum_map_set ServerThread.rank hw t'
  have hphase : (r.setThread w t').phaseLeft = r.phaseLeft := by
    simp only [phaseLeft, setThread, List.length_set]
  rw [left, left, hphase]
  show r.listener.workLeft + r.phaseLeft + ((r.threads.set w t').map ServerThread.rank).sum + _ = _
  omega

/-- Where there is work that no server has, the queue is not empty. -/
theorem Unattended.workload (h : r.Sound) (hun : r.Unattended) : r.listener.workload_ ≠ [] := by
  obtain ⟨hphase, hcounter, hwaiting⟩ := hun
  have hin := h.inPhase
  rw [hphase] at hin
  obtain ⟨owner, howned⟩ := hin.1.owned
  obtain ⟨begun, hcounted⟩ := hin.1.counted
  have hnat := hcounted.toNat_counter (Nat.lt_of_le_of_lt howned.size hin.1.bound)
  have hinHand : r.listener.inHand = [] := by
    refine List.filterMap_eq_nil_iff.mpr fun server hserver => ?_
    rw [hwaiting server hserver]
    rfl
  rw [hinHand, List.length_nil, Nat.add_zero] at hnat
  rw [BitVec.lt_def, hnat] at hcounter
  exact List.ne_nil_of_length_pos hcounter

/-- The first server comes nearer to the work that no server has. -/
theorem Move.toPop (h : r.Sound) (hun : r.Unattended) (hmove : Move r.listener w t t') (hnot : t.request_stop_ = false) :
    t'.loop.toPop < t.loop.toPop := by
  cases hmove with
  | woken | resumed => exact Nat.lt_succ_self _
  | timedOut empty => exact absurd hun.2.1 empty
  | exhausted request_stop empty idle => exact absurd empty (hun.workload h)
  | stopped => cases hnot

/-- **A step of a server** lowers the rank, or it leaves it and the helpful thread as they are; then the server is not
    the helpful thread. -/
theorem ServerStep.rank (h : r.Sound) (hstep : ServerStep r w r') :
    r'.rank < r.rank ∨ r'.rank = r.rank ∧ r'.helpful = r.helpful ∧ r.helpful ≠ some w := by
  cases hstep with
  | worked l' fewer clients => exact Or.inl (rank_lt (left_worked fewer clients))
  | moved t t' found move =>
      have hleft : (r.setThread w t').left + t.rank = r.left + t'.rank := left_setThread found
      rcases move.rank with hlt | ⟨hnot, hsame⟩
      · exact Or.inl (rank_lt (by omega))
      have hleft' : (r.setThread w t').left = r.left := by omega
      by_cases hfirst : r.Unattended ∧ w = 0
      · obtain ⟨hun, rfl⟩ := hfirst
        have hlt := move.toPop h hun hnot
        refine Or.inl ?_
        have hold : r.firstLeft = t.loop.toPop := by
          rw [firstLeft, if_pos hun, found, Option.elim_some]
        have hnew : (r.setThread 0 t').firstLeft = t'.loop.toPop := by
          rw [firstLeft, if_pos (show (r.setThread 0 t').Unattended from hun), getElem?_setThread found, if_pos rfl,
            Option.elim_some]
        rw [ListenerRun.rank, ListenerRun.rank, hleft', hold, hnew]
        omega
      · have hsame' : (r.setThread w t').firstLeft = r.firstLeft := by
          by_cases hun : r.Unattended
          · have hw : w ≠ 0 := fun hw => hfirst ⟨hun, hw⟩
            rw [firstLeft, firstLeft, if_pos hun, if_pos (show (r.setThread w t').Unattended from hun),
              getElem?_setThread found, if_neg hw]
          · rw [firstLeft, firstLeft, if_neg hun, if_neg (show ¬ (r.setThread w t').Unattended from hun)]
        refine Or.inr ⟨by rw [ListenerRun.rank, ListenerRun.rank, hleft', hsame'], ?_⟩
        have hin := h.inPhase
        cases hphase : r.phase with
        | serving | asking | closing | returned =>
            have hphase' : (r.setThread w t').phase = r.phase := rfl
            simp only [helpful, hphase', hphase]
            exact ⟨trivial, nofun⟩
        | draining =>
            rw [hphase] at hin
            have hphase' : (r.setThread w t').phase = r.phase := rfl
            simp only [helpful, hphase', hphase]
            refine ⟨rfl, ?_⟩
            split
            · rename_i hcounter
              rw [Ne, Option.some.injEq]
              cases hbusy : r.listener.servers_.findIdx? (· ≠ .waiting) with
              | none =>
                  rw [Option.getD_none]
                  rintro rfl
                  refine hfirst ⟨⟨hphase, hcounter, fun server hserver => ?_⟩, rfl⟩
                  simpa using List.findIdx?_eq_none_iff.mp hbusy server hserver
              | some v =>
                  rw [Option.getD_some]
                  rintro rfl
                  obtain ⟨hlt, hne, -⟩ := List.findIdx?_eq_some_iff_getElem.mp hbusy
                  have hget := List.getElem?_eq_getElem hlt
                  obtain ⟨request_stop, hpopping⟩ := hin.1.busy v _ hget (by simpa using hne)
                  obtain rfl := Option.some.inj (found.symm.trans hpopping)
                  cases move with
                  | exhausted request_stop empty idle =>
                      rw [hget] at idle
                      simp [Option.some.inj idle] at hne
            · nofun
        | joining i =>
            rw [hphase] at hin
            rw [hin.2.2.1 w t found] at hnot
            cases hnot

/-! ## Steps of the listener -/

theorem rank_ask (t : ServerThread) : ({ t with request_stop_ := true } : ServerThread).rank ≤ t.rank := by
  obtain ⟨request_stop, loop⟩ := t
  cases request_stop <;> cases loop <;> decide

theorem Shutdown.left (h : r.Sound) (hstep : r.Shutdown r') : r'.left < r.left := by
  cases hstep with
  | drained hphase zero =>
      simp only [ListenerRun.left, phaseLeft, hphase]
      omega
  | asked i t hphase found =>
      have hlt := (List.getElem?_eq_some_iff.mp found).1
      have hsum := Machine.sum_map_set ServerThread.rank found { t with request_stop_ := true }
      have hask := rank_ask t
      simp only [ListenerRun.left, phaseLeft, hphase, setThread, List.length_set]
      omega
  | allAsked i hphase last =>
      simp only [ListenerRun.left, phaseLeft, hphase]
      omega
  | joined i t hphase found stopped =>
      have hlt := (List.getElem?_eq_some_iff.mp found).1
      simp only [ListenerRun.left, phaseLeft, hphase]
      omega
  | allJoined i hphase last =>
      simp only [ListenerRun.left, phaseLeft, hphase, TCPListener.workLeft, List.length_map,
        Std.ExtTreeMap.length_toList, List.map_nil, List.sum_nil]
      omega
  | closed socket sockets l' hphase closes =>
      have hin := h.inPhase
      rw [hphase] at hin
      obtain ⟨p, c, -, -, heq⟩ := closeSocket_of_closing hin
      obtain rfl := Option.some.inj (heq.symm.trans closes)
      simp only [ListenerRun.left, phaseLeft, hphase, TCPListener.workLeft, List.length_cons]
      omega
  | finished hphase =>
      simp only [ListenerRun.left, phaseLeft, hphase, List.length_nil]
      omega

/-- Behind its loop the listener only goes on to the end of `run`. -/
theorem shutdown_of_step (hphase : r.phase ≠ .serving) (hthread : thread a = none) (hstep : r.step a = some r') :
    r.Shutdown r' := by
  cases a with
  | work a =>
      simp only [ListenerRun.step, show a.server = none from hthread, if_neg hphase] at hstep
      cases hstep
  | askIdle w =>
      simp only [ListenerRun.step, hphase, false_and, if_false] at hstep
      split at hstep <;> cases hstep
  | wait | test => cases hthread
  | leave =>
      simp only [ListenerRun.step, if_neg hphase] at hstep
      cases hstep
  | shutdown => exact shutdown_of_shutdownStep hstep

/-- **A step** lowers the rank, or it leaves it and the helpful thread as they are; then the helpful thread is another
    one. -/
theorem rank_of_step (h : r.Sound) (hphase : r.phase ≠ .serving) (hstep : r.step a = some r') :
    r'.rank < r.rank ∨ r'.rank = r.rank ∧ r'.helpful = r.helpful ∧ r.helpful ≠ thread a := by
  cases hthread : thread a with
  | none => exact Or.inl (rank_lt ((shutdown_of_step hphase hthread hstep).left h))
  | some w => exact (serverStep_of_step h hthread hstep).rank h

/-- The listener does not come back to its loop. -/
theorem phase_ne_serving (h : r.Sound) (hphase : r.phase ≠ .serving) (hstep : r.step a = some r') :
    r'.phase ≠ .serving := by
  cases hthread : thread a with
  | none => cases shutdown_of_step hphase hthread hstep <;> nofun
  | some w => cases serverStep_of_step h hthread hstep <;> exact hphase

/-! ## The helpful thread can take a step -/

theorem WithServers.ready (h : r.WithServers) (hw : r.threads[w]? = some t) (hloop : t.loop ≠ .stopped) :
    Machine.Ready step thread (some w) r := by
  obtain ⟨request_stop, loop⟩ := t
  cases loop with
  | waiting =>
      refine ⟨.wait w, ?_⟩
      simp only [step, hw]
      split
      · exact ⟨_, rfl, rfl⟩
      · exact ⟨_, rfl, rfl⟩
  | popping =>
      obtain ⟨owner, howned⟩ := h.owned
      have hlt : w < r.listener.servers_.length := h.length ▸ (List.getElem?_eq_some_iff.mp hw).1
      obtain ⟨a, hserver, henabled⟩ := TCPListener.exists_enabled (List.getElem?_eq_getElem hlt)
      obtain ⟨l', -, hl', -⟩ := TCPListener.step_outcome howned henabled
      refine ⟨.work a, ListenerRun.setThread { r with listener := l' } w ⟨request_stop, .after r.listener a⟩, hserver, ?_⟩
      simp only [step, hserver, hw, hl']
      rfl
  | testing =>
      refine ⟨.test w, r.setThread w ⟨request_stop, if request_stop then .stopped else .waiting⟩, rfl, ?_⟩
      simp only [step, hw]
  | stopped => exact absurd rfl hloop

theorem ready_helpful (h : r.Sound) (hserving : r.phase ≠ .serving) (hreturned : r.phase ≠ .returned) :
    Machine.Ready step thread r.helpful r := by
  have hin := h.inPhase
  have hlistener : r.shutdownStep.isSome → Machine.Ready step thread none r := by
    intro hsome
    obtain ⟨r', hstep⟩ := Option.isSome_iff_exists.mp hsome
    exact ⟨.shutdown, r', rfl, hstep⟩
  cases hphase : r.phase with
  | serving => exact absurd hphase hserving
  | returned => exact absurd hphase hreturned
  | draining =>
      rw [hphase] at hin
      obtain ⟨hwith, t₀, ht₀, hnot⟩ := hin
      simp only [helpful, hphase]
      split
      · cases hbusy : r.listener.servers_.findIdx? (· ≠ .waiting) with
        | none =>
            rw [Option.getD_none]
            refine hwith.ready ht₀ fun hstopped => ?_
            rw [hwith.asked 0 t₀ ht₀ hstopped] at hnot
            cases hnot
        | some v =>
            rw [Option.getD_some]
            obtain ⟨hlt, hne, -⟩ := List.findIdx?_eq_some_iff_getElem.mp hbusy
            obtain ⟨request_stop, hpopping⟩ := hwith.busy v _ (List.getElem?_eq_getElem hlt) (by simpa using hne)
            exact hwith.ready hpopping nofun
      · rename_i hzero
        refine hlistener ?_
        simp only [shutdownStep, hphase, if_neg hzero, Option.isSome_some]
  | asking i =>
      simp only [helpful, hphase]
      refine hlistener ?_
      simp only [shutdownStep, hphase]
      split <;> rfl
  | joining i =>
      rw [hphase] at hin
      simp only [helpful, hphase]
      split
      · rename_i t hi
        split
        · rename_i hstopped
          refine hlistener ?_
          simp only [shutdownStep, hphase, hi, if_pos hstopped, Option.isSome_some]
        · rename_i hrunning
          exact hin.1.ready hi hrunning
      · rename_i hi
        refine hlistener ?_
        simp only [shutdownStep, hphase, hi, Option.isSome_some]
  | closing sockets =>
      rw [hphase] at hin
      simp only [helpful, hphase]
      refine hlistener ?_
      cases sockets with
      | nil => simp only [shutdownStep, hphase, Option.isSome_some]
      | cons socket sockets =>
          obtain ⟨p, c, -, -, heq⟩ := closeSocket_of_closing hin
          simp only [shutdownStep, hphase, heq]
          rfl

/-! ## The end -/

/-- **`TCPListener::run` returns**: every run in which each thread gets its turn, and in which the listener has left
    its loop at some time, comes to the end of `run`. -/
theorem run_returns {maxconnections : BitVec 64} {servers : Nat} (hservers : 0 < servers)
    (run : Machine.Run ListenerRun.step) (hstart : run.state 0 = ListenerRun.start maxconnections.toNat servers)
    (hfair : run.WeaklyFair ListenerRun.thread) {n : Nat} (hleft : (run.state n).phase ≠ .serving) :
    ∃ m, n ≤ m ∧ (run.state m).phase = .returned := by
  let Inv (r : ListenerRun) : Prop := r.Sound ∧ r.phase ≠ .serving
  have hinv : Inv (run.state n) := by
    obtain ⟨as, has⟩ := run.exec_state n
    rw [hstart] at has
    exact ⟨Sound.run hservers has, hleft⟩
  have hstep : ∀ r a r', Inv r → r.step a = some r' → Inv r' :=
    fun r a r' h ha => ⟨h.1.step ha, phase_ne_serving h.1 h.2 ha⟩
  have hready : ∀ r, Inv r → ¬ r.phase = .returned → Machine.Ready step thread r.helpful r :=
    fun r h hdone => ready_helpful h.1 h.2 hdone
  have hhelps : ∀ r a r', Inv r → ¬ r.phase = .returned → r.step a = some r' → thread a = r.helpful →
      r'.rank < r.rank := by
    intro r a r' h _ ha hthread
    rcases rank_of_step h.1 h.2 ha with hlt | ⟨-, -, hne⟩
    · exact hlt
    · exact absurd hthread.symm hne
  have hothers : ∀ r a r', Inv r → ¬ r.phase = .returned → r.step a = some r' →
      r'.rank < r.rank ∨ (r'.rank = r.rank ∧ r'.helpful = r.helpful) := by
    intro r a r' h _ ha
    rcases rank_of_step h.1 h.2 ha with hlt | ⟨hrank, hhelpful, -⟩
    · exact Or.inl hlt
    · exact Or.inr ⟨hrank, hhelpful⟩
  exact Machine.Run.eventually_of_rank hstep hready hhelps hothers run hfair n hinv

/-- Behind the end there are no threads. -/
theorem step_of_returned (h : r.Sound) (hphase : r.phase = .returned) (a : RunAction) : r.step a = none := by
  have hin := h.inPhase
  rw [hphase] at hin
  have hthreads : ∀ w : Nat, r.threads[w]? = none := by
    intro w
    rw [hin.threads]
    rfl
  cases a with
  | work a =>
      cases hserver : a.server with
      | none => simp only [step, hserver, hphase, reduceCtorEq, if_false]
      | some w => simp only [step, hserver, hthreads]
  | askIdle w | wait w | test w => simp only [step, hthreads]
  | leave => simp only [step, hphase, reduceCtorEq, if_false]
  | shutdown => simp only [step, shutdownStep, hphase]

theorem run_returns_stoppedWhileReleasing :
    ∃ run : Machine.Run step, run.state 0 = start (2 : BitVec 64).toNat 1 ∧ run.WeaklyFair thread ∧
      (run.state 7).phase = .draining ∧ ∃ m, 7 ≤ m ∧ (run.state m).phase = .returned := by
  have hrun : ∃ r ∈ Machine.exec step (start (2 : BitVec 64).toNat 1) stoppedWhileReleasing, r.phase = .returned := by
    decide +kernel
  obtain ⟨r, hexec, hreturned⟩ := hrun
  have hfair := Machine.Run.weaklyFair_ofList hexec thread (step_of_returned (.run Nat.one_pos hexec) hreturned)
  have hstart : (Machine.Run.ofList step _ _ hexec).state 0 = start (2 : BitVec 64).toNat 1 := rfl
  have hleft : ((Machine.Run.ofList step _ _ hexec).state 7).phase = .draining := by
    have hseven : ∃ q ∈ Machine.exec step (start (2 : BitVec 64).toNat 1) (stoppedWhileReleasing.take 7),
        q.phase = .draining := by decide +kernel
    obtain ⟨q, hq, hphase⟩ := hseven
    show ((Machine.exec step _ (stoppedWhileReleasing.take 7)).getD r).phase = .draining
    rw [hq]
    exact hphase
  exact ⟨_, hstart, hfair, hleft, run_returns Nat.one_pos _ hstart hfair (by rw [hleft]; nofun)⟩

end ListenerRun
end Dodo.Network
