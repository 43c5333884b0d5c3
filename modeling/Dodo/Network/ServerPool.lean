import Mathlib.Data.List.Perm.Basic
import Dodo.Lib.Machine

/-!
# `Network.ServerPool` — how many servers the listener keeps

The listener starts `minservers` servers, adds one while there are more work items than servers
(`addServers`), and from time to time goes through the list (`cleanStoppedServers`): it deletes the servers
that have stopped and asks at most one idle server to stop. A server that was asked stays in the list until
it has stopped and a later check finds it so. Each pass of the two loops is a step of its own, since the
servers go on working in between. The clock and the work counter are whatever the step says they are.
-/

namespace Dodo.Network

open Lib

/-- A `TCPServer` of the pool: the address of the object, and the flags that other threads read. -/
structure PooledServer where
  address : Nat
  request_stop_ : Bool := false
  has_stopped_ : Bool := false
  busy_ : Bool := false
deriving DecidableEq, Repr

structure ServerPool where
  minservers : Nat
  maxservers : Nat
  servers_ : List PooledServer
  init_server_ : Nat
  /-- The number of servers that were ever created; the next one gets it as its address. -/
  created : Nat
  /-- In the loop of `cleanStoppedServers`: `i_server`, as an index into `servers_`, and `num_stopped`. -/
  cleaning : Option (Nat × BitVec 64) := none
deriving DecidableEq, Repr

namespace ServerPool

/-- `servers_.push_back( init_server_->addServer() )`. -/
def addServer (p : ServerPool) : ServerPool :=
  { p with servers_ := p.servers_ ++ [{ address := p.created }], created := p.created + 1 }

/-- The loop that starts the first servers, with at most `n` passes. -/
def startServers : Nat → ServerPool → ServerPool
  | 0, p => p
  | n + 1, p => if p.servers_.length < p.minservers then startServers n p.addServer else p

/-- The pool when `run` gets to its loop. -/
def start (minservers maxservers : Nat) : ServerPool :=
  startServers minservers
    { minservers := minservers, maxservers := maxservers, servers_ := [{ address := 0 }], init_server_ := 0, created := 1 }

/-- A pass of the loop of `addServers`, that sees the work counter. -/
def addServers (p : ServerPool) (work_q_sz : Nat) : Option ServerPool :=
  if p.servers_.length < work_q_sz ∧ p.servers_.length < p.maxservers then some p.addServer else none

/-- A pass of the loop of `cleanStoppedServers`; `idle` is `getIdleSeconds() > server_idle_ttl_s`. -/
def clean (p : ServerPool) (i : Nat) (num_stopped : BitVec 64) (idle : Bool) : Option ServerPool :=
  match p.servers_[i]? with
  | none => some { p with cleaning := none }
  | some server =>
    if server.address ≠ p.init_server_ then
      if server.has_stopped_ then some { p with servers_ := p.servers_.eraseIdx i }
      else if num_stopped = 0 ∧ p.minservers < p.servers_.length ∧ idle ∧ ¬ server.busy_ then
        some { p with
          servers_ := p.servers_.set i { server with request_stop_ := true }
          cleaning := some (i + 1, num_stopped - 1) }
      else some { p with cleaning := some (i + 1, num_stopped) }
    else if server.has_stopped_ then
      -- the new server goes to the end, and `++i_server` moves on from the server behind the erased one;
      -- from the end of the list it cannot
      if i + 1 < p.servers_.length then
        some { { p with servers_ := p.servers_.eraseIdx i }.addServer with
          init_server_ := p.created
          cleaning := some (i + 1, num_stopped) }
      else none
    else some { p with cleaning := some (i + 1, num_stopped) }

/-- A server changes its flags. -/
def server (p : ServerPool) (i : Nat) (f : PooledServer → Option PooledServer) : Option ServerPool := do
  let s ← p.servers_[i]?
  let s' ← f s
  some { p with servers_ := p.servers_.set i s' }

/-- A server that has not stopped becomes busy, or idle. -/
def work (busy : Bool) (s : PooledServer) : Option PooledServer :=
  if s.has_stopped_ then none else some { s with busy_ := busy }

/-- A server that was asked to stop does so, when it is not busy. -/
def stop (s : PooledServer) : Option PooledServer :=
  if s.request_stop_ ∧ ¬ s.busy_ ∧ ¬ s.has_stopped_ then some { s with has_stopped_ := true } else none

/-- The steps of the listener and of the servers; a server is given by its place in `servers_`. -/
inductive Action where
  | addServers (work_q_sz : Nat)
  /-- The clock says that it is time for a check. -/
  | check
  | clean (idle : Bool)
  | work (i : Nat) (busy : Bool)
  | stop (i : Nat)

def step (p : ServerPool) : Action → Option ServerPool
  | .addServers work_q_sz => if p.cleaning = none then p.addServers work_q_sz else none
  | .check => if p.cleaning = none then some { p with cleaning := some (0, 0) } else none
  | .clean idle => p.cleaning.bind fun (i, num_stopped) => p.clean i num_stopped idle
  | .work i busy => p.server i (work busy)
  | .stop i => p.server i stop

/-- The number of servers that have not been asked to stop. -/
def unasked (p : ServerPool) : Nat := p.servers_.countP fun s => !s.request_stop_

/-- Where the check is about to ask a server to stop that was not asked before, there are more than `minservers`
    servers that were not asked. -/
def Cautious (p : ServerPool) : Action → Prop
  | .clean idle =>
    ∀ x ∈ p.cleaning, ∀ s ∈ p.servers_[x.1]?,
      s.address ≠ p.init_server_ → ¬ s.has_stopped_ →
      x.2 = 0 ∧ p.minservers < p.servers_.length ∧ idle ∧ ¬ s.busy_ →
      ¬ s.request_stop_ → p.minservers < p.unasked
  | _ => True

instance (p : ServerPool) : (a : Action) → Decidable (p.Cautious a)
  | .clean _ => inferInstanceAs (Decidable (∀ x ∈ p.cleaning, ∀ s ∈ p.servers_[x.1]?, _))
  | .addServers _ | .check | .work _ _ | .stop _ => isTrue trivial

/-! ## What a step can do -/

/-- The first server is never asked to stop, only a server that was asked stops, and there is room for all. -/
structure Sound (minservers maxservers : Nat) (p : ServerPool) : Prop where
  minservers_eq : p.minservers = minservers
  maxservers_eq : p.maxservers = maxservers
  initial : ∀ s ∈ p.servers_, s.address = p.init_server_ → s.request_stop_ = false
  stopped : ∀ s ∈ p.servers_, s.has_stopped_ = true → s.request_stop_ = true
  size : p.servers_.length ≤ maxservers

variable {minservers maxservers : Nat} {p p' : ServerPool} {a : Action}

/-- What a step does to the list of servers, and whether it is cautious. -/
inductive Change (p : ServerPool) (a : Action) : List PooledServer → Prop where
  | none (cautious : p.Cautious a) : Change p a p.servers_
  | added (cautious : p.Cautious a) (room : p.servers_.length < p.maxservers) :
      Change p a (p.servers_ ++ [{ address := p.created }])
  | erased (cautious : p.Cautious a) (i : Nat) (s : PooledServer) (found : p.servers_[i]? = some s)
      (stopped : s.has_stopped_ = true) : Change p a (p.servers_.eraseIdx i)
  | asked (i : Nat) (s : PooledServer) (found : p.servers_[i]? = some s) (other : s.address ≠ p.init_server_)
      (cautious : p.Cautious a ↔ (s.request_stop_ = false → p.minservers < p.unasked)) :
      Change p a (p.servers_.set i { s with request_stop_ := true })
  | flags (cautious : p.Cautious a) (i : Nat) (s : PooledServer) (found : p.servers_[i]? = some s)
      (busy stopped : Bool) (asked : stopped = true → s.request_stop_ = true) :
      Change p a (p.servers_.set i { s with busy_ := busy, has_stopped_ := stopped })

/-- A pass of the loop of `cleanStoppedServers`. -/
theorem change_of_clean {i : Nat} {num_stopped : BitVec 64} {idle : Bool} (h : Sound minservers maxservers p)
    (hcleaning : p.cleaning = some (i, num_stopped)) (hstep : p.clean i num_stopped idle = some p') :
    p'.minservers = p.minservers ∧ p'.maxservers = p.maxservers ∧ p'.init_server_ = p.init_server_ ∧
      Change p (.clean idle) p'.servers_ := by
  -- what the condition says about the server the loop has come to
  have hcautious : ∀ s, p.servers_[i]? = some s → (p.Cautious (.clean idle) ↔
      (s.address ≠ p.init_server_ → ¬ s.has_stopped_ →
        num_stopped = 0 ∧ p.minservers < p.servers_.length ∧ idle ∧ ¬ s.busy_ →
        ¬ s.request_stop_ → p.minservers < p.unasked)) := by
    intro s hs
    simp [Cautious, hcleaning, hs]
  unfold clean at hstep
  cases hfound : p.servers_[i]? with
  | none =>
      simp only [hfound, Option.some.injEq] at hstep
      subst hstep
      refine ⟨rfl, rfl, rfl, .none ?_⟩
      simp [Cautious, hcleaning, hfound]
  | some s =>
      simp only [hfound] at hstep
      have hcautious := hcautious s hfound
      have hmem : s ∈ p.servers_ := List.mem_of_getElem? hfound
      by_cases hother : s.address ≠ p.init_server_
      · rw [if_pos hother] at hstep
        by_cases hstopped : s.has_stopped_ = true
        · rw [if_pos hstopped, Option.some.injEq] at hstep
          subst hstep
          exact ⟨rfl, rfl, rfl, .erased (hcautious.mpr fun _ hnot => absurd hstopped hnot) i s hfound hstopped⟩
        · rw [if_neg hstopped] at hstep
          split at hstep
          · rename_i hask
            rw [Option.some.injEq] at hstep
            subst hstep
            refine ⟨rfl, rfl, rfl, .asked i s hfound hother (hcautious.trans ?_)⟩
            simp [hother, hstopped, hask]
          · rename_i hask
            rw [Option.some.injEq] at hstep
            subst hstep
            exact ⟨rfl, rfl, rfl, .none (hcautious.mpr fun _ _ hyes => absurd hyes hask)⟩
      · have hinit : s.address = p.init_server_ := not_not.mp hother
        have hrunning : ¬ s.has_stopped_ = true := by
          intro hstopped
          have hasked := h.stopped s hmem hstopped
          rw [h.initial s hmem hinit] at hasked
          cases hasked
        rw [if_neg hother, if_neg hrunning, Option.some.injEq] at hstep
        subst hstep
        exact ⟨rfl, rfl, rfl, .none (hcautious.mpr fun hne => absurd hne hother)⟩

/-- A step of a server. -/
theorem change_of_server {i : Nat} {f : PooledServer → Option PooledServer} (hcautious : p.Cautious a)
    (hf : ∀ s s', f s = some s' → ∃ busy stopped, s' = { s with busy_ := busy, has_stopped_ := stopped } ∧
      (stopped = true → s.request_stop_ = true))
    (hstep : p.server i f = some p') :
    p'.minservers = p.minservers ∧ p'.maxservers = p.maxservers ∧ p'.init_server_ = p.init_server_ ∧
      Change p a p'.servers_ := by
  simp only [server, Option.bind_eq_bind, Option.bind_eq_some_iff, Option.some.injEq] at hstep
  obtain ⟨s, hfound, s', hs', rfl⟩ := hstep
  obtain ⟨busy, stopped, rfl, hasked⟩ := hf s s' hs'
  exact ⟨rfl, rfl, rfl, .flags hcautious i s hfound busy stopped hasked⟩

/-- **What a step can do.** -/
theorem change_of_step (h : Sound minservers maxservers p) (hstep : p.step a = some p') :
    p'.minservers = p.minservers ∧ p'.maxservers = p.maxservers ∧ p'.init_server_ = p.init_server_ ∧
      Change p a p'.servers_ := by
  cases a with
  | addServers work_q_sz =>
      simp only [step, addServers, Option.ite_none_right_eq_some, Option.some.injEq] at hstep
      obtain ⟨-, ⟨-, hroom⟩, rfl⟩ := hstep
      exact ⟨rfl, rfl, rfl, .added trivial hroom⟩
  | check =>
      simp only [step, Option.ite_none_right_eq_some, Option.some.injEq] at hstep
      obtain ⟨-, rfl⟩ := hstep
      exact ⟨rfl, rfl, rfl, .none trivial⟩
  | clean idle =>
      obtain ⟨⟨i, num_stopped⟩, hcleaning, hclean⟩ := Option.bind_eq_some_iff.mp hstep
      exact change_of_clean h hcleaning hclean
  | work i busy =>
      refine change_of_server (p := p) (a := .work i busy) trivial ?_ hstep
      intro s s' hs
      simp only [work, Option.ite_none_left_eq_some, Option.some.injEq] at hs
      obtain ⟨hrunning, rfl⟩ := hs
      refine ⟨busy, s.has_stopped_, rfl, ?_⟩
      intro hstopped
      exact absurd hstopped hrunning
  | stop i =>
      refine change_of_server (p := p) (a := .stop i) trivial ?_ hstep
      intro s s' hs
      simp only [stop, Option.ite_none_right_eq_some, Option.some.injEq] at hs
      obtain ⟨⟨hasked, -⟩, rfl⟩ := hs
      exact ⟨s.busy_, true, rfl, fun _ => hasked⟩

/-! ## The bounds -/

/-- There is room for one more. -/
theorem Sound.addServer (h : Sound minservers maxservers p) (hroom : p.servers_.length < maxservers) :
    Sound minservers maxservers p.addServer where
  minservers_eq := h.minservers_eq
  maxservers_eq := h.maxservers_eq
  initial := by
    intro s hs
    rcases List.mem_append.mp hs with hs | hs
    · exact h.initial s hs
    · rw [List.mem_singleton.mp hs]
      exact fun _ => rfl
  stopped := by
    intro s hs
    rcases List.mem_append.mp hs with hs | hs
    · exact h.stopped s hs
    · rw [List.mem_singleton.mp hs]
      exact fun hstopped => nomatch hstopped
  size := by
    rw [ServerPool.addServer, List.length_append, List.length_singleton]
    exact hroom

/-- **One step** keeps the invariant. -/
theorem Sound.step (h : Sound minservers maxservers p) (hstep : p.step a = some p') : Sound minservers maxservers p' := by
  obtain ⟨hmin, hmax, hinit, hchange⟩ := change_of_step h hstep
  suffices hservers : (∀ s ∈ p'.servers_, s.address = p.init_server_ → s.request_stop_ = false) ∧
      (∀ s ∈ p'.servers_, s.has_stopped_ = true → s.request_stop_ = true) ∧ p'.servers_.length ≤ maxservers by
    obtain ⟨hinitial, hstopped, hsize⟩ := hservers
    exact ⟨hmin.trans h.minservers_eq, hmax.trans h.maxservers_eq, hinit ▸ hinitial, hstopped, hsize⟩
  generalize p'.servers_ = servers at hchange
  cases hchange with
  | none cautious => exact ⟨h.initial, h.stopped, h.size⟩
  | added cautious room =>
      rw [h.maxservers_eq] at room
      have hadded := h.addServer room
      exact ⟨hadded.initial, hadded.stopped, hadded.size⟩
  | erased cautious i s found stopped =>
      exact ⟨fun s hs => h.initial s (List.mem_of_mem_eraseIdx hs),
        fun s hs => h.stopped s (List.mem_of_mem_eraseIdx hs), Nat.le_trans (List.length_eraseIdx_le _ _) h.size⟩
  | asked i s found other cautious =>
      refine ⟨?_, ?_, ?_⟩
      · intro t ht
        rcases List.mem_or_eq_of_mem_set ht with ht | ht
        · exact h.initial t ht
        · rw [ht]
          exact fun heq => absurd heq other
      · intro t ht
        rcases List.mem_or_eq_of_mem_set ht with ht | ht
        · exact h.stopped t ht
        · rw [ht]
          exact fun _ => rfl
      · rw [List.length_set]
        exact h.size
  | flags cautious i s found busy stopped asked =>
      have hmem : s ∈ p.servers_ := List.mem_of_getElem? found
      refine ⟨?_, ?_, ?_⟩
      · intro t ht
        rcases List.mem_or_eq_of_mem_set ht with ht | ht
        · exact h.initial t ht
        · rw [ht]
          exact h.initial s hmem
      · intro t ht
        rcases List.mem_or_eq_of_mem_set ht with ht | ht
        · exact h.stopped t ht
        · rw [ht]
          exact asked
      · rw [List.length_set]
        exact h.size

section Counting

variable {α : Type} {q : α → Bool} {xs : List α} {i : Nat} {x : α}

theorem countP_eraseIdx_add (h : xs[i]? = some x) :
    (xs.eraseIdx i).countP q + (if q x then 1 else 0) = xs.countP q := by
  obtain ⟨hlt, rfl⟩ := List.getElem?_eq_some_iff.mp h
  rw [← List.countP_cons, (List.getElem_cons_eraseIdx_perm hlt).countP_eq]

theorem countP_set_add (h : xs[i]? = some x) (y : α) :
    (xs.set i y).countP q + (if q x then 1 else 0) = xs.countP q + (if q y then 1 else 0) := by
  have hlt := (List.getElem?_eq_some_iff.mp h).1
  rw [(List.set_perm_cons_eraseIdx hlt y).countP_eq, List.countP_cons, ← countP_eraseIdx_add h]
  omega

end Counting

/-- A step keeps `minservers` servers that were not asked exactly if it is cautious. -/
theorem cautious_iff (h : Sound minservers maxservers p) (hunasked : minservers ≤ p.unasked)
    (hstep : p.step a = some p') : p.Cautious a ↔ minservers ≤ p'.unasked := by
  obtain ⟨-, -, -, hchange⟩ := change_of_step h hstep
  unfold unasked at hunasked ⊢
  generalize p'.servers_ = servers at hchange
  cases hchange with
  | none cautious => exact iff_of_true cautious hunasked
  | added cautious room =>
      rw [List.countP_append]
      exact iff_of_true cautious (Nat.le_add_right_of_le hunasked)
  | erased cautious i s found stopped =>
      -- a server that has stopped was asked, so it is not counted
      have hasked := h.stopped s (List.mem_of_getElem? found) stopped
      have hcount := countP_eraseIdx_add (q := fun s => !s.request_stop_) found
      simp only [hasked, Bool.not_true, Bool.false_eq_true, if_false, Nat.add_zero] at hcount
      rw [hcount]
      exact iff_of_true cautious hunasked
  | asked i s found other cautious =>
      have hcount := countP_set_add (q := fun s => !s.request_stop_) found { s with request_stop_ := true }
      rw [cautious, h.minservers_eq, unasked]
      cases hasked : s.request_stop_ with
      | true =>
          simp only [hasked, Bool.not_true, Bool.false_eq_true, if_false, Nat.add_zero] at hcount
          rw [hcount]
          exact iff_of_true (fun hnot => nomatch hnot) hunasked
      | false =>
          simp only [hasked, Bool.not_true, Bool.not_false, Bool.false_eq_true, if_false, if_true,
            Nat.add_zero] at hcount
          rw [← hcount]
          constructor
          · intro hmore
            exact Nat.le_of_lt_succ (hmore rfl)
          · intro hle _
            exact Nat.lt_succ_of_le hle
  | flags cautious i s found busy stopped asked =>
      have hcount := countP_set_add (q := fun s => !s.request_stop_) found
        { s with busy_ := busy, has_stopped_ := stopped }
      rw [Nat.add_right_cancel hcount]
      exact iff_of_true cautious hunasked

/-- The loop that starts the first servers ends with `minservers` of them. -/
theorem startServers_sound {n : Nat} (h : Sound minservers maxservers p) (hmax : minservers ≤ maxservers)
    (hunasked : p.unasked = p.servers_.length) (hn : minservers ≤ p.servers_.length + n) :
    Sound minservers maxservers (startServers n p) ∧ minservers ≤ (startServers n p).unasked := by
  induction n generalizing p with
  | zero => exact ⟨h, hunasked ▸ hn⟩
  | succ n ih =>
      unfold startServers
      rw [h.minservers_eq]
      split
      · rename_i hfewer
        apply ih (h.addServer (Nat.lt_of_lt_of_le hfewer hmax))
        · unfold unasked at hunasked ⊢
          rw [addServer, List.countP_append, hunasked, List.length_append]
          rfl
        · rw [addServer, List.length_append, List.length_singleton]
          omega
      · rename_i henough
        exact ⟨h, hunasked ▸ Nat.not_lt.mp henough⟩

theorem start_sound (hmin : 1 ≤ minservers) (hmax : minservers ≤ maxservers) :
    Sound minservers maxservers (start minservers maxservers) ∧
      minservers ≤ (start minservers maxservers).unasked := by
  apply startServers_sound _ hmax rfl (Nat.le_add_left _ _)
  refine ⟨rfl, rfl, ?_, ?_, Nat.le_trans hmin hmax⟩
  · intro s hs
    rw [List.mem_singleton.mp hs]
    exact fun _ => rfl
  · intro s hs
    rw [List.mem_singleton.mp hs]
    exact fun hstopped => nomatch hstopped

/-- **The bounds of the pool.** There are never more than `maxservers` servers. In every state of a run at least
    `minservers` of them have not been asked to stop, exactly if every step of the run is cautious. -/
theorem pool_bounds_iff (minservers maxservers : Nat) (hmin : 1 ≤ minservers) (hmax : minservers ≤ maxservers)
    (as : List Action) :
    Machine.Always step (fun p => p.servers_.length ≤ maxservers) (start minservers maxservers) as ∧
    (Machine.Always step (fun p => p.servers_.length ≤ maxservers ∧ minservers ≤ p.unasked)
        (start minservers maxservers) as ↔
      Machine.Along step Cautious (start minservers maxservers) as) := by
  obtain ⟨hstart, hunasked⟩ := start_sound hmin hmax
  refine ⟨Machine.always_of_invariant (Sound minservers maxservers) (fun p a p' => Sound.step)
    (fun p h => h.size) hstart, ?_⟩
  symm
  apply Machine.along_iff_always (Sound minservers maxservers) (fun p a p' => Sound.step) _ _ hstart
    ⟨hstart.size, hunasked⟩
  · rintro p a p' h ⟨-, hp⟩ hstep
    rw [cautious_iff h hp hstep]
    exact ⟨fun hle => ⟨(h.step hstep).size, hle⟩, And.right⟩
  · intro p a hstuck
    cases a with
    | clean idle =>
        rintro ⟨i, num_stopped⟩ hcleaning s hfound hother hrunning hask
        -- the server would be asked, so the step is taken
        simp only [step, Option.mem_def.mp hcleaning, Option.bind_some, clean, Option.mem_def.mp hfound,
          if_pos hother, if_neg hrunning, if_pos hask] at hstuck
        cases hstuck
    | _ => trivial

/-- The listener goes through its three servers. -/
def checkThree (idle₁ idle₂ : Bool) : List Action := [.check, .clean false, .clean idle₁, .clean idle₂, .clean false]

/-- A third server is added and asked to stop when it is idle again. -/
def oneTooMany : List Action := [.addServers 3] ++ checkThree false true ++ [.stop 2] ++ checkThree false false

theorem pool_bounds_iff_oneTooMany :
    Machine.Along step Cautious (start 2 3) oneTooMany ∧
      Machine.Always step (fun p => p.servers_.length ≤ 3 ∧ 2 ≤ p.unasked) (start 2 3) oneTooMany := by
  have halong : Machine.Along step Cautious (start 2 3) oneTooMany := by decide +kernel
  exact ⟨halong, (pool_bounds_iff 2 3 (by decide) (by decide) oneTooMany).2.mpr halong⟩

/-- The second server is asked to stop and finds work before it does so; at the next check the third server is
    idle. -/
def bothAsked : List Action :=
  [.addServers 3] ++ checkThree true false ++ [.work 1 true] ++ checkThree true true

/-- **A run in which too many servers are asked to stop**: of the three, one is left. -/
theorem pool_asks_too_many :
    ∃ p, Machine.exec step (start 2 3) bothAsked = some p ∧ p.servers_.length = 3 ∧ p.unasked = 1 := by
  have hrun : ∃ p ∈ Machine.exec step (start 2 3) bothAsked, p.servers_.length = 3 ∧ p.unasked = 1 := by
    decide +kernel
  obtain ⟨p, hexec, hpool⟩ := hrun
  exact ⟨p, hexec, hpool⟩

end ServerPool
end Dodo.Network
