import Dodo.Network.WorkDistribution

/-!
# `Network.CallbackCycle` — the callbacks of one connection

The documentation promises one `handShake`, then any number of `readSocket`, then one `shutDown`, before the
socket is closed. `TCPServer::run` keeps that promise as long as the callbacks succeed. It breaks it where
`handShake` or a read fails: that sets `Shut` in `completion_state` only, after which `releaseWork` closes
the socket although `shutDown` was not called. And it breaks it where `handShake` or `shutDown` throws: the
flag stays set in `clients_`, and the next event calls the function again.
-/

namespace Dodo.Network

open Common Lib Lib.Ownership

/-! ## The documented cycle -/

/-- A `handShake` and `n` calls of `readSocket`. -/
def begun (n : Nat) : List Call := .handShake :: List.replicate n .readSocket

/-- A whole cycle. -/
def cycle (n : Nat) : List Call := begun n ++ [.shutDown] ++ [.close]

/-- `readBuffer` and `readSocket` return, and one of them with an error. -/
def ReadFails : Ended SystemError → Ended SystemError → Prop
  | .returned buffer, .returned error => ¬ (buffer = .ecOK ∧ (error = .ecOK ∨ error = .ecEAGAIN))
  | _, _ => False

instance (buffer result : Ended SystemError) : Decidable (ReadFails buffer result) :=
  match buffer, result with
  | .returned _, .returned _ => inferInstanceAs (Decidable (¬ _))
  | .threw, _ => isFalse id
  | .returned _, .threw => isFalse id

namespace TCPListener

/-- The calls made on a connection, the oldest first. -/
def callsOf (l : TCPListener) (p : Ptr) : List Call := (l.calls.filter (·.1 = p)).map Prod.snd

/-- The state of the socket that a server works on, and its `completion_state`. -/
def workOn (l : TCPListener) (w : Nat) : Option (SockState × SockState) :=
  match l.servers_[w]? with
  | some (.serving p _ s) => (l.deref p).map fun c => (c.state, s)
  | _ => none

/-- A step in which no callback leaves the cycle: `handShake` returns true; a read fails only on a socket
    that is also hung up, or by throwing; and `shutDown` throws only after such a read. -/
def Orderly (l : TCPListener) : Action → Prop
  | .handShake w result => ∀ x ∈ l.workOn w, x.1.has .New = true → result = .returned true
  | .readSocket w buffer result =>
    ∀ x ∈ l.workOn w, x.1.has .Read = true → x.1.has .Shut = false → ¬ ReadFails buffer result
  | .shutDown w result => ∀ x ∈ l.workOn w, x.1.has .Shut = true → result = .threw → x.2.has .Shut = true
  | _ => True

instance (l : TCPListener) : (a : Action) → Decidable (l.Orderly a)
  | .handShake _ _ => inferInstanceAs (Decidable (∀ x ∈ _, _))
  | .readSocket _ _ _ => inferInstanceAs (Decidable (∀ x ∈ _, _))
  | .shutDown _ _ => inferInstanceAs (Decidable (∀ x ∈ _, _))
  | .accept _ | .addServer | .epollWait _ | .event | .popWork _ | .decrement _ | .release _ => isTrue trivial

/-! ## Where a connection is in its cycle -/

/-- In the epoll set: greeted, and not hung up. -/
def Rested (state : SockState) (calls : List Call) : Prop :=
  (state = .None ∨ state = .Read) ∧ ∃ n, calls = begun n

/-- In `workload_`: new, or greeted. -/
def Ready (state : SockState) (calls : List Call) : Prop :=
  state = .New ∧ calls = [] ∨ state.has .New = false ∧ ∃ n, calls = begun n

/-- Served: shut down, or to be put back into the epoll set. -/
def Done (state completion : SockState) (calls : List Call) : Prop :=
  if completion.has .Shut then ∃ n, calls = begun n ++ [.shutDown] else Rested (state ^^^ completion) calls

/-- With a server, at the point where the server is. -/
def Reached : TCPServer → SockState → List Call → Prop
  | .waiting, _, _ => False
  | .serving _ .handShake s, state, calls => s = .None ∧ Ready state calls
  | .serving _ .readSocket s, state, calls =>
    (state = .New ∧ s = .New ∨ state.has .New = false ∧ s = .None) ∧ ∃ n, calls = begun n
  | .serving _ .shutDown s, state, calls =>
    (state.has .Shut = false → s.has .Shut = false ∧ (state ^^^ s = .None ∨ state ^^^ s = .Read)) ∧
      ∃ n, calls = begun n
  | .served _ s, state, calls => Done state s calls
  | .releasing _ work, state, calls => Done state work.state calls

/-- The calls on a connection fit the place it is in. -/
def Fits (l : TCPListener) (p : Ptr) : Option Place → Prop
  | none => l.callsOf p = [] ∨ ∃ n, l.callsOf p = cycle n
  | some .epoll => ∀ c ∈ l.deref p, Rested c.state (l.callsOf p)
  | some .workload => ∀ c ∈ l.deref p, Ready c.state (l.callsOf p)
  | some (.server w) => ∀ c ∈ l.deref p, ∀ server ∈ l.servers_[w]?, Reached server c.state (l.callsOf p)

/-- The invariant: the calls on every connection fit the place it is in. -/
structure InCycle (owner : Owner Ptr Place) (l : TCPListener) : Prop where
  past : ∀ e ∈ l.calls, e.1.alloc < l.allocs
  fits : ∀ p, Fits l p (owner p)

variable {l l' : TCPListener} {p q : Ptr} {w : Nat} {a : Action} {c : Client} {owner owner' : Owner Ptr Place}
  {stage : Stage} {state s completion : SockState} {calls made : List Call}

/-! ## A server passes a stage -/

theorem readSocketDone_of_not_fails {buffer result : Ended SystemError} (h : ¬ ReadFails buffer result) :
    readSocketDone buffer result = .Read ∨ readSocketDone buffer result = .None := by
  match buffer, result, h with
  | .returned _, .returned _, h => exact Or.inl (if_pos (not_not.mp h))
  | .threw, _, _ => exact Or.inr rfl
  | .returned _, .threw, _ => exact Or.inr rfl

theorem eq_Read_of_has (state : SockState) :
    state.has .New = false → state.has .Shut = false → state.has .Read = true → state = .Read := by
  revert state
  decide

theorem eq_None_of_has (state : SockState) :
    state.has .New = false → state.has .Shut = false → state.has .Read = false → state = .None := by
  revert state
  decide

theorem has_or (s completion flag : SockState) :
    (s ||| completion).has flag = (s.has flag || completion.has flag) := by
  revert s completion flag
  decide

theorem begun_append_read (n : Nat) (buffer : Ended SystemError) :
    ∃ m, begun n ++ readSocketCalls buffer = begun m := by
  cases buffer with
  | returned _ => exact ⟨n + 1, by simp [begun, readSocketCalls, List.replicate_succ']⟩
  | threw => exact ⟨n, by simp [readSocketCalls]⟩

/-- The flag is set, and the callback is orderly. -/
theorem Reached.called (hpassing : a.passing = some (w, stage, made, completion)) (horderly : l.Orderly a)
    (hwork : l.workOn w = some (state, s)) (hflag : state.has stage.flag = true)
    (h : Reached (.serving p stage s) state calls) :
    Reached (stage.after p (s ||| completion)) state (calls ++ made) := by
  cases a with
  | accept | addServer | epollWait | event | popWork | decrement | release => cases hpassing
  | handShake v result =>
      cases hpassing
      obtain rfl : result = .returned true := horderly _ hwork hflag
      obtain ⟨rfl, ⟨rfl, rfl⟩ | ⟨hnew, -⟩⟩ := h
      · exact ⟨Or.inl ⟨rfl, by decide⟩, 0, rfl⟩
      · exact absurd hflag (by simp [Stage.flag, hnew])
  | readSocket v buffer result =>
      cases hpassing
      obtain ⟨⟨rfl, -⟩ | ⟨hnew, rfl⟩, n, rfl⟩ := h
      · exact absurd hflag (by decide)
      · refine ⟨?_, begun_append_read n buffer⟩
        intro hshut
        obtain rfl := eq_Read_of_has state hnew hshut hflag
        rcases readSocketDone_of_not_fails (horderly _ hwork rfl rfl) with hdone | hdone
        · rw [hdone]
          decide
        · rw [hdone]
          decide
  | shutDown v result =>
      cases hpassing
      obtain ⟨-, n, rfl⟩ := h
      have hshut : (s ||| shutDownDone result).has .Shut = true := by
        rw [has_or]
        cases result with
        | returned _ => simp [shutDownDone, SockState.has, SockState.Shut]
        | threw => simp [horderly _ hwork hflag rfl]
      show Done state _ _
      unfold Done
      rw [if_pos hshut]
      exact ⟨n, rfl⟩

/-- The flag is not set. -/
theorem Reached.skipped (hflag : state.has stage.flag = false)
    (h : Reached (.serving p stage s) state calls) : Reached (stage.after p s) state calls := by
  cases stage with
  | handShake =>
      obtain ⟨rfl, ⟨rfl, -⟩ | ⟨hnew, hbegun⟩⟩ := h
      · exact absurd hflag (by decide)
      · exact ⟨Or.inr ⟨hnew, rfl⟩, hbegun⟩
  | readSocket =>
      obtain ⟨⟨rfl, rfl⟩ | ⟨hnew, rfl⟩, hbegun⟩ := h
      · exact ⟨by decide, hbegun⟩
      · refine ⟨?_, hbegun⟩
        intro hshut
        obtain rfl := eq_None_of_has state hnew hshut hflag
        decide
  | shutDown =>
      obtain ⟨hrest, hbegun⟩ := h
      obtain ⟨hshut, hstate⟩ := hrest hflag
      show Done state _ _
      unfold Done
      rw [if_neg (by simp [hshut])]
      exact ⟨hstate, hbegun⟩

/-! ## One step -/

theorem callsOf_append (made : List Call) (hcalls : l'.calls = l.calls ++ made.map (p, ·)) :
    l'.callsOf p = l.callsOf p ++ made := by
  unfold callsOf
  rw [hcalls, List.filter_append, List.map_append]
  congr 1
  simp [List.filter_map, Function.comp_def]

theorem callsOf_append_of_ne (hcalls : l'.calls = l.calls ++ made.map (p, ·))
    (hne : q ≠ p) : l'.callsOf q = l.callsOf q := by
  unfold callsOf
  rw [hcalls, List.filter_append, List.map_append]
  simp [List.filter_map, Function.comp_def, Ne.symm hne]

theorem Fits.frame {place : Option Place} (h : Fits l q place) (hderef : l'.deref q = l.deref q)
    (hcalls : l'.callsOf q = l.callsOf q)
    (hservers : ∀ v, place = some (.server v) → l'.servers_[v]? = l.servers_[v]?) : Fits l' q place := by
  match place, h with
  | none, h => simpa only [Fits, hcalls] using h
  | some .epoll, h => simpa only [Fits, hcalls, hderef] using h
  | some .workload, h => simpa only [Fits, hcalls, hderef] using h
  | some (.server v), h => simpa only [Fits, hcalls, hderef, hservers v rfl] using h

/-- A pointer to a connection is from an allocation that was made. -/
theorem Owned.alloc_lt (howned : Owned owner l) (hfound : l.deref p = some c) : p.alloc < l.allocs := by
  obtain ⟨hclient, halloc⟩ := deref_eq_some.mp hfound
  rw [← halloc]
  exact howned.alloc p.fd c hclient

/-- The server that holds a connection changes, and no other one. -/
theorem Owned.other_server {new : TCPServer} {v : Nat} (howned : Owned owner l) (hheld : heldBy l.servers_ w = some p)
    (hservers : l'.servers_ = l.servers_.set w new) (hq : q ≠ p) (hv : owner q = some (.server v)) :
    l'.servers_[v]? = l.servers_[v]? := by
  have hne : w ≠ v := by
    rintro rfl
    exact howned.owner_ne_of_held hheld hq hv
  rw [hservers, List.getElem?_set_ne hne]

/-- One connection moves: the calls on the other ones still fit. -/
theorem InCycle.move {place : Option Place} (h : InCycle owner l) (made : List Call)
    (hcalls : l'.calls = l.calls ++ made.map (p, ·)) (hallocs : l.allocs ≤ l'.allocs)
    (halloc : p.alloc < l'.allocs) (hderef : ∀ q, q ≠ p → l'.deref q = l.deref q)
    (hservers : ∀ q, q ≠ p → ∀ v, owner q = some (.server v) → l'.servers_[v]? = l.servers_[v]?)
    (hfits : Fits l' p place) : InCycle (Function.update owner p place) l' := by
  constructor
  · intro e he
    rw [hcalls, List.mem_append] at he
    rcases he with he | he
    · exact Nat.lt_of_lt_of_le (h.past e he) hallocs
    · obtain ⟨call, -, rfl⟩ := List.mem_map.mp he
      exact halloc
  · intro q
    by_cases hq : q = p
    · rw [hq, Function.update_self]
      exact hfits
    · rw [Function.update_of_ne hq]
      exact (h.fits q).frame (hderef q hq) (callsOf_append_of_ne hcalls hq) (hservers q hq)

/-- A server goes on with its item. -/
theorem InCycle.goOn {old new : TCPServer} (h : InCycle owner l) (howned : Owned owner l) (made : List Call)
    (hserver : l.servers_[w]? = some old) (hold : old.sockmap = some p) (hfound : l.deref p = some c)
    (hreached : Reached old c.state (l.callsOf p) → Reached new c.state (l.callsOf p ++ made))
    (hcalls : l'.calls = l.calls ++ made.map (p, ·)) (hclients : l'.clients_ = l.clients_)
    (hallocs : l'.allocs = l.allocs) (hservers : l'.servers_ = l.servers_.set w new) : InCycle owner l' := by
  have hheld : heldBy l.servers_ w = some p := by rw [heldBy_eq hserver, hold]
  have howner := howned.held_iff.mp hheld
  have hderef : ∀ q, l'.deref q = l.deref q := by
    intro q
    rw [deref, deref, hclients]
  have hlt : p.alloc < l'.allocs := by
    rw [hallocs]
    exact howned.alloc_lt hfound
  rw [← Function.update_eq_self p owner]
  refine h.move made hcalls (Nat.le_of_eq hallocs.symm) hlt (fun q _ => hderef q) ?_ ?_
  · intro q hq v hv
    exact howned.other_server hheld hservers hq hv
  · have hfits := h.fits p
    rw [howner] at hfits ⊢
    have hlen := (List.getElem?_eq_some_iff.mp hserver).1
    intro c' hc' server hserver'
    rw [hderef, hfound] at hc'
    rw [hservers, List.getElem?_set_self hlen] at hserver'
    obtain rfl := Option.some.inj hc'
    obtain rfl := Option.some.inj hserver'
    rw [callsOf_append made hcalls]
    exact hreached (hfits c hfound old hserver)

theorem workOn_eq (hserving : l.servers_[w]? = some (.serving p stage s)) (hfound : l.deref p = some c) :
    l.workOn w = some (c.state, s) := by
  simp only [workOn, hserving, hfound, Option.map_some]

theorem InCycle.accept {fd : Fd} (h : InCycle owner l) (howned : Owned owner l) (hunused : fd ∉ l.opened)
    (hclients : l'.clients_ = l.clients_.insert fd { socket := some fd, state := .New, alloc := l.allocs })
    (hallocs : l'.allocs = l.allocs + 1) (hservers : l'.servers_ = l.servers_) (hcalls : l'.calls = l.calls) :
    InCycle (Function.update owner ⟨fd, l.allocs⟩ (some .workload)) l' := by
  have hdead : ∀ q : Ptr, q.fd = fd → l.deref q = none := by
    intro q hq
    rw [← Option.not_isSome_iff_eq_none]
    intro hlive
    have hsome := (howned.live q).mpr hlive
    rw [howned.owner_unused (hq ▸ hunused)] at hsome
    exact absurd hsome (by simp)
  -- no call was made on an entry that is only allocated now
  have hnone : l'.callsOf ⟨fd, l.allocs⟩ = [] := by
    rw [callsOf, hcalls, List.map_eq_nil_iff, List.filter_eq_nil_iff]
    intro e he heq
    have hlt := h.past e he
    rw [of_decide_eq_true heq] at hlt
    exact Nat.lt_irrefl _ hlt
  refine h.move [] (by simp [hcalls]) (by omega) (by simp [hallocs]) ?_ ?_ ?_
  · intro q hq
    exact deref_insert_of_ne hclients rfl hq (hdead q)
  · intro q hq v hv
    rw [hservers]
  · intro c hc
    rw [deref_insert_self (p := ⟨fd, l.allocs⟩) hclients rfl] at hc
    obtain rfl := Option.some.inj hc
    exact Or.inl ⟨rfl, hnone⟩

theorem InCycle.event {fd : Fd} {events : Events} {rest : List (Fd × Events)} (h : InCycle owner l)
    (howned : Owned owner l) (hnext : l.poll_sockets = (fd, events) :: rest)
    (hfound : l.clients_[fd]? = some c)
    (hclients : l'.clients_ = l.clients_.insert fd { c with state := c.state ||| events.combinedState })
    (hallocs : l'.allocs = l.allocs) (hservers : l'.servers_ = l.servers_) (hcalls : l'.calls = l.calls) :
    InCycle (Function.update owner ⟨fd, c.alloc⟩ (some .workload)) l' := by
  have hderef : l.deref ⟨fd, c.alloc⟩ = some c := deref_eq_some.mpr ⟨hfound, rfl⟩
  have hlive : l.Live ⟨fd, c.alloc⟩ := by rw [Live, hderef]; rfl
  have hfits := h.fits ⟨fd, c.alloc⟩
  rw [howned.owner_reported hnext hfound] at hfits
  obtain ⟨hstate, hbegun⟩ := hfits c hderef
  refine h.move [] (by simp [hcalls]) (by omega) ?_ ?_ ?_ ?_
  · rw [hallocs]
    exact howned.alloc fd c hfound
  · intro q hq
    exact deref_insert_of_ne hclients rfl hq (deref_eq_none_of_ne hlive hq)
  · intro q hq v hv
    rw [hservers]
  · intro c' hc'
    rw [deref_insert_self (p := ⟨fd, c.alloc⟩) hclients rfl] at hc'
    obtain rfl := Option.some.inj hc'
    have hcallsOf : l'.callsOf ⟨fd, c.alloc⟩ = l.callsOf ⟨fd, c.alloc⟩ := by rw [callsOf, callsOf, hcalls]
    rw [hcallsOf]
    refine Or.inr ⟨?_, hbegun⟩
    show SockState.has (c.state ||| _) _ = false
    rw [has_or, events.combinedState_has_New, Bool.or_false]
    rcases hstate with heq | heq
    · rw [heq]
      decide
    · rw [heq]
      decide

theorem InCycle.pop {ps : List Ptr} (h : InCycle owner l) (howned : Owned owner l)
    (hwaiting : l.servers_[w]? = some .waiting) (hfirst : l.workload_ = p :: ps)
    (hclients : l'.clients_ = l.clients_) (hallocs : l'.allocs = l.allocs)
    (hservers : l'.servers_ = l.servers_.set w (.serving p .handShake .None))
    (hcalls : l'.calls = l.calls) :
    InCycle (Function.update owner p (some (.server w))) l' := by
  have hderef : ∀ q, l'.deref q = l.deref q := by
    intro q
    rw [deref, deref, hclients]
  have howner : owner p = some .workload := howned.owner_queued (by simp [hfirst])
  obtain ⟨c, hfound⟩ := Option.isSome_iff_exists.mp ((howned.live p).mp (by rw [howner]; rfl))
  have hfits := h.fits p
  rw [howner] at hfits
  refine h.move [] (by simp [hcalls]) (by omega) ?_ (fun q _ => hderef q) ?_ ?_
  · rw [hallocs]
    exact howned.alloc_lt hfound
  · intro q hq v hv
    have hne : w ≠ v := by
      rintro rfl
      rw [← howned.held_iff, heldBy_eq hwaiting] at hv
      cases hv
    rw [hservers, List.getElem?_set_ne hne]
  · intro c' hc' server hserver
    have hlen := (List.getElem?_eq_some_iff.mp hwaiting).1
    rw [hderef] at hc'
    rw [hservers, List.getElem?_set_self hlen] at hserver
    obtain rfl := Option.some.inj hserver
    have hcallsOf : l'.callsOf p = l.callsOf p := by rw [callsOf, callsOf, hcalls]
    rw [hcallsOf]
    exact ⟨rfl, hfits c' hc'⟩

/-- A server in `releaseWork` is done with its connection. -/
theorem InCycle.done {socket : Option Fd} (h : InCycle owner l) (howned : Owned owner l)
    (hreleasing : l.servers_[w]? = some (.releasing p ⟨socket, s⟩)) (hfound : l.deref p = some c) :
    Done c.state s (l.callsOf p) := by
  have hfits := h.fits p
  rw [howned.held_iff.mp (heldBy_eq hreleasing)] at hfits
  exact hfits c hfound _ hreleasing

/-- A server gives a connection back: it is closed, or put into the epoll set. -/
theorem InCycle.release {place : Option Place} {socket : Option Fd} (h : InCycle owner l)
    (howned : Owned owner l) (made : List Call)
    (hreleasing : l.servers_[w]? = some (.releasing p ⟨socket, s⟩)) (hfound : l.deref p = some c)
    (hderef : ∀ q, q ≠ p → l'.deref q = l.deref q) (hallocs : l'.allocs = l.allocs)
    (hservers : l'.servers_ = l.servers_.set w .waiting) (hcalls : l'.calls = l.calls ++ made.map (p, ·))
    (hfits : Fits l' p place) : InCycle (Function.update owner p place) l' := by
  have hheld : heldBy l.servers_ w = some p := heldBy_eq hreleasing
  refine h.move made hcalls (by omega) ?_ hderef ?_ hfits
  · rw [hallocs]
    exact howned.alloc_lt hfound
  · intro q hq v hv
    exact howned.other_server hheld hservers hq hv

/-- **One orderly step** keeps every connection in its cycle. -/
theorem Outcome.inCycle (howned : Owned owner l) (h : InCycle owner l) (horderly : l.Orderly a)
    (ho : Outcome l owner a l' owner') : InCycle owner' l' := by
  cases ho with
  | rejected fd full => exact h
  | accepted fd unused room => exact h.accept howned unused rfl rfl rfl rfl
  | added =>
      refine ⟨h.past, ?_⟩
      intro q
      refine (h.fits q).frame rfl rfl ?_
      intro v hv
      obtain ⟨server, hserver, -⟩ := Option.bind_eq_some_iff.mp (howned.held_iff.mpr hv)
      exact List.getElem?_append_left (List.getElem?_eq_some_iff.mp hserver).1
  | reported events handled once armed => exact ⟨h.past, h.fits⟩
  | event fd c events rest next found => exact h.event howned next found rfl rfl rfl rfl
  | idle w waiting empty => exact h
  | popped w p ps waiting first => exact h.pop howned waiting first rfl rfl rfl rfl
  | called a w p stage s made completion c passing serving found flag =>
      exact h.goOn howned made serving rfl found
        (fun hreached => hreached.called passing horderly (workOn_eq serving found) flag) rfl rfl rfl rfl
  | skipped a w p stage s made completion c passing serving found flag =>
      refine h.goOn howned [] serving rfl found ?_ (by simp) rfl rfl rfl
      rw [List.append_nil]
      exact Reached.skipped flag
  | decremented w p s c served found =>
      refine h.goOn howned [] served rfl found ?_ (by simp) rfl rfl rfl
      rw [List.append_nil]
      exact id
  | closed w p s c releasing found shut =>
      have hlive : l.Live p := by rw [Live, found]; rfl
      refine h.release howned [.close] releasing found ?_ rfl rfl rfl ?_
      · intro q hq
        exact deref_erase_of_ne rfl (deref_eq_none_of_ne hlive hq)
      · have hdone := h.done howned releasing found
        unfold Done at hdone
        rw [if_pos shut] at hdone
        obtain ⟨n, hn⟩ := hdone
        refine Or.inr ⟨n, ?_⟩
        rw [callsOf_append (l := l) [.close] rfl, hn, cycle]
  | rearmed w p s c releasing found shut =>
      have hlive : l.Live p := by rw [Live, found]; rfl
      refine h.release howned [] releasing found ?_ rfl rfl (by simp) ?_
      · intro q hq
        exact deref_insert_of_ne rfl (deref_eq_some.mp found).2 hq (deref_eq_none_of_ne hlive hq)
      · have hdone := h.done howned releasing found
        unfold Done at hdone
        rw [if_neg (by simp [shut])] at hdone
        intro c' hc'
        rw [deref_insert_self (l := l) (c := { c with state := c.state ^^^ s }) rfl
          (deref_eq_some.mp found).2] at hc'
        obtain rfl := Option.some.inj hc'
        exact hdone

/-! ## Runs -/

theorem begun_begins (n : Nat) : begun n <+: cycle n := ⟨[.shutDown, .close], by simp [cycle]⟩

theorem Done.begins_cycle (h : Done state completion calls) : ∃ n, calls <+: cycle n := by
  unfold Done at h
  split at h
  · obtain ⟨n, rfl⟩ := h
    exact ⟨n, List.prefix_append _ _⟩
  · obtain ⟨-, n, rfl⟩ := h
    exact ⟨n, begun_begins n⟩

theorem Ready.begins_cycle (h : Ready state calls) : ∃ n, calls <+: cycle n := by
  obtain ⟨-, rfl⟩ | ⟨-, n, rfl⟩ := h
  · exact ⟨0, List.nil_prefix⟩
  · exact ⟨n, begun_begins n⟩

theorem Reached.begins_cycle {server : TCPServer} (h : Reached server state calls) :
    ∃ n, calls <+: cycle n := by
  match server, h with
  | .serving _ .handShake _, ⟨_, hready⟩ => exact hready.begins_cycle
  | .serving _ .readSocket _, ⟨_, n, hbegun⟩ => exact ⟨n, hbegun ▸ begun_begins n⟩
  | .serving _ .shutDown _, ⟨_, n, hbegun⟩ => exact ⟨n, hbegun ▸ begun_begins n⟩
  | .served _ _, hdone => exact Done.begins_cycle hdone
  | .releasing _ _, hdone => exact Done.begins_cycle hdone

/-- Wherever a connection is, the calls on it are the beginning of a cycle. -/
theorem InCycle.begins_cycle (howned : Owned owner l) (h : InCycle owner l) (p : Ptr) :
    ∃ n, l.callsOf p <+: cycle n := by
  have hfits := h.fits p
  cases howner : owner p with
  | none =>
      rw [howner] at hfits
      rcases hfits with hnil | ⟨n, hn⟩
      · exact ⟨0, hnil ▸ List.nil_prefix⟩
      · exact ⟨n, hn ▸ List.prefix_rfl⟩
  | some place =>
      rw [howner] at hfits
      obtain ⟨c, hfound⟩ := Option.isSome_iff_exists.mp ((howned.live p).mp (by rw [howner]; rfl))
      cases place with
      | epoll =>
          obtain ⟨-, n, hbegun⟩ := hfits c hfound
          exact ⟨n, hbegun ▸ begun_begins n⟩
      | workload => exact (hfits c hfound).begins_cycle
      | server w =>
          obtain ⟨server, hserver, -⟩ := Option.bind_eq_some_iff.mp (howned.held_iff.mpr howner)
          exact (hfits c hfound server hserver).begins_cycle

/-- A beginning of a cycle in which the socket is closed is the whole cycle. -/
theorem eq_cycle_of_close {n : Nat} (h : calls <+: cycle n) (hclose : .close ∈ calls) : calls = cycle n := by
  rcases List.prefix_concat_iff.mp h with heq | hpre
  · exact heq
  · have hmem := hpre.subset hclose
    simp [begun] at hmem

/-- **The callbacks of every connection follow the documented cycle** in every run all of whose steps are
    orderly: one `handShake`, some `readSocket`, one `shutDown`, and then the socket is closed. -/
theorem callback_cycle (maxconnections servers : Nat) (as : List Action) (l : TCPListener)
    (hrun : Machine.exec step (start maxconnections servers) as = some l)
    (horderly : Machine.Along step Orderly (start maxconnections servers) as) (p : Ptr) :
    (∃ n, l.callsOf p <+: cycle n) ∧ (.close ∈ l.callsOf p → ∃ n, l.callsOf p = cycle n) := by
  have hinv : ∃ owner, Owned owner l ∧ InCycle owner l := by
    apply Machine.exec_invariant_along (fun l => ∃ owner, Owned owner l ∧ InCycle owner l) _ _ horderly hrun
    · rintro l a l' ⟨owner, howned, hcycle⟩ hgood hstep
      obtain ⟨owner', houtcome⟩ := outcome_of_step howned hstep
      exact ⟨owner', houtcome.owned howned, houtcome.inCycle howned hcycle hgood⟩
    · refine ⟨_, .start maxconnections servers, ?_, ?_⟩
      · intro e he
        cases he
      · intro p
        exact Or.inl rfl
  obtain ⟨owner, howned, hcycle⟩ := hinv
  obtain ⟨n, hpre⟩ := hcycle.begins_cycle howned p
  exact ⟨⟨n, hpre⟩, fun hclose => ⟨n, eq_cycle_of_close hpre hclose⟩⟩

/-! ### Runs with one connection -/

/-- A server takes the next item, serves it and gives it back. -/
def serveNext (handShake : Ended Bool) (buffer read : Ended SystemError) (shutDown : Ended Unit) : List Action :=
  [.popWork 0, .handShake 0 handShake, .readSocket 0 buffer read, .shutDown 0 shutDown, .decrement 0, .release 0]

/-- The peer hangs up. -/
def hangup : List Action := [.epollWait [(5, ⟨false, false, true, false, false, rfl⟩)], .event]

/-- A request is read, and then the peer hangs up. -/
def oneRequest : List Action :=
  [.accept 5] ++ serveNext (.returned true) .threw .threw .threw ++
    input ++ serveNext .threw (.returned .ecOK) (.returned .ecOK) .threw ++
    hangup ++ serveNext .threw .threw .threw (.returned ())

theorem callback_cycle_oneRequest :
    ∃ l, Machine.exec step (start 1 1) oneRequest = some l ∧
      Machine.Along step Orderly (start 1 1) oneRequest ∧ .close ∈ l.callsOf ⟨5, 0⟩ ∧
      ∃ n, l.callsOf ⟨5, 0⟩ = cycle n := by
  have hrun : ∃ l ∈ Machine.exec step (start 1 1) oneRequest, .close ∈ l.callsOf ⟨5, 0⟩ := by
    decide +kernel
  have horderly : Machine.Along step Orderly (start 1 1) oneRequest := by decide +kernel
  obtain ⟨l, hexec, hclose⟩ := hrun
  exact ⟨l, hexec, horderly, hclose,
    (callback_cycle 1 1 oneRequest l hexec horderly ⟨5, 0⟩).2 hclose⟩

/-- `handShake` returns false; the socket is closed without `shutDown`. -/
def refused : List Action := [.accept 5] ++ serveNext (.returned false) .threw .threw .threw

/-- `readSocket` asks for the connection to be closed; the socket is closed without `shutDown`. -/
def aborted : List Action :=
  [.accept 5] ++ serveNext (.returned true) .threw .threw .threw ++
    input ++ serveNext .threw (.returned .ecOK) (.returned .ecECONNABORTED) .threw

/-- `handShake` throws, and is called again when data arrive. -/
def greetedTwice : List Action :=
  [.accept 5] ++ serveNext .threw .threw .threw .threw ++
    input ++ serveNext (.returned true) (.returned .ecOK) (.returned .ecOK) .threw

/-- `shutDown` throws, and is called again. -/
def shutTwice : List Action :=
  [.accept 5] ++ serveNext (.returned true) .threw .threw .threw ++
    hangup ++ serveNext .threw .threw .threw .threw ++ hangup ++ serveNext .threw .threw .threw (.returned ())

/-- The actions are a run in which the calls for the first client leave the cycle. -/
def LeavesCycle (as : List Action) : Prop :=
  ∃ l, Machine.exec step (start 1 1) as = some l ∧ ∀ n, ¬ l.callsOf ⟨5, 0⟩ <+: cycle n

theorem LeavesCycle.of_calls {as : List Action} {calls : List Call}
    (h : ∃ l ∈ Machine.exec step (start 1 1) as, l.callsOf ⟨5, 0⟩ = calls)
    (hleave : ∀ n, ¬ calls <+: cycle n) : LeavesCycle as := by
  obtain ⟨l, hexec, rfl⟩ := h
  exact ⟨l, hexec, hleave⟩

/-- **Four runs in which the callbacks leave the cycle.** -/
theorem callbacks_leave_cycle :
    LeavesCycle refused ∧ LeavesCycle aborted ∧ LeavesCycle greetedTwice ∧ LeavesCycle shutTwice := by
  -- the calls differ from every cycle in the second or third place
  have hleave : ∀ n, ¬ [Call.handShake, .close] <+: cycle n ∧
      ¬ [Call.handShake, .readSocket, .close] <+: cycle n ∧
      ¬ [Call.handShake, .handShake, .readSocket] <+: cycle n ∧
      ¬ [Call.handShake, .shutDown, .shutDown, .close] <+: cycle n := by
    intro n
    rcases n with _ | _ | n <;> simp [cycle, begun, List.replicate_succ]
  refine ⟨.of_calls ?_ fun n => (hleave n).1, .of_calls ?_ fun n => (hleave n).2.1,
    .of_calls ?_ fun n => (hleave n).2.2.1, .of_calls ?_ fun n => (hleave n).2.2.2⟩
  all_goals decide +kernel

end TCPListener
end Dodo.Network
