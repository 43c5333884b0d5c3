import Dodo.Lib.Fair

/-!
# `Common.Application` — signals and the mutex of the logger

`onSignal` logs, and then notes that the application has to stop. It runs on any thread, in the middle of whatever the
thread does, and the thread goes on only when it is done. `log` holds a mutex that is not recursive. So a signal that is
delivered to the thread that holds the mutex waits for itself (`Hung`), and with it everyone who logs from then on, the
handlers of all later signals among them. A signal that comes before there is a logger makes `getLogger` throw, and the
exception leaves the handler; so does one of `checkRotate`, which `log` calls with the mutex locked. Nothing is said of
the application from there on.

`runs_on_iff` says that of the logger and its mutex nothing else can go wrong, in any order of steps of any number of
threads.
-/

namespace Dodo.Common.Application

open Lib

/-! ## The model -/

/-- The signals that `installSignalHandlers` is about. -/
inductive Signal where
  | SIGINT
  | SIGQUIT
  | SIGTERM
deriving DecidableEq, Repr

/-- Where a call of `log` is: it waits for the mutex, or holds it, with some steps to go, or has released it. -/
inductive Phase where
  | waiting (steps : Nat)
  | inside (steps : Nat)
  | returning
deriving DecidableEq, Repr

/-- A call of `log`, by `onSignal` or by the thread itself. -/
structure Call where
  cause : Option Signal
  phase : Phase
deriving DecidableEq, Repr

/-- `calls` are the calls of each thread, the last one first: those behind it are interrupted by signals. Where it is
    `terminated`, an exception has left a signal handler. -/
structure State where
  logger : Bool
  mutex : Option Nat
  calls : List (List Call)
  hasStopRequest : Bool
  terminated : Bool
deriving DecidableEq, Repr

inductive Action where
  /-- `Logger::initialize` -/
  | createLogger
  | log (thread : Nat) (steps : Nat)
  | onSignal (thread : Nat) (signal : Signal) (steps : Nat)
  | lock (thread : Nat)
  | write (thread : Nat)
  | unlock (thread : Nat)
  /-- `checkRotate` throws, and the mutex is unlocked on the way out. -/
  | throws (thread : Nat)
  /-- The call returns, and `onSignal` makes the stop request. -/
  | resume (thread : Nat)
deriving DecidableEq, Repr

def State.setCalls (s : State) (thread : Nat) (calls : List Call) : State :=
  { s with calls := s.calls.set thread calls }

/-- What one step does, where it can be taken. -/
def step (s : State) (a : Action) : Option State :=
  if s.terminated then none
  else match a with
  | .createLogger => if s.logger then none else some { s with logger := true }
  | .log t n =>
      match s.calls[t]? with
      -- without a logger `getLogger` throws, and the thread goes on
      | some [] => some (if s.logger then s.setCalls t [⟨none, .waiting n⟩] else s)
      | _ => none
  | .onSignal t signal n =>
      match s.calls[t]? with
      | none => none
      | some calls =>
          -- a signal is blocked while its handler runs
          if calls.any (fun call => call.cause = some signal) then none
          else if s.logger then some (s.setCalls t (⟨some signal, .waiting n⟩ :: calls))
          else some { s with terminated := true }
  | .lock t =>
      match s.mutex, s.calls[t]? with
      | none, some (⟨cause, .waiting n⟩ :: calls) =>
          some { s.setCalls t (⟨cause, .inside n⟩ :: calls) with mutex := some t }
      | _, _ => none
  | .write t =>
      match s.calls[t]? with
      | some (⟨cause, .inside (n + 1)⟩ :: calls) => some (s.setCalls t (⟨cause, .inside n⟩ :: calls))
      | _ => none
  | .unlock t =>
      match s.calls[t]? with
      | some (⟨cause, .inside 0⟩ :: calls) => some { s.setCalls t (⟨cause, .returning⟩ :: calls) with mutex := none }
      | _ => none
  | .throws t =>
      match s.calls[t]? with
      -- what a thread logs itself may throw, and the thread goes on behind it
      | some (⟨none, .inside _⟩ :: calls) => some { s.setCalls t calls with mutex := none }
      | some (⟨some _, .inside _⟩ :: calls) => some { s.setCalls t calls with mutex := none, terminated := true }
      | _ => none
  | .resume t =>
      match s.calls[t]? with
      | some (⟨cause, .returning⟩ :: calls) =>
          -- all of the signals are ones for which `has_stop_request_` is set
          some { s.setCalls t calls with hasStopRequest := s.hasStopRequest || cause.isSome }
      | _ => none

/-- Behind `installSignalHandlers`, with some threads that do not log. -/
def initial (threads : Nat) : State := ⟨false, none, List.replicate threads [], false, false⟩

/-- The thread that holds the mutex waits for it. -/
def Hung (s : State) : Prop :=
  ∃ t cause n calls, s.mutex = some t ∧ s.calls[t]? = some (⟨cause, .waiting n⟩ :: calls)

/-- The calls of one thread that hold the mutex. -/
def insides (calls : List Call) : Nat :=
  calls.countP (fun call => match call.phase with | .inside _ => true | .waiting _ | .returning => false)

@[simp] theorem insides_waiting (cause : Option Signal) (n : Nat) (calls : List Call) :
    insides (⟨cause, .waiting n⟩ :: calls) = insides calls := List.countP_cons_of_neg (by simp)

@[simp] theorem insides_returning (cause : Option Signal) (calls : List Call) :
    insides (⟨cause, .returning⟩ :: calls) = insides calls := List.countP_cons_of_neg (by simp)

@[simp] theorem insides_inside (cause : Option Signal) (n : Nat) (calls : List Call) :
    insides (⟨cause, .inside n⟩ :: calls) = insides calls + 1 := List.countP_cons_of_pos rfl

/-- The steps of a thread on its own calls. -/
inductive Moves (s : State) (t : Nat) : Action → List Call → State → List Call → Prop where
  | lock {n : Nat} {cause : Option Signal} {calls : List Call} (h : s.mutex = none) :
      Moves s t (.lock t) (⟨cause, .waiting n⟩ :: calls) { s with mutex := some t } (⟨cause, .inside n⟩ :: calls)
  | write {n : Nat} {cause : Option Signal} {calls : List Call} :
      Moves s t (.write t) (⟨cause, .inside (n + 1)⟩ :: calls) s (⟨cause, .inside n⟩ :: calls)
  | unlock {cause : Option Signal} {calls : List Call} :
      Moves s t (.unlock t) (⟨cause, .inside 0⟩ :: calls) { s with mutex := none } (⟨cause, .returning⟩ :: calls)
  | throws {n : Nat} {calls : List Call} :
      Moves s t (.throws t) (⟨none, .inside n⟩ :: calls) { s with mutex := none } calls
  | resume {cause : Option Signal} {calls : List Call} :
      Moves s t (.resume t) (⟨cause, .returning⟩ :: calls)
        { s with hasStopRequest := s.hasStopRequest || cause.isSome } calls

/-- A step of a call that is under way. -/
def Action.internal : Action → Bool
  | .lock _ | .write _ | .unlock _ | .throws _ | .resume _ => true
  | _ => false

/-- A step of `log` that takes the mutex, or needs to have it. -/
def Action.critical : Action → Bool
  | .lock _ | .write _ | .unlock _ | .throws _ => true
  | _ => false

/-- **What a step can do.** -/
inductive Steps (s : State) : Action → State → Prop where
  | createLogger (h : s.logger = false) : Steps s .createLogger { s with logger := true }
  | missing {t n : Nat} (h : s.logger = false) (hcalls : s.calls[t]? = some []) : Steps s (.log t n) s
  | log {t n : Nat} (h : s.logger = true) (hcalls : s.calls[t]? = some []) :
      Steps s (.log t n) (s.setCalls t [⟨none, .waiting n⟩])
  | terminates {t n : Nat} {signal : Signal} {calls : List Call} (h : s.logger = false) (hcalls : s.calls[t]? = some calls) :
      Steps s (.onSignal t signal n) { s with terminated := true }
  | onSignal {t n : Nat} {signal : Signal} {calls : List Call} (h : s.logger = true) (hcalls : s.calls[t]? = some calls) :
      Steps s (.onSignal t signal n) (s.setCalls t (⟨some signal, .waiting n⟩ :: calls))
  | leaves {t n : Nat} {signal : Signal} {calls : List Call}
      (hcalls : s.calls[t]? = some (⟨some signal, .inside n⟩ :: calls)) :
      Steps s (.throws t) { s.setCalls t calls with mutex := none, terminated := true }
  | moves {a : Action} {t : Nat} {calls calls' : List Call} {s' : State} (hcalls : s.calls[t]? = some calls)
      (h : Moves s t a calls s' calls') : Steps s a (s'.setCalls t calls')

theorem step_cases {s s' : State} {a : Action} (h : step s a = some s') : s.terminated = false ∧ Steps s a s' := by
  unfold step at h
  split at h
  · cases h
  · rename_i hterminated
    refine ⟨Bool.eq_false_iff.mpr hterminated, ?_⟩
    cases a with
    | createLogger =>
        simp only at h
        split at h
        · cases h
        · rename_i hlogger
          obtain rfl := Option.some.inj h
          exact .createLogger (Bool.eq_false_iff.mpr hlogger)
    | log t n =>
        simp only at h
        split at h
        next hcalls =>
          obtain rfl := Option.some.inj h
          cases hlogger : s.logger with
          | false => exact .missing hlogger hcalls
          | true => exact .log hlogger hcalls
        next => cases h
    | onSignal t signal n =>
        simp only at h
        split at h
        next => cases h
        next calls hcalls =>
          split at h
          · cases h
          · split at h
            · rename_i hlogger
              obtain rfl := Option.some.inj h
              exact .onSignal hlogger hcalls
            · rename_i hlogger
              obtain rfl := Option.some.inj h
              exact .terminates (Bool.eq_false_iff.mpr hlogger) hcalls
    | lock t =>
        simp only at h
        split at h
        next cause n calls hmutex hcalls =>
          obtain rfl := Option.some.inj h
          exact .moves hcalls (.lock hmutex)
        next => cases h
    | write t =>
        simp only at h
        split at h
        next cause n calls hcalls =>
          obtain rfl := Option.some.inj h
          exact .moves hcalls .write
        next => cases h
    | unlock t =>
        simp only at h
        split at h
        next cause calls hcalls =>
          obtain rfl := Option.some.inj h
          exact .moves hcalls .unlock
        next => cases h
    | throws t =>
        simp only at h
        split at h
        next n calls hcalls =>
          obtain rfl := Option.some.inj h
          exact .moves hcalls .throws
        next signal n calls hcalls =>
          obtain rfl := Option.some.inj h
          exact .leaves hcalls
        next => cases h
    | resume t =>
        simp only at h
        split at h
        next cause calls hcalls =>
          obtain rfl := Option.some.inj h
          exact .moves hcalls .resume
        next => cases h

/-! ## Who holds the mutex -/

/-- Of all calls, one holds the mutex if it is taken, and it is one of the thread that has taken it. No call that came
    after it on this thread has had the mutex. -/
structure Sound (s : State) : Prop where
  held : ∀ (t : Nat) (calls : List Call), s.calls[t]? = some calls → insides calls = if s.mutex = some t then 1 else 0
  holder : ∀ t : Nat, s.mutex = some t → ∃ calls, s.calls[t]? = some calls
  busy : ∀ (t : Nat) (call : Call) (calls : List Call), s.mutex = some t → s.calls[t]? = some (call :: calls) →
    call.phase ≠ .returning
  idle : s.logger = false → ∀ (t : Nat) (calls : List Call), s.calls[t]? = some calls → calls = []

theorem getElem?_setCalls {s : State} {t : Nat} {calls : List Call} (h : s.calls[t]? = some calls) (calls' : List Call)
    (u : Nat) : (s.setCalls t calls').calls[u]? = if u = t then some calls' else s.calls[u]? := by
  have hlt : t < s.calls.length := (List.getElem?_eq_some_iff.mp h).1
  show (s.calls.set t calls')[u]? = _
  rw [List.getElem?_set]
  by_cases hut : u = t
  · rw [if_pos hut, if_pos hut.symm, if_pos hlt]
  · rw [if_neg hut, if_neg (Ne.symm hut)]

theorem sound_initial (threads : Nat) : Sound (initial threads) := by
  have hempty (t : Nat) (calls : List Call) (h : (initial threads).calls[t]? = some calls) : calls = [] :=
    List.eq_of_mem_replicate (List.mem_of_getElem? h)
  refine ⟨fun t calls h => ?_, fun t h => ?_, fun t _ _ h => ?_, fun _ => hempty⟩
  · rw [hempty t calls h]
    rfl
  · cases h
  · cases h

/-- The calls of one thread change, and the mutex only between this thread and none. -/
theorem Sound.setCalls {s s' : State} (hs : Sound s) {t : Nat} {calls calls' : List Call}
    (hcalls : s.calls[t]? = some calls) (hsame : s'.calls = s.calls) (hlogger : s'.logger = true)
    (hothers : ∀ u, u ≠ t → (s'.mutex = some u ↔ s.mutex = some u))
    (hinsides : insides calls' = if s'.mutex = some t then 1 else 0)
    (hbusy : s'.mutex = some t → ∀ call rest, calls' = call :: rest → call.phase ≠ .returning) :
    Sound (s'.setCalls t calls') := by
  have hget := getElem?_setCalls (hsame ▸ hcalls : s'.calls[t]? = some calls) calls'
  refine ⟨fun u calls'' h => ?_, fun u h => ?_, fun u call rest hmutex h => ?_, fun h => absurd h ?_⟩
  · show _ = if s'.mutex = some u then 1 else 0
    rw [hget] at h
    by_cases hut : u = t
    · rw [if_pos hut, Option.some.injEq] at h
      rw [hut, ← h]
      exact hinsides
    · rw [if_neg hut, hsame] at h
      rw [hs.held u calls'' h]
      simp only [hothers u hut]
  · have hmutex : s'.mutex = some u := h
    rw [hget]
    by_cases hut : u = t
    · exact ⟨calls', if_pos hut⟩
    · rw [if_neg hut, hsame]
      exact hs.holder u ((hothers u hut).mp hmutex)
  · have hmutex : s'.mutex = some u := hmutex
    rw [hget] at h
    by_cases hut : u = t
    · rw [if_pos hut, Option.some.injEq] at h
      exact hbusy (hut ▸ hmutex) call rest h
    · rw [if_neg hut, hsame] at h
      exact hs.busy u call rest ((hothers u hut).mp hmutex) h
  · show s'.logger ≠ false
    rw [hlogger]
    decide

theorem Sound.logger_of_calls {s : State} (hs : Sound s) {t : Nat} {call : Call} {calls : List Call}
    (h : s.calls[t]? = some (call :: calls)) : s.logger = true := by
  by_contra hlogger
  exact absurd (hs.idle (Bool.eq_false_iff.mpr hlogger) t _ h) (List.cons_ne_nil _ _)

theorem Sound.inside_eq {s : State} (hs : Sound s) {t n : Nat} {cause : Option Signal} {calls : List Call}
    (h : s.calls[t]? = some (⟨cause, .inside n⟩ :: calls)) : s.mutex = some t := by
  by_contra hother
  have hcount := hs.held t _ h
  rw [if_neg hother, insides_inside] at hcount
  cases hcount

/-- A call that ends where it holds the mutex. -/
theorem Sound.release {s : State} (hs : Sound s) {t n : Nat} {cause : Option Signal} {calls : List Call}
    (hcalls : s.calls[t]? = some (⟨cause, .inside n⟩ :: calls)) (terminated : Bool) :
    Sound { s.setCalls t calls with mutex := none, terminated := terminated } := by
  have hmutex := hs.inside_eq hcalls
  have hinsides := hs.held t _ hcalls
  rw [if_pos hmutex, insides_inside] at hinsides
  let s' : State := { s with mutex := none, terminated := terminated }
  have hsame : s'.calls = s.calls := rfl
  show Sound (s'.setCalls t calls)
  refine hs.setCalls hcalls hsame (hs.logger_of_calls hcalls) (fun u hut => ?_) ?_ ?_
  · simp [hmutex, Ne.symm hut]
  · rw [if_neg (by simp)]
    exact Nat.succ.inj hinsides
  · rintro ⟨⟩

theorem Sound.moves {s s' : State} (hs : Sound s) {t : Nat} {a : Action} {calls calls' : List Call}
    (hcalls : s.calls[t]? = some calls) (h : Moves s t a calls s' calls') : Sound (s'.setCalls t calls') := by
  have hinsides := hs.held t calls hcalls
  cases h with
  | lock hmutex =>
      refine hs.setCalls hcalls rfl (hs.logger_of_calls hcalls) (fun u hut => ?_) ?_ ?_
      · simp [hmutex, Ne.symm hut]
      · rw [hmutex, if_neg (by simp), insides_waiting] at hinsides
        rw [if_pos rfl, insides_inside, hinsides]
      · rintro - _ _ ⟨⟩ ⟨⟩
  | write =>
      rw [insides_inside] at hinsides
      refine hs.setCalls hcalls rfl (hs.logger_of_calls hcalls) (fun u _ => Iff.rfl) ?_ ?_
      · rw [insides_inside, hinsides]
      · rintro - _ _ ⟨⟩ ⟨⟩
  | unlock =>
      -- the call that is done was the one that held the mutex
      have hmutex := hs.inside_eq hcalls
      rw [if_pos hmutex, insides_inside] at hinsides
      refine hs.setCalls hcalls rfl (hs.logger_of_calls hcalls) (fun u hut => ?_) ?_ ?_
      · simp [hmutex, Ne.symm hut]
      · rw [if_neg (by simp), insides_returning]
        exact Nat.succ.inj hinsides
      · rintro ⟨⟩
  | throws => exact hs.release hcalls s.terminated
  | resume =>
      rw [insides_returning] at hinsides
      refine hs.setCalls hcalls rfl (hs.logger_of_calls hcalls) (fun u _ => Iff.rfl) hinsides ?_
      intro hmutex
      exact absurd rfl (hs.busy t _ _ hmutex hcalls)

theorem Sound.step {s s' : State} {a : Action} (hs : Sound s) (h : step s a = some s') : Sound s' := by
  obtain ⟨-, hsteps⟩ := step_cases h
  cases hsteps with
  | createLogger => exact ⟨hs.held, hs.holder, hs.busy, fun h => by cases h⟩
  | missing => exact hs
  | terminates => exact ⟨hs.held, hs.holder, hs.busy, hs.idle⟩
  | log hlogger hcalls | onSignal hlogger hcalls =>
      refine hs.setCalls hcalls rfl hlogger (fun _ _ => Iff.rfl) ?_ ?_
      · rw [insides_waiting]
        exact hs.held _ _ hcalls
      · rintro - _ _ ⟨⟩ ⟨⟩
  | leaves hcalls => exact hs.release hcalls true
  | moves hcalls hmoves => exact hs.moves hcalls hmoves

/-! ## When the thread waits for itself -/

/-- The stop request is made, or `onSignal` is about to make it. -/
def Noted (s : State) : Prop :=
  s.hasStopRequest = true ∨ ∃ calls ∈ s.calls, ∃ call ∈ calls, call.cause.isSome = true ∧ call.phase = .returning

/-- Nobody gets the mutex any more, and nothing that needs it comes to an end. -/
theorem Hung.step {s s' : State} {a : Action} (hs : Sound s) (hung : Hung s) (h : step s a = some s') :
    Hung s' ∧ a.critical = false := by
  obtain ⟨t, cause, n, calls, hmutex, hcalls⟩ := hung
  -- a call that can move is the first one of a thread, and the only one with the mutex is not
  have hinside {u m : Nat} {cause' : Option Signal} {calls' : List Call}
      (hothers : s.calls[u]? = some (⟨cause', .inside m⟩ :: calls')) : False := by
    have hholder := hs.inside_eq hothers
    rw [hmutex, Option.some.injEq] at hholder
    rw [← hholder, hcalls] at hothers
    cases hothers
  obtain ⟨-, hsteps⟩ := step_cases h
  cases hsteps with
  | createLogger => exact ⟨⟨t, cause, n, calls, hmutex, hcalls⟩, rfl⟩
  | missing => exact ⟨⟨t, cause, n, calls, hmutex, hcalls⟩, rfl⟩
  | @log u m hlogger hempty =>
      have hut : t ≠ u := by
        rintro rfl
        rw [hcalls] at hempty
        cases hempty
      refine ⟨⟨t, cause, n, calls, hmutex, ?_⟩, rfl⟩
      rw [getElem?_setCalls hempty, if_neg hut, hcalls]
  | terminates => exact ⟨⟨t, cause, n, calls, hmutex, hcalls⟩, rfl⟩
  | @onSignal u m signal others hlogger hothers =>
      refine ⟨?_, rfl⟩
      by_cases hut : t = u
      · refine ⟨t, some signal, m, others, hmutex, ?_⟩
        rw [getElem?_setCalls hothers, if_pos hut]
      · refine ⟨t, cause, n, calls, hmutex, ?_⟩
        rw [getElem?_setCalls hothers, if_neg hut, hcalls]
  | leaves hothers => exact (hinside hothers).elim
  | @moves _ u _ _ _ hothers hmoves =>
      cases hmoves with
      | lock hnone =>
          rw [hmutex] at hnone
          cases hnone
      | write | unlock | throws => exact (hinside hothers).elim
      | resume =>
          have hut : t ≠ u := by
            rintro rfl
            rw [hcalls] at hothers
            cases hothers
          refine ⟨⟨t, cause, n, calls, hmutex, ?_⟩, rfl⟩
          exact (List.getElem?_set_ne (Ne.symm hut)).trans hcalls

/-- Only `unlock` brings a call to where it returns. -/
theorem Noted.of_step {s s' : State} {a : Action} (h : step s a = some s') (ha : a.critical = false)
    (hnoted : Noted s') : Noted s := by
  obtain ⟨-, hsteps⟩ := step_cases h
  cases hsteps with
  | createLogger | missing | terminates => exact hnoted
  | log hlogger hempty =>
      rcases hnoted with hstop | ⟨others, hothers, call, hcall, hcause, hphase⟩
      · exact .inl hstop
      · rcases List.mem_or_eq_of_mem_set hothers with hothers | rfl
        · exact .inr ⟨others, hothers, call, hcall, hcause, hphase⟩
        · rw [List.mem_singleton.mp hcall] at hphase
          cases hphase
  | @onSignal t n signal calls hlogger hcalls =>
      rcases hnoted with hstop | ⟨others, hothers, call, hcall, hcause, hphase⟩
      · exact .inl hstop
      · rcases List.mem_or_eq_of_mem_set hothers with hothers | rfl
        · exact .inr ⟨others, hothers, call, hcall, hcause, hphase⟩
        · rcases List.mem_cons.mp hcall with rfl | hcall
          · cases hphase
          · exact .inr ⟨calls, List.mem_of_getElem? hcalls, call, hcall, hcause, hphase⟩
  | leaves => cases ha
  | @moves _ t calls calls' s' hcalls hmoves =>
      cases hmoves with
      | lock | write | unlock | throws => cases ha
      | @resume cause =>
          have hmem := List.mem_of_getElem? hcalls
          rcases hnoted with hstop | ⟨others, hothers, call, hcall, hcause, hphase⟩
          · rcases Bool.or_eq_true_iff.mp hstop with hstop | hcause
            · exact .inl hstop
            · exact .inr ⟨_, hmem, ⟨cause, .returning⟩, List.mem_cons_self, hcause, rfl⟩
          · rcases List.mem_or_eq_of_mem_set hothers with hothers | rfl
            · exact .inr ⟨others, hothers, call, hcall, hcause, hphase⟩
            · exact .inr ⟨_, hmem, call, List.mem_cons_of_mem _ hcall, hcause, hphase⟩

/-- The application goes on. -/
def Good (s : State) : Prop := s.terminated = false ∧ ¬ Hung s

/-- **A signal that hits stops all logging for ever**: whatever the threads do then, no call of `log` of any of them gets
    or releases the mutex any more, and no later signal makes a stop request. -/
theorem hung_for_ever {threads : Nat} {before after : List Action} {s s' : State}
    (hbefore : Machine.exec step (initial threads) before = some s) (hung : Hung s)
    (hafter : Machine.exec step s after = some s') :
    Hung s' ∧ (∀ a ∈ after, a.critical = false) ∧ (s'.hasStopRequest = true → Noted s) := by
  have hs : Sound s := Machine.exec_invariant Sound (fun _ _ _ hs h => hs.step h) (sound_initial threads) hbefore
  clear hbefore
  -- backwards along the run: what is noted behind it was noted before
  suffices hnoted : Hung s' ∧ (∀ a ∈ after, a.critical = false) ∧ (Noted s' → Noted s) from
    ⟨hnoted.1, hnoted.2.1, fun hstop => hnoted.2.2 (.inl hstop)⟩
  induction after generalizing s with
  | nil =>
      obtain rfl := Option.some.inj hafter
      exact ⟨hung, fun a ha => absurd ha List.not_mem_nil, id⟩
  | cons a after ih =>
      obtain ⟨t, hfirst, hrest⟩ := Machine.exec_cons.mp hafter
      obtain ⟨hung', ha⟩ := Hung.step hs hung hfirst
      obtain ⟨hend, hcritical, hnoted⟩ := ih hung' hrest (hs.step hfirst)
      exact ⟨hend, List.forall_mem_cons.mpr ⟨ha, hcritical⟩, fun h => Noted.of_step hfirst ha (hnoted h)⟩

/-- Two threads; one of them logs, and is interrupted while it holds the mutex. -/
def interrupted : List Action := [.createLogger, .log 0 0, .lock 0, .onSignal 0 .SIGTERM 0]

theorem hung_for_ever_interrupted :
    ∃ s s', Machine.exec step (initial 2) interrupted = some s ∧
      Machine.exec step s [.log 1 0, .onSignal 1 .SIGINT 0] = some s' ∧ Hung s' ∧ (s'.hasStopRequest = true → Noted s) := by
  have hung : Hung ⟨true, some 0, [[⟨some .SIGTERM, .waiting 0⟩, ⟨none, .inside 0⟩], []], false, false⟩ :=
    ⟨0, some .SIGTERM, 0, [⟨none, .inside 0⟩], rfl, rfl⟩
  have hbefore : Machine.exec step (initial 2) interrupted =
      some ⟨true, some 0, [[⟨some .SIGTERM, .waiting 0⟩, ⟨none, .inside 0⟩], []], false, false⟩ := rfl
  have hafter : Machine.exec step ⟨true, some 0, [[⟨some .SIGTERM, .waiting 0⟩, ⟨none, .inside 0⟩], []], false, false⟩
      [.log 1 0, .onSignal 1 .SIGINT 0] = some ⟨true, some 0, [[⟨some .SIGTERM, .waiting 0⟩, ⟨none, .inside 0⟩],
        [⟨some .SIGINT, .waiting 0⟩, ⟨none, .waiting 0⟩]], false, false⟩ := rfl
  obtain ⟨hend, _, hnoted⟩ := hung_for_ever hbefore hung hafter
  exact ⟨_, _, hbefore, hafter, hend, hnoted⟩

/-! ## When no signal hits -/

/-- The steps that a call has still to take. -/
def weight (call : Call) : Nat :=
  match call.phase with
  | .waiting n => n + 3
  | .inside n => n + 2
  | .returning => 1

def load (calls : List Call) : Nat := (calls.map weight).sum

def rank (s : State) : Nat := (s.calls.map load).sum

theorem Moves.calls_eq {s s' : State} {t : Nat} {a : Action} {calls calls' : List Call}
    (h : Moves s t a calls s' calls') : s'.calls = s.calls := by
  cases h with
  | lock | write | unlock | throws | resume => rfl

theorem Moves.load_lt {s s' : State} {t : Nat} {a : Action} {calls calls' : List Call} (h : Moves s t a calls s' calls') :
    load calls' < load calls := by
  cases h with
  | lock | write | unlock | throws | resume =>
      simp only [load, weight, List.map_cons, List.sum_cons]
      omega

theorem rank_setCalls {s : State} {t : Nat} {calls calls' : List Call} (hcalls : s.calls[t]? = some calls)
    (hload : load calls' < load calls) : rank (s.setCalls t calls') < rank s := by
  have hsum := Machine.sum_map_set load hcalls calls'
  show ((s.calls.set t calls').map load).sum < (s.calls.map load).sum
  omega

theorem rank_internal {s s' : State} {a : Action} (ha : a.internal = true) (h : step s a = some s') :
    rank s' < rank s := by
  obtain ⟨-, hsteps⟩ := step_cases h
  cases hsteps with
  | createLogger | missing | log | terminates | onSignal => cases ha
  | leaves hcalls =>
      refine rank_setCalls hcalls ?_
      simp only [load, weight, List.map_cons, List.sum_cons]
      omega
  | moves hcalls hmoves =>
      have hsame := hmoves.calls_eq
      have hlt := rank_setCalls (hsame ▸ hcalls) hmoves.load_lt
      rwa [rank, rank, hsame] at hlt

/-- While there are calls, one of them can go on. -/
theorem exists_internal {s : State} (hs : Sound s) (hgood : Good s) {calls : List Call} (hmem : calls ∈ s.calls)
    (hne : calls ≠ []) : ∃ a, a.internal = true ∧ (step s a).isSome = true := by
  obtain ⟨hrunning, hfine⟩ := hgood
  cases hmutex : s.mutex with
  | some t =>
      obtain ⟨calls, hcalls⟩ := hs.holder t hmutex
      have hcount := hs.held t calls hcalls
      rw [if_pos hmutex] at hcount
      match calls with
      | [] => cases hcount
      | ⟨cause, .waiting n⟩ :: calls => exact absurd ⟨t, cause, n, calls, hmutex, hcalls⟩ hfine
      | ⟨cause, .returning⟩ :: calls => exact ⟨.resume t, rfl, by simp [step, hrunning, hcalls]⟩
      | ⟨cause, .inside 0⟩ :: calls => exact ⟨.unlock t, rfl, by simp [step, hrunning, hcalls]⟩
      | ⟨cause, .inside (n + 1)⟩ :: calls => exact ⟨.write t, rfl, by simp [step, hrunning, hcalls]⟩
  | none =>
      obtain ⟨t, hcalls⟩ := List.mem_iff_getElem?.mp hmem
      match calls with
      | [] => exact absurd rfl hne
      | ⟨cause, .waiting n⟩ :: calls => exact ⟨.lock t, rfl, by simp [step, hrunning, hmutex, hcalls]⟩
      | ⟨cause, .returning⟩ :: calls => exact ⟨.resume t, rfl, by simp [step, hrunning, hcalls]⟩
      | ⟨cause, .inside n⟩ :: calls =>
          have hheld := hs.inside_eq hcalls
          rw [hmutex] at hheld
          cases hheld

/-- There is a call by `onSignal`, or one has returned. -/
def Requested (s : State) : Prop :=
  s.hasStopRequest = true ∨ ∃ calls ∈ s.calls, ∃ call ∈ calls, call.cause.isSome = true

theorem Requested.internal {s s' : State} {a : Action} (hreq : Requested s) (ha : a.internal = true)
    (h : step s a = some s') (hrunning : s'.terminated = false) : Requested s' := by
  obtain ⟨-, hsteps⟩ := step_cases h
  cases hsteps with
  | createLogger | missing | log | terminates | onSignal => cases ha
  | leaves => cases hrunning
  | @moves _ t calls calls' s' hcalls hmoves =>
      have hsame := hmoves.calls_eq
      have hget := getElem?_setCalls (hsame ▸ hcalls : s'.calls[t]? = some calls) calls'
      -- a call of this thread is still there, unless it has just returned; one that throws is none of `onSignal`
      have hmoved (call : Call) (hcall : call ∈ calls) (hcause : call.cause.isSome = true) :
          (s'.setCalls t calls').hasStopRequest = true ∨ ∃ call' ∈ calls', call'.cause.isSome = true := by
        cases hmoves with
        | lock | write | unlock =>
            rcases List.mem_cons.mp hcall with rfl | hcall
            · exact .inr ⟨_, List.mem_cons_self, hcause⟩
            · exact .inr ⟨call, List.mem_cons_of_mem _ hcall, hcause⟩
        | throws =>
            rcases List.mem_cons.mp hcall with rfl | hcall
            · cases hcause
            · exact .inr ⟨call, hcall, hcause⟩
        | resume =>
            rcases List.mem_cons.mp hcall with rfl | hcall
            · exact .inl (Bool.or_eq_true_iff.mpr (.inr hcause))
            · exact .inr ⟨call, hcall, hcause⟩
      rcases hreq with hstop | ⟨others, hothers, call, hcall, hcause⟩
      · left
        cases hmoves with
        | lock | write | unlock | throws => exact hstop
        | resume => exact Bool.or_eq_true_iff.mpr (.inl hstop)
      · obtain ⟨u, hu⟩ := List.mem_iff_getElem?.mp hothers
        by_cases hut : u = t
        · rw [hut, hcalls, Option.some.injEq] at hu
          rcases hmoved call (hu ▸ hcall) hcause with hstop | hfound
          · exact .inl hstop
          · exact .inr ⟨calls', List.mem_of_getElem? ((hget t).trans (if_pos rfl)), hfound⟩
        · refine .inr ⟨others, List.mem_of_getElem? ((hget u).trans ?_), call, hcall, hcause⟩
          rw [if_neg hut, hsame]
          exact hu

/-- Where an exception has left a handler, nothing follows. -/
theorem running_of_exec {s s' : State} {actions : List Action} (h : Machine.exec step s actions = some s')
    (hrunning : s'.terminated = false) : s.terminated = false := by
  cases actions with
  | nil =>
      obtain rfl := Option.some.inj h
      exact hrunning
  | cons a actions =>
      obtain ⟨t, hfirst, -⟩ := Machine.exec_cons.mp h
      exact (step_cases hfirst).1

/-- **Calls come to an end**: threads that only go on with the calls they have begun take no more steps than these calls
    have, in any order. Where none of them can go on, and no thread waits for itself and no exception has left a handler,
    all calls have returned, and if one of them was by `onSignal` the stop request is there. -/
theorem calls_return {threads : Nat} {before after : List Action} {s s' : State}
    (hbefore : Machine.exec step (initial threads) before = some s)
    (hinternal : ∀ a ∈ after, a.internal = true) (hafter : Machine.exec step s after = some s') :
    after.length ≤ rank s ∧ (Good s' → (∀ a, a.internal = true → step s' a = none) →
      (∀ calls ∈ s'.calls, calls = []) ∧ (Requested s → s'.hasStopRequest = true)) := by
  have hs : Sound s := Machine.exec_invariant Sound (fun _ _ _ hs h => hs.step h) (sound_initial threads) hbefore
  clear hbefore
  induction after generalizing s with
  | nil =>
      obtain rfl := Option.some.inj hafter
      refine ⟨Nat.zero_le _, fun hgood hstuck => ?_⟩
      have hempty : ∀ calls ∈ s.calls, calls = [] := by
        intro calls hmem
        by_contra hne
        obtain ⟨a, ha, hsome⟩ := exists_internal hs hgood hmem hne
        rw [hstuck a ha] at hsome
        cases hsome
      refine ⟨hempty, ?_⟩
      rintro (hstop | ⟨calls, hmem, call, hcall, _⟩)
      · exact hstop
      · rw [hempty calls hmem] at hcall
        cases hcall
  | cons a after ih =>
      obtain ⟨t, hfirst, hrest⟩ := Machine.exec_cons.mp hafter
      obtain ⟨ha, hinternal'⟩ := List.forall_mem_cons.mp hinternal
      obtain ⟨hlength, hend⟩ := ih hinternal' hrest (hs.step hfirst)
      have hrank := rank_internal ha hfirst
      refine ⟨?_, fun hgood hstuck => ?_⟩
      · rw [List.length_cons]
        omega
      · obtain ⟨hempty, hstop⟩ := hend hgood hstuck
        exact ⟨hempty, fun hreq => hstop (hreq.internal ha hfirst (running_of_exec hrest hgood.1))⟩

/-- Two threads log; one is interrupted while it waits for the mutex, which the other one holds. -/
def interruptedWaiting : List Action :=
  [.createLogger, .log 0 0, .log 1 0, .lock 1, .onSignal 0 .SIGTERM 0]

theorem calls_return_interruptedWaiting :
    ∃ s s', Machine.exec step (initial 2) interruptedWaiting = some s ∧
      Machine.exec step s [.throws 1, .lock 0, .unlock 0, .resume 0, .lock 0, .unlock 0, .resume 0] = some s' ∧
      s'.hasStopRequest = true := by
  have hbefore : Machine.exec step (initial 2) interruptedWaiting =
      some ⟨true, some 1, [[⟨some .SIGTERM, .waiting 0⟩, ⟨none, .waiting 0⟩], [⟨none, .inside 0⟩]], false, false⟩ := rfl
  have hafter : Machine.exec step
      ⟨true, some 1, [[⟨some .SIGTERM, .waiting 0⟩, ⟨none, .waiting 0⟩], [⟨none, .inside 0⟩]], false, false⟩
      [.throws 1, .lock 0, .unlock 0, .resume 0, .lock 0, .unlock 0, .resume 0] =
        some ⟨true, none, [[], []], true, false⟩ := rfl
  have hgood : Good ⟨true, none, [[], []], true, false⟩ := by
    refine ⟨rfl, ?_⟩
    rintro ⟨_, _, _, _, hmutex, _⟩
    cases hmutex
  have hstuck : ∀ a : Action, a.internal = true → step ⟨true, none, [[], []], true, false⟩ a = none := by
    intro a ha
    cases a with
    | createLogger | log | onSignal => cases ha
    | lock t | write t | unlock t | throws t | resume t => rcases t with _ | _ | t <;> rfl
  obtain ⟨_, hend⟩ := calls_return hbefore (by decide) hafter
  exact ⟨_, _, hbefore, hafter, (hend hgood hstuck).2 (.inr ⟨_, List.mem_cons_self, _, List.mem_cons_self, rfl⟩)⟩

end Dodo.Common.Application
