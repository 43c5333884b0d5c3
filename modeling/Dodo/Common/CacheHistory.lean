import Dodo.Common.CacheCapacity

/-!
# `Common.CacheHistory` — statistics and failed reloads

Two properties of whole histories of calls, both of which a `load` that fails on a cached entry breaks. It is
not counted: `hits_` is counted before it and `expired_` only behind it, so the number of loads is more than
the documentation says. And it works on the cached entry itself: what it wrote before it returned false or
threw stays in the cache with the old load time, and a later `get` may return it.

## Contents
- **Histories.** `CacheHistory env max_size life_time events s`: the calls so far, the newest first, each with
  the states before and after it.
- **Statistics.** The counters against the calls of `get` and `load`.
- **Failed reloads.** What `get` leaves in the cache when it fails, and where the values it returns come from.
-/

namespace Dodo.Common

open Lib Lib.Comp

variable {κ ν : Type} [Ord κ] [Std.TransOrd κ] [DecidableEq κ] {env : Env κ ν} {max_size : Nat} {life_time : Int}
  {s s' : CacheState κ ν} {key : κ} {value : ν}

/-! ## Histories -/

/-- A call that ended, with the states before and after it. -/
structure CacheEvent (κ ν : Type) [Ord κ] [Std.TransOrd κ] where
  before : CacheState κ ν
  call : CacheCall κ ν
  result : Except Exn (Option (Bool × ν))
  after : CacheState κ ν

/-- The histories of a cache, the newest call first, with the state they lead to. A call may throw; the next
    call comes all the same. -/
inductive CacheHistory (env : Env κ ν) (max_size : Nat) (life_time : Int) :
    List (CacheEvent κ ν) → CacheState κ ν → Prop where
  | start : CacheHistory env max_size life_time [] { max_size_ := max_size, life_time_s_ := life_time }
  | call {events : List (CacheEvent κ ν)} {s s' : CacheState κ ν} {r : Except Exn (Option (Bool × ν))}
      (history : CacheHistory env max_size life_time events s) (call : CacheCall κ ν)
      (returns : Returns (call.exec env) s r s') :
      CacheHistory env max_size life_time (⟨s, call, r, s'⟩ :: events) s'

/-- The event is a `get` that called `load` for `key`; `found` is the entry of the key at that time, and
    `result` is what the `load` did. -/
def CacheEvent.Loads (env : Env κ ν) (e : CacheEvent κ ν) (key : κ) (found : Option (CacheEntry ν))
    (result : LoadResult ν) : Prop :=
  ∃ value, e.call = .get key value ∧ e.before.cache_[key]? = found ∧ e.after.loads = e.before.loads + 1 ∧
    result = env.load e.before.loads key ((found.map CacheEntry.value).getD value)

omit [DecidableEq κ] in
@[simp] theorem Cache.counters_evict {c : Cache κ ν} :
    (evict c).hits_ = c.hits_ ∧ (evict c).load_ = c.load_ ∧ (evict c).expired_ = c.expired_ := by
  unfold evict
  split
  · split <;> exact ⟨rfl, rfl, rfl⟩
  · exact ⟨rfl, rfl, rfl⟩

omit [DecidableEq κ] in
theorem getElem?_of_erase {cache : Std.ExtTreeMap κ (CacheEntry ν)} {k : κ} {entry : CacheEntry ν}
    (h : (cache.erase key)[k]? = some entry) : cache[k]? = some entry := by
  rw [Std.ExtTreeMap.getElem?_erase] at h
  split at h
  · contradiction
  · exact h

omit [DecidableEq κ] in
/-- An eviction adds no entry and changes none. -/
theorem Cache.getElem?_of_evict {c : Cache κ ν} {entry : CacheEntry ν}
    (h : (evict c).cache_[key]? = some entry) : c.cache_[key]? = some entry := by
  unfold evict at h
  split at h
  · split at h
    · exact h
    · exact getElem?_of_erase h
  · exact h

/-! ## Statistics -/

def CacheCall.isGet : CacheCall κ ν → Bool
  | get _ _ => true
  | _ => false

/-- The number of `get` calls of a history. -/
def gets (events : List (CacheEvent κ ν)) : Nat := events.countP fun e => e.call.isGet

/-- An entry was too old, and its `load` returned false or threw. -/
def CacheEvent.FailedReload (env : Env κ ν) (e : CacheEvent κ ν) : Prop :=
  ∃ key entry result, e.Loads env key (some entry) result ∧ result.returned ≠ .ok true

/-- A failed reload, from the side of the `load`: `get` passes its result on, and the entry keeps its times. -/
theorem CallOutcome.of_failed_reload {call : CacheCall κ ν} {r : Except Exn (Option (Bool × ν))}
    {entry : CacheEntry ν} {result : LoadResult ν} (houtcome : CallOutcome env s call r s')
    (hloads : CacheEvent.Loads env ⟨s, call, r, s'⟩ key (some entry) result) (hne : result.returned ≠ .ok true) :
    (∃ value, r = (Cache.failed result.returned value).map some) ∧
      s' = { s with
        cache_ := s.cache_.insert key { entry with value := result.value }
        hits_ := s.hits_ + 1, readings := s.readings + 1, loads := s.loads + 1 } := by
  obtain ⟨value, hcall, hfound, hcount, rfl⟩ := hloads
  cases hcall
  cases houtcome with
  | get _ _ r s' houtcome =>
      cases houtcome with
      | hit entry₀ entry' i n found reading hit_time loaded =>
          cases found.symm.trans hfound
          rcases loaded with ⟨rfl, -⟩ | ⟨-, htrue, -⟩
          · exact absurd hcount (by simp)
          · exact absurd htrue hne
      | stale entry₀ found not_loaded =>
          cases found.symm.trans hfound
          exact ⟨⟨value, rfl⟩, rfl⟩
      | insert missing | miss missing => exact absurd (missing.symm.trans hfound) (by simp)

/-- A call counts as a `get` in `hits_` or in `load_`. -/
theorem CallOutcome.gets {call : CacheCall κ ν} {r : Except Exn (Option (Bool × ν))}
    (h : CallOutcome env s call r s') : s'.hits_ + s'.load_ = s.hits_ + s.load_ + if call.isGet then 1 else 0 := by
  cases h with
  | get key value r s' houtcome =>
      show _ = _ + 1
      cases houtcome with
      | hit | stale | miss => dsimp only; omega
      | insert =>
          simp only [Cache.counters_evict]
          omega
  | erase | eraseMissing | clear | setMaxSize | setMaxLifeTime => rfl

/-- A call of `load` counts in `load_` or in `expired_`, unless it is a failed reload. -/
theorem CallOutcome.loads {call : CacheCall κ ν} {r : Except Exn (Option (Bool × ν))}
    (h : CallOutcome env s call r s') :
    (CacheEvent.FailedReload env ⟨s, call, r, s'⟩ ∧ s'.loads = s.loads + 1 ∧
        s'.load_ + s'.expired_ = s.load_ + s.expired_) ∨
      (¬ CacheEvent.FailedReload env ⟨s, call, r, s'⟩ ∧
        s'.loads + (s.load_ + s.expired_) = s.loads + (s'.load_ + s'.expired_)) := by
  by_cases hfailed : CacheEvent.FailedReload env ⟨s, call, r, s'⟩
  · have ⟨_, _, _, hloads, hne⟩ := hfailed
    obtain ⟨-, hs⟩ := h.of_failed_reload hloads hne
    exact Or.inl ⟨hfailed, by rw [hs], by rw [hs]⟩
  · refine Or.inr ⟨hfailed, ?_⟩
    cases h with
    | get key value r s' houtcome =>
        cases houtcome with
        | hit | miss => dsimp only; omega
        | stale entry found not_loaded =>
            exact absurd ⟨key, entry, _, ⟨value, rfl, found, rfl, rfl⟩, not_loaded⟩ hfailed
        | insert =>
            simp only [Cache.counters_evict]
            omega
    | erase | eraseMissing | clear | setMaxSize | setMaxLifeTime => rfl

variable [Std.LawfulEqOrd κ]

/-- Every `get` of a history is a hit or a miss. -/
theorem CacheHistory.gets_eq {events : List (CacheEvent κ ν)}
    (history : CacheHistory env max_size life_time events s) : gets events = s.hits_ + s.load_ := by
  induction history with
  | start => rfl
  | call history call returns ih =>
      rw [(CallOutcome.of_returns returns).gets, ← ih]
      exact List.countP_cons

/-- There are at least as many loads as misses and expiries, and more exactly if a reload failed. -/
theorem CacheHistory.loads_eq_iff {events : List (CacheEvent κ ν)}
    (history : CacheHistory env max_size life_time events s) :
    s.load_ + s.expired_ ≤ s.loads ∧
      (s.loads = s.load_ + s.expired_ ↔ ∀ e ∈ events, ¬ e.FailedReload env) := by
  induction history with
  | start => exact ⟨le_rfl, by simp⟩
  | call history call returns ih =>
      obtain ⟨hle, hiff⟩ := ih
      rw [List.forall_mem_cons]
      rcases (CallOutcome.of_returns returns).loads with ⟨hfailed, hloads, hcounted⟩ | ⟨hfine, hcounted⟩
      · refine ⟨by omega, ?_⟩
        constructor
        · intro heq
          omega
        · rintro ⟨hfine, -⟩
          exact absurd hfailed hfine
      · refine ⟨by omega, ?_⟩
        rw [← hiff]
        constructor
        · intro heq
          exact ⟨hfine, by omega⟩
        · rintro ⟨-, heq⟩
          omega

/-- **The statistics of a cache.** After every history: the `get` calls are the hits and the misses, and the
    calls of `load` are the misses and the expiries, exactly if no reload of an entry failed. -/
theorem statistics_iff (env : Env κ ν) (max_size : Nat) (life_time : Int) (events : List (CacheEvent κ ν))
    (s : CacheState κ ν) (history : CacheHistory env max_size life_time events s) :
    (gets events = s.getHits + s.getMisses ∧ s.loads = s.getMisses + s.getExpiries) ↔
      ∀ e ∈ events, ¬ e.FailedReload env := by
  rw [← history.loads_eq_iff.2]
  constructor
  · rintro ⟨-, hloads⟩
    exact hloads
  · intro hloads
    exact ⟨history.gets_eq, hloads⟩

/-- Every reading of the clock is two seconds after the one before it, and the first `load` succeeds. A later one
    writes another value, and `returned` says how it ends. -/
def agingEnv (returned : Except Exn Bool) : Env Nat Nat :=
  ⟨fun n => 2000000000 * n, fun n key _ => ⟨key + n, if n = 0 then .ok true else returned⟩⟩

/-- An entry is loaded, is too old and is loaded again. -/
theorem agingEnv_reloads : ∃ e events s, CacheHistory (agingEnv (.ok true)) 1 1 (e :: events) s ∧
    (e :: events).map CacheEvent.result = [.ok (some (true, 2)), .ok (some (true, 1))] := by
  have hcalls : wp (do
        let a ← (CacheCall.get 1 0).exec (agingEnv (.ok true))
        let b ← (CacheCall.get 1 0).exec (agingEnv (.ok true))
        pure [a, b])
      (fun r _ => r = .ok [some (true, 1), some (true, 2)])
      { max_size_ := 1, life_time_s_ := 1 } := wp_of_run 1 (by decide +kernel)
  obtain ⟨_, s, hret, rfl⟩ := hcalls
  simp only [returns_bind_ok, returns_pure] at hret
  obtain ⟨a, s₁, h₁, b, s₂, h₂, heq, rfl⟩ := hret
  simp only [Except.ok.injEq, List.cons.injEq] at heq
  obtain ⟨rfl, rfl, -⟩ := heq
  exact ⟨_, _, _, .call (.call .start _ h₁) _ h₂, rfl⟩

theorem agingEnv_never_fails {e : CacheEvent Nat Nat} {key : Nat} {found : Option (CacheEntry Nat)}
    {result : LoadResult Nat} (h : e.Loads (agingEnv (.ok true)) key found result) : result.returned = .ok true := by
  obtain ⟨value, -, -, -, rfl⟩ := h
  exact ite_self _

/-- No reload fails here. -/
theorem statistics_iff_reloaded :
    ∃ events s, CacheHistory (agingEnv (.ok true)) 1 1 events s ∧ events.length = 2 ∧
      gets events = s.getHits + s.getMisses ∧ s.loads = s.getMisses + s.getExpiries := by
  obtain ⟨e, events, s, history, hresults⟩ := agingEnv_reloads
  refine ⟨_, s, history, ?_, (statistics_iff _ _ _ _ _ history).mpr ?_⟩
  · simpa using congrArg List.length hresults
  · rintro e - ⟨key, entry, result, hloads, hne⟩
    exact hne (agingEnv_never_fails hloads)

/-- A reload that fails: `load` was called twice, for one miss and no expiry. -/
theorem failed_reload_not_counted :
    ∃ events s, CacheHistory (agingEnv (.ok false)) 1 1 events s ∧ events.map CacheEvent.result =
        [.ok (some (false, 0)), .ok (some (true, 1))] ∧
      s.loads = 2 ∧ s.getHits = 1 ∧ s.getMisses = 1 ∧ s.getExpiries = 0 := by
  have hcalls : wp (do
        let a ← (CacheCall.get 1 0).exec (agingEnv (.ok false))
        let b ← (CacheCall.get 1 0).exec (agingEnv (.ok false))
        let cache ← Cache.self
        pure ([a, b], [cache.loads, cache.getHits, cache.getMisses, cache.getExpiries]))
      (fun r _ => r = .ok ([some (true, 1), some (false, 0)], [2, 1, 1, 0]))
      { max_size_ := 1, life_time_s_ := 1 } := wp_of_run 1 (by decide +kernel)
  obtain ⟨_, s, hret, rfl⟩ := hcalls
  simp only [returns_bind_ok, returns_pure, Cache.self, returns_prim] at hret
  obtain ⟨a, s₁, h₁, b, s₂, h₂, cache, s₃, hself, heq, rfl⟩ := hret
  simp only [Except.ok.injEq, Prod.mk.injEq, List.cons.injEq] at heq hself
  obtain ⟨⟨rfl, rfl, -⟩, hloads, hhits, hmisses, hexpiries, -⟩ := heq
  obtain ⟨rfl, rfl⟩ := hself
  exact ⟨_, _, .call (.call .start _ h₁) _ h₂, rfl, hloads.symm, hhits.symm, hmisses.symm, hexpiries.symm⟩

/-! ## Failed reloads -/

/-- A `load` for `key` returned true and left `v` in its argument. -/
def Produced (env : Env κ ν) (events : List (CacheEvent κ ν)) (key : κ) (v : ν) : Prop :=
  ∃ e ∈ events, ∃ found result, e.Loads env key found result ∧ result.returned = .ok true ∧ result.value = v

namespace CacheEvent

/-- If the event is a `get` that returned false, it left the entries and their order as they were. -/
def LeavesMaps (e : CacheEvent κ ν) : Prop :=
  ∀ v, e.result = .ok (some (false, v)) → e.after.cache_ = e.before.cache_ ∧ e.after.lrumap_ = e.before.lrumap_

/-- If the event is a `get` that returned true, a successful `load` produced the value; `events` came before. -/
def ReturnsProduced (env : Env κ ν) (events : List (CacheEvent κ ν)) (e : CacheEvent κ ν) : Prop :=
  ∀ key value v, e.call = .get key value → e.result = .ok (some (true, v)) → Produced env (e :: events) key v

/-- If the event is a `get` with a failed reload: a `load` that returned false left the entry as it was, and one
    that threw left a value in it that a successful `load` had produced. -/
def SparesEntry (env : Env κ ν) (events : List (CacheEvent κ ν)) (e : CacheEvent κ ν) : Prop :=
  ∀ key entry result, e.Loads env key (some entry) result →
    (result.returned = .ok false → result.value = entry.value) ∧
    ∀ exn, result.returned = .error exn → Produced env events key result.value

end CacheEvent

/-- Something holds of each call of a history, with the calls before it. -/
def EachCall (P : List (CacheEvent κ ν) → CacheEvent κ ν → Prop) (events : List (CacheEvent κ ν)) : Prop :=
  ∀ e before, e :: before <:+ events → P before e

section Produced

variable {e : CacheEvent κ ν} {events : List (CacheEvent κ ν)} {entry : CacheEntry ν} {result : LoadResult ν} {v : ν}
  {call : CacheCall κ ν} {r : Except Exn (Option (Bool × ν))}

omit [DecidableEq κ] [Std.LawfulEqOrd κ] in
theorem Produced.cons (h : Produced env events key v) : Produced env (e :: events) key v := by
  obtain ⟨e', hmem, hproduced⟩ := h
  exact ⟨e', List.mem_cons_of_mem e hmem, hproduced⟩

omit [DecidableEq κ] [Std.LawfulEqOrd κ] in
/-- An event without a successful `load` produces nothing. -/
theorem Produced.of_cons (h : Produced env (e :: events) key v)
    (hfails : ∀ found result, e.Loads env key found result → result.returned ≠ .ok true) :
    Produced env events key v := by
  obtain ⟨e', hmem, found, result, hloads, htrue, hvalue⟩ := h
  rcases List.mem_cons.mp hmem with rfl | hmem
  · exact absurd htrue (hfails found result hloads)
  · exact ⟨e', hmem, found, result, hloads, htrue, hvalue⟩

omit [DecidableEq κ] [Std.LawfulEqOrd κ] in
/-- What a failed `load` makes `get` return. -/
theorem Cache.failed_eq_ok {returned : Except Exn Bool} (hne : returned ≠ .ok true)
    (h : (Cache.failed returned value).map some = .ok (some (false, v))) : returned = .ok false := by
  cases returned with
  | error exn => cases h
  | ok loaded =>
      cases loaded with
      | false => rfl
      | true => exact absurd rfl hne

/-- A `get` that returned false left the maps as they were exactly if its reload, if there was one, left the
    entry as it was. -/
theorem CallOutcome.leavesMaps_iff (houtcome : CallOutcome env s call r s') :
    CacheEvent.LeavesMaps ⟨s, call, r, s'⟩ ↔ ∀ key entry result,
      CacheEvent.Loads env ⟨s, call, r, s'⟩ key (some entry) result → result.returned = .ok false →
        result.value = entry.value := by
  constructor
  · intro hleaves key entry result hloads hfalse
    obtain ⟨⟨value, hresult⟩, hs⟩ := houtcome.of_failed_reload hloads (by rw [hfalse]; simp)
    rw [hfalse] at hresult
    obtain ⟨hsame, -⟩ := hleaves value hresult
    have hkey : some { entry with value := result.value } = some entry := by
      obtain ⟨-, -, hfound, -⟩ := hloads
      rw [← hfound, ← hsame, hs, Std.ExtTreeMap.getElem?_insert_self]
    exact congrArg CacheEntry.value (Option.some.inj hkey)
  · intro hsame v hresult
    cases houtcome with
    | erase | eraseMissing | clear | setMaxSize | setMaxLifeTime => cases hresult
    | get key value r s' houtcome =>
        cases houtcome with
        | hit | insert => cases hresult
        | miss => exact ⟨rfl, rfl⟩
        | stale entry found not_loaded =>
            have hfalse := Cache.failed_eq_ok not_loaded hresult
            have hvalue := hsame key entry _ ⟨value, rfl, found, rfl, rfl⟩ hfalse
            refine ⟨?_, rfl⟩
            dsimp only [Option.map_some, Option.getD_some] at hvalue ⊢
            rw [hvalue]
            apply Std.ExtTreeMap.ext_getElem?
            intro k
            rw [Std.ExtTreeMap.getElem?_insert]
            split
            · rename_i hk
              rw [← Std.LawfulEqCmp.eq_of_compare hk, found]
            · rfl

/-- Successful loads produced all values in the cache. -/
def CacheState.Backed (env : Env κ ν) (events : List (CacheEvent κ ν)) (s : CacheState κ ν) : Prop :=
  ∀ (k : κ) (entry : CacheEntry ν), s.cache_[k]? = some entry → Produced env events k entry.value

omit [DecidableEq κ] [Std.LawfulEqOrd κ] in
/-- Every entry was there before. -/
theorem CacheState.Backed.mono (h : s.Backed env events)
    (hcache : ∀ (k : κ) (entry : CacheEntry ν), s'.cache_[k]? = some entry → s.cache_[k]? = some entry) :
    s'.Backed env (e :: events) := by
  intro k entry hk
  exact (h k entry (hcache k entry hk)).cons

omit [DecidableEq κ] in
/-- Every entry but one was there before. -/
theorem CacheState.Backed.insert (h : s.Backed env events) (entry : CacheEntry ν)
    (hentry : Produced env (e :: events) key entry.value)
    (hcache : ∀ (k : κ) (entry' : CacheEntry ν), s'.cache_[k]? = some entry' →
      (s.cache_.insert key entry)[k]? = some entry') : s'.Backed env (e :: events) := by
  intro k entry' hk
  have hk := hcache k entry' hk
  rw [Std.ExtTreeMap.getElem?_insert] at hk
  split at hk
  · rename_i heq
    rw [← Option.some.inj hk, ← Std.LawfulEqCmp.eq_of_compare heq]
    exact hentry
  · exact (h k entry' hk).cons

omit [Std.LawfulEqOrd κ] in
/-- Where successful loads produced all values in the cache, one produced the value that a `get` returns. -/
theorem CallOutcome.returnsProduced (houtcome : CallOutcome env s call r s') (h : s.Backed env events) :
    CacheEvent.ReturnsProduced env events ⟨s, call, r, s'⟩ := by
  intro key value v hcall hresult
  cases hcall
  cases houtcome with
  | get _ _ r s' houtcome =>
      cases houtcome with
      | hit entry entry' i n found reading hit_time loaded =>
          cases hresult
          rcases loaded with ⟨-, hvalue, -⟩ | ⟨rfl, htrue, hvalue⟩
          · rw [hvalue]
            exact (h key entry found).cons
          · exact ⟨_, List.mem_cons_self, some entry, _, ⟨value, rfl, found, rfl, rfl⟩, htrue, hvalue.symm⟩
      | insert missing loaded =>
          cases hresult
          exact ⟨_, List.mem_cons_self, none, _, ⟨value, rfl, missing, rfl, rfl⟩, loaded, rfl⟩
      | stale | miss => exact absurd hresult Cache.map_failed_ne

/-- **One call**: if its reload spares the entry, successful loads produced all values that are then in the
    cache. -/
theorem CallOutcome.backed (houtcome : CallOutcome env s call r s') (h : s.Backed env events)
    (hspares : CacheEvent.SparesEntry env events ⟨s, call, r, s'⟩) : s'.Backed env (⟨s, call, r, s'⟩ :: events) := by
  have hreturns := houtcome.returnsProduced h
  cases houtcome with
  | erase => exact h.mono fun _ _ hk => getElem?_of_erase hk
  | clear => exact h.mono fun _ _ hk => by simp at hk
  | eraseMissing | setMaxSize | setMaxLifeTime => exact h.mono fun _ _ hk => hk
  | get key value r s' houtcome =>
      cases houtcome with
      | hit entry entry' => exact h.insert entry' (hreturns key value _ rfl rfl) (fun _ _ hk => hk)
      | stale entry found not_loaded =>
          obtain ⟨hfalse, herror⟩ := hspares key entry _ ⟨value, rfl, found, rfl, rfl⟩
          apply h.insert { entry with value := _ } _ (fun _ _ hk => hk)
          cases hreturned : (env.load s.loads key entry.value).returned with
          | error exn => exact (herror exn hreturned).cons
          | ok loaded =>
              cases loaded with
              | true => exact absurd hreturned not_loaded
              | false =>
                  have hvalue : (env.load s.loads key entry.value).value = entry.value := hfalse hreturned
                  rw [hvalue]
                  exact (h key entry found).cons
      | insert missing loaded =>
          apply h.insert ⟨_, _, _⟩ (hreturns key value _ rfl rfl)
          intro k entry' hk
          exact Cache.getElem?_of_evict hk
      | miss missing not_loaded => exact h.mono fun _ _ hk => hk

/-- What was in the cache behind a call, and what the call left alone, say that its reload spared the entry. -/
theorem CallOutcome.sparesEntry (houtcome : CallOutcome env s call r s')
    (hleaves : CacheEvent.LeavesMaps ⟨s, call, r, s'⟩) (hbacked : s'.Backed env (⟨s, call, r, s'⟩ :: events)) :
    CacheEvent.SparesEntry env events ⟨s, call, r, s'⟩ := by
  intro key entry result hloads
  refine ⟨houtcome.leavesMaps_iff.mp hleaves key entry result hloads, ?_⟩
  intro exn herror
  have hne : result.returned ≠ .ok true := by rw [herror]; simp
  -- the entry holds what the `load` left there
  obtain ⟨-, hs⟩ := houtcome.of_failed_reload hloads hne
  have hproduced := hbacked key { entry with value := result.value } (by rw [hs]; simp)
  apply hproduced.of_cons
  intro found' result' hloads' htrue
  obtain ⟨value, hcall, hfound, -, rfl⟩ := hloads
  obtain ⟨value', hcall', hfound', -, rfl⟩ := hloads'
  cases hcall.symm.trans hcall'
  cases hfound.symm.trans hfound'
  exact hne htrue

omit [DecidableEq κ] [Std.LawfulEqOrd κ] in
theorem eachCall_cons {P : List (CacheEvent κ ν) → CacheEvent κ ν → Prop} :
    EachCall P (e :: events) ↔ P events e ∧ EachCall P events := by
  constructor
  · intro h
    exact ⟨h e events List.suffix_rfl, fun e' before hbefore => h e' before (hbefore.trans (List.suffix_cons e events))⟩
  · rintro ⟨hlast, hrest⟩ e' before hbefore
    rcases List.suffix_cons_iff.mp hbefore with heq | hbefore
    · obtain ⟨rfl, rfl⟩ := List.cons.inj heq
      exact hlast
    · exact hrest e' before hbefore

omit [Std.LawfulEqOrd κ] in
/-- What holds of the last call of every history holds of each call of a history. -/
theorem CacheHistory.eachCall {P : List (CacheEvent κ ν) → CacheEvent κ ν → Prop}
    (history : CacheHistory env max_size life_time events s)
    (h : ∀ e events s, CacheHistory env max_size life_time (e :: events) s → P events e) : EachCall P events := by
  induction history with
  | start => exact fun e before hbefore => absurd (List.suffix_nil.mp hbefore) (List.cons_ne_nil e before)
  | call history call returns ih => exact eachCall_cons.mpr ⟨h _ _ _ (.call history call returns), ih⟩

/-- **A history**, if all its reloads spare the entries: successful loads produced all values in the cache. -/
theorem CacheHistory.backed (history : CacheHistory env max_size life_time events s)
    (hspares : EachCall (CacheEvent.SparesEntry env) events) : s.Backed env events := by
  induction history with
  | start => exact fun _ _ hk => by simp at hk
  | call history call returns ih =>
      obtain ⟨hlast, hrest⟩ := eachCall_cons.mp hspares
      exact (CallOutcome.of_returns returns).backed (ih hrest) hlast

/-- The calls of a history spare the entries exactly if each `get` of it that returned false left the maps as they were,
    and behind each call successful loads had produced all values in the cache. -/
theorem CacheHistory.eachCall_sparesEntry_iff (history : CacheHistory env max_size life_time events s) :
    EachCall (fun before e => e.LeavesMaps ∧ e.after.Backed env (e :: before)) events ↔
      EachCall (CacheEvent.SparesEntry env) events := by
  induction history with
  | start => exact ⟨fun _ e before hbefore => absurd (List.suffix_nil.mp hbefore) (List.cons_ne_nil e before),
      fun _ e before hbefore => absurd (List.suffix_nil.mp hbefore) (List.cons_ne_nil e before)⟩
  | call history call returns ih =>
      have houtcome := CallOutcome.of_returns returns
      rw [eachCall_cons, eachCall_cons, ih]
      refine and_congr_left fun hrest => ⟨fun h => houtcome.sparesEntry h.1 h.2, fun hspares => ⟨?_, ?_⟩⟩
      · exact houtcome.leavesMaps_iff.mpr fun key entry result hloads => (hspares key entry result hloads).1
      · exact houtcome.backed (history.backed hrest) hspares

omit [Std.LawfulEqOrd κ] in
/-- Without a life time, a cached entry is not loaded. -/
theorem Cache.get_cached (env : Env κ ν) (value : ν) (found : s.cache_[key]? = some entry) (hforever : s.life_time_s_ ≤ 0) :
    wp ((CacheCall.get key value).exec env) (fun r s' => r = .ok (some (true, entry.value)) ∧ s'.loads = s.loads) s := by
  have hlife : ¬ 0 < s.life_time_s_ := by omega
  simp only [CacheCall.exec, get, wp_bind, wp_self, seqPost_ok, found, getFound, isExpired, wp_modifySelf, hlife,
    if_false, wp_pure, Bool.false_eq_true]
  rw [wp_hit, seqPost_ok, wp_pure]
  exact ⟨rfl, rfl⟩

omit [Std.LawfulEqOrd κ] in
/-- Whatever is in the cache can be read: behind `setMaxLifeTime( 0s )`, a `get` returns it without a `load`. So
    if every `get` returns what a successful `load` produced, everything in the cache is of that kind. -/
theorem CacheHistory.backed_of_returnsProduced (history : CacheHistory env max_size life_time events s)
    (hreturns : ∀ e events s, CacheHistory env max_size life_time (e :: events) s → e.ReturnsProduced env events) :
    s.Backed env events := by
  intro key entry found
  have hset : wp ((CacheCall.setMaxLifeTime 0).exec env)
      (fun _ s' => s' = { s with life_time_s_ := 0 }) s := by
    simp only [CacheCall.exec, Cache.setMaxLifeTime, wp_bind, Cache.wp_modifySelf, seqPost_ok, wp_pure]
  obtain ⟨r₁, s₁, returns₁, rfl⟩ := hset
  obtain ⟨_, s₂, returns₂, rfl, hloads⟩ :=
    Cache.get_cached env entry.value (s := { s with life_time_s_ := 0 }) found le_rfl
  have history₁ := CacheHistory.call history _ returns₁
  have hproduced := hreturns _ _ _ (.call history₁ _ returns₂) key entry.value entry.value rfl rfl
  refine (hproduced.of_cons ?_).of_cons ?_
  · rintro found' result ⟨value, -, -, hcount, -⟩ -
    exact absurd (hcount.symm.trans hloads) (by simp)
  · rintro found' result ⟨value, hcall, -⟩ -
    cases hcall

end Produced

/-- **A failed `get` and the cache.** Over all histories of a cache: every `get` that returns false leaves the
    entries and their order as they were and every `get` that returns true returns what a successful `load` of
    its key produced, exactly if every failed reload spares the entry. And of each history for itself: what is in the cache
    behind its calls is of that kind, and its calls of `get` that return false leave the maps, exactly if its failed reloads
    spare the entries. -/
theorem failed_get_leaves_maps_iff (env : Env κ ν) (max_size : Nat) (life_time : Int) :
    ((∀ e events s, CacheHistory env max_size life_time (e :: events) s →
        e.LeavesMaps ∧ e.ReturnsProduced env events) ↔
      ∀ e events s, CacheHistory env max_size life_time (e :: events) s → e.SparesEntry env events) ∧
    ∀ events s, CacheHistory env max_size life_time events s →
      (EachCall (fun before e => e.LeavesMaps ∧ e.after.Backed env (e :: before)) events ↔
        EachCall (CacheEvent.SparesEntry env) events) := by
  refine ⟨⟨?_, ?_⟩, fun events s history => history.eachCall_sparesEntry_iff⟩
  · intro h e events s history
    have hleaves := (h e events s history).1
    have hbacked := history.backed_of_returnsProduced fun e events s history => (h e events s history).2
    cases history with
    | call history call returns => exact (CallOutcome.of_returns returns).sparesEntry hleaves hbacked
  · intro hspares e events s history
    cases history with
    | call history call returns =>
        have houtcome := CallOutcome.of_returns returns
        have hbacked := history.backed (history.eachCall hspares)
        refine ⟨houtcome.leavesMaps_iff.mpr ?_, houtcome.returnsProduced hbacked⟩
        intro key entry result hloads
        exact (hspares _ _ _ (.call history call returns) key entry result hloads).1

/-- A `load` that always succeeds spares every entry. -/
theorem failed_get_leaves_maps_iff_reloaded :
    (∃ e events s, CacheHistory (agingEnv (.ok true)) 1 1 (e :: events) s) ∧
      ∀ e events s, CacheHistory (agingEnv (.ok true)) 1 1 (e :: events) s →
        e.LeavesMaps ∧ e.ReturnsProduced (agingEnv (.ok true)) events := by
  obtain ⟨e, events, s, history, -⟩ := agingEnv_reloads
  refine ⟨⟨e, events, s, history⟩, (failed_get_leaves_maps_iff (agingEnv (.ok true)) 1 1).1.mpr ?_⟩
  intro e events s history key entry result hloads
  rw [agingEnv_never_fails hloads]
  exact ⟨by simp, by simp⟩

/-- The value 1 is loaded and is too old, the reload writes 2 and returns false, and the life time is set to 0.
    Then `get` returns 2, which no successful `load` produced. The first `get` that fails has changed the entry. -/
theorem failed_reload_value_returned :
    ∃ e₁ e₂ e₃ e₄ s, CacheHistory (agingEnv (.ok false)) 1 1 [e₄, e₃, e₂, e₁] s ∧
      e₂.result = .ok (some (false, 0)) ∧ e₂.before.cache_[1]?.map CacheEntry.value = some 1 ∧
      e₂.after.cache_[1]?.map CacheEntry.value = some 2 ∧ e₄.call = .get 1 0 ∧ e₄.result = .ok (some (true, 2)) ∧
      ¬ Produced (agingEnv (.ok false)) [e₄, e₃, e₂, e₁] 1 2 := by
  have hcalls : wp (do
        let a ← (CacheCall.get 1 0).exec (agingEnv (.ok false))
        let cache ← Cache.self
        let b ← (CacheCall.get 1 0).exec (agingEnv (.ok false))
        let cache' ← Cache.self
        let c ← (CacheCall.setMaxLifeTime 0).exec (agingEnv (.ok false))
        let d ← (CacheCall.get 1 0).exec (agingEnv (.ok false))
        pure ([a, b, c, d], [cache.cache_[1]?.map CacheEntry.value, cache'.cache_[1]?.map CacheEntry.value]))
      (fun r _ => r = .ok ([some (true, 1), some (false, 0), none, some (true, 2)], [some 1, some 2]))
      { max_size_ := 1, life_time_s_ := 1 } := wp_of_run 1 (by decide +kernel)
  obtain ⟨_, s, hret, rfl⟩ := hcalls
  simp only [returns_bind_ok, returns_pure, Cache.self, returns_prim] at hret
  obtain ⟨a, s₁, h₁, cache, s₂, hself, b, s₃, h₂, cache', s₄, hself', c, s₅, h₃, d, s₆, h₄, heq, rfl⟩ := hret
  simp only [Except.ok.injEq, Prod.mk.injEq, List.cons.injEq] at heq hself hself'
  obtain ⟨⟨rfl, rfl, rfl, rfl, -⟩, hbefore, hafter, -⟩ := heq
  obtain ⟨rfl, rfl⟩ := hself
  obtain ⟨rfl, rfl⟩ := hself'
  refine ⟨_, _, _, _, _, .call (.call (.call (.call .start _ h₁) _ h₂) _ h₃) _ h₄, rfl, hbefore.symm, hafter.symm,
    rfl, rfl, ?_⟩
  rintro ⟨e, -, found, _, ⟨value, -, -, -, rfl⟩, htrue, hvalue⟩
  -- only the first `load` succeeds, and it writes 1
  have hfirst : e.before.loads = 1 := Nat.add_left_cancel (n := 1) hvalue
  rw [hfirst] at htrue
  exact absurd htrue (by simp [agingEnv])

end Dodo.Common
