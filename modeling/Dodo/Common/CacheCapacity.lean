import Dodo.Common.CacheLru

/-!
# `Common.CacheCapacity` — how many entries a cache holds

A `get` that inserts its key evicts an entry when there are then more than `max_size_`, but only one.
`setMaxSize` evicts nothing. So an inserting `get` keeps the bound where it held, and does not restore it
where `setMaxSize` went below the number of entries. Nothing here depends on the clock: the two maps stay
together (`Paired`) also if it goes back.
-/

namespace Dodo.Common

open Lib Lib.Comp

variable {κ ν : Type} [Ord κ] [Std.TransOrd κ] [DecidableEq κ] [Std.LawfulEqOrd κ] {env : Env κ ν}
  {s s' : CacheState κ ν} {key : κ} {value : ν}

/-! ## The maps stay together -/

omit [DecidableEq κ] in
/-- A cache that is too full loses one entry. -/
theorem Paired.size_evict {c : Cache κ ν} (h : Paired c.cache_ c.lrumap_) :
    (Cache.evict c).cache_.size = if c.max_size_ < c.cache_.size then c.cache_.size - 1 else c.cache_.size := by
  unfold Cache.evict
  split
  · cases hfirst : c.lrumap_.entries with
    | nil =>
        have hempty : c.cache_.size = 0 := by
          rw [← h.length_values]
          unfold Multimap.values
          rw [hfirst]
          rfl
        show c.cache_.size = _
        omega
    | cons oldest others =>
        have hmem : oldest.2 ∈ c.lrumap_.values := by
          unfold Multimap.values
          rw [hfirst]
          exact List.mem_cons_self
        show (c.cache_.erase oldest.2).size = _
        rw [Std.ExtTreeMap.size_erase, if_pos (Std.ExtTreeMap.mem_iff_contains.mp (h.mem_values_iff_mem.mp hmem))]
  · rfl

theorem Paired.evict {c : Cache κ ν} (h : Paired c.cache_ c.lrumap_) :
    Paired (Cache.evict c).cache_ (Cache.evict c).lrumap_ := by
  unfold Cache.evict
  split
  · cases hfirst : c.lrumap_.entries with
    | nil => exact h
    | cons oldest others =>
        obtain ⟨entry, found, herase⟩ := h.eraseFirst hfirst
        show Paired (c.cache_.erase oldest.2) c.lrumap_.eraseFirst
        rw [herase]
        exact h.erase found
  · exact h

/-- **One `get`** keeps the maps together, whatever the clock shows. -/
theorem Cache.GetOutcome.paired {r : Except Exn (Bool × ν)} (h : Paired s.cache_ s.lrumap_)
    (houtcome : Cache.GetOutcome env key value s r s') : Paired s'.cache_ s'.lrumap_ := by
  cases houtcome with
  | hit entry entry' i n found reading hit_time loaded =>
      obtain ⟨htouch, hinsert⟩ := h.touch found entry'
      show Paired (s.cache_.insert key entry') (Cache.touch s.lrumap_ key entry.hit_time entry'.hit_time)
      rw [htouch, hinsert]
      exact (h.erase found).insert (by simp) entry'
  | stale entry found not_loaded => exact h.modify found rfl
  | insert missing loaded =>
      apply Paired.evict
      exact h.insert missing ⟨_, _, _⟩
  | miss missing not_loaded => exact h

/-- **One call** ends and keeps the maps together. -/
theorem exec_keeps_paired (env : Env κ ν) (h : Paired s.cache_ s.lrumap_) (call : CacheCall κ ν) :
    wp (call.exec env) (fun _ s' => Paired s'.cache_ s'.lrumap_) s := by
  apply wp_mono (exec_outcome env s call)
  intro r s' houtcome
  cases houtcome with
  | get key value r s' houtcome => exact houtcome.paired h
  | erase key entry found => exact h.erase found
  | clear => exact Paired.empty
  | eraseMissing | setMaxSize | setMaxLifeTime => exact h

/-- **Every run** keeps the maps together. -/
theorem CacheRun.paired {max_size : Nat} {life_time : Int} {l : List κ}
    (run : CacheRun env max_size life_time l s) : Paired s.cache_ s.lrumap_ := by
  induction run with
  | start => exact Paired.empty
  | call call run returns ih =>
      obtain ⟨r, s', returns', hpaired⟩ := exec_keeps_paired env ih call
      obtain ⟨-, hs⟩ := returns.unique returns'
      rw [hs]
      exact hpaired

/-! ## The number of entries -/

omit [Std.LawfulEqOrd κ] [Ord κ] [Std.TransOrd κ] [DecidableEq κ] in
theorem Cache.failed_ne {returned : Except Exn Bool} {v : ν} : Cache.failed returned value ≠ .ok (true, v) := by
  unfold Cache.failed
  cases returned <;> simp [Except.map]

omit [Std.LawfulEqOrd κ] [DecidableEq κ] in
@[simp] theorem Cache.max_size_evict {c : Cache κ ν} : (Cache.evict c).max_size_ = c.max_size_ := by
  unfold Cache.evict
  split
  · split <;> rfl
  · rfl

omit [DecidableEq κ] in
/-- One eviction makes up for one insertion, not for more. -/
theorem Paired.size_evict_le_iff {c : Cache κ ν} {n : Nat} (h : Paired c.cache_ c.lrumap_)
    (hsize : c.cache_.size = n + 1) :
    (Cache.evict c).cache_.size ≤ (Cache.evict c).max_size_ ↔ n ≤ c.max_size_ := by
  rw [Cache.max_size_evict, h.size_evict, hsize]
  split <;> omega

/-- **The capacity after an insertion.** In every state that a run reaches: a `get` that inserts its key
    leaves at most `max_size_` entries exactly if there were at most `max_size_` before it. -/
theorem size_le_max_size_iff (env : Env κ ν) (max_size : Nat) (life_time : Int) (l : List κ) (s : CacheState κ ν)
    (run : CacheRun env max_size life_time l s) (key : κ) (value v : ν) (s' : CacheState κ ν)
    (hget : Returns (Cache.get env key value) s (.ok (true, v)) s') (hnew : key ∉ s.cache_) :
    s'.cache_.size ≤ s'.max_size_ ↔ s.cache_.size ≤ s.max_size_ := by
  have hwp : wp (Cache.get env key value) (Cache.GetOutcome env key value s) s := Cache.get_outcome
  obtain ⟨r, s'', hget', houtcome⟩ := hwp
  obtain ⟨hr, hs⟩ := hget.unique hget'
  subst hs
  have hmissing : s.cache_[key]? = none := Std.ExtTreeMap.getElem?_eq_none hnew
  cases houtcome with
  | hit entry entry' i n found => simp [hmissing] at found
  | stale entry found => simp [hmissing] at found
  | miss missing not_loaded => exact absurd hr.symm Cache.failed_ne
  | insert missing loaded =>
      have hpaired := run.paired.insert missing
        ⟨env.now s.readings, env.now (s.readings + 1), (env.load s.loads key value).value⟩
      have hinserted : (s.cache_.insert key ⟨env.now s.readings, env.now (s.readings + 1),
          (env.load s.loads key value).value⟩).size = s.cache_.size + 1 := by
        rw [Std.ExtTreeMap.size_insert, if_neg (fun h => hnew (Std.ExtTreeMap.mem_iff_contains.mpr h))]
      exact Paired.size_evict_le_iff (c := { s.toCache with cache_ := _, lrumap_ := _, load_ := s.load_ + 1 })
        hpaired hinserted

/-- A cache of two holds two entries when a third one comes. -/
theorem size_le_max_size_iff_three_keys :
    ∃ l s s', CacheRun echoEnv 2 0 l s ∧ Returns (Cache.get echoEnv 3 0) s (.ok (true, 3)) s' ∧
      3 ∉ s.cache_ ∧ s.cache_.size ≤ s.max_size_ ∧ s'.cache_.size ≤ s'.max_size_ := by
  have hcalls : wp (do
        let a ← (CacheCall.get 1 0).exec echoEnv
        let b ← (CacheCall.get 2 0).exec echoEnv
        let cache ← Cache.self
        let c ← Cache.get echoEnv 3 0
        pure ([a, b, some c], cache.max_size_, cache.cache_.keys))
      (fun r _ => r = .ok ([some (true, 1), some (true, 2), some (true, 3)], 2, [1, 2]))
      { max_size_ := 2, life_time_s_ := 0 } := wp_of_run 1 (by decide +kernel)
  obtain ⟨_, s', hret, rfl⟩ := hcalls
  simp only [returns_bind_ok, returns_pure, Cache.self, returns_prim] at hret
  obtain ⟨a, s₁, h₁, b, s, h₂, cache, s₃, hself, c, s₄, hget, heq, rfl⟩ := hret
  simp only [Except.ok.injEq, Prod.mk.injEq, List.cons.injEq, Option.some.injEq] at heq hself
  obtain ⟨⟨rfl, rfl, rfl, -⟩, hmax, hkeys⟩ := heq
  obtain ⟨rfl, rfl⟩ := hself
  have hrun : CacheRun echoEnv 2 0 [2, 1] s := .call _ (.call _ .start h₁) h₂
  have hnew : 3 ∉ s.cache_ := by
    rw [← Std.ExtTreeMap.mem_keys, ← hkeys]
    decide
  have hsize : s.cache_.size ≤ s.max_size_ := by
    rw [← Std.ExtTreeMap.length_keys, ← hkeys, ← hmax]
    decide
  exact ⟨_, s, s', hrun, hget, hnew, hsize,
    (size_le_max_size_iff echoEnv 2 0 _ s hrun 3 0 3 s' hget hnew).mpr hsize⟩

/-- Three entries, the maximal size is set to 1, and a fourth key is inserted: three entries stay. -/
theorem lowered_max_size_exceeded :
    ∃ l s s', CacheRun echoEnv 3 0 l s ∧ Returns (Cache.get echoEnv 4 0) s (.ok (true, 4)) s' ∧
      4 ∉ s.cache_ ∧ s'.max_size_ = 1 ∧ s'.cache_.size = 3 := by
  have hcalls : wp (do
        let a ← (CacheCall.get 1 0).exec echoEnv
        let b ← (CacheCall.get 2 0).exec echoEnv
        let c ← (CacheCall.get 3 0).exec echoEnv
        let d ← (CacheCall.setMaxSize 1).exec echoEnv
        let cache ← Cache.self
        let e ← Cache.get echoEnv 4 0
        let cache' ← Cache.self
        pure ([a, b, c, d, some e], cache.cache_.keys, [cache'.max_size_, cache'.cache_.size]))
      (fun r _ => r = .ok ([some (true, 1), some (true, 2), some (true, 3), none, some (true, 4)],
        [1, 2, 3], [1, 3]))
      { max_size_ := 3, life_time_s_ := 0 } := wp_of_run 1 (by decide +kernel)
  obtain ⟨_, s', hret, rfl⟩ := hcalls
  simp only [returns_bind_ok, returns_pure, Cache.self, returns_prim] at hret
  obtain ⟨a, s₁, h₁, b, s₂, h₂, c, s₃, h₃, d, s, h₄, cache, s₅, hself, e, s₆, hget, cache', s₇, hself', heq, rfl⟩ :=
    hret
  simp only [Except.ok.injEq, Prod.mk.injEq, List.cons.injEq, Option.some.injEq] at heq hself hself'
  obtain ⟨⟨rfl, rfl, rfl, rfl, rfl, -⟩, hkeys, hmax, hsize, -⟩ := heq
  obtain ⟨rfl, rfl⟩ := hself
  obtain ⟨rfl, rfl⟩ := hself'
  have hrun : CacheRun echoEnv 3 0 [3, 2, 1] s := .call _ (.call _ (.call _ (.call _ .start h₁) h₂) h₃) h₄
  have hnew : 4 ∉ s.cache_ := by
    rw [← Std.ExtTreeMap.mem_keys, ← hkeys]
    decide
  exact ⟨_, s, _, hrun, hget, hnew, hmax.symm, hsize.symm⟩

end Dodo.Common
