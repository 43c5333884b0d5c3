import Mathlib
import Dodo.Common.Cache
import Dodo.Lib.Lru

/-!
# `Common.CacheLru` — the cache is an ideal LRU cache

`cache_` and `lrumap_` hold the same keys, and the order of `lrumap_` is the order of the last successful
`get` calls. Everything rests on `get_outcome`, which lists what a `get` can do, and on the clock: a reading
is not less than the readings before it, so a pair inserted into `lrumap_` goes to its end, also among pairs
with the same time.
-/

namespace Dodo.Common

open Lib Lib.Comp

namespace Cache

/-! ## What a `get` can do -/

section Access

variable {κ ν : Type} [Ord κ] [Std.TransOrd κ] {env : Env κ ν} {s : CacheState κ ν}

@[simp] theorem wp_self {Q : Except Exn (CacheState κ ν) → CacheState κ ν → Prop} :
    wp self Q s ↔ Q (.ok s) s := wp_prim

@[simp] theorem wp_modifySelf {f : Cache κ ν → Cache κ ν} {Q : Except Exn Unit → CacheState κ ν → Prop} :
    wp (modifySelf f) Q s ↔ Q (.ok ()) { s with toCache := f s.toCache } := wp_prim

@[simp] theorem wp_now {Q : Except Exn Time → CacheState κ ν → Prop} :
    wp (now env) Q s ↔ Q (.ok (env.now s.readings)) { s with readings := s.readings + 1 } := wp_prim

@[simp] theorem wp_load {key : κ} {value : ν} {Q : Except Exn (LoadResult ν) → CacheState κ ν → Prop} :
    wp (load env key value) Q s ↔ Q (.ok (env.load s.loads key value)) { s with loads := s.loads + 1 } :=
  wp_prim

@[simp] theorem wp_returned {result : LoadResult ν} {Q : Except Exn Bool → CacheState κ ν → Prop} :
    wp (returned result) Q s ↔ Q result.returned s := wp_prim

end Access

variable {κ ν : Type} [Ord κ] [Std.TransOrd κ] [DecidableEq κ]

/-- What `get` returns after a `load` that did not return true. -/
def failed (returned : Except Exn Bool) (value : ν) : Except Exn (Bool × ν) := returned.map fun _ => (false, value)

/-- The cache after the insertion, where it may be too full. -/
def evict (c : Cache κ ν) : Cache κ ν :=
  if c.max_size_ < c.cache_.size then
    match c.lrumap_.entries with
    | [] => c
    | oldest :: _ => { c with cache_ := c.cache_.erase oldest.2, lrumap_ := c.lrumap_.eraseFirst }
  else c

omit [DecidableEq κ] in
/-- Behind a `load`: `get` goes on only if it returned true. -/
theorem wp_ifReturned {s : CacheState κ ν} {result : LoadResult ν} {value : ν}
    {found : Comp (CacheState κ ν) Exn (Bool × ν)} {Q : Except Exn (Bool × ν) → CacheState κ ν → Prop} :
    wp (do if ← returned result then found else pure (false, value)) Q s ↔
      if result.returned = .ok true then wp found Q s else Q (failed result.returned value) s := by
  rw [wp_bind, wp_returned]
  cases result.returned with
  | error e => exact Iff.rfl
  | ok loaded =>
      cases loaded with
      | true => exact Iff.rfl
      | false => exact wp_pure

/-- The outcomes of `get( key, value )` in the state `s`: its result, and the state afterwards. -/
inductive GetOutcome (env : Env κ ν) (key : κ) (value : ν) (s : CacheState κ ν) :
    Except Exn (Bool × ν) → CacheState κ ν → Prop where
  /-- The key was found, and its entry was not too old or was loaded again. -/
  | hit (entry entry' : CacheEntry ν) (i n : Nat) (found : s.cache_[key]? = some entry)
      (reading : s.readings ≤ i) (hit_time : entry'.hit_time = env.now i)
      (loaded : n = 0 ∧ entry'.value = entry.value ∧ entry'.load_time = entry.load_time ∨
        n = 1 ∧ (env.load s.loads key entry.value).returned = .ok true ∧
          entry'.value = (env.load s.loads key entry.value).value) :
      GetOutcome env key value s (.ok (true, entry'.value))
        { s with
          cache_ := s.cache_.insert key entry'
          lrumap_ := touch s.lrumap_ key entry.hit_time entry'.hit_time
          hits_ := s.hits_ + 1, expired_ := s.expired_ + n
          readings := i + 1, loads := s.loads + n }
  /-- The key was found, and its entry was too old and could not be loaded again. -/
  | stale (entry : CacheEntry ν) (found : s.cache_[key]? = some entry)
      (not_loaded : (env.load s.loads key entry.value).returned ≠ .ok true) :
      GetOutcome env key value s (failed (env.load s.loads key entry.value).returned value)
        { s with
          cache_ := s.cache_.insert key { entry with value := (env.load s.loads key entry.value).value }
          hits_ := s.hits_ + 1, readings := s.readings + 1, loads := s.loads + 1 }
  /-- The key was not found and could be loaded. -/
  | insert (missing : s.cache_[key]? = none)
      (loaded : (env.load s.loads key value).returned = .ok true) :
      GetOutcome env key value s (.ok (true, (env.load s.loads key value).value))
        { toCache := evict { s.toCache with
            cache_ := s.cache_.insert key
              ⟨env.now s.readings, env.now (s.readings + 1), (env.load s.loads key value).value⟩
            lrumap_ := s.lrumap_.insert (env.now (s.readings + 1)) key
            load_ := s.load_ + 1 }
          readings := s.readings + 2, loads := s.loads + 1 }
  /-- The key was not found and could not be loaded. -/
  | miss (missing : s.cache_[key]? = none)
      (not_loaded : (env.load s.loads key value).returned ≠ .ok true) :
      GetOutcome env key value s
        (failed (env.load s.loads key value).returned (env.load s.loads key value).value)
        { s with load_ := s.load_ + 1, loads := s.loads + 1 }

variable {env : Env κ ν} {key : κ} {value : ν} {s : CacheState κ ν}

theorem wp_updateLRU {entry : CacheEntry ν} {prev_hit_time : Time}
    {Q : Except Exn Unit → CacheState κ ν → Prop} :
    wp (updateLRU key entry prev_hit_time) Q s ↔
      Q (.ok ()) { s with lrumap_ := touch s.lrumap_ key prev_hit_time entry.hit_time } := by
  unfold updateLRU touch
  rw [wp_bind, wp_self, seqPost_ok]
  split
  · simp [addLRU]
  · simp

theorem wp_hit {entry : CacheEntry ν} {Q : Except Exn (Bool × ν) → CacheState κ ν → Prop} :
    wp (hit env key entry) Q s ↔ Q (.ok (true, entry.value))
      { s with
        cache_ := s.cache_.insert key { entry with hit_time := env.now s.readings }
        lrumap_ := touch s.lrumap_ key entry.hit_time (env.now s.readings)
        readings := s.readings + 1 } := by
  simp [hit, putEntry, wp_updateLRU]

/-- The entry was too old, and the clock was read once to see it. -/
theorem reload_outcome [Std.LawfulEqOrd κ] {entry : CacheEntry ν} (found : s.cache_[key]? = some entry) :
    wp (do
        let result ← load env key entry.value
        putEntry key { entry with value := result.value }
        if ← returned result then
          modifySelf fun c => { c with expired_ := c.expired_ + 1 }
          let load_time ← now env
          putEntry key { entry with value := result.value, load_time := load_time }
          hit env key { entry with value := result.value, load_time := load_time }
        else pure (false, value)) (GetOutcome env key value s)
      { s with hits_ := s.hits_ + 1, readings := s.readings + 1 } := by
  rw [wp_bind, wp_load, seqPost_ok, wp_bind, putEntry, wp_modifySelf, seqPost_ok, wp_ifReturned]
  split
  case isTrue loaded =>
    simp only [putEntry, seqPost_ok, wp_bind, wp_modifySelf, wp_now, wp_hit, insert_insert]
    exact .hit entry ⟨env.now (s.readings + 1), env.now (s.readings + 2),
      (env.load s.loads key entry.value).value⟩ (s.readings + 2) 1 found (by omega) rfl
      (Or.inr ⟨rfl, loaded, rfl⟩)
  case isFalse not_loaded => exact .stale entry found not_loaded

theorem getFound_outcome [Std.LawfulEqOrd κ] {entry : CacheEntry ν} (found : s.cache_[key]? = some entry) :
    wp (getFound env key value entry) (GetOutcome env key value s) s := by
  simp only [getFound, isExpired, wp_bind, wp_modifySelf, wp_self, seqPost_ok]
  split
  · simp only [wp_bind, wp_now, seqPost_ok, wp_pure]
    split
    · exact reload_outcome found
    · exact wp_hit.mpr (.hit entry ⟨entry.load_time, env.now (s.readings + 1), entry.value⟩ (s.readings + 1) 0
        found (by omega) rfl (Or.inl ⟨rfl, rfl, rfl⟩))
  · simp only [wp_pure, seqPost_ok, Bool.false_eq_true, if_false]
    exact wp_hit.mpr (.hit entry ⟨entry.load_time, env.now s.readings, entry.value⟩ s.readings 0
      found (by omega) rfl (Or.inl ⟨rfl, rfl, rfl⟩))

omit [DecidableEq κ] in
theorem wp_removeIfFull {Q : Except Exn Unit → CacheState κ ν → Prop} :
    wp removeIfFull Q s ↔ Q (.ok ()) { s with toCache := evict s.toCache } := by
  unfold removeIfFull evict
  rw [wp_bind, wp_self, seqPost_ok]
  split
  · exact wp_modifySelf
  · exact wp_pure

theorem getMissing_outcome (missing : s.cache_[key]? = none) :
    wp (getMissing env key value) (GetOutcome env key value s) s := by
  rw [getMissing, wp_bind, wp_modifySelf, seqPost_ok, wp_bind, wp_load, seqPost_ok, wp_ifReturned]
  split
  case isTrue loaded =>
    simp only [seqPost_ok, wp_bind, wp_now, putEntry, addLRU, wp_modifySelf]
    rw [wp_removeIfFull, seqPost_ok, wp_pure]
    exact .insert missing loaded
  case isFalse not_loaded => exact .miss missing not_loaded

/-- **What a `get` can do**: it returns or throws, with one of the four outcomes. -/
theorem get_outcome [Std.LawfulEqOrd κ] : wp (get env key value) (GetOutcome env key value s) s := by
  rw [get, wp_bind, wp_self, seqPost_ok]
  split
  · exact getFound_outcome ‹_›
  · exact getMissing_outcome ‹_›

end Cache

variable {κ ν : Type} [Ord κ] [Std.TransOrd κ] [DecidableEq κ]

/-- The outcomes of a call in the state `s`: its result, and the state afterwards. -/
inductive CallOutcome (env : Env κ ν) (s : CacheState κ ν) :
    CacheCall κ ν → Except Exn (Option (Bool × ν)) → CacheState κ ν → Prop where
  | get (key : κ) (value : ν) (r : Except Exn (Bool × ν)) (s' : CacheState κ ν)
      (outcome : Cache.GetOutcome env key value s r s') : CallOutcome env s (.get key value) (r.map some) s'
  | erase (key : κ) (entry : CacheEntry ν) (found : s.cache_[key]? = some entry) :
      CallOutcome env s (.erase key) (.ok none)
        { s with cache_ := s.cache_.erase key, lrumap_ := s.lrumap_.erase entry.hit_time key }
  | eraseMissing (key : κ) (missing : s.cache_[key]? = none) : CallOutcome env s (.erase key) (.ok none) s
  | clear : CallOutcome env s .clear (.ok none) { s with cache_ := ∅, lrumap_ := .empty }
  | setMaxSize (max_size : Nat) : CallOutcome env s (.setMaxSize max_size) (.ok none) { s with max_size_ := max_size }
  | setMaxLifeTime (seconds : Int) :
      CallOutcome env s (.setMaxLifeTime seconds) (.ok none) { s with life_time_s_ := seconds }

/-- **What a call can do**: it returns or throws, with one of these outcomes. -/
theorem exec_outcome [Std.LawfulEqOrd κ] (env : Env κ ν) (s : CacheState κ ν) (call : CacheCall κ ν) :
    wp (call.exec env) (CallOutcome env s call) s := by
  cases call with
  | get key value =>
      unfold CacheCall.exec
      rw [wp_bind]
      apply wp_mono Cache.get_outcome
      intro r s' houtcome
      have hcall := CallOutcome.get key value r s' houtcome
      cases r with
      | ok result => exact wp_pure.mpr hcall
      | error e => exact hcall
  | erase key =>
      simp only [CacheCall.exec, Cache.erase, wp_bind, Cache.wp_self, seqPost_ok]
      split
      · rename_i entry found
        rw [Cache.wp_modifySelf, seqPost_ok, wp_pure]
        exact .erase key entry found
      · rename_i missing
        rw [wp_pure, seqPost_ok, wp_pure]
        exact .eraseMissing key missing
  | clear =>
      simp only [CacheCall.exec, Cache.clear, wp_bind, Cache.wp_modifySelf, seqPost_ok, wp_pure]
      exact .clear
  | setMaxSize max_size =>
      simp only [CacheCall.exec, Cache.setMaxSize, wp_bind, Cache.wp_modifySelf, seqPost_ok, wp_pure]
      exact .setMaxSize max_size
  | setMaxLifeTime seconds =>
      simp only [CacheCall.exec, Cache.setMaxLifeTime, wp_bind, Cache.wp_modifySelf, seqPost_ok, wp_pure]
      exact .setMaxLifeTime seconds

theorem CallOutcome.of_returns [Std.LawfulEqOrd κ] {env : Env κ ν} {s s' : CacheState κ ν} {call : CacheCall κ ν}
    {r : Except Exn (Option (Bool × ν))} (returns : Returns (call.exec env) s r s') : CallOutcome env s call r s' := by
  obtain ⟨r', s'', returns', houtcome⟩ := exec_outcome env s call
  obtain ⟨hr, hs⟩ := returns.unique returns'
  rw [hr, hs]
  exact houtcome

/-! ## The invariant -/

/-- The two maps of a cache belong together, whatever the clock does. -/
structure Paired (cache : Std.ExtTreeMap κ (CacheEntry ν) compare) (lrumap : Multimap Time κ) : Prop where
  /-- `lrumap_` holds the pairs of hit time and key of the entries. -/
  linked : ∀ t k, (t, k) ∈ lrumap.entries ↔ ∃ entry, cache[k]? = some entry ∧ entry.hit_time = t
  /-- It holds one pair for each key. -/
  nodup : lrumap.values.Nodup

namespace Paired

variable {cache : Std.ExtTreeMap κ (CacheEntry ν) compare} {lrumap : Multimap Time κ} {key : κ}
  {entry entry' : CacheEntry ν}

omit [DecidableEq κ] in
theorem empty : Paired (∅ : Std.ExtTreeMap κ (CacheEntry ν) compare) .empty where
  linked := by simp
  nodup := List.nodup_nil

omit [DecidableEq κ] in
theorem mem_values (h : Paired cache lrumap) : key ∈ lrumap.values ↔ ∃ entry, cache[key]? = some entry := by
  unfold Multimap.values
  rw [List.mem_map]
  constructor
  · rintro ⟨⟨t, k⟩, hmem, hk⟩
    subst hk
    obtain ⟨entry, hentry, -⟩ := (h.linked t k).mp hmem
    exact ⟨entry, hentry⟩
  · rintro ⟨entry, hentry⟩
    exact ⟨_, (h.linked _ _).mpr ⟨entry, hentry, rfl⟩, rfl⟩

omit [DecidableEq κ] in
theorem mem_values_iff_mem (h : Paired cache lrumap) : key ∈ lrumap.values ↔ key ∈ cache := by
  rw [h.mem_values, Std.ExtTreeMap.mem_iff_isSome_getElem?, Option.isSome_iff_exists]

omit [DecidableEq κ] in
theorem notMem_values (h : Paired cache lrumap) (missing : cache[key]? = none) : key ∉ lrumap.values := by
  rw [h.mem_values, missing]
  simp

theorem values_erase (h : Paired cache lrumap) (found : cache[key]? = some entry) :
    (lrumap.erase entry.hit_time key).values = lrumap.values.erase key :=
  Multimap.values_erase h.nodup ((h.linked _ _).mpr ⟨entry, found, rfl⟩)

variable [Std.LawfulEqOrd κ]

omit [DecidableEq κ] in
/-- Both maps have the same size. -/
theorem length_values (h : Paired cache lrumap) : lrumap.values.length = cache.size := by
  have hperm : lrumap.values.Perm cache.keys := by
    rw [List.perm_ext_iff_of_nodup h.nodup Std.ExtTreeMap.nodup_keys]
    intro k
    rw [h.mem_values_iff_mem, Std.ExtTreeMap.mem_keys]
  rw [hperm.length_eq, Std.ExtTreeMap.length_keys]

/-- An entry may change, but for its hit time. -/
theorem modify (h : Paired cache lrumap) (found : cache[key]? = some entry)
    (hsame : entry'.hit_time = entry.hit_time) : Paired (cache.insert key entry') lrumap where
  linked := by
    intro t k
    rw [h.linked, Std.ExtTreeMap.getElem?_insert]
    by_cases hk : key = k
    · subst hk
      simp [found, hsame]
    · simp [hk]
  nodup := h.nodup

/-- A key is erased from both maps. -/
theorem erase (h : Paired cache lrumap) (found : cache[key]? = some entry) :
    Paired (cache.erase key) (lrumap.erase entry.hit_time key) where
  linked := by
    intro t k
    have hnodup : lrumap.entries.Nodup := h.nodup.of_map _
    rw [Multimap.entries_erase, hnodup.mem_erase_iff, h.linked, Std.ExtTreeMap.getElem?_erase]
    by_cases hk : key = k
    · subst hk
      simp only [found, Option.some.injEq, exists_eq_left', ne_eq, Prod.mk.injEq, and_true]
      simp [eq_comm]
    · simp [hk, Ne.symm hk]
  nodup := by
    rw [h.values_erase found]
    exact h.nodup.sublist List.erase_sublist

/-- A new key is inserted into both maps. -/
theorem insert (h : Paired cache lrumap) (missing : cache[key]? = none) (entry' : CacheEntry ν) :
    Paired (cache.insert key entry') (lrumap.insert entry'.hit_time key) where
  linked := by
    intro t k
    rw [Multimap.perm_insert.mem_iff, List.mem_cons, h.linked, Prod.mk.injEq, Std.ExtTreeMap.getElem?_insert]
    by_cases hk : key = k
    · subst hk
      simp [missing, eq_comm]
    · simp [hk, Ne.symm hk]
  nodup := by
    unfold Multimap.values
    rw [(Multimap.perm_insert.map Prod.snd).nodup_iff, List.map_cons, List.nodup_cons]
    exact ⟨h.notMem_values missing, h.nodup⟩

/-- A key that is found again is written as a new one. -/
theorem touch (h : Paired cache lrumap) (found : cache[key]? = some entry) (entry' : CacheEntry ν) :
    Cache.touch lrumap key entry.hit_time entry'.hit_time =
        (lrumap.erase entry.hit_time key).insert entry'.hit_time key ∧
      cache.insert key entry' = (cache.erase key).insert key entry' := by
  refine ⟨if_pos ((h.linked _ _).mpr ⟨entry, found, rfl⟩), ?_⟩
  apply Std.ExtTreeMap.ext_getElem?
  intro k
  simp only [Std.ExtTreeMap.getElem?_insert, Std.ExtTreeMap.getElem?_erase]
  split <;> rfl

omit [Std.LawfulEqOrd κ] in
/-- The first pair of `lrumap_` belongs to an entry; erasing it is erasing its key. -/
theorem eraseFirst (h : Paired cache lrumap) {oldest : Time × κ} {others : List (Time × κ)}
    (hfirst : lrumap.entries = oldest :: others) :
    ∃ entry, cache[oldest.2]? = some entry ∧ lrumap.eraseFirst = lrumap.erase entry.hit_time oldest.2 := by
  obtain ⟨entry, found, htime⟩ := (h.linked oldest.1 oldest.2).mp (by rw [hfirst]; exact List.mem_cons_self)
  refine ⟨entry, found, ?_⟩
  unfold Multimap.eraseFirst Multimap.erase
  simp [hfirst, htime]

end Paired

/-- The two maps of a cache belong together; `uses` are the keys of the successful `get` calls so far, the
    newest first, and the clock has been read `readings` times. -/
structure Linked (env : Env κ ν) (uses : List κ) (cache : Std.ExtTreeMap κ (CacheEntry ν) compare)
    (lrumap : Multimap Time κ) (readings : Nat) : Prop where
  /-- `lrumap_` holds the pairs of hit time and key of the entries. -/
  linked : ∀ t k, (t, k) ∈ lrumap.entries ↔ ∃ entry, cache[k]? = some entry ∧ entry.hit_time = t
  /-- They are in the order of the last successful `get` of the key. -/
  ordered : Lru.Ordered uses lrumap.values
  /-- No hit time is in the future. -/
  past : ∀ e ∈ lrumap.entries, ∀ i, readings ≤ i → e.1 ≤ env.now i

namespace Linked

variable {env : Env κ ν} {uses : List κ} {cache : Std.ExtTreeMap κ (CacheEntry ν) compare}
  {lrumap : Multimap Time κ} {n i : Nat} {key : κ} {entry entry' : CacheEntry ν}

theorem paired (h : Linked env uses cache lrumap n) : Paired cache lrumap := ⟨h.linked, h.ordered.nodup⟩

theorem empty : Linked env uses ∅ .empty n where
  linked := Paired.empty.linked
  ordered := ⟨fun _ h => absurd h List.not_mem_nil, .nil⟩
  past := by simp

variable [Std.LawfulEqOrd κ]

/-- An entry may change, but for its hit time, and the clock may be read. -/
theorem modify (h : Linked env uses cache lrumap n) (found : cache[key]? = some entry)
    (hsame : entry'.hit_time = entry.hit_time) (hi : n ≤ i) :
    Linked env uses (cache.insert key entry') lrumap i where
  linked := (h.paired.modify found hsame).linked
  ordered := h.ordered
  past := fun e he j hj => h.past e he j (Nat.le_trans hi hj)

/-- A key is erased from both maps. -/
theorem erase (h : Linked env uses cache lrumap n) (found : cache[key]? = some entry) :
    Linked env uses (cache.erase key) (lrumap.erase entry.hit_time key) n where
  linked := (h.paired.erase found).linked
  ordered := by
    rw [h.paired.values_erase found]
    exact h.ordered.sublist List.erase_sublist
  past := fun e he => h.past e (List.mem_of_mem_erase he)

/-- A new key goes to the end of `lrumap_`: the clock does not go back. -/
theorem insert (h : Linked env uses cache lrumap n) (hclock : Monotone env.now)
    (missing : cache[key]? = none) (hi : n ≤ i) (hit_time : entry'.hit_time = env.now i) :
    Linked env (key :: uses) (cache.insert key entry') (lrumap.insert entry'.hit_time key) (i + 1) ∧
      (lrumap.insert entry'.hit_time key).values = lrumap.values ++ [key] := by
  have hentries : (lrumap.insert entry'.hit_time key).entries =
      lrumap.entries ++ [(entry'.hit_time, key)] := by
    apply Multimap.entries_insert
    intro e he
    rw [hit_time]
    exact h.past e he i hi
  have hvalues : (lrumap.insert entry'.hit_time key).values = lrumap.values ++ [key] := by
    unfold Multimap.values
    rw [hentries, List.map_append]
    rfl
  refine ⟨⟨(h.paired.insert missing entry').linked, ?_, ?_⟩, hvalues⟩
  · rw [hvalues]
    exact h.ordered.append (h.paired.notMem_values missing)
  · intro e he j hj
    rw [hentries, List.mem_append, List.mem_singleton] at he
    rcases he with he | he
    · exact h.past e he j (by omega)
    · rw [he, hit_time]
      exact hclock (by omega)

/-- A key that is found again is moved to the end of `lrumap_`. -/
theorem touch (h : Linked env uses cache lrumap n) (hclock : Monotone env.now)
    (found : cache[key]? = some entry) (hi : n ≤ i) (hit_time : entry'.hit_time = env.now i) :
    Linked env (key :: uses) (cache.insert key entry')
        (Cache.touch lrumap key entry.hit_time entry'.hit_time) (i + 1) ∧
      (Cache.touch lrumap key entry.hit_time entry'.hit_time).values = Lru.use lrumap.values key := by
  have hgone : (cache.erase key)[key]? = none := by simp
  obtain ⟨hlinked, hvalues⟩ := (h.erase found).insert hclock hgone hi hit_time
  obtain ⟨htouch, hinsert⟩ := h.paired.touch found entry'
  rw [htouch, hinsert]
  rw [h.paired.values_erase found] at hvalues
  exact ⟨hlinked, hvalues⟩

/-- The first pair of `lrumap_` is erased with its key. -/
theorem eraseFirst (h : Linked env uses cache lrumap n) {oldest : Time × κ} {others : List (Time × κ)}
    (hfirst : lrumap.entries = oldest :: others) :
    Linked env uses (cache.erase oldest.2) lrumap.eraseFirst n := by
  obtain ⟨entry, found, herase⟩ := h.paired.eraseFirst hfirst
  rw [herase]
  exact h.erase found

/-- Where the cache is too full after an insertion, the first key of `lrumap_` goes. -/
theorem evict {c : Cache κ ν} {order : List κ} (h : Linked env uses c.cache_ c.lrumap_ n)
    (hvalues : c.lrumap_.values = order ++ [key]) :
    Linked env uses (Cache.evict c).cache_ (Cache.evict c).lrumap_ n ∧
      (Cache.evict c).lrumap_.values = Lru.insert c.max_size_ order key := by
  have hsize : c.cache_.size = order.length + 1 := by
    rw [← h.paired.length_values, hvalues, List.length_append, List.length_singleton]
  unfold Cache.evict Lru.insert
  rw [hsize]
  split
  · rw [← hvalues]
    cases hfirst : c.lrumap_.entries with
    | nil =>
        unfold Multimap.values at hvalues
        rw [hfirst] at hvalues
        simp at hvalues
    | cons oldest others =>
        refine ⟨h.eraseFirst hfirst, ?_⟩
        show (c.lrumap_.entries.tail.map Prod.snd) = (c.lrumap_.entries.map Prod.snd).tail
        rw [List.map_tail]
  · exact ⟨h, hvalues⟩

end Linked

/-! ## Calls and runs -/

namespace CacheCall

/-- The keys of the successful `get` calls, after a call with the result `r`. -/
def uses : CacheCall κ ν → Except Exn (Option (Bool × ν)) → List κ → List κ
  | get key _, .ok (some (true, _)), l => key :: l
  | _, _, l => l

/-- What the call with the result `r` is to an ideal LRU cache of at most `max_size` keys. -/
def ideal (max_size : Nat) : CacheCall κ ν → Except Exn (Option (Bool × ν)) → List κ → List κ
  | get key _, .ok (some (true, _)), order =>
    if key ∈ order then Lru.use order key else Lru.insert max_size order key
  | erase key, _, order => order.erase key
  | clear, _, _ => []
  | _, _, order => order

variable {key : κ} {value : ν} {r : Except Exn (Option (Bool × ν))} {l : List κ}

omit [Ord κ] [Std.TransOrd κ] [DecidableEq κ] in
/-- A `get` that fails is no use. -/
theorem uses_of_failed (h : ∀ v, r ≠ .ok (some (true, v))) : (get key value).uses r l = l := by
  unfold uses
  split
  · exact absurd rfl (h _)
  · rfl

omit [Ord κ] [Std.TransOrd κ] in
theorem ideal_of_failed {max_size : Nat} (h : ∀ v, r ≠ .ok (some (true, v))) :
    (get key value).ideal max_size r l = l := by
  unfold ideal
  split
  · exact absurd rfl (h _)
  all_goals first | rfl | contradiction

end CacheCall

variable {env : Env κ ν} {l : List κ} {s : CacheState κ ν}

omit [Ord κ] [Std.TransOrd κ] [DecidableEq κ] in
/-- After a `load` that did not return true, `get` does not return true. -/
theorem Cache.map_failed_ne {returned : Except Exn Bool} {value v : ν} :
    (Cache.failed returned value).map some ≠ .ok (some (true, v)) := by
  cases returned <;> simp [Cache.failed, Except.map]

/-- The invariant, of a state. -/
def CacheState.Linked (env : Env κ ν) (l : List κ) (s : CacheState κ ν) : Prop :=
  Common.Linked env l s.cache_ s.lrumap_ s.readings

variable [Std.LawfulEqOrd κ]

/-- **One call**: it ends, it keeps the invariant, and it does to the order of `lrumap_` what it does to an
    ideal LRU cache. -/
theorem exec_keeps (hclock : Monotone env.now) (h : s.Linked env l) (call : CacheCall κ ν) :
    wp (call.exec env) (fun r s' => s'.Linked env (call.uses r l) ∧
      s'.lrumap_.values = call.ideal s.max_size_ r s.lrumap_.values) s := by
  have hpaired : Paired s.cache_ s.lrumap_ := Common.Linked.paired h
  apply wp_mono (exec_outcome env s call)
  intro r s' houtcome
  cases houtcome with
  | get key value r s' houtcome =>
      cases houtcome with
      | hit entry entry' i n found reading hit_time loaded =>
          have hmem : key ∈ s.lrumap_.values := hpaired.mem_values.mpr ⟨entry, found⟩
          obtain ⟨hlinked, hvalues⟩ := Common.Linked.touch h hclock found reading hit_time
          exact ⟨hlinked, hvalues.trans (if_pos hmem).symm⟩
      | stale entry found not_loaded =>
          have hlinked : Common.Linked env l
              (s.cache_.insert key { entry with value := (env.load s.loads key entry.value).value })
              s.lrumap_ (s.readings + 1) := Common.Linked.modify h found rfl (Nat.le_succ _)
          rw [CacheCall.uses_of_failed fun _ => Cache.map_failed_ne,
            CacheCall.ideal_of_failed fun _ => Cache.map_failed_ne]
          exact ⟨hlinked, rfl⟩
      | insert missing loaded =>
          have hmem : key ∉ s.lrumap_.values := hpaired.notMem_values missing
          have htime : (CacheEntry.mk (env.now s.readings) (env.now (s.readings + 1))
              (env.load s.loads key value).value).hit_time = env.now (s.readings + 1) := rfl
          obtain ⟨hlinked, hvalues⟩ := Common.Linked.insert h hclock missing (Nat.le_succ _) htime
          obtain ⟨hlinked', hvalues'⟩ := Common.Linked.evict (c := { s.toCache with
            cache_ := _, lrumap_ := _, load_ := s.load_ + 1 }) hlinked hvalues
          exact ⟨hlinked', hvalues'.trans (if_neg hmem).symm⟩
      | miss missing not_loaded =>
          rw [CacheCall.uses_of_failed fun _ => Cache.map_failed_ne,
            CacheCall.ideal_of_failed fun _ => Cache.map_failed_ne]
          exact ⟨h, rfl⟩
  | erase key entry found => exact ⟨Common.Linked.erase h found, hpaired.values_erase found⟩
  | eraseMissing key missing => exact ⟨h, (List.erase_of_not_mem (hpaired.notMem_values missing)).symm⟩
  | clear => exact ⟨Common.Linked.empty, rfl⟩
  | setMaxSize | setMaxLifeTime => exact ⟨h, rfl⟩

/-- The states a cache can get into, with the keys of the successful `get` calls, the newest first. -/
inductive CacheRun (env : Env κ ν) (max_size : Nat) (life_time : Int) : List κ → CacheState κ ν → Prop where
  | start : CacheRun env max_size life_time [] { max_size_ := max_size, life_time_s_ := life_time }
  | call {l : List κ} {s s' : CacheState κ ν} {r : Except Exn (Option (Bool × ν))} (call : CacheCall κ ν)
      (run : CacheRun env max_size life_time l s) (returns : Returns (call.exec env) s r s') :
      CacheRun env max_size life_time (call.uses r l) s'

/-- **Every run** keeps the two maps together. -/
theorem CacheRun.linked (hclock : Monotone env.now) {max_size : Nat} {life_time : Int}
    (run : CacheRun env max_size life_time l s) : s.Linked env l := by
  induction run with
  | start => exact Common.Linked.empty
  | call call run returns ih =>
      obtain ⟨r, s', returns', hlinked, -⟩ := exec_keeps hclock ih call
      obtain ⟨hr, hs⟩ := returns.unique returns'
      rw [hr, hs]
      exact hlinked

/-- **The cache refines an ideal LRU cache.** In every state that a run reaches, `lrumap_` holds one pair for
    each cached key, with the hit time of its entry, in the order of the last successful `get`. Every call
    ends and does to that order what it does to the ideal cache. A `get` that inserts its key into a full
    cache evicts one entry: the one whose last successful `get` is the oldest, and not the new one unless
    the maximal size is 0. -/
theorem cache_refines_lru (env : Env κ ν) (hclock : Monotone env.now) (max_size : Nat) (life_time : Int)
    (l : List κ) (s : CacheState κ ν) (run : CacheRun env max_size life_time l s) :
    (∀ t k, (t, k) ∈ s.lrumap_.entries ↔ ∃ entry, s.cache_[k]? = some entry ∧ entry.hit_time = t) ∧
    s.lrumap_.values.Nodup ∧ (∀ k ∈ s.cache_, k ∈ l) ∧ s.lrumap_.values.Pairwise (Lru.Older l) ∧
    (∀ call : CacheCall κ ν, ∃ r s', Returns (call.exec env) s r s' ∧
      s'.lrumap_.values = call.ideal s.max_size_ r s.lrumap_.values) ∧
    ∀ key value v s', Returns (Cache.get env key value) s (.ok (true, v)) s' → key ∉ s.cache_ →
      if s.max_size_ < s.cache_.size + 1 then
        ∃ victim, (victim = key ∨ victim ∈ s.cache_) ∧
          (∀ k, k ∈ s'.cache_ ↔ (k = key ∨ k ∈ s.cache_) ∧ k ≠ victim) ∧
          (∀ k ∈ s'.cache_, Lru.Older (key :: l) victim k) ∧ (1 ≤ s.max_size_ → victim ≠ key)
      else ∀ k, k ∈ s'.cache_ ↔ k = key ∨ k ∈ s.cache_ := by
  have hlinked := run.linked hclock
  have hpaired : Paired s.cache_ s.lrumap_ := Common.Linked.paired hlinked
  refine ⟨hlinked.linked, hlinked.ordered.nodup, ?_, hlinked.ordered.pairwise, ?_, ?_⟩
  · intro k hk
    exact hlinked.ordered.used k (hpaired.mem_values_iff_mem.mpr hk)
  · intro call
    obtain ⟨r, s', returns, -, hvalues⟩ := exec_keeps hclock hlinked call
    exact ⟨r, s', returns, hvalues⟩
  · intro key value v s' returns hmissing
    -- the `get` as a call of the run, and what the ideal cache says about it
    have hexec : Returns ((CacheCall.get key value).exec env) s (.ok (some (true, v))) s' := by
      unfold CacheCall.exec
      rw [returns_bind]
      exact Or.inl ⟨_, _, returns, by simp⟩
    have hlinked' := (CacheRun.call _ run hexec).linked hclock
    obtain ⟨r, s'', returns'', -, hvalues⟩ := exec_keeps hclock hlinked (.get key value)
    obtain ⟨hr, hs⟩ := hexec.unique returns''
    rw [← hr, ← hs] at hvalues
    have hnew : key ∉ s.lrumap_.values := by rwa [hpaired.mem_values_iff_mem]
    rw [CacheCall.ideal, if_neg hnew] at hvalues
    have hmem' : ∀ k, k ∈ s'.cache_ ↔ k ∈ s'.lrumap_.values := by
      intro k
      exact (Common.Linked.paired hlinked').mem_values_iff_mem.symm
    have hmem : ∀ k, k ∈ s.lrumap_.values ++ [key] ↔ k = key ∨ k ∈ s.cache_ := by
      intro k
      rw [List.mem_append, hpaired.mem_values_iff_mem, List.mem_singleton, or_comm]
    rw [← hpaired.length_values]
    split
    · rename_i hfull
      obtain ⟨victim, hsplit, holder, hne⟩ := hlinked.ordered.insert_full hnew hfull
      rw [← hvalues] at hsplit holder
      have hnodup : (victim :: s'.lrumap_.values).Nodup := by
        rw [← hsplit]
        exact (hlinked.ordered.append hnew).nodup
      refine ⟨victim, ?_, ?_, ?_, hne⟩
      · rw [← hmem, hsplit]
        exact List.mem_cons_self
      · intro k
        rw [hmem', ← hmem, hsplit, List.mem_cons]
        constructor
        · intro hk
          refine ⟨Or.inr hk, ?_⟩
          intro heq
          exact (List.nodup_cons.mp hnodup).1 (heq ▸ hk)
        · rintro ⟨hk | hk, hneq⟩
          · exact absurd hk hneq
          · exact hk
      · intro k hk
        exact holder k ((hmem' k).mp hk)
    · rename_i hfits
      intro k
      rw [hmem', hvalues, Lru.insert, if_neg hfits, hmem]

/-- A clock that stands still, and a `load` that always succeeds. -/
def echoEnv : Env Nat Nat := ⟨fun _ => 0, fun _ key _ => ⟨key, .ok true⟩⟩

/-- Three keys in a cache of two, all at the same time: the second one goes, since the first one was used
    again. -/
theorem cache_refines_lru_three_keys :
    ∃ s s', CacheRun echoEnv 2 0 [1, 2, 1] s ∧ Returns (Cache.get echoEnv 3 0) s (.ok (true, 3)) s' ∧
      1 ∈ s'.cache_ ∧ 2 ∉ s'.cache_ ∧ 3 ∈ s'.cache_ := by
  have hcalls : wp (do
        let a ← (CacheCall.get 1 0).exec echoEnv
        let b ← (CacheCall.get 2 0).exec echoEnv
        let c ← (CacheCall.get 1 0).exec echoEnv
        let cache ← Cache.self
        let d ← Cache.get echoEnv 3 0
        pure ([a, b, c, some d], cache.max_size_, cache.cache_.keys))
      (fun r _ => r = .ok ([some (true, 1), some (true, 2), some (true, 1), some (true, 3)], 2, [1, 2]))
      { max_size_ := 2, life_time_s_ := 0 } := wp_of_run 1 (by decide +kernel)
  obtain ⟨_, s', hret, rfl⟩ := hcalls
  simp only [returns_bind_ok, returns_pure, Cache.self, returns_prim] at hret
  obtain ⟨a, s₁, h₁, b, s₂, h₂, c, s, h₃, cache, s₄, hself, d, s₅, hget, heq, rfl⟩ := hret
  simp only [Except.ok.injEq, Prod.mk.injEq, List.cons.injEq, Option.some.injEq] at heq hself
  obtain ⟨⟨rfl, rfl, rfl, rfl, -⟩, hmax, hkeys⟩ := heq
  obtain ⟨rfl, rfl⟩ := hself
  have hrun : CacheRun echoEnv 2 0 [1, 2, 1] s := .call _ (.call _ (.call _ .start h₁) h₂) h₃
  have hmem : ∀ k, k ∈ s.cache_ ↔ k = 1 ∨ k = 2 := by
    intro k
    rw [← Std.ExtTreeMap.mem_keys, ← hkeys]
    simp
  have hsize : s.cache_.size = 2 := by rw [← Std.ExtTreeMap.length_keys, ← hkeys]; rfl
  have hclock : Monotone echoEnv.now := fun _ _ _ => le_rfl
  obtain ⟨-, -, -, -, -, hevict⟩ := cache_refines_lru echoEnv hclock 2 0 [1, 2, 1] s hrun
  specialize hevict 3 0 3 s' hget (by simp [hmem])
  rw [if_pos (by omega)] at hevict
  obtain ⟨victim, hvictim, hmem', holder, hne⟩ := hevict
  -- the victim is 1 or 2; were it 1, the last use of 2 would have to be newer
  have htwo : victim = 2 := by
    rcases hvictim with rfl | hvictim
    · exact absurd rfl (hne (by omega))
    · rcases (hmem victim).mp hvictim with rfl | rfl
      · exact absurd (holder 2 (by simp [hmem', hmem])) (by decide)
      · rfl
  subst htwo
  exact ⟨s, s', hrun, hget, by simp [hmem', hmem], by simp [hmem'], by simp [hmem']⟩

end Dodo.Common
