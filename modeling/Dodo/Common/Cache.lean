import Mathlib.Data.Int.Order.Basic
import Mathlib.Data.List.Basic
import Dodo.Common.SystemError
import Dodo.Lib.Comp
import Dodo.Lib.Multimap

/-!
# `Common.Cache` — the `Cache` template

A key-value store in front of a slow `load`. Every public function holds the mutex from its first to its
last statement, so calls of several threads are one sequence of calls. The clock and `load` are given by
an environment: the results of their first, second, ... call. `load` gets a reference: what it writes there
stays, whether it returns true, returns false or throws.
-/

namespace Dodo.Common

open Lib

/-- `std::chrono::steady_clock::time_point`, in nanoseconds. -/
abbrev Time := Int

/-- What a call of `load` does: it leaves `value` in its argument, and returns or throws. -/
structure LoadResult (ν : Type) where
  value : ν
  returned : Except Exn Bool

/-- The clock readings and the behaviour of `load`, both by the number of the call. -/
structure Env (κ ν : Type) where
  now : Nat → Time
  load : Nat → κ → ν → LoadResult ν

structure CacheEntry (ν : Type) where
  load_time : Time
  hit_time : Time
  value : ν
deriving DecidableEq, Repr

structure Cache (κ ν : Type) [Ord κ] [Std.TransOrd κ] where
  max_size_ : Nat
  life_time_s_ : Int
  cache_ : Std.ExtTreeMap κ (CacheEntry ν) compare := ∅
  lrumap_ : Multimap Time κ := .empty
  hits_ : Nat := 0
  load_ : Nat := 0
  expired_ : Nat := 0

/-- A cache, and how often the clock was read and `load` was called so far. -/
structure CacheState (κ ν : Type) [Ord κ] [Std.TransOrd κ] extends Cache κ ν where
  readings : Nat := 0
  loads : Nat := 0

namespace Cache

variable {κ ν : Type} [Ord κ] [Std.TransOrd κ] [DecidableEq κ]

section Access

def self : Comp (CacheState κ ν) Exn (CacheState κ ν) := .prim fun s => (.ok s, s)

def modifySelf (f : Cache κ ν → Cache κ ν) : Comp (CacheState κ ν) Exn Unit :=
  .prim fun s => (.ok (), { s with toCache := f s.toCache })

/-- `std::chrono::steady_clock::now()`. -/
def now (env : Env κ ν) : Comp (CacheState κ ν) Exn Time :=
  .prim fun s => (.ok (env.now s.readings), { s with readings := s.readings + 1 })

/-- `load( key, value )`, up to its return or throw. -/
def load (env : Env κ ν) (key : κ) (value : ν) : Comp (CacheState κ ν) Exn (LoadResult ν) :=
  .prim fun s => (.ok (env.load s.loads key value), { s with loads := s.loads + 1 })

/-- What `load` returned; where it threw, its caller throws. -/
def returned (result : LoadResult ν) : Comp (CacheState κ ν) Exn Bool := .prim fun s => (result.returned, s)

/-- Write the entry of `key`. -/
def putEntry (key : κ) (entry : CacheEntry ν) : Comp (CacheState κ ν) Exn Unit :=
  modifySelf fun c => { c with cache_ := c.cache_.insert key entry }

end Access

def addLRU (key : κ) (entry : CacheEntry ν) : Comp (CacheState κ ν) Exn Unit :=
  modifySelf fun c => { c with lrumap_ := c.lrumap_.insert entry.hit_time key }

/-- `removeLRU` is called on a cache that is not empty. -/
def removeLRU : Comp (CacheState κ ν) Exn Unit :=
  modifySelf fun c =>
    match c.lrumap_.entries with
    | [] => c
    | oldest :: _ => { c with cache_ := c.cache_.erase oldest.2, lrumap_ := c.lrumap_.eraseFirst }

/-- `if ( cache_.size() > max_size_ ) removeLRU();` -/
def removeIfFull : Comp (CacheState κ ν) Exn Unit := do
  let c ← self
  if c.max_size_ < c.cache_.size then removeLRU

/-- The loop looks for the key among the pairs with the time `prev_hit_time`. -/
def updateLRU (key : κ) (entry : CacheEntry ν) (prev_hit_time : Time) : Comp (CacheState κ ν) Exn Unit := do
  if (prev_hit_time, key) ∈ (← self).lrumap_.entries then
    modifySelf fun c => { c with lrumap_ := c.lrumap_.erase prev_hit_time key }
    addLRU key entry

/-- Move a key in the LRU map, if it is there. -/
def touch (lrumap : Multimap Time κ) (key : κ) (prev_hit_time hit_time : Time) : Multimap Time κ :=
  if (prev_hit_time, key) ∈ lrumap.entries then (lrumap.erase prev_hit_time key).insert hit_time key else lrumap

/-- The test on the age of an entry; the clock is read only if there is a life time. The duration cast
    rounds towards zero. -/
def isExpired (env : Env κ ν) (load_time : Time) : Comp (CacheState κ ν) Exn Bool := do
  let life_time_s := (← self).life_time_s_
  if 0 < life_time_s then
    let t ← now env
    pure (decide (life_time_s < (t - load_time).tdiv 1000000000))
  else pure false

/-- The end of a `get` that found its key, with the entry as it is then. -/
def hit (env : Env κ ν) (key : κ) (entry : CacheEntry ν) : Comp (CacheState κ ν) Exn (Bool × ν) := do
  let prev_hit_time := entry.hit_time
  let entry := { entry with hit_time := ← now env }
  putEntry key entry
  updateLRU key entry prev_hit_time
  pure (true, entry.value)

/-- A `get` that found its key. -/
def getFound (env : Env κ ν) (key : κ) (value : ν) (entry : CacheEntry ν) :
    Comp (CacheState κ ν) Exn (Bool × ν) := do
  modifySelf fun c => { c with hits_ := c.hits_ + 1 }
  if ← isExpired env entry.load_time then
    -- `load` works on the entry itself
    let result ← load env key entry.value
    let entry := { entry with value := result.value }
    putEntry key entry
    if ← returned result then
      modifySelf fun c => { c with expired_ := c.expired_ + 1 }
      let entry := { entry with load_time := ← now env }
      putEntry key entry
      hit env key entry
    else pure (false, value)
  else hit env key entry

/-- A `get` that did not find its key. -/
def getMissing (env : Env κ ν) (key : κ) (value : ν) : Comp (CacheState κ ν) Exn (Bool × ν) := do
  modifySelf fun c => { c with load_ := c.load_ + 1 }
  let result ← load env key value
  if ← returned result then
    let load_time ← now env
    let hit_time ← now env
    let entry := ⟨load_time, hit_time, result.value⟩
    putEntry key entry
    addLRU key entry
    removeIfFull
    pure (true, result.value)
  else pure (false, result.value)

/-- `get( key, value )`: what it returns, and what is in `value` afterwards. -/
def get (env : Env κ ν) (key : κ) (value : ν) : Comp (CacheState κ ν) Exn (Bool × ν) := do
  match (← self).cache_[key]? with
  | some entry => getFound env key value entry
  | none => getMissing env key value

/-- The loop looks for the key among the pairs with the hit time of the entry. -/
def erase (key : κ) : Comp (CacheState κ ν) Exn Unit := do
  match (← self).cache_[key]? with
  | some entry =>
    modifySelf fun c =>
      { c with lrumap_ := c.lrumap_.erase entry.hit_time key, cache_ := c.cache_.erase key }
  | none => pure ()

def clear : Comp (CacheState κ ν) Exn Unit :=
  modifySelf fun c => { c with cache_ := ∅, lrumap_ := .empty }

def setMaxSize (max_size : Nat) : Comp (CacheState κ ν) Exn Unit :=
  modifySelf fun c => { c with max_size_ := max_size }

def setMaxLifeTime (seconds : Int) : Comp (CacheState κ ν) Exn Unit :=
  modifySelf fun c => { c with life_time_s_ := seconds }

def getHits (c : Cache κ ν) : Nat := c.hits_

def getMisses (c : Cache κ ν) : Nat := c.load_

def getExpiries (c : Cache κ ν) : Nat := c.expired_

end Cache

/-! ## Sequences of calls -/

/-- A call of a public function. -/
inductive CacheCall (κ ν : Type) where
  | get (key : κ) (value : ν)
  | erase (key : κ)
  | clear
  | setMaxSize (max_size : Nat)
  | setMaxLifeTime (seconds : Int)

namespace CacheCall

variable {κ ν : Type} [Ord κ] [Std.TransOrd κ] [DecidableEq κ]

/-- The call; only `get` has a result. -/
def exec (env : Env κ ν) : CacheCall κ ν → Comp (CacheState κ ν) Exn (Option (Bool × ν))
  | get key value => do pure (some (← Cache.get env key value))
  | erase key => do Cache.erase key; pure none
  | clear => do Cache.clear; pure none
  | setMaxSize max_size => do Cache.setMaxSize max_size; pure none
  | setMaxLifeTime seconds => do Cache.setMaxLifeTime seconds; pure none

end CacheCall
end Dodo.Common
