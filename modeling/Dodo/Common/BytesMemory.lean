import Dodo.Common.Text

/-!
# `Common.BytesMemory` — the memory of a `Bytes`

A `Bytes` points to memory that it has allocated in chunks of `alloc_block` octets, and knows how many octets of it
are in use. An allocation succeeds, and what is in fresh memory is arbitrary. A `size_t` has 64 bits. A `Bytes`
without octets may or may not have memory: there is none before the first octet and after `free`.
-/

namespace Dodo.Common

/-- A `Bytes`; `array_` is the memory that this pointer points to, and `none` if it is null. -/
structure Bytes where
  array_ : Option Str := none
  size_ : Nat := 0
  allocated_size : Nat := 0
deriving DecidableEq, Repr

/-- How an operation on a `Bytes` can fail. -/
inductive BytesError where
  /-- Octets are read or written where there is no memory. -/
  | outOfBounds
deriving DecidableEq, Repr

/-- What an allocation finds in fresh memory. -/
structure Heap where
  malloc : Nat → Str
  length_malloc : ∀ n, (malloc n).length = n

/-- `realloc` to `n` octets keeps what is there. -/
def Heap.realloc (heap : Heap) (memory : Str) (n : Nat) : Str := (memory ++ (heap.malloc n).drop memory.length).take n

theorem Heap.length_realloc (heap : Heap) (memory : Str) (n : Nat) : (heap.realloc memory n).length = n := by
  rw [realloc, List.length_take, List.length_append, List.length_drop, heap.length_malloc]
  omega

theorem Heap.take_realloc (heap : Heap) {memory : Str} {n k : Nat} (hk : k ≤ memory.length) (hn : k ≤ n) :
    (heap.realloc memory n).take k = memory.take k := by
  rw [realloc, List.take_take, Nat.min_eq_left hn, List.take_append_of_le_length hk]

namespace Bytes

def alloc_block : Nat := 32

/-- The octets at `array`, `n` of them. -/
def read (array : Option Str) (n : Nat) : Except BytesError Str :=
  if n ≤ (array.getD []).length then .ok ((array.getD []).take n) else .error .outOfBounds

/-- `memcpy( array + position, .. )`; nothing is written where there are no octets. -/
def write (array : Option Str) (position : Nat) (octets : Str) : Except BytesError (Option Str) :=
  if octets = [] then .ok array
  else match array with
    | none => .error .outOfBounds
    | some memory =>
      if position + octets.length ≤ memory.length then
        .ok (some (memory.take position ++ octets ++ memory.drop (position + octets.length)))
      else .error .outOfBounds

def reserve (heap : Heap) (bytes : Bytes) (sz : Nat) : Bytes :=
  let chunkedsz := (sz / alloc_block + 1) * alloc_block % 2 ^ 64
  if sz = bytes.size_ then bytes
  else match bytes.array_ with
    | some memory =>
      if bytes.allocated_size < sz then
        { array_ := if sz = 0 then none else some (heap.realloc memory chunkedsz)
          size_ := sz, allocated_size := chunkedsz }
      else { bytes with size_ := sz }
    | none => { array_ := some (heap.malloc chunkedsz), size_ := sz, allocated_size := chunkedsz }

def free (_ : Bytes) : Bytes := {}

/-- `append( src, n )`, where `src` is a pointer. -/
def append (heap : Heap) (bytes : Bytes) (src : Option Str) (n : Nat) : Except BytesError Bytes := do
  let osize := bytes.size_
  let bytes := bytes.reserve heap ((bytes.size_ + n) % 2 ^ 64)
  let array ← write bytes.array_ osize (← read src n)
  return { bytes with array_ := array }

/-- The octets in use. -/
def octets (bytes : Bytes) : Str := (bytes.array_.getD []).take bytes.size_

/-- There is memory for the octets in use, or there are none. -/
structure WellFormed (bytes : Bytes) : Prop where
  null : bytes.array_ = none → bytes.size_ = 0 ∧ bytes.allocated_size = 0
  allocated : ∀ memory, bytes.array_ = some memory → memory.length = bytes.allocated_size
  chunked : bytes.array_ ≠ none → 0 < bytes.allocated_size ∧ alloc_block ∣ bytes.allocated_size
  used : bytes.size_ ≤ bytes.allocated_size

variable {bytes : Bytes} {n sz : Nat}

theorem wellFormed_empty : WellFormed {} where
  null _ := ⟨rfl, rfl⟩
  allocated _ h := nomatch h
  chunked h := absurd rfl h
  used := le_rfl

theorem WellFormed.length_octets (h : bytes.WellFormed) : bytes.octets.length = bytes.size_ := by
  rw [octets, List.length_take]
  cases harray : bytes.array_ with
  | none => simp [(h.null harray).1]
  | some memory =>
      have hused := h.used
      rw [← h.allocated memory harray] at hused
      exact Nat.min_eq_left hused

/-- The number of octets that are allocated for `sz`. -/
theorem chunked_eq (hsz : sz < 2 ^ 63) :
    (sz / alloc_block + 1) * alloc_block % 2 ^ 64 = (sz / alloc_block + 1) * alloc_block := by
  apply Nat.mod_eq_of_lt
  unfold alloc_block
  omega

/-- Fresh memory for `sz` octets. -/
theorem wellFormed_chunk {memory : Str} (hlength : memory.length = (sz / alloc_block + 1) * alloc_block) :
    WellFormed ⟨some memory, sz, (sz / alloc_block + 1) * alloc_block⟩ where
  null h := nomatch h
  allocated memory' h := by
    rw [← Option.some.inj h]
    exact hlength
  chunked _ := ⟨Nat.mul_pos (Nat.succ_pos _) (by decide), Nat.dvd_mul_left ..⟩
  used := by
    unfold alloc_block
    dsimp only
    omega

/-- The memory grows where it has to, and the octets in use stay. -/
theorem WellFormed.reserve (h : bytes.WellFormed) (heap : Heap) (hsz : sz < 2 ^ 63) :
    (bytes.reserve heap sz).WellFormed ∧ (bytes.reserve heap sz).size_ = sz ∧
      (bytes.size_ ≤ sz → ((bytes.reserve heap sz).array_.getD []).take bytes.size_ = bytes.octets) := by
  have hused := h.used
  unfold Bytes.reserve
  rw [chunked_eq hsz]
  dsimp only
  split
  · rename_i hsame
    exact ⟨h, hsame.symm, fun _ => rfl⟩
  · split
    · rename_i memory harray
      have hlength := h.allocated memory harray
      split
      · rename_i hgrows
        rw [if_neg (by omega)]
        refine ⟨wellFormed_chunk (heap.length_realloc _ _), rfl, ?_⟩
        intro _
        rw [octets, harray]
        apply heap.take_realloc (by omega)
        unfold alloc_block
        omega
      · rename_i hfits
        refine ⟨⟨?_, h.allocated, h.chunked, by dsimp only; omega⟩, rfl, fun _ => rfl⟩
        intro hnone
        exact absurd (harray.symm.trans hnone) (by simp)
    · rename_i harray
      refine ⟨wellFormed_chunk (heap.length_malloc _), rfl, ?_⟩
      intro _
      simp [octets, harray, (h.null harray).1]

theorem read_eq {src : Option Str} (h : n ≤ (src.getD []).length) : read src n = .ok ((src.getD []).take n) := if_pos h

/-- Octets are written behind those in use, where there is room for them. -/
theorem WellFormed.write (h : bytes.WellFormed) (position : Nat) (octets : Str)
    (hsize : bytes.size_ = position + octets.length) :
    ∃ array, Bytes.write bytes.array_ position octets = .ok array ∧ { bytes with array_ := array }.WellFormed ∧
      { bytes with array_ := array }.octets = (bytes.array_.getD []).take position ++ octets := by
  unfold Bytes.write
  split
  · rename_i hnil
    subst hnil
    refine ⟨_, rfl, h, ?_⟩
    rw [Bytes.octets, hsize, List.length_nil, Nat.add_zero, List.append_nil]
  · rename_i hne
    have hpos : 0 < octets.length := List.length_pos_iff.mpr hne
    split
    · rename_i harray
      have hnull := (h.null harray).1
      omega
    · rename_i memory harray
      have hlength := h.allocated memory harray
      have hused := h.used
      rw [if_pos (by omega)]
      refine ⟨_, rfl, ⟨nofun, ?_, fun _ => h.chunked (by simp [harray]), hused⟩, ?_⟩
      · intro memory' heq
        rw [← Option.some.inj heq]
        simp only [List.length_append, List.length_take, List.length_drop]
        omega
      · rw [Bytes.octets, harray, Option.getD_some, Option.getD_some, hsize]
        apply List.take_left'
        rw [List.length_append, List.length_take]
        omega

/-- **`append` appends**: the octets from `src` come behind those in use. -/
theorem WellFormed.append (h : bytes.WellFormed) (heap : Heap) (src : Option Str) (hsrc : n ≤ (src.getD []).length)
    (hsize : bytes.size_ + n < 2 ^ 63) :
    ∃ bytes', bytes.append heap src n = .ok bytes' ∧ bytes'.WellFormed ∧
      bytes'.octets = bytes.octets ++ (src.getD []).take n := by
  have hmod : (bytes.size_ + n) % 2 ^ 64 = bytes.size_ + n := Nat.mod_eq_of_lt (by omega)
  obtain ⟨hwell, hsize', hkept⟩ := h.reserve heap hsize
  obtain ⟨array, hwrite, hwell', hoctets⟩ := hwell.write bytes.size_ ((src.getD []).take n)
    (by rw [hsize', List.length_take, Nat.min_eq_left hsrc])
  refine ⟨_, ?_, hwell', ?_⟩
  · unfold Bytes.append
    rw [hmod, read_eq hsrc]
    dsimp only [bind, Except.bind]
    rw [hwrite]
    rfl
  · rw [hoctets, hkept (Nat.le_add_right ..)]

end Bytes
end Dodo.Common
