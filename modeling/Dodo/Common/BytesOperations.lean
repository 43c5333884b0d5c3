import Dodo.Common.BytesMemory

/-!
# `Common.BytesOperations` — a `Bytes` is a list of octets

The operations that change a `Bytes` work on its memory: they move the end of the octets in use with `reserve`, which
may also move the octets themselves, and then write at a position computed from the old or the new size. Seen from
outside a `Bytes` is the list of its octets, and each operation is one on lists.

## Contents
- **Operations.** String assignment and the overloads of `append`, on the memory. The memory is checked at every
  access, so an operation that returns has stayed inside what is allocated.
- **Refinement.** `Operation.Meets` is the operation on lists. An operation keeps `WellFormed` and meets it, hence so
  does every operation in whatever follows a constructor.
- **Comparison.** `match_` compares from the first octet on, whatever the index is.
-/

namespace Dodo.Common

/-- How an operation on a `Bytes` ends other than by returning. -/
inductive BytesFault where
  | memory (error : BytesError)
  /-- `throw_Exception`. -/
  | exception (text : Str)
deriving DecidableEq, Repr

namespace Bytes

/-! ## Operations -/

/-- The loop of the assignment: one octet after the other, the first at position `i`. -/
def writeEach : Option Str → Nat → Str → Except BytesError (Option Str)
  | array, _, [] => .ok array
  | array, i, c :: s => do writeEach (← write array i [c]) (i + 1) s

/-- `operator=( s )`. -/
def assign (heap : Heap) (bytes : Bytes) (s : Str) : Except BytesError Bytes := do
  let bytes := bytes.reserve heap s.length
  return { bytes with array_ := ← writeEach bytes.array_ 0 s }

/-- `Bytes( s )`. -/
def ofString (heap : Heap) (s : Str) : Except BytesError Bytes := assign heap {} s

/-- `append( src )`, where `src` is another `Bytes`. -/
def appendBytes (heap : Heap) (bytes src : Bytes) : Except BytesError Bytes := bytes.append heap src.array_ src.size_

/-- `append( src, n )`, where `src` is another `Bytes`. -/
def appendFirst (heap : Heap) (bytes src : Bytes) (n : Nat) : Except BytesFault Bytes :=
  if src.size_ < n then .error (.exception (lit "cannot append more than available in src"))
  else (bytes.append heap src.array_ n).mapError .memory

/-- `append( src )`, where `src` is an octet. -/
def appendOctet (heap : Heap) (bytes : Bytes) (src : Octet) : Except BytesError Bytes := do
  let bytes := bytes.reserve heap ((bytes.size_ + 1) % 2 ^ 64)
  -- the position is counted from the new size
  return { bytes with array_ := ← write bytes.array_ (bytes.size_ - 1) [src] }

/-- What can be done to a `Bytes`; the sources of an `append` are not the `Bytes` itself. -/
inductive Operation where
  | assign (s : Str)
  | append (src : Option Str) (n : Nat)
  | appendBytes (src : Bytes)
  | appendFirst (src : Bytes) (n : Nat)
  | appendOctet (src : Octet)
  | reserve (sz : Nat)
  | free
deriving DecidableEq, Repr

/-- How a call ends, and the `Bytes` behind it: one that does not return leaves it as it was. -/
def settle (bytes : Bytes) : Except BytesFault Bytes → Except BytesFault Unit × Bytes
  | .ok bytes' => (.ok (), bytes')
  | .error e => (.error e, bytes)

def Operation.exec (heap : Heap) (bytes : Bytes) : Operation → Except BytesFault Unit × Bytes
  | .assign s => settle bytes ((bytes.assign heap s).mapError .memory)
  | .append src n => settle bytes ((bytes.append heap src n).mapError .memory)
  | .appendBytes src => settle bytes ((bytes.appendBytes heap src).mapError .memory)
  | .appendFirst src n => settle bytes (bytes.appendFirst heap src n)
  | .appendOctet src => settle bytes ((bytes.appendOctet heap src).mapError .memory)
  | .reserve sz => settle bytes (.ok (bytes.reserve heap sz))
  | .free => settle bytes (.ok bytes.free)

/-! ## Refinement -/

/-- What the operation is given is there: `n` octets at a pointer, and a `Bytes` that is well formed. -/
def Operation.Given : Operation → Prop
  | .append src n => n ≤ (src.getD []).length
  | .appendBytes src => src.WellFormed
  | .appendFirst src _ => src.WellFormed
  | _ => True

/-- The size that the operation leaves behind, when there were the octets `l`. -/
def Operation.size (l : Str) : Operation → Nat
  | .assign s => s.length
  | .append _ n => l.length + n
  | .appendBytes src => l.length + src.size_
  | .appendFirst src n => if src.size_ < n then l.length else l.length + n
  | .appendOctet _ => l.length + 1
  | .reserve sz => sz
  | .free => 0

/-- The operation on a list of octets: from `l` it comes to `l'`, and the call ends with `result`. -/
def Operation.Meets (l : Str) (result : Except BytesFault Unit) (l' : Str) : Operation → Prop
  | .assign s => result = .ok () ∧ l' = s
  | .append src n => result = .ok () ∧ l' = l ++ (src.getD []).take n
  | .appendBytes src => result = .ok () ∧ l' = l ++ src.octets
  | .appendFirst src n =>
    if src.octets.length < n then (∃ text, result = .error (.exception text)) ∧ l' = l
    else result = .ok () ∧ l' = l ++ src.octets.take n
  | .appendOctet src => result = .ok () ∧ l' = l ++ [src]
  -- the octets beyond the old size are whatever is in the memory
  | .reserve sz => result = .ok () ∧ l'.length = sz ∧ l'.take (min l.length sz) = l.take (min l.length sz)
  | .free => result = .ok () ∧ l' = []

variable {bytes : Bytes} {heap : Heap} {n sz : Nat}

/-- Inside the memory the octets replace those that are there. -/
theorem write_some (memory : Str) {s : Str} {i : Nat} (hs : s ≠ []) (h : i + s.length ≤ memory.length) :
    write (some memory) i s = .ok (some (memory.take i ++ s ++ memory.drop (i + s.length))) := by
  rw [write, if_neg hs]
  exact if_pos h

/-- Inside the memory it makes no difference whether octets are written one by one or at once. -/
theorem writeEach_eq_write (s : Str) (array : Option Str) (i : Nat) (h : i + s.length ≤ (array.getD []).length) :
    writeEach array i s = write array i s := by
  induction s generalizing array i with
  | nil => rfl
  | cons c s ih =>
      rw [List.length_cons] at h
      cases array with
      | none =>
          rw [Option.getD_none, List.length_nil] at h
          omega
      | some memory =>
          rw [Option.getD_some] at h
          have hfirst := write_some memory (i := i) (List.cons_ne_nil c []) (by rw [List.length_singleton]; omega)
          rw [List.length_singleton] at hfirst
          -- the memory behind the first octet: written up to `i`, and from there on as it was
          have htake : (memory.take i ++ [c]).length = i + 1 := by
            rw [List.length_append, List.length_take, List.length_singleton]
            omega
          have hlength : (memory.take i ++ [c] ++ memory.drop (i + 1)).length = memory.length := by
            rw [List.length_append, htake, List.length_drop]
            omega
          have hdrop (k : Nat) :
              (memory.take i ++ [c] ++ memory.drop (i + 1)).drop (i + 1 + k) = memory.drop (i + 1 + k) := by
            rw [← List.drop_drop, List.drop_left' htake, List.drop_drop]
          rw [writeEach, hfirst]
          show writeEach (some _) (i + 1) s = _
          rw [ih _ (i + 1) (by rw [Option.getD_some, hlength]; omega)]
          cases s with
          | nil => exact hfirst.symm
          | cons d s =>
              have hend : i + (c :: d :: s).length = i + 1 + (d :: s).length := by
                rw [List.length_cons]
                omega
              rw [write_some _ (List.cons_ne_nil d s) (by rw [hlength]; omega), List.take_left' htake, hdrop,
                write_some _ (List.cons_ne_nil c (d :: s)) (by rw [hend]; omega), hend,
                List.append_assoc (memory.take i), List.singleton_append]

/-- What `reserve` leaves of the octets in use. -/
theorem WellFormed.take_reserve (h : bytes.WellFormed) (heap : Heap) (hsz : sz < 2 ^ 63) :
    (bytes.reserve heap sz).octets.take (min bytes.size_ sz) = bytes.octets.take (min bytes.size_ sz) := by
  obtain ⟨_, hsize, hkept⟩ := h.reserve heap hsz
  rw [octets, hsize, List.take_take, Nat.min_assoc, Nat.min_self]
  rcases Nat.lt_or_ge sz bytes.size_ with hless | hmore
  · -- the memory stays where it is, only the size changes
    have harray : (bytes.reserve heap sz).array_ = bytes.array_ := by
      have hused := h.used
      unfold Bytes.reserve
      rw [if_neg (by omega)]
      split
      · rename_i memory harray
        rw [if_neg (by omega)]
      · rename_i harray
        have hnull := (h.null harray).1
        omega
    rw [harray, octets, List.take_take, Nat.min_right_comm, Nat.min_self]
  · rw [Nat.min_eq_left hmore, hkept hmore, List.take_of_length_le (by rw [h.length_octets])]

/-- Assignment gives the octets of the string. -/
theorem WellFormed.assign (h : bytes.WellFormed) (heap : Heap) {s : Str} (hs : s.length < 2 ^ 63) :
    ∃ bytes', bytes.assign heap s = .ok bytes' ∧ bytes'.WellFormed ∧ bytes'.octets = s := by
  obtain ⟨hwell, hsize, _⟩ := h.reserve heap hs
  obtain ⟨array, hwrite, hwell', hoctets⟩ := hwell.write 0 s (by rw [hsize, Nat.zero_add])
  have hfits : 0 + s.length ≤ ((bytes.reserve heap s.length).array_.getD []).length := by
    have hlength := hwell.length_octets
    rw [octets, List.length_take, hsize] at hlength
    omega
  refine ⟨_, ?_, hwell', by rw [hoctets, List.take_zero, List.nil_append]⟩
  unfold Bytes.assign
  dsimp only
  rw [writeEach_eq_write s _ 0 hfits, hwrite]
  rfl

/-- The last octet that `reserve` makes room for is the one that is appended. -/
theorem WellFormed.appendOctet (h : bytes.WellFormed) (heap : Heap) (src : Octet) (hsize : bytes.size_ + 1 < 2 ^ 63) :
    ∃ bytes', bytes.appendOctet heap src = .ok bytes' ∧ bytes'.WellFormed ∧ bytes'.octets = bytes.octets ++ [src] := by
  have hmod : (bytes.size_ + 1) % 2 ^ 64 = bytes.size_ + 1 := Nat.mod_eq_of_lt (by omega)
  obtain ⟨hwell, hsize', hkept⟩ := h.reserve heap hsize
  obtain ⟨array, hwrite, hwell', hoctets⟩ := hwell.write bytes.size_ [src] (by rw [hsize', List.length_singleton])
  refine ⟨_, ?_, hwell', by rw [hoctets, hkept (Nat.le_add_right ..)]⟩
  unfold Bytes.appendOctet
  dsimp only
  rw [hmod, hsize', Nat.add_sub_cancel, hwrite]
  rfl

/-- The octets of a source are those at its pointer. -/
theorem WellFormed.append_first (h : bytes.WellFormed) (heap : Heap) {src : Bytes} (hsrc : src.WellFormed)
    (hn : n ≤ src.size_) (hsize : bytes.size_ + n < 2 ^ 63) :
    ∃ bytes', bytes.append heap src.array_ n = .ok bytes' ∧ bytes'.WellFormed ∧
      bytes'.octets = bytes.octets ++ src.octets.take n := by
  have hthere : n ≤ (src.array_.getD []).length := by
    have hlength := hsrc.length_octets
    rw [octets, List.length_take] at hlength
    omega
  obtain ⟨bytes', happend, hwell, hoctets⟩ := h.append heap src.array_ hthere hsize
  refine ⟨bytes', happend, hwell, ?_⟩
  rw [hoctets, octets, octets, List.take_take, Nat.min_eq_left hn]

/-- A call that returns has done what is said of its result. -/
theorem settle_of_ok {r : Except BytesError Bytes} {P : Bytes → Prop}
    (h : ∃ bytes', r = .ok bytes' ∧ bytes'.WellFormed ∧ P bytes') :
    (settle bytes (r.mapError .memory)).2.WellFormed ∧
      (settle bytes (r.mapError .memory)).1 = .ok () ∧ P (settle bytes (r.mapError .memory)).2 := by
  obtain ⟨bytes', rfl, hwell, hP⟩ := h
  exact ⟨hwell, rfl, hP⟩

/-- **One operation**: it keeps the memory well formed, and on the octets it is the operation on lists. -/
theorem WellFormed.exec (h : bytes.WellFormed) (heap : Heap) (op : Operation) (hgiven : op.Given)
    (hsize : op.size bytes.octets < 2 ^ 63) :
    (op.exec heap bytes).2.WellFormed ∧
      op.Meets bytes.octets (op.exec heap bytes).1 (op.exec heap bytes).2.octets := by
  have hlength := h.length_octets
  cases op with
  | assign s => exact settle_of_ok (h.assign heap hsize)
  | append src n =>
      rw [Operation.size, hlength] at hsize
      exact settle_of_ok (h.append heap src hgiven hsize)
  | appendBytes src =>
      rw [Operation.size, hlength] at hsize
      have happend := h.append_first heap hgiven le_rfl hsize
      rw [List.take_of_length_le (by rw [hgiven.length_octets])] at happend
      exact settle_of_ok happend
  | appendFirst src n =>
      rw [Operation.size, hlength] at hsize
      show _ ∧ (if src.octets.length < n then _ else _)
      rw [hgiven.length_octets]
      simp only [Operation.exec, appendFirst]
      by_cases hmore : src.size_ < n
      · rw [if_pos hmore, if_pos hmore]
        exact ⟨h, ⟨_, rfl⟩, rfl⟩
      · rw [if_neg hmore] at hsize
        rw [if_neg hmore, if_neg hmore]
        exact settle_of_ok (h.append_first heap hgiven (Nat.le_of_not_lt hmore) hsize)
  | appendOctet src =>
      rw [Operation.size, hlength] at hsize
      exact settle_of_ok (h.appendOctet heap src hsize)
  | reserve sz =>
      obtain ⟨hwell, hsz, _⟩ := h.reserve heap hsize
      refine ⟨hwell, rfl, hwell.length_octets.trans hsz, ?_⟩
      rw [hlength]
      exact h.take_reserve heap hsize
  | free => exact ⟨wellFormed_empty, rfl, rfl⟩

/-- The `Bytes` that can come about: a constructor, and then any operations, each on whatever memory it finds. -/
inductive Reached : Bytes → Prop where
  | empty : Reached {}
  | ofString (heap : Heap) (s : Str) (hs : s.length < 2 ^ 63) {bytes : Bytes} (h : ofString heap s = .ok bytes) :
      Reached bytes
  | exec (heap : Heap) (op : Operation) (hgiven : op.Given) {bytes : Bytes}
      (hsize : op.size bytes.octets < 2 ^ 63) (h : Reached bytes) : Reached (op.exec heap bytes).2

/-- The memory stays well formed along every sequence of operations. -/
theorem Reached.wellFormed (h : Reached bytes) : bytes.WellFormed := by
  induction h with
  | empty => exact wellFormed_empty
  | ofString heap s hs h =>
      obtain ⟨bytes', hassign, hwell, _⟩ := wellFormed_empty.assign heap hs
      rw [Bytes.ofString, hassign] at h
      rw [← Except.ok.inj h]
      exact hwell
  | exec heap op hgiven hsize _ ih => exact (ih.exec heap op hgiven hsize).1

/-- **A `Bytes` refines a list of octets.** The constructor from a string holds its octets. Whatever has been done to
a `Bytes`, its memory is well formed, and the next operation does to its octets what it does to a list. -/
theorem bytes_refines_list :
    (∀ heap s, s.length < 2 ^ 63 → ∃ bytes, ofString heap s = .ok bytes ∧ bytes.octets = s) ∧
    ∀ bytes, Reached bytes → bytes.WellFormed ∧ ∀ heap (op : Operation), op.Given → op.size bytes.octets < 2 ^ 63 →
      op.Meets bytes.octets (op.exec heap bytes).1 (op.exec heap bytes).2.octets := by
  constructor
  · intro heap s hs
    obtain ⟨bytes, hassign, _, hoctets⟩ := wellFormed_empty.assign heap hs
    exact ⟨bytes, hassign, hoctets⟩
  · intro bytes hreached
    refine ⟨hreached.wellFormed, ?_⟩
    intro heap op hgiven hsize
    exact (hreached.wellFormed.exec heap op hgiven hsize).2

/-- Fresh memory that something else has written to before. -/
def usedHeap : Heap := ⟨fun n => List.replicate n 255, fun _ => List.length_replicate⟩

/-- An octet is appended to what a refused `append` has left alone. -/
theorem bytes_refines_list_refused :
    ((Operation.appendFirst {} 1).exec usedHeap {}).2.WellFormed ∧
      ((Operation.appendOctet 97).exec usedHeap ((Operation.appendFirst {} 1).exec usedHeap {}).2).2.octets = [97] := by
  have hsize : (Operation.appendFirst {} 1).size (octets {}) < 2 ^ 63 := by decide
  obtain ⟨hwell, hmeets⟩ := bytes_refines_list.2 _ (.exec usedHeap (.appendFirst {} 1) wellFormed_empty hsize .empty)
  exact ⟨hwell, (hmeets usedHeap (.appendOctet 97) trivial (by decide)).2⟩

/-! ## Comparison -/

inductive MatchType where
  | mismatch
  | contained
  | contains
  | full
deriving DecidableEq, Repr

/-- `match`; the second result is what `octets` is set to. -/
def match_ (bytes other : Bytes) (index : Nat) : Except BytesError (MatchType × Nat) := do
  let local_size := (bytes.size_ + 2 ^ 64 - index) % 2 ^ 64
  let match_size := min local_size other.size_
  -- `memcmp` starts at `array_`, not at `array_ + index`
  if (← read bytes.array_ match_size) = (← read other.array_ match_size) then
    if local_size < other.size_ then return (.contained, local_size)
    else if other.size_ < local_size then return (.contains, other.size_)
    else return (.full, local_size)
  else return (.mismatch, 0)

/-- How the octets `s` match `b`, and how many of them do. -/
def classify (s b : Str) : MatchType × Nat :=
  if s = b then (.full, s.length)
  else if s <+: b then (.contained, s.length)
  else if b <+: s then (.contains, b.length)
  else (.mismatch, 0)

/-- The outcome for `n` octets against `m`, when it is known whether as many as both have are the `same`. -/
def verdict (same : Bool) (n m : Nat) : MatchType × Nat :=
  if same then if n < m then (.contained, n) else if m < n then (.contains, m) else (.full, n)
  else (.mismatch, 0)

/-- Whether the octets are the same shows in the outcome. -/
theorem verdict_eq_iff (p q : Bool) (n m : Nat) : verdict p n m = verdict q n m ↔ p = q := by
  have hmatch : verdict true n m ≠ verdict false n m := by
    unfold verdict
    intro h
    split at h
    · split at h
      · simp at h
      · split at h <;> simp at h
    · contradiction
  cases p <;> cases q <;> simp [hmatch, hmatch.symm]

/-- One list is the beginning of another if they agree as far as it goes. -/
theorem prefix_iff_take {s b : Str} (h : s.length ≤ b.length) :
    s <+: b ↔ s.take (min s.length b.length) = b.take (min s.length b.length) := by
  rw [Nat.min_eq_left h, List.take_length, List.prefix_iff_eq_take]

/-- The classification compares as many octets as both have, and then the lengths. -/
theorem classify_eq (s b : Str) :
    classify s b = verdict (s.take (min s.length b.length) = b.take (min s.length b.length)) s.length b.length := by
  unfold classify verdict
  simp only [decide_eq_true_eq]
  rcases Nat.lt_trichotomy s.length b.length with hless | hsame | hmore
  · have hne : s ≠ b := fun h => absurd (congrArg List.length h) (by omega)
    have hnot : ¬ b <+: s := fun h => absurd h.length_le (by omega)
    rw [if_neg hne, if_neg hnot, if_pos hless]
    exact if_congr (prefix_iff_take hless.le) rfl rfl
  · have heq : s = b ↔ s.take (min s.length b.length) = b.take (min s.length b.length) := by
      rw [hsame, Nat.min_self, List.take_length, ← hsame, List.take_length]
    by_cases h : s = b
    · rw [if_pos h, if_pos (heq.mp h), if_neg (by omega), if_neg (by omega)]
    · have hleft : ¬ s <+: b := fun hpre => h (hpre.eq_of_length hsame)
      have hright : ¬ b <+: s := fun hpre => h (hpre.eq_of_length hsame.symm).symm
      rw [if_neg h, if_neg hleft, if_neg hright, if_neg (fun htake => h (heq.mpr htake))]
  · have hne : s ≠ b := fun h => absurd (congrArg List.length h) (by omega)
    have hnot : ¬ s <+: b := fun h => absurd h.length_le (by omega)
    have hpre : b <+: s ↔ s.take (min s.length b.length) = b.take (min s.length b.length) := by
      rw [prefix_iff_take hmore.le, Nat.min_comm, eq_comm]
    rw [if_neg hne, if_neg hnot, if_neg (Nat.lt_asymm hmore), if_pos hmore]
    exact if_congr hpre rfl rfl

/-- Inside the octets in use, reading at the array is reading them. -/
theorem WellFormed.read_octets (h : bytes.WellFormed) (hn : n ≤ bytes.size_) :
    read bytes.array_ n = .ok (bytes.octets.take n) := by
  have hlength := h.length_octets
  rw [octets, List.length_take] at hlength
  rw [read_eq (by omega), octets, List.take_take, Nat.min_eq_left hn]

variable {a b : Bytes} {index : Nat}

/-- The octets that are compared are the first ones of both, their number is counted from the index. -/
theorem match_eq (ha : a.WellFormed) (hb : b.WellFormed) (hsize : a.size_ < 2 ^ 64) (hindex : index ≤ a.size_) :
    a.match_ b index = .ok (verdict (a.octets.take (min (a.size_ - index) b.size_) =
      b.octets.take (min (a.size_ - index) b.size_)) (a.size_ - index) b.size_) := by
  have hlocal : (a.size_ + 2 ^ 64 - index) % 2 ^ 64 = a.size_ - index := by
    rw [Nat.sub_add_comm hindex, Nat.add_mod_right]
    exact Nat.mod_eq_of_lt (by omega)
  unfold match_
  rw [hlocal]
  dsimp only
  rw [ha.read_octets (by omega), hb.read_octets (Nat.min_le_right ..)]
  dsimp only [bind, Except.bind, verdict]
  simp only [decide_eq_true_eq]
  split
  · split
    · rfl
    · split <;> rfl
  · rfl

/-- **`match` classifies the octets from the index on** exactly if the octets that are compared, the first ones, match
the other array just when those from the index on do. -/
theorem match_iff (ha : a.WellFormed) (hb : b.WellFormed) (hsize : a.size_ < 2 ^ 64) (hindex : index ≤ a.size_) :
    a.match_ b index = .ok (classify (a.octets.drop index) b.octets) ↔
      (a.octets.take (min (a.size_ - index) b.size_) = b.octets.take (min (a.size_ - index) b.size_) ↔
        (a.octets.drop index).take (min (a.size_ - index) b.size_) =
          b.octets.take (min (a.size_ - index) b.size_)) := by
  rw [match_eq ha hb hsize hindex, classify_eq, List.length_drop, ha.length_octets, hb.length_octets,
    Except.ok.injEq, verdict_eq_iff, decide_eq_decide]

/-- Three octets in the memory that is allocated for them. -/
def three (c d e : Octet) : Bytes := ⟨some ([c, d, e] ++ List.replicate 29 0), 3, 32⟩

theorem wellFormed_three (c d e : Octet) : (three c d e).WellFormed := wellFormed_chunk rfl

/-- Two octets. -/
def two (c d : Octet) : Bytes := ⟨some ([c, d] ++ List.replicate 30 0), 2, 32⟩

/-- From the second octet of `aaa` on there is `aa`, as in front. -/
theorem match_iff_second : (three 97 97 97).match_ (two 97 97) 1 = .ok (.full, 2) :=
  (match_iff (wellFormed_three 97 97 97) (wellFormed_chunk rfl) (by decide) (by decide)).mpr (by decide)

/-- From the second octet of `xab` on there is `ab`, the beginning of `abc`, but `xa` is compared. -/
theorem match_ignores_index :
    (three 120 97 98).WellFormed ∧ (three 97 98 99).WellFormed ∧ 1 ≤ (three 120 97 98).size_ ∧
      (three 120 97 98).match_ (three 97 98 99) 1 = .ok (.mismatch, 0) ∧
      classify ((three 120 97 98).octets.drop 1) (three 97 98 99).octets = (.contained, 2) :=
  ⟨wellFormed_three 120 97 98, wellFormed_three 97 98 99, by decide, by decide, by decide⟩

end Bytes
end Dodo.Common
