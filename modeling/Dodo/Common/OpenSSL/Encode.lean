import Dodo.Common.Bytes
import Dodo.Lib.Buffer

/-!
# `Common.OpenSSL.Encode` — `EVP_EncodeUpdate` and `EVP_EncodeFinal`

The functions of OpenSSL that write base64, with the memory that they are given. They are not told how large it is: a
call that would write behind its end is an overrun. The octets are written in lines, each followed by a zero that the
next line overwrites, so that one octet more is needed than there are characters.

## Contents
- **Functions.** `encodeUpdate` writes the full lines and stops when it has written more than an `int` can count;
  `encodeFinal` writes what is left. `encodeCalls` is one after the other.
- **What is written.** A step lemma for each line and `loop_lines` for the loop. `encodeCalls_cases` is how both
  calls end; `encodeCalls_safe` is the memory that suffices for them, and `encodeCalls_overrun_iff` says that no less
  does.
-/

namespace Dodo.Common.OpenSSL

open Lib Buffer

/-- How a function ends other than by success. -/
inductive Stop where
  /-- It writes behind the end of the memory. -/
  | overrun
  /-- It reports an error. -/
  | failed
deriving DecidableEq, Repr

/-! ## Functions -/

/-- The largest `int`. -/
def INT_MAX : Nat := 2 ^ 31 - 1

/-- The number of octets in a line (`ctx->length`). -/
def lineOctets : Nat := 48

/-- `evp_encodeblock_int`: the characters with a zero behind them, and their number. -/
def encodeBlock (out : Str) (pos : Nat) (data : Str) : Option (Str × Nat) := do
  let text := Base64.encode data
  let out ← store out pos text
  let out ← store out (pos + text.length) [0]
  return (out, text.length)

/-- A block with the end of its line. -/
def encodeLine (out : Str) (pos : Nat) (data : Str) : Option (Str × Nat) := do
  let (out, j) ← encodeBlock out pos data
  let out ← store out (pos + j) [Base64.newline]
  let out ← store out (pos + j + 1) [0]
  return (out, j + 1)

/-- The variables of `EVP_EncodeUpdate`: `out` points behind the `total` characters that are written. -/
structure Encoding where
  out : Str
  total : Nat
  input : Str
deriving DecidableEq, Repr

/-- The body of its loop. -/
def Encoding.pass (s : Encoding) : Option Encoding := do
  let (out, j) ← encodeLine s.out s.total (s.input.take lineOctets)
  return ⟨out, s.total + j, s.input.drop lineOctets⟩

/-- The loop; `n` bounds the number of passes, which each take a line from the input. -/
def Encoding.loop : Nat → Encoding → Option Encoding
  | 0, s => some s
  | n + 1, s => if lineOctets ≤ s.input.length ∧ s.total ≤ INT_MAX then s.pass.bind (Encoding.loop n) else some s

/-- What `EVP_EncodeUpdate` leaves: the number of characters in `outl`, the memory, and the octets that wait in `ctx`
for the rest of their line. -/
structure Updated where
  outl : Nat
  out : Str
  enc_data : Str
deriving DecidableEq, Repr

/-- `EVP_EncodeUpdate( ctx, out, &outl, input, inl )` after `EVP_EncodeInit( ctx )`. -/
def encodeUpdate (out input : Str) (inl : Int) : Except Stop Updated :=
  if inl ≤ 0 then .error .failed
  else
    let input := input.take inl.toNat
    if input.length < lineOctets then .ok ⟨0, out, input⟩
    else match Encoding.loop input.length ⟨out, 0, input⟩ with
      | none => .error .overrun
      | some s => if INT_MAX < s.total then .error .failed else .ok ⟨s.total, s.out, s.input⟩

/-- `EVP_EncodeFinal( ctx, out + pos, &outl )`; the number is `outl`. -/
def encodeFinal (enc_data out : Str) (pos : Nat) : Except Stop (Str × Nat) :=
  if enc_data = [] then .ok (out, 0)
  else match encodeLine out pos enc_data with
    | none => .error .overrun
    | some r => .ok r

/-- Both calls, the second one behind what the first one has written: the memory and the number of characters. -/
def encodeCalls (out input : Str) (inl : Int) : Except Stop (Str × Nat) := do
  let updated ← encodeUpdate out input inl
  let (out, len) ← encodeFinal updated.enc_data updated.out updated.outl
  return (out, updated.outl + len)

/-! ## What is written -/

variable {out out' d x : Str} {pos j len n k : Nat} {s s' s₁ : Encoding}

/-- A line is its characters, its end and a zero. -/
theorem encodeLine_ok (h : encodeLine out pos d = some (out', j)) :
    j = (Base64.encode d).length + 1 ∧ Writes out pos (Base64.encode d ++ [Base64.newline] ++ [0]) out' := by
  unfold encodeLine encodeBlock at h
  simp only [Option.bind_eq_bind, Option.bind_eq_some_iff, Option.pure_def, Option.some.injEq, Prod.mk.injEq] at h
  obtain ⟨⟨out₂, _⟩, ⟨out₁, htext, out₂, hzero, rfl, rfl⟩, out₃, hnewline, out₄, hzero', rfl, rfl⟩ := h
  -- the end of the line overwrites the zero of the block
  have hblock := ((writes_of_store htext).append (writes_of_store hzero)).of_append
  have hline := hblock.append (writes_of_store hnewline)
  refine ⟨rfl, hline.append ?_⟩
  rw [List.length_append, List.length_singleton, ← Nat.add_assoc]
  exact writes_of_store hzero'

theorem encodeLine_room (out : Str) (pos : Nat) (d : Str)
    (hroom : pos + (Base64.encode d).length + 2 ≤ out.length) :
    ∃ out', encodeLine out pos d = some (out', (Base64.encode d).length + 1) := by
  generalize htext : Base64.encode d = text at hroom ⊢
  obtain ⟨out₁, hblock, hlength₁⟩ := exists_store out pos text (by omega)
  obtain ⟨out₂, hzero, hlength₂⟩ := exists_store out₁ (pos + text.length) [0] (by rw [List.length_singleton]; omega)
  obtain ⟨out₃, hnewline, hlength₃⟩ := exists_store out₂ (pos + text.length) [Base64.newline]
    (by rw [List.length_singleton]; omega)
  obtain ⟨out₄, hzero', -⟩ := exists_store out₃ (pos + text.length + 1) [0] (by rw [List.length_singleton]; omega)
  refine ⟨out₄, ?_⟩
  simp [encodeLine, encodeBlock, htext, hblock, hzero, hnewline, hzero']

/-- The characters of a full line. -/
theorem length_encode_take (h : 48 ≤ x.length) : (Base64.encode (x.take lineOctets)).length = 64 := by
  rw [Base64.encode_length, List.length_take, lineOctets, Nat.min_eq_left h]

/-- `k` lines of the input of `s` lead to `s'`. -/
structure Lines (k : Nat) (s s' : Encoding) : Prop where
  enough : 48 * k ≤ s.input.length
  total_eq : s'.total = s.total + 65 * k
  input_eq : s'.input = s.input.drop (48 * k)
  writes : Writes s.out s.total (Base64.linesUpTo k s.input) s'.out
  /-- There is a zero behind the last line. -/
  zero : 0 < k → s'.total + 1 ≤ s.out.length

theorem Lines.zero_lines (hroom : s.total ≤ s.out.length) : Lines 0 s s :=
  ⟨Nat.zero_le _, rfl, rfl, .nil hroom, fun h0 => absurd h0 (Nat.lt_irrefl 0)⟩

theorem pass_lines (h48 : 48 ≤ s.input.length) (h : s.pass = some s') : Lines 1 s s' := by
  unfold Encoding.pass at h
  simp only [Option.bind_eq_bind, Option.bind_eq_some_iff, Option.pure_def, Option.some.injEq] at h
  obtain ⟨⟨out', j⟩, hline, rfl⟩ := h
  obtain ⟨rfl, hwrites⟩ := encodeLine_ok hline
  have hroom := hwrites.room
  simp only [List.length_append, List.length_singleton, length_encode_take h48] at hroom
  have hne : s.input ≠ [] := List.length_pos_iff.mp (by omega)
  refine ⟨h48, ?_, rfl, ?_, fun _ => ?_⟩
  · show s.total + ((Base64.encode (s.input.take lineOctets)).length + 1) = s.total + 65
    rw [length_encode_take h48]
  · rw [Base64.linesUpTo_succ hne]
    exact hwrites.of_append
  · show s.total + ((Base64.encode (s.input.take lineOctets)).length + 1) + 1 ≤ s.out.length
    rw [length_encode_take h48]
    omega

/-- Lines follow lines. -/
theorem Lines.succ (h : Lines 1 s s₁) (h' : Lines k s₁ s') : Lines (k + 1) s s' := by
  have hfirst := h.enough
  have hne : s.input ≠ [] := List.length_pos_iff.mp (by omega)
  have hlength : (Base64.linesUpTo 1 s.input).length = 65 := by
    rw [Base64.linesUpTo_succ hne, List.length_append]
    show (Base64.encode (s.input.take lineOctets)).length + 1 = 65
    rw [length_encode_take h.enough]
  have hsplit : Base64.linesUpTo (k + 1) s.input =
      Base64.linesUpTo 1 s.input ++ Base64.linesUpTo k (s.input.drop 48) := by
    rw [Base64.linesUpTo_succ hne, Base64.linesUpTo_succ hne, List.append_assoc]
    rfl
  refine ⟨?_, ?_, ?_, ?_, fun _ => ?_⟩
  · have hrest := h'.enough
    rw [h.input_eq, List.length_drop] at hrest
    omega
  · rw [h'.total_eq, h.total_eq]
    omega
  · rw [h'.input_eq, h.input_eq, List.drop_drop]
    congr 1
    omega
  · rw [hsplit]
    refine h.writes.append ?_
    have hwrites := h'.writes
    rwa [h.input_eq, h.total_eq, Nat.mul_one, Nat.mul_one, ← hlength] at hwrites
  · cases k with
    | zero =>
        rw [h'.total_eq, Nat.mul_zero, Nat.add_zero]
        exact h.zero Nat.one_pos
    | succ k =>
        rw [← h.writes.length_eq]
        exact h'.zero (Nat.succ_pos k)

/-- The loop writes lines. -/
theorem loop_lines (hroom : s.total ≤ s.out.length) (h : Encoding.loop n s = some s') : ∃ k, Lines k s s' := by
  induction n generalizing s with
  | zero =>
      obtain rfl := Option.some.inj h
      exact ⟨0, .zero_lines hroom⟩
  | succ n ih =>
      unfold Encoding.loop at h
      split at h
      · rename_i hcond
        obtain ⟨s₁, hpass, hloop⟩ := Option.bind_eq_some_iff.mp h
        have hline := pass_lines hcond.1 hpass
        -- the zero behind the line shows that the next one starts inside the memory
        have hroom₁ : s₁.total ≤ s₁.out.length := by
          rw [hline.writes.length_eq]
          exact Nat.le_of_succ_le (hline.zero Nat.one_pos)
        obtain ⟨k, hlines⟩ := ih hroom₁ hloop
        exact ⟨k + 1, hline.succ hlines⟩
      · obtain rfl := Option.some.inj h
        exact ⟨0, .zero_lines hroom⟩

/-- The loop ends at less than a line, or with too much output. -/
theorem loop_end (hn : s.input.length ≤ n) (h : Encoding.loop n s = some s') :
    s'.input.length < 48 ∨ INT_MAX < s'.total := by
  induction n generalizing s with
  | zero =>
      obtain rfl := Option.some.inj h
      left
      omega
  | succ n ih =>
      unfold Encoding.loop at h
      split at h
      · rename_i hcond
        obtain ⟨s₁, hpass, hloop⟩ := Option.bind_eq_some_iff.mp h
        refine ih ?_ hloop
        rw [(pass_lines hcond.1 hpass).input_eq, List.length_drop]
        omega
      · rename_i hcond
        obtain rfl := Option.some.inj h
        unfold lineOctets at hcond
        omega

/-- With memory for all its lines and a zero the loop stays inside of it. -/
theorem loop_room (hroom : s.total + 65 * (s.input.length / 48) + 1 ≤ s.out.length) :
    ∃ s', Encoding.loop n s = some s' := by
  induction n generalizing s with
  | zero => exact ⟨s, rfl⟩
  | succ n ih =>
      unfold Encoding.loop
      split
      · rename_i hcond
        have h48 : 48 ≤ s.input.length := hcond.1
        obtain ⟨out', hline⟩ := encodeLine_room s.out s.total (s.input.take lineOctets)
          (by rw [length_encode_take h48]; omega)
        have hpass : ∃ s₁, s.pass = some s₁ := ⟨_, by rw [Encoding.pass, hline]; rfl⟩
        obtain ⟨s₁, hpass⟩ := hpass
        have hlines := pass_lines h48 hpass
        obtain ⟨s', hloop⟩ := ih (s := s₁) (by
          rw [hlines.total_eq, hlines.input_eq, List.length_drop, hlines.writes.length_eq]
          omega)
        exact ⟨s', by rw [hpass]; exact hloop⟩
      · exact ⟨s, rfl⟩

/-- What is left behind the full lines is the last line. -/
theorem encodeFinal_cases (hpos : pos ≤ out.length) (hshort : d.length < 48) :
    (encodeFinal d out pos = .error .overrun ∧ out.length < pos + (Base64.lines d).length + 1) ∨
    ∃ out', encodeFinal d out pos = .ok (out', (Base64.lines d).length) ∧ Writes out pos (Base64.lines d) out' ∧
      (d ≠ [] → pos + (Base64.lines d).length + 1 ≤ out.length) := by
  unfold encodeFinal
  split
  · rename_i hnil
    subst hnil
    exact .inr ⟨out, rfl, .nil hpos, fun hne => absurd rfl hne⟩
  · rename_i hne
    have hlines : Base64.lines d = Base64.encode d ++ [Base64.newline] := by
      rw [Base64.lines_step hne, List.take_of_length_le (by omega), List.drop_of_length_le (by omega)]
      rfl
    have hlength : (Base64.lines d).length = (Base64.encode d).length + 1 := by
      rw [hlines, List.length_append, List.length_singleton]
    cases hline : encodeLine out pos d with
    | none =>
        refine .inl ⟨rfl, Nat.lt_of_not_le fun hroom => ?_⟩
        obtain ⟨out', hout'⟩ := encodeLine_room out pos d (by omega)
        rw [hout'] at hline
        cases hline
    | some r =>
        obtain ⟨out', j⟩ := r
        obtain ⟨rfl, hwrites⟩ := encodeLine_ok hline
        have hroom := hwrites.room
        rw [← hlines, List.length_append, List.length_singleton] at hroom
        refine .inr ⟨out', ?_, ?_, fun _ => hroom⟩
        · rw [hlength]
        · rw [hlines]
          exact hwrites.of_append

/-- There are octets, and an `int` can count the characters of their full lines. -/
def Accepted (x : Str) : Prop := x ≠ [] ∧ 65 * (x.length / 48) ≤ INT_MAX

/-- How `EVP_EncodeUpdate` ends when it is given all octets. -/
theorem encodeUpdate_cases (out x : Str) :
    (encodeUpdate out x x.length = .error .failed ∧ ¬ Accepted x) ∨
    (encodeUpdate out x x.length = .error .overrun ∧ out.length < 65 * (x.length / 48) + 1) ∨
    ∃ u, encodeUpdate out x x.length = .ok u ∧ Accepted x ∧
      Lines (x.length / 48) ⟨out, 0, x⟩ ⟨u.out, u.outl, u.enc_data⟩ := by
  unfold encodeUpdate
  rw [Int.toNat_natCast, List.take_length]
  split
  · rename_i hinl
    exact .inl ⟨rfl, fun haccepted => haccepted.1 (List.length_eq_zero_iff.mp (by omega))⟩
  · rename_i hinl
    have hne : x ≠ [] := List.length_pos_iff.mp (by omega)
    dsimp only
    split
    · rename_i hshort
      have hzero : x.length / 48 = 0 := Nat.div_eq_of_lt hshort
      refine .inr (.inr ⟨_, rfl, ⟨hne, by rw [hzero]; exact Nat.zero_le _⟩, ?_⟩)
      rw [hzero]
      exact .zero_lines (Nat.zero_le _)
    · split
      · rename_i hloop
        -- with room for all full lines the loop would have ended
        refine .inr (.inl ⟨rfl, Nat.lt_of_not_le fun hroom => ?_⟩)
        obtain ⟨s', hs'⟩ := loop_room (n := x.length) (s := ⟨out, 0, x⟩) (by rw [Nat.zero_add]; exact hroom)
        rw [hs'] at hloop
        cases hloop
      · rename_i s' hloop
        obtain ⟨k, hlines⟩ := loop_lines (Nat.zero_le _) hloop
        have henough : 48 * k ≤ x.length := hlines.enough
        have htotal : s'.total = 65 * k := by rw [hlines.total_eq, Nat.zero_add]
        split
        · rename_i hmax
          refine .inl ⟨rfl, fun haccepted => ?_⟩
          have hfull := haccepted.2
          omega
        · rename_i hmax
          have hend := (loop_end (Nat.le_refl x.length) hloop).resolve_right hmax
          rw [hlines.input_eq, List.length_drop] at hend
          have hk : x.length / 48 = k := by
            dsimp only at hend
            omega
          exact .inr (.inr ⟨_, rfl, ⟨hne, by omega⟩, by rw [hk]; exact hlines⟩)

/-- **Both calls** end in one of three ways: with an error of the first, behind the end of the memory, or with the text
in lines and a zero, for which there is room. -/
theorem encodeCalls_cases (out x : Str) :
    (encodeCalls out x x.length = .error .failed ∧ ¬ Accepted x) ∨
    (encodeCalls out x x.length = .error .overrun ∧ out.length < Base64.linesLength x.length + 1) ∨
    ∃ out', encodeCalls out x x.length = .ok (out', Base64.linesLength x.length) ∧ Accepted x ∧
      Writes out 0 (Base64.lines x) out' ∧ Base64.linesLength x.length + 1 ≤ out.length := by
  have hfull : 65 * (x.length / 48) ≤ Base64.linesLength x.length := Nat.le_add_right _ _
  unfold encodeCalls
  rcases encodeUpdate_cases out x with ⟨hupdate, herror⟩ | ⟨hupdate, hshort⟩ | ⟨u, hupdate, haccepted, hlines⟩
  · rw [hupdate]
    exact .inl ⟨rfl, herror⟩
  · rw [hupdate]
    exact .inr (.inl ⟨rfl, by omega⟩)
  · rw [hupdate]
    have houtl : u.outl = 65 * (x.length / 48) := by
      rw [← Nat.zero_add (65 * _)]
      exact hlines.total_eq
    have hdata : u.enc_data = x.drop (48 * (x.length / 48)) := hlines.input_eq
    have hwait : u.enc_data.length = x.length % 48 := by
      rw [hdata, List.length_drop]
      omega
    have hout : u.out.length = out.length := hlines.writes.length_eq
    have htext : Base64.lines x = Base64.linesUpTo (x.length / 48) x ++ Base64.lines u.enc_data := by
      rw [hdata]
      exact Base64.lines_eq_append hlines.enough
    have hfirst : (Base64.linesUpTo (x.length / 48) x).length = u.outl := by
      have hlength := congrArg List.length htext
      rw [List.length_append, Base64.lines_length, Base64.lines_length, hwait] at hlength
      unfold Base64.linesLength at hlength
      rw [Nat.mod_mod, Nat.div_eq_of_lt (Nat.mod_lt x.length (by decide))] at hlength
      omega
    have htotal : Base64.linesLength x.length = u.outl + (Base64.lines u.enc_data).length := by
      rw [← Base64.lines_length, htext, List.length_append, hfirst]
    have hpos : u.outl ≤ u.out.length := by
      have hroom := hlines.writes.room
      rw [hfirst] at hroom
      dsimp only at hroom
      omega
    dsimp only [bind, Except.bind]
    rcases encodeFinal_cases hpos (hwait.trans_lt (Nat.mod_lt _ (by decide))) with
      ⟨hfinal, hshort⟩ | ⟨out', hfinal, hwrites, hzero⟩
    · rw [hfinal]
      exact .inr (.inl ⟨rfl, by omega⟩)
    · rw [hfinal]
      refine .inr (.inr ⟨out', by rw [htotal]; rfl, haccepted, ?_, ?_⟩)
      · rw [htext]
        refine hlines.writes.append ?_
        rw [hfirst]
        show Writes u.out (0 + u.outl) _ _
        rwa [Nat.zero_add]
      · -- the zero is that of the last call which has written a line
        by_cases hrest : u.enc_data = []
        · have hsome : 0 < x.length / 48 := by
            rw [hrest, List.length_nil] at hwait
            have hpos := List.length_pos_iff.mpr haccepted.1
            omega
          have hlast : u.outl + 1 ≤ out.length := hlines.zero hsome
          rw [htotal, hrest]
          exact hlast
        · have hlast := hzero hrest
          omega

section Room

variable (hroom : Base64.linesLength x.length + 1 ≤ out.length)
include hroom

theorem encodeCalls_failed (hx : ¬ Accepted x) : encodeCalls out x x.length = .error .failed := by
  rcases encodeCalls_cases out x with ⟨hcalls, -⟩ | ⟨-, hshort⟩ | ⟨out', -, haccepted, -⟩
  · exact hcalls
  · omega
  · exact absurd haccepted hx

theorem encodeCalls_ok (hx : Accepted x) :
    ∃ out', encodeCalls out x x.length = .ok (out', Base64.linesLength x.length) ∧
      out'.take (Base64.linesLength x.length) = Base64.lines x := by
  rcases encodeCalls_cases out x with ⟨-, hrefused⟩ | ⟨-, hshort⟩ | ⟨out', hcalls, -, hwrites, -⟩
  · exact absurd hx hrefused
  · omega
  · have htake := hwrites.take_eq
    rw [Nat.zero_add, List.take_zero, List.nil_append, Base64.lines_length] at htake
    exact ⟨out', hcalls, htake⟩

/-- With room for the text in lines and a zero, both calls stay inside the memory. -/
theorem encodeCalls_safe : encodeCalls out x x.length ≠ .error .overrun := by
  intro h
  by_cases hx : Accepted x
  · obtain ⟨out', hcalls, -⟩ := encodeCalls_ok hroom hx
    rw [hcalls] at h
    cases h
  · rw [encodeCalls_failed hroom hx] at h
    cases h

end Room

/-- Less memory does not suffice, unless there is an error first. -/
theorem encodeCalls_overrun_iff (hx : Accepted x) :
    encodeCalls out x x.length = .error .overrun ↔ out.length < Base64.linesLength x.length + 1 := by
  constructor
  · intro h
    exact Nat.lt_of_not_le fun hroom => encodeCalls_safe hroom h
  · intro hshort
    rcases encodeCalls_cases out x with ⟨-, hrefused⟩ | ⟨hcalls, -⟩ | ⟨out', -, -, -, hroom⟩
    · exact absurd hx hrefused
    · exact hcalls
    · omega

end Dodo.Common.OpenSSL
