import Dodo.Common.OpenSSL.Encode
import Dodo.Lib.Agree
import Dodo.Lib.While

/-!
# `Common.OpenSSL.Decode` — `EVP_DecodeUpdate` and `EVP_DecodeFinal`

Characters are collected, and decoded when there are 64 of them or no more follow. A group of four gives three octets,
also where it ends with padding: `EVP_DecodeUpdate` then goes back by as many octets as there was padding, but it has
written them.

## Contents
- **Characters and blocks.** `decodeBlock` writes the octets of a block to memory; `blockOctets` is these octets.
- **Functions.** `decodeUpdate` and `decodeFinal`, for any target that blocks can be written to. One target is memory
  (`Target.emit`), the other one is a text that grows (`emitOctets`).
- **Refinement.** `Holds n b` relates the targets as long as memory of `n` octets has room for `b` more characters. Every
  operation keeps it, so `decodeCalls` has the same outcome on both, and does not overrun the memory
  (`decodeCalls_agree`).
- **Encoded texts.** The decoder returns what has been encoded (`decodeCalls_encode`).
-/

namespace Dodo.Common.OpenSSL

open Lib Buffer

/-! ## Characters and blocks -/

/-- What `conv_ascii2bin` makes of a character. -/
inductive Code where
  | bits (n : Nat)
  | ws
  | eoln
  | cr
  | eof
  | error
deriving DecidableEq, Repr

/-- Padding counts as zero bits, and a `-` ends the text. -/
def ascii2bin (c : Octet) : Code :=
  match Base64.value c with
  | some n => .bits n
  | none =>
    if c = Base64.pad then .bits 0
    else if c = 9 ∨ c = 32 then .ws
    else if c = 10 then .eoln
    else if c = 13 then .cr
    else if c = 45 then .eof
    else .error

/-- `B64_BASE64`. -/
def Code.isBase64 : Code → Bool
  | .ws | .eoln | .cr | .eof => false
  | .bits _ | .error => true

/-- The line without the blanks before it, and without what ends it if more than three characters are left. -/
def strip (f : Str) : Str :=
  let f := f.dropWhile (fun c => ascii2bin c = .ws)
  While.loop (fun f => decide (3 < f.length) && f.getLast?.any (fun c => !(ascii2bin c).isBase64)) List.dropLast
    f.length f

/-- The octets of a group of four. -/
def group (a b c d : Nat) : Str := [(a * 4 + b / 16).toUInt8, (b % 16 * 16 + c / 4).toUInt8, (c % 4 * 64 + d).toUInt8]

/-- The octets of all groups. -/
def groups : Str → Except Stop Str
  | a :: b :: c :: d :: f =>
    match ascii2bin a, ascii2bin b, ascii2bin c, ascii2bin d with
    | .bits a, .bits b, .bits c, .bits d => do return group a b c d ++ (← groups f)
    | _, _, _, _ => .error .failed
  | _ => .ok []

/-- The loop over the groups of a block: the memory, and the position behind the last group. -/
def decodeGroups : Str → Nat → Str → Except Stop (Str × Nat)
  | out, t, a :: b :: c :: d :: f =>
    match ascii2bin a, ascii2bin b, ascii2bin c, ascii2bin d with
    | .bits a, .bits b, .bits c, .bits d =>
      match store out t (group a b c d) with
      | none => .error .overrun
      | some out => decodeGroups out (t + 3) f
    | _, _, _, _ => .error .failed
  | out, t, _ => .ok (out, t)

def blockOctets (f : Str) : Except Stop Str :=
  let f := strip f
  if f.length % 4 ≠ 0 then .error .failed else groups f

/-- `evp_decodeblock_int`: the memory and the number of octets. -/
def decodeBlock (out : Str) (t : Nat) (f : Str) : Except Stop (Str × Nat) := do
  let f := strip f
  if f.length % 4 ≠ 0 then .error .failed
  else
    let (out, t') ← decodeGroups out t f
    return (out, t' - t)

/-! ## Functions -/

/-- The memory, and the number of octets in it. -/
structure Target where
  out : Str
  ret : Nat
deriving DecidableEq, Repr

/-- A block is written behind the octets, and `eof` of its octets are given up. -/
def Target.emit (t : Target) (data : Str) (eof : Nat) : Except Stop Target := do
  let (out, n) ← decodeBlock t.out t.ret data
  -- the octets of the padding stay in the memory, and the next block overwrites them
  if n < eof then .error .failed else return ⟨out, t.ret + (n - eof)⟩

def emitOctets (octets data : Str) (eof : Nat) : Except Stop Str := do
  let block ← blockOctets data
  if block.length < eof then .error .failed else return octets ++ block.take (block.length - eof)

section Functions

variable {σ : Type} (emit : σ → Str → Nat → Except Stop σ)

/-- The characters that wait in `ctx`, the number of paddings, and what has been decoded. -/
structure Decoding (σ : Type) where
  enc_data : Str
  eof : Nat
  target : σ
deriving DecidableEq, Repr

/-- The characters that wait are decoded. -/
def Decoding.flush (s : Decoding σ) : Except Stop (Decoding σ) := do
  return ⟨[], s.eof, ← emit s.target s.enc_data s.eof⟩

/-- The body of the loop of `EVP_DecodeUpdate`, and whether the text ends (`seof`). -/
def Decoding.pass (s : Decoding σ) (c : Octet) : Except Stop (Decoding σ × Bool) :=
  let v := ascii2bin c
  let eof := if c = Base64.pad then s.eof + 1 else s.eof
  if v = .error then .error .failed
  -- more data after padding
  else if c ≠ Base64.pad ∧ 0 < s.eof ∧ v.isBase64 then .error .failed
  else if 2 < eof then .error .failed
  else if v = .eof then .ok (⟨s.enc_data, eof, s.target⟩, true)
  else if v.isBase64 && decide (64 ≤ s.enc_data.length) then .error .failed
  else do
    let s := ⟨if v.isBase64 then s.enc_data ++ [c] else s.enc_data, eof, s.target⟩
    if s.enc_data.length = 64 then return (← s.flush emit, false) else return (s, false)

def Decoding.loop : Str → Decoding σ → Except Stop (Decoding σ × Bool)
  | [], s => .ok (s, false)
  | c :: input, s => do
    let (s, seof) ← s.pass emit c
    if seof then return (s, true) else Decoding.loop input s

/-- What follows the loop. -/
def Decoding.tail (s : Decoding σ) (seof : Bool) : Except Stop (Decoding σ) :=
  if s.enc_data = [] then .ok s
  else if s.enc_data.length % 4 = 0 then s.flush emit
  -- the text ends inside a group
  else if seof then .error .failed
  else .ok s

/-- `EVP_DecodeUpdate( ctx, out, &outl, input, inl )` after `EVP_DecodeInit( ctx )`. -/
def decodeUpdate (target : σ) (input : Str) (inl : Int) : Except Stop (Decoding σ) := do
  let s : Decoding σ := ⟨[], 0, target⟩
  if inl = 0 then return s
  else
    let (s, seof) ← Decoding.loop emit (input.take inl.toNat) s
    s.tail emit seof

/-- `EVP_DecodeFinal( ctx, out + outl, &len )`. -/
def decodeFinal (s : Decoding σ) : Except Stop σ :=
  if s.enc_data = [] then .ok s.target else emit s.target s.enc_data 0

/-- One call after the other. -/
def decodeCalls (target : σ) (input : Str) (inl : Int) : Except Stop σ := do
  decodeFinal emit (← decodeUpdate emit target input inl)

end Functions

/-! ## Refinement -/

variable {out octets data f input : Str} {t n b eof : Nat} {c : Octet} {inl : Int}

theorem length_group (a b c d : Nat) : (group a b c d).length = 3 := rfl

theorem length_strip_le (f : Str) : (strip f).length ≤ f.length := by
  have hdrop : (f.dropWhile (fun c => ascii2bin c = .ws)).length ≤ f.length := List.length_dropWhile_le _ _
  unfold strip
  refine (While.steps_loop _ _).preserves (P := fun g : Str => g.length ≤ f.length) ?_ hdrop
  intro g _ hg
  rw [List.length_dropLast]
  omega

/-- The groups are written one behind the other. -/
theorem decodeGroups_agree (out : Str) (t : Nat) (f : Str) (hroom : t + 3 * (f.length / 4) ≤ out.length) :
    Agree (· = .failed) (fun r o => Writes out t o r.1 ∧ r.2 = t + o.length ∧ o.length = 3 * (f.length / 4))
      (decodeGroups out t f) (groups f) := by
  fun_induction groups f generalizing out t with
  | case1 a b c d f a' b' c' d' hd hc hb ha ih =>
      -- the room for one group more than the rest has
      simp only [List.length_cons] at hroom
      have hlength : (f.length + 1 + 1 + 1 + 1) / 4 = f.length / 4 + 1 := by omega
      rw [hlength] at hroom
      obtain ⟨out₁, hstore, hout₁⟩ := exists_store out t (group a' b' c' d') (by rw [length_group]; omega)
      unfold decodeGroups
      simp only [ha, hb, hc, hd, hstore]
      have hrest := ih out₁ (t + 3) (by omega)
      generalize decodeGroups out₁ (t + 3) f = x at hrest ⊢
      generalize groups f = y at hrest ⊢
      cases hrest with
      | error h => exact .error h
      | ok h =>
          obtain ⟨hwrites, hpos, hthree⟩ := h
          refine .ok ⟨(writes_of_store hstore).append hwrites, ?_, ?_⟩
          · rw [hpos, List.length_append, length_group]
            omega
          · rw [List.length_append, length_group, hthree]
            simp only [List.length_cons]
            omega
  | case2 a b c d f h =>
      unfold decodeGroups
      split
      · exact (h _ _ _ _ ‹_› ‹_› ‹_› ‹_›).elim
      · exact .error rfl
  | case3 f h =>
      have hout : t ≤ out.length := by omega
      -- fewer than four characters are left
      match f, h with
      | [], _ | [_], _ | [_, _], _ | [_, _, _], _ => exact .ok ⟨.nil hout, rfl, by simp⟩
      | a :: b :: c :: d :: f, h => exact (h a b c d f rfl).elim

theorem decodeBlock_agree (out : Str) (t : Nat) (f : Str) (hroom : t + 3 * (f.length / 4) ≤ out.length) :
    Agree (· = .failed) (fun r o => Writes out t o r.1 ∧ r.2 = o.length ∧ o.length ≤ 3 * (f.length / 4))
      (decodeBlock out t f) (blockOctets f) := by
  have hstrip := length_strip_le f
  unfold decodeBlock blockOctets
  dsimp only
  split
  · exact .error rfl
  · have hgroups := decodeGroups_agree out t (strip f) (by omega)
    generalize decodeGroups out t (strip f) = x at hgroups ⊢
    generalize groups (strip f) = y at hgroups ⊢
    cases hgroups with
    | error h => exact .error h
    | ok h =>
        obtain ⟨hwrites, hpos, hthree⟩ := h
        refine .ok ⟨hwrites, ?_, by omega⟩
        rw [hpos]
        exact Nat.add_sub_cancel_left _ _

/-- Memory of `n` octets holds the octets, and has room for those of `b` characters that are still to come. -/
structure Holds (n b : Nat) (m : Target) (octets : Str) : Prop where
  size : m.out.length = n
  ret_eq : m.ret = octets.length
  take_eq : m.out.take m.ret = octets
  room : m.ret + 3 * (b / 4) ≤ n

theorem Holds.mono {m : Target} {b' : Nat} (h : Holds n b m octets) (hle : b' ≤ b) : Holds n b' m octets where
  size := h.size
  ret_eq := h.ret_eq
  take_eq := h.take_eq
  room := by
    have hroom := h.room
    omega

theorem emit_agree {m : Target} (h : Holds n (b + data.length) m octets) :
    Agree (· = .failed) (Holds n b) (m.emit data eof) (emitOctets octets data eof) := by
  have hroom := h.room
  have hsize := h.size
  -- the characters of the block are among those that there is room for
  refine (decodeBlock_agree m.out m.ret data (by omega)).bind ?_
  rintro ⟨out, len⟩ block ⟨hwrites, hlen, hlength⟩
  dsimp only at hwrites hlen ⊢
  subst hlen
  split
  · exact .error rfl
  · refine .ok ⟨hwrites.length_eq.trans hsize, ?_, ?_, ?_⟩
    · show m.ret + (block.length - eof) = _
      rw [h.ret_eq, List.length_append, List.length_take]
      omega
    · -- what is given up is behind the octets
      have htake := (hwrites.take (block.length - eof)).take_eq
      rw [h.take_eq, List.length_take, Nat.min_eq_left (Nat.sub_le _ _)] at htake
      exact htake
    · show m.ret + (block.length - eof) + 3 * (b / 4) ≤ n
      omega

/-- The decoders are in the same state, with `b` characters to come. -/
structure Related (n b : Nat) (s : Decoding Target) (s' : Decoding Str) : Prop where
  enc_data_eq : s.enc_data = s'.enc_data
  eof_eq : s.eof = s'.eof
  holds : Holds n (b + s.enc_data.length) s.target s'.target

variable {s : Decoding Target} {s' : Decoding Str}

theorem flush_agree (h : Related n b s s') :
    Agree (· = .failed) (Related n b) (s.flush Target.emit) (s'.flush emitOctets) := by
  unfold Decoding.flush
  rw [← h.enc_data_eq, ← h.eof_eq]
  refine (emit_agree h.holds).bind ?_
  intro m octets hm
  exact .ok ⟨rfl, rfl, hm⟩

/-- A character is collected or skipped. -/
theorem Related.push (h : Related n (b + 1) s s') (keep : Bool) (c : Octet) (eof : Nat) :
    Related n b ⟨if keep then s.enc_data ++ [c] else s.enc_data, eof, s.target⟩
      ⟨if keep then s'.enc_data ++ [c] else s'.enc_data, eof, s'.target⟩ := by
  refine ⟨by rw [h.enc_data_eq], rfl, h.holds.mono ?_⟩
  cases keep with
  | true =>
      show b + (s.enc_data ++ [c]).length ≤ b + 1 + s.enc_data.length
      rw [List.length_append, List.length_singleton]
      omega
  | false =>
      show b + s.enc_data.length ≤ b + 1 + s.enc_data.length
      omega

theorem pass_agree (h : Related n (b + 1) s s') :
    Agree (· = .failed) (fun r r' => Related n b r.1 r'.1 ∧ r.2 = r'.2) (s.pass Target.emit c)
      (s'.pass emitOctets c) := by
  have hpush := h.push (ascii2bin c).isBase64 c (if c = Base64.pad then s.eof + 1 else s.eof)
  unfold Decoding.pass
  rw [← h.eof_eq, ← h.enc_data_eq]
  rw [← h.enc_data_eq] at hpush
  dsimp only
  generalize (if c = Base64.pad then s.eof + 1 else s.eof) = eof at hpush ⊢
  generalize (if (ascii2bin c).isBase64 = true then s.enc_data ++ [c] else s.enc_data) = enc_data at hpush ⊢
  split
  · exact .error rfl
  split
  · exact .error rfl
  split
  · exact .error rfl
  split
  · exact .ok ⟨⟨rfl, rfl, h.holds.mono (by dsimp only; omega)⟩, rfl⟩
  split
  · exact .error rfl
  split
  · refine (flush_agree hpush).bind ?_
    intro r r' hr
    exact .ok ⟨hr, rfl⟩
  · exact .ok ⟨hpush, rfl⟩

/-- All characters. -/
theorem loop_agree (h : Related n input.length s s') :
    Agree (· = .failed) (fun r r' => Related n 0 r.1 r'.1 ∧ r.2 = r'.2) (s.loop Target.emit input)
      (s'.loop emitOctets input) := by
  induction input generalizing s s' with
  | nil => exact .ok ⟨h, rfl⟩
  | cons c input ih =>
      refine (pass_agree h).bind ?_
      rintro ⟨r, seof⟩ ⟨r', seof'⟩ ⟨hr, rfl⟩
      cases seof with
      | true => exact .ok ⟨⟨hr.enc_data_eq, hr.eof_eq, hr.holds.mono (by dsimp only; omega)⟩, rfl⟩
      | false => exact ih hr

theorem tail_agree (h : Related n 0 s s') (seof : Bool) :
    Agree (· = .failed) (Related n 0) (s.tail Target.emit seof) (s'.tail emitOctets seof) := by
  unfold Decoding.tail
  rw [← h.enc_data_eq]
  split
  · exact .ok h
  split
  · exact flush_agree h
  split
  · exact .error rfl
  · exact .ok h

theorem decodeUpdate_agree {m : Target} (h : Holds n (input.take inl.toNat).length m octets) :
    Agree (· = .failed) (Related n 0) (decodeUpdate Target.emit m input inl)
      (decodeUpdate emitOctets octets input inl) := by
  unfold decodeUpdate
  dsimp only
  split
  · exact .ok ⟨rfl, rfl, h.mono (Nat.zero_le _)⟩
  · have hstart : Related n (input.take inl.toNat).length ⟨[], 0, m⟩ ⟨[], 0, octets⟩ := ⟨rfl, rfl, h⟩
    refine (loop_agree hstart).bind ?_
    rintro ⟨r, seof⟩ ⟨r', seof'⟩ ⟨hr, rfl⟩
    exact tail_agree hr seof

theorem decodeFinal_agree (h : Related n 0 s s') :
    Agree (· = .failed) (Holds n 0) (decodeFinal Target.emit s) (decodeFinal emitOctets s') := by
  unfold decodeFinal
  rw [← h.enc_data_eq]
  split
  · exact .ok (h.holds.mono (Nat.zero_le _))
  · exact emit_agree h.holds

/-- At the beginning, with room for three octets for every four characters that are given. -/
theorem holds_start (hroom : 3 * ((input.take inl.toNat).length / 4) ≤ out.length) :
    Holds out.length (input.take inl.toNat).length ⟨out, 0⟩ [] := by
  refine ⟨rfl, rfl, rfl, ?_⟩
  show 0 + _ ≤ _
  rw [Nat.zero_add]
  exact hroom

/-- **The memory**: where there is room, both calls have the outcome that they have on a text. -/
theorem decodeCalls_agree (out input : Str) (inl : Int) (hroom : 3 * ((input.take inl.toNat).length / 4) ≤ out.length) :
    Agree (· = .failed) (Holds out.length 0) (decodeCalls Target.emit ⟨out, 0⟩ input inl)
      (decodeCalls emitOctets [] input inl) := by
  refine (decodeUpdate_agree (holds_start hroom)).bind ?_
  intro s s' hs
  exact decodeFinal_agree hs

/-- A text gives at most three octets for every four characters, as these also fit into memory of that size. -/
theorem length_of_decodeCalls (h : decodeCalls emitOctets [] input inl = .ok octets) :
    octets.length ≤ 3 * ((input.take inl.toNat).length / 4) := by
  have hsize : (List.replicate (3 * ((input.take inl.toNat).length / 4)) (0 : Octet)).length =
    3 * ((input.take inl.toNat).length / 4) := List.length_replicate
  obtain ⟨m, -, hholds⟩ := (decodeCalls_agree _ input inl (Nat.le_of_eq hsize.symm)).exists_ok h
  have hroom := hholds.room
  rw [hholds.ret_eq, hsize] at hroom
  exact hroom

/-! ## Encoded texts -/

/-- A character with bits: a digit or padding. -/
def HasBits (c : Octet) : Prop := ∃ n, ascii2bin c = .bits n

theorem ascii2bin_of_value {n : Nat} (h : Base64.value c = some n) : ascii2bin c = .bits n := by
  unfold ascii2bin
  rw [h]

theorem ascii2bin_pad : ascii2bin Base64.pad = .bits 0 := by decide

theorem ascii2bin_digit {n : Nat} (h : n < 64) : ascii2bin (Base64.digit n) = .bits n :=
  ascii2bin_of_value (Base64.value_digit h)

/-- Nothing is stripped from characters with bits. -/
theorem strip_eq_self (h : ∀ c ∈ f, HasBits c) : strip f = f := by
  have hblanks : f.dropWhile (fun c => ascii2bin c = .ws) = f := by
    rw [List.dropWhile_eq_self_iff]
    intro hpos
    obtain ⟨n, hn⟩ := h _ (List.getElem_mem hpos)
    simp [hn]
  unfold strip
  rw [hblanks]
  apply While.loop_of_ended
  rw [Bool.and_eq_false_iff]
  right
  cases hlast : f.getLast? with
  | none => rfl
  | some c =>
      obtain ⟨n, hn⟩ := h c (List.mem_of_getLast? hlast)
      simp [hn, Code.isBase64]

theorem groups_cons {a b c d : Octet} {i j k l : Nat} (ha : ascii2bin a = .bits i) (hb : ascii2bin b = .bits j)
    (hc : ascii2bin c = .bits k) (hd : ascii2bin d = .bits l) :
    groups (a :: b :: c :: d :: f) = do return group i j k l ++ (← groups f) := by
  rw [groups]
  simp only [ha, hb, hc, hd]

/-- Whole groups of characters with bits can be decoded. -/
theorem exists_groups (h : ∀ c ∈ f, HasBits c) : ∃ o, groups f = .ok o ∧ o.length = 3 * (f.length / 4) := by
  fun_induction groups f with
  | case1 a b c d f a' b' c' d' hd hc hb ha ih =>
      simp only [List.forall_mem_cons] at h
      obtain ⟨o, ho, hlength⟩ := ih h.2.2.2.2
      refine ⟨group a' b' c' d' ++ o, ?_, ?_⟩
      · rw [ho]
        rfl
      · rw [List.length_append, length_group, hlength]
        simp only [List.length_cons]
        omega
  | case2 a b c d f hbits =>
      simp only [List.forall_mem_cons] at h
      obtain ⟨⟨i, hi⟩, ⟨j, hj⟩, ⟨k, hk⟩, ⟨l, hl⟩, -⟩ := h
      exact (hbits i j k l hi hj hk hl).elim
  | case3 f hshort =>
      match f, hshort with
      | [], _ | [_], _ | [_, _], _ | [_, _, _], _ => exact ⟨[], rfl, by simp⟩
      | a :: b :: c :: d :: f, hshort => exact (hshort a b c d f rfl).elim

theorem groups_append {g o o' : Str} (hlength : f.length % 4 = 0) (hf : groups f = .ok o) (hg : groups g = .ok o') :
    groups (f ++ g) = .ok (o ++ o') := by
  fun_induction groups f generalizing o with
  | case1 a b c d f a' b' c' d' hd hc hb ha ih =>
      simp only [List.length_cons] at hlength
      cases hrest : groups f with
      | error e =>
          rw [hrest] at hf
          cases hf
      | ok r =>
          rw [hrest] at hf
          obtain rfl := Except.ok.inj hf
          simp only [List.cons_append]
          rw [groups_cons ha hb hc hd, ih (by omega) hrest, List.append_assoc]
          rfl
  | case2 a b c d f hbits => cases hf
  | case3 f hshort =>
      match f, hshort with
      | [], _ =>
          obtain rfl := Except.ok.inj hf
          exact hg
      | [_], _ | [_, _], _ | [_, _, _], _ => simp at hlength
      | a :: b :: c :: d :: f, hshort => exact (hshort a b c d f rfl).elim

/-- The padding stands for octets that are zero. -/
theorem groups_encode (x : Str) :
    groups (Base64.encode x) = .ok (x ++ List.replicate (Base64.padding x.length) 0) := by
  fun_induction Base64.encode x with
  | case1 => rfl
  | case2 a =>
      have ha := a.toNat_lt
      have hzero : a.toNat % 4 * 16 % 16 = 0 := by omega
      rw [groups_cons (ascii2bin_digit (by omega)) (ascii2bin_digit (by omega)) ascii2bin_pad ascii2bin_pad, group,
        Base64.only_octet, hzero]
      rfl
  | case3 a b =>
      have ha := a.toNat_lt
      have hb := b.toNat_lt
      have hzero : b.toNat % 16 * 4 % 4 = 0 := by omega
      rw [groups_cons (ascii2bin_digit (by omega)) (ascii2bin_digit (by omega)) (ascii2bin_digit (by omega))
        ascii2bin_pad, group, Base64.first_octet, Base64.last_octet, hzero]
      rfl
  | case4 a b c l ih =>
      have ha := a.toNat_lt
      have hb := b.toNat_lt
      have hc := c.toNat_lt
      rw [groups_cons (ascii2bin_digit (by omega)) (ascii2bin_digit (by omega)) (ascii2bin_digit (by omega))
        (ascii2bin_digit (by omega)), group, Base64.first_octet, Base64.second_octet, Base64.third_octet, ih]
      simp only [List.length_cons, Base64.padding_group]
      rfl

/-- A block of characters with bits. -/
theorem emitOctets_eq {o : Str} (octets : Str) (hdata : ∀ c ∈ data, HasBits c) (hlength : data.length % 4 = 0)
    (ho : groups data = .ok o) (heof : eof ≤ o.length) :
    emitOctets octets data eof = .ok (octets ++ o.take (o.length - eof)) := by
  have hblock : blockOctets data = .ok o := by
    unfold blockOctets
    rw [strip_eq_self hdata, if_neg (by simp [hlength]), ho]
  unfold emitOctets
  rw [hblock]
  exact if_neg (Nat.not_lt.mpr heof)

/-- A character with bits is collected. -/
theorem pass_eq (s' : Decoding Str) (hc : HasBits c) (hdata : c ≠ Base64.pad → s'.eof = 0)
    (heof : (if c = Base64.pad then s'.eof + 1 else s'.eof) = eof) (htwo : eof ≤ 2) (hshort : s'.enc_data.length < 64) :
    s'.pass emitOctets c =
      if s'.enc_data.length + 1 = 64 then do
        return (← Decoding.flush emitOctets ⟨s'.enc_data ++ [c], eof, s'.target⟩, false)
      else .ok (⟨s'.enc_data ++ [c], eof, s'.target⟩, false) := by
  obtain ⟨n, hn⟩ := hc
  have hmore : ¬ (c ≠ Base64.pad ∧ 0 < s'.eof ∧ (ascii2bin c).isBase64 = true) := by
    rintro ⟨hpad, hpos, -⟩
    rw [hdata hpad] at hpos
    exact Nat.lt_irrefl 0 hpos
  unfold Decoding.pass
  dsimp only
  rw [if_neg (by simp [hn]), if_neg hmore, heof, if_neg (Nat.not_lt.mpr htwo), if_neg (by simp [hn]),
    if_neg (by simp [hn, Code.isBase64, hshort])]
  rw [hn]
  show (if (s'.enc_data ++ [c]).length = 64 then _ else _) = _
  rw [List.length_append, List.length_singleton]
  rfl

/-- The decoder has read `u`, whose full blocks are decoded. -/
structure HasRead (u : Str) (eof : Nat) (s : Decoding Str) : Prop where
  bits : ∀ c ∈ u, HasBits c
  eof_eq : s.eof = eof
  short : s.enc_data.length < 64
  blocks : ∃ q, u = q ++ s.enc_data ∧ q.length % 64 = 0 ∧ groups q = .ok s.target

theorem hasRead_nil : HasRead [] 0 ⟨[], 0, []⟩ := ⟨by simp, rfl, by simp, [], rfl, rfl, rfl⟩

variable {u w : Str} {eof' : Nat}

theorem HasRead.length_mod (h : HasRead u eof s') : u.length % 64 = s'.enc_data.length := by
  obtain ⟨q, hu, hq, -⟩ := h.blocks
  have hshort := h.short
  rw [hu, List.length_append]
  omega

/-- With one more character, what is read is what is decoded and a block. -/
theorem HasRead.block (h : HasRead u eof s') (hc : HasBits c) :
    (∀ d ∈ s'.enc_data ++ [c], HasBits d) ∧
    ∃ o, groups (s'.enc_data ++ [c]) = .ok o ∧ o.length = 3 * ((s'.enc_data.length + 1) / 4) ∧
      groups (u ++ [c]) = .ok (s'.target ++ o) := by
  obtain ⟨q, hu, hq, hgroups⟩ := h.blocks
  have hbits := h.bits
  rw [hu, List.forall_mem_append] at hbits
  have hdata : ∀ d ∈ s'.enc_data ++ [c], HasBits d :=
    List.forall_mem_append.mpr ⟨hbits.2, List.forall_mem_singleton.mpr hc⟩
  obtain ⟨o, ho, hlength⟩ := exists_groups hdata
  rw [List.length_append, List.length_singleton] at hlength
  refine ⟨hdata, o, ho, hlength, ?_⟩
  rw [hu, List.append_assoc]
  exact groups_append (by omega) hgroups ho

/-- A character inside of a text: padding does not complete a block there. -/
theorem HasRead.next (h : HasRead u eof s') (hc : HasBits c) (hdata : c ≠ Base64.pad → eof = 0)
    (heof : (if c = Base64.pad then eof + 1 else eof) = eof') (htwo : eof' ≤ 2)
    (hinside : eof' = 0 ∨ (u.length + 1) % 64 ≠ 0) :
    ∃ s₁, s'.pass emitOctets c = .ok (s₁, false) ∧ HasRead (u ++ [c]) eof' s₁ := by
  have hshort := h.short
  have hmod := h.length_mod
  have hbits : ∀ d ∈ u ++ [c], HasBits d := List.forall_mem_append.mpr ⟨h.bits, List.forall_mem_singleton.mpr hc⟩
  rw [← h.eof_eq] at hdata heof
  rw [pass_eq s' hc hdata heof htwo hshort]
  by_cases hfull : s'.enc_data.length + 1 = 64
  · have hzero : eof' = 0 := hinside.resolve_right (by omega)
    obtain ⟨hblock, o, ho, -, hall⟩ := h.block hc
    have hfour : (s'.enc_data ++ [c]).length % 4 = 0 := by
      rw [List.length_append, List.length_singleton, hfull]
    have hemit := emitOctets_eq s'.target hblock hfour ho (Nat.zero_le _)
    rw [Nat.sub_zero, List.take_length] at hemit
    rw [if_pos hfull, hzero, Decoding.flush, hemit]
    refine ⟨_, rfl, hbits, rfl, by simp, u ++ [c], by simp, ?_, hall⟩
    rw [List.length_append, List.length_singleton]
    omega
  · rw [if_neg hfull]
    obtain ⟨q, hu, hq, hgroups⟩ := h.blocks
    refine ⟨_, rfl, hbits, rfl, ?_, q, by rw [hu, List.append_assoc], hq, hgroups⟩
    rw [List.length_append, List.length_singleton]
    omega

/-- What follows the loop, up to the end of the second call. -/
def finish (r : Decoding Str × Bool) : Except Stop Str := r.1.tail emitOctets r.2 >>= decodeFinal emitOctets

/-- The last character of a text: its block is decoded, by the loop or behind it. -/
theorem HasRead.last {o : Str} (h : HasRead u eof s') (hc : HasBits c) (hdata : c ≠ Base64.pad → eof = 0)
    (heof : (if c = Base64.pad then eof + 1 else eof) = eof') (htwo : eof' ≤ 2) (hlength : (u ++ [c]).length % 4 = 0)
    (ho : groups (u ++ [c]) = .ok o) :
    (s'.loop emitOctets [c] >>= finish) = .ok (o.take (o.length - eof')) := by
  have hmod := h.length_mod
  have hfour : (s'.enc_data ++ [c]).length % 4 = 0 := by
    rw [List.length_append, List.length_singleton] at hlength ⊢
    omega
  have hdecoded : ∃ s₁, Decoding.flush emitOctets ⟨s'.enc_data ++ [c], eof', s'.target⟩ = .ok s₁ ∧
      s₁.enc_data = [] ∧ s₁.target = o.take (o.length - eof') := by
    obtain ⟨hblock, block, hgroups, hthree, hall⟩ := h.block hc
    obtain rfl := Except.ok.inj (ho.symm.trans hall)
    have hroom : eof' ≤ block.length := by
      rw [List.length_append, List.length_singleton] at hfour
      omega
    rw [Decoding.flush, emitOctets_eq s'.target hblock hfour hgroups hroom]
    refine ⟨_, rfl, rfl, ?_⟩
    rw [List.length_append, Nat.add_sub_assoc hroom, List.take_length_add_append]
  obtain ⟨s₁, hflush, hnil, htarget⟩ := hdecoded
  rw [← h.eof_eq] at hdata heof
  unfold Decoding.loop
  rw [pass_eq s' hc hdata heof htwo h.short]
  by_cases hfull : s'.enc_data.length + 1 = 64
  · -- the loop has decoded the block, and nothing is left for what follows it
    rw [if_pos hfull, hflush]
    show (s₁.tail emitOctets false >>= decodeFinal emitOctets) = _
    rw [Decoding.tail, if_pos hnil]
    show decodeFinal emitOctets s₁ = _
    rw [decodeFinal, if_pos hnil, htarget]
  · rw [if_neg hfull]
    show (Decoding.tail emitOctets ⟨s'.enc_data ++ [c], eof', s'.target⟩ false >>= decodeFinal emitOctets) = _
    rw [Decoding.tail, if_neg (by simp), if_pos hfour, hflush]
    show decodeFinal emitOctets s₁ = _
    rw [decodeFinal, if_pos hnil, htarget]

/-- Digits are read one after the other. -/
theorem HasRead.digits (h : HasRead u 0 s') (hw : ∀ c ∈ w, ∃ n, Base64.value c = some n) (rest : Str) :
    ∃ s₁, s'.loop emitOctets (w ++ rest) = s₁.loop emitOctets rest ∧ HasRead (u ++ w) 0 s₁ := by
  induction w generalizing u s' with
  | nil => exact ⟨s', rfl, by rwa [List.append_nil]⟩
  | cons c w ih =>
      rw [List.forall_mem_cons] at hw
      obtain ⟨⟨n, hn⟩, hw⟩ := hw
      obtain ⟨s₁, hpass, hread⟩ := h.next ⟨n, ascii2bin_of_value hn⟩ (fun _ => rfl) (if_neg (Base64.ne_pad_of_value hn))
        (Nat.zero_le _) (.inl rfl)
      obtain ⟨s₂, hloop, hread₂⟩ := ih hread hw
      refine ⟨s₂, ?_, ?_⟩
      · rw [List.cons_append, Decoding.loop, hpass]
        exact hloop
      · rwa [List.append_assoc] at hread₂

theorem decodeCalls_eq (hinl : inl ≠ 0) :
    decodeCalls emitOctets [] input inl = (Decoding.loop emitOctets (input.take inl.toNat) ⟨[], 0, []⟩ >>= finish) := by
  unfold decodeCalls decodeUpdate
  dsimp only
  rw [if_neg hinl]
  cases Decoding.loop emitOctets (input.take inl.toNat) ⟨[], 0, []⟩ with
  | error e => rfl
  | ok r => rfl

/-- A text of digits with padding at its end. -/
theorem loop_text {o : Str} (hw : ∀ c ∈ w, ∃ n, Base64.value c = some n) (htwo : eof ≤ 2)
    (hlength : (w ++ List.replicate eof Base64.pad).length % 4 = 0) (hne : w ++ List.replicate eof Base64.pad ≠ [])
    (ho : groups (w ++ List.replicate eof Base64.pad) = .ok o) :
    (Decoding.loop emitOctets (w ++ List.replicate eof Base64.pad) ⟨[], 0, []⟩ >>= finish) =
      .ok (o.take (o.length - eof)) := by
  have hpad : HasBits Base64.pad := ⟨0, ascii2bin_pad⟩
  match eof, htwo with
  | 0, _ =>
      -- the last character is a digit
      rw [List.replicate_zero, List.append_nil] at hlength hne ho ⊢
      obtain ⟨v, c, rfl⟩ := (List.eq_nil_or_concat w).resolve_left hne
      rw [List.concat_eq_append] at hw hlength ho ⊢
      obtain ⟨n, hn⟩ := hw c (by simp)
      obtain ⟨s₁, hloop, hread⟩ := hasRead_nil.digits (fun d hd => hw d (List.mem_append_left _ hd)) [c]
      rw [hloop]
      exact hread.last ⟨n, ascii2bin_of_value hn⟩ (fun _ => rfl) (if_neg (Base64.ne_pad_of_value hn)) (Nat.zero_le _)
        hlength ho
  | 1, _ =>
      obtain ⟨s₁, hloop, hread⟩ := hasRead_nil.digits hw [Base64.pad]
      rw [List.replicate_one] at hlength ho ⊢
      rw [hloop]
      exact hread.last hpad (fun h => absurd rfl h) (if_pos rfl) (by decide) hlength ho
  | 2, _ =>
      obtain ⟨s₁, hloop, hread⟩ := hasRead_nil.digits hw [Base64.pad, Base64.pad]
      have htext : w ++ List.replicate 2 Base64.pad = w ++ [Base64.pad] ++ [Base64.pad] := by
        rw [List.append_assoc]
        rfl
      rw [htext] at hlength ho
      -- the first padding is the third character of its group
      have hinside : (w.length + 1) % 64 ≠ 0 := by
        rw [List.length_append, List.length_append, List.length_singleton] at hlength
        omega
      obtain ⟨s₂, hpass, hread₂⟩ := hread.next hpad (fun h => absurd rfl h) (if_pos rfl) (by decide) (.inr hinside)
      have hfirst : s₁.loop emitOctets [Base64.pad, Base64.pad] = s₂.loop emitOctets [Base64.pad] := by
        rw [Decoding.loop, hpass]
        rfl
      show (Decoding.loop emitOctets (w ++ [Base64.pad, Base64.pad]) ⟨[], 0, []⟩ >>= finish) = _
      rw [hloop, hfirst]
      exact hread₂.last hpad (fun h => absurd rfl h) (if_pos rfl) (by decide) hlength ho

/-- **Encoded texts** are decoded to what they encode. -/
theorem decodeCalls_encode (x : Str) :
    decodeCalls emitOctets [] (Base64.encode x) (Base64.encode x).length = .ok x := by
  by_cases hx : x = []
  · subst hx
    rfl
  have hne := Base64.encode_ne_nil hx
  have hpos := List.length_pos_iff.mpr hne
  have hfour : (Base64.encode x).length % 4 = 0 := by
    rw [Base64.encode_length]
    omega
  have htwo : Base64.padding x.length ≤ 2 := by
    unfold Base64.padding
    omega
  have hgroups := groups_encode x
  rw [decodeCalls_eq (by omega), Int.toNat_natCast, List.take_length]
  obtain ⟨w, hw, hdigits⟩ := Base64.encode_eq_append x
  rw [hw] at hne hfour hgroups ⊢
  rw [loop_text hdigits htwo hfour hne hgroups, List.length_append, List.length_replicate, Nat.add_sub_cancel,
    List.take_left' rfl]

end Dodo.Common.OpenSSL
