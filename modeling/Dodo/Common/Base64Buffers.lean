import Dodo.Common.BytesOperations
import Dodo.Common.OpenSSL.Decode

/-!
# `Common.Base64Buffers` — the buffers of `encodeBase64` and `decodeBase64`

Both functions allocate a buffer before they know how much OpenSSL will write to it, and pass OpenSSL a pointer only.
The sizes are computed from the number of octets or characters: `base64sz` for a text in lines, and as many octets as
there are characters for a text that is decoded.

## Contents
- **Memory.** `encodeBase64` and `decodeBase64` on the memory of a `Bytes`, with the functions of OpenSSL on the
  buffers.
- **The library.** `openssl` fulfils what is assumed of OpenSSL elsewhere (`EvpBase64`).
- **Refinement.** On memory both functions end as they do on lists of octets with `openssl`. In particular they never
  access memory outside of what is allocated.
- **Sizes.** `base64_buffers_suffice`, and how much of the buffers is needed.
-/

namespace Dodo.Common.Bytes.Memory

open Lib Buffer OpenSSL

/-! ## Memory -/

/-- How a function of OpenSSL that has not succeeded ends the call. -/
def fault (text : Str) : Stop → BytesFault
  | .overrun => .memory .outOfBounds
  | .failed => .exception text

/-- The size of the buffer for the text of `n` octets. -/
def base64sz (n : Nat) : Nat := ((n / 48 + 1) * 65 + 1) % 2 ^ 64

def encodeBase64 (heap : Heap) (bytes : Bytes) : Except BytesFault Str := do
  let target := heap.malloc (base64sz bytes.size_)
  let inl := asInt bytes.size_
  let input ← (read bytes.array_ inl.toNat).mapError .memory
  -- the second call reports no errors
  let (target, n) ← (encodeCalls target input inl).mapError (fault (lit "EVP_EncodeUpdate failed"))
  let actsize := asInt n
  let text ← (read (some target) actsize.toNat).mapError .memory
  return text.filter (fun c => c ≠ 0 && c ≠ Base64.newline)

def decodeBase64 (heap : Heap) (bytes : Bytes) (src : Str) : Except BytesFault Bytes := do
  let temp : Target := ⟨heap.malloc src.length, 0⟩
  let s ← (decodeUpdate Target.emit temp src (asInt src.length)).mapError (fault (lit "EVP_DecodeUpdate failed"))
  let temp ← (decodeFinal Target.emit s).mapError (fault (lit "EVP_DecodeFinal failed"))
  let bytes := bytes.reserve heap temp.ret
  let octets ← (read (some temp.out) temp.ret).mapError .memory
  return { bytes with array_ := ← (write bytes.array_ 0 octets).mapError .memory }

/-! ## The library -/

/-- What both calls write for `x`, if its length is an `int`. -/
def encodedText (x : Str) : Option Str :=
  if x.length < 2 ^ 31 then
    match encodeCalls (List.replicate (Base64.linesLength x.length + 1) 0) x x.length with
    | .ok (out, n) => some (out.take n)
    | .error _ => none
  else none

/-- What both calls make of a text, and which of them fails. -/
def decodedText (text : Str) (inl : Int) : Except EvpDecodeError Str :=
  match decodeUpdate emitOctets [] text inl with
  | .error _ => .error .update
  | .ok s =>
    match decodeFinal emitOctets s with
    | .error _ => .error .final
    | .ok octets => .ok octets

variable {x : Str} {bytes : Bytes} {n : Nat}

theorem encodedText_eq (hlength : x.length < 2 ^ 31) (hx : Accepted x) :
    encodedText x = some (Base64.lines x) := by
  obtain ⟨out', hcalls, htake⟩ := encodeCalls_ok (x := x) (Nat.le_of_eq List.length_replicate.symm) hx
  rw [encodedText, if_pos hlength, hcalls, ← htake]

theorem encodedText_refused (hx : ¬ Accepted x) : encodedText x = none := by
  unfold encodedText
  split
  · rw [encodeCalls_failed (Nat.le_of_eq List.length_replicate.symm) hx]
  · rfl

theorem decodedText_encode (x : Str) : decodedText (Base64.encode x) (Base64.encode x).length = .ok x := by
  have hcalls := decodeCalls_encode x
  unfold decodeCalls at hcalls
  unfold decodedText
  cases hupdate : decodeUpdate emitOctets [] (Base64.encode x) (Base64.encode x).length with
  | error e =>
      rw [hupdate] at hcalls
      cases hcalls
  | ok s =>
      rw [hupdate] at hcalls
      have hfinal : decodeFinal emitOctets s = .ok x := hcalls
      dsimp only
      rw [hfinal]

/-- The base64 functions of OpenSSL, as far as they do not depend on the memory. -/
def openssl : EvpBase64 where
  encode := encodedText
  decode := decodedText
  encode_eq := by
    intro x t h
    have hlength : x.length < 2 ^ 31 := by
      by_contra hlong
      rw [encodedText, if_neg hlong] at h
      cases h
    by_cases hx : Accepted x
    · rw [encodedText_eq hlength hx] at h
      exact (Option.some.inj h).symm
    · rw [encodedText_refused hx] at h
      cases h
  encode_isSome := by
    intro x hne hlength
    rw [Base64.lines_length] at hlength
    have hint : x.length < 2 ^ 31 ∧ 65 * (x.length / 48) ≤ INT_MAX := by
      unfold Base64.linesLength at hlength
      unfold INT_MAX
      split at hlength <;> omega
    rw [encodedText_eq hint.1 ⟨hne, hint.2⟩]
    rfl
  decode_encode := fun _ => decodedText_encode _

/-! ## Refinement -/

/-- A call on memory ends as one on octets: with the same exception, or with related results. -/
inductive Refines {α γ : Type} (Q : α → γ → Prop) : Except BytesFault α → Except CryptError γ → Prop where
  | exception (text : Str) : Refines Q (.error (.exception text)) (.error (.exception text))
  | ok {a : α} {c : γ} (h : Q a c) : Refines Q (.ok a) (.ok c)

section

variable {α γ : Type} {Q : α → γ → Prop} {r : Except BytesFault α} {r' : Except CryptError γ}

theorem Refines.exists_ok {c : γ} (h : Refines Q r r') (hr' : r' = .ok c) : ∃ a, r = .ok a ∧ Q a c := by
  cases h with
  | exception text => cases hr'
  | ok h =>
      obtain rfl := Except.ok.inj hr'
      exact ⟨_, rfl, h⟩

/-- Such a call stays inside the memory. -/
theorem Refines.ne_memory (h : Refines Q r r') (e : BytesError) : r ≠ .error (.memory e) := by
  cases h with
  | exception text => simp
  | ok h => simp

end

/-- The buffer is large enough for a text in lines and the zero behind it. -/
theorem linesLength_lt_base64sz (hn : n < 2 ^ 31) : Base64.linesLength n + 1 ≤ base64sz n := by
  unfold base64sz Base64.linesLength
  split <;> omega

theorem encodeBase64_refines (heap : Heap) (h : bytes.WellFormed) (hsize : bytes.size_ < 2 ^ 31) :
    Refines Eq (encodeBase64 heap bytes) (Bytes.encodeBase64 openssl bytes.octets) := by
  have hlength := h.length_octets
  have hroom : Base64.linesLength bytes.octets.length + 1 ≤ (heap.malloc (base64sz bytes.size_)).length := by
    rw [heap.length_malloc, hlength]
    exact linesLength_lt_base64sz hsize
  have hread : read bytes.array_ (asInt bytes.size_).toNat = .ok bytes.octets := by
    rw [asInt_eq hsize, Int.toNat_natCast, h.read_octets (Nat.le_refl _), ← hlength, List.take_length]
  have hinl : asInt bytes.size_ = bytes.octets.length := by rw [asInt_eq hsize, hlength]
  unfold encodeBase64 Bytes.encodeBase64
  dsimp only
  -- where the first call reports an error it does so on every memory, otherwise there is room for the text
  rw [hread, mapError_ok_bind, hinl]
  by_cases hx : Accepted bytes.octets
  · obtain ⟨target, hcalls, htake⟩ := encodeCalls_ok hroom hx
    have hopenssl : openssl.encode bytes.octets = some (Base64.lines bytes.octets) := encodedText_eq (by omega) hx
    have hcount : (asInt (Base64.linesLength bytes.octets.length)).toNat ≤ Base64.linesLength bytes.octets.length :=
      (toNat_asInt_le _).1
    have htext : read (some target) (asInt (Base64.linesLength bytes.octets.length)).toNat =
        .ok ((Base64.lines bytes.octets).take (asInt (Base64.linesLength bytes.octets.length)).toNat) := by
      have htarget : Base64.linesLength bytes.octets.length ≤ target.length := by
        rw [← Base64.lines_length, ← htake, List.length_take]
        exact Nat.min_le_right _ _
      have hinside : _ ≤ ((some target).getD []).length := Nat.le_trans hcount htarget
      rw [read_eq hinside, ← htake, List.take_take, Nat.min_eq_left hcount]
      rfl
    rw [hcalls, mapError_ok_bind, hopenssl]
    dsimp only
    rw [htext, mapError_ok_bind, Base64.lines_length]
    exact .ok rfl
  · have hopenssl : openssl.encode bytes.octets = none := encodedText_refused hx
    rw [encodeCalls_failed hroom hx, mapError_error_bind, hopenssl]
    exact .exception _

/-- What has been decoded becomes the octets in use. -/
theorem exists_copy (heap : Heap) (h : bytes.WellFormed) {temp : Target} (hholds : Holds n 0 temp x)
    (hlength : x.length < 2 ^ 63) :
    ∃ array, read (some temp.out) temp.ret = .ok x ∧ write (bytes.reserve heap temp.ret).array_ 0 x = .ok array ∧
      { bytes.reserve heap temp.ret with array_ := array }.WellFormed ∧
      { bytes.reserve heap temp.ret with array_ := array }.octets = x := by
  have hinside : temp.ret ≤ ((some temp.out).getD []).length := by
    have hroom := hholds.room
    rw [← hholds.size] at hroom
    exact hroom
  rw [hholds.ret_eq] at hinside ⊢
  obtain ⟨hwell, hsize, -⟩ := h.reserve heap hlength
  obtain ⟨array, hwrite, hwell', hoctets⟩ := hwell.write 0 x (by rw [hsize, Nat.zero_add])
  refine ⟨array, ?_, hwrite, hwell', ?_⟩
  · rw [read_eq hinside, ← hholds.ret_eq]
    exact congrArg _ hholds.take_eq
  · rw [hoctets, List.take_zero, List.nil_append]

theorem decodeBase64_refines (heap : Heap) (h : bytes.WellFormed) (src : Str) :
    Refines (fun bytes' octets => bytes'.WellFormed ∧ bytes'.octets = octets) (decodeBase64 heap bytes src)
      (Bytes.decodeBase64 openssl src) := by
  have hinl := toNat_asInt_le src.length
  have hroom : 3 * ((src.take (asInt src.length).toNat).length / 4) ≤ (heap.malloc src.length).length := by
    rw [heap.length_malloc, List.length_take]
    omega
  have hupdate := decodeUpdate_agree (holds_start hroom)
  have hopenssl : openssl.decode = decodedText := rfl
  rw [decodeBase64, Bytes.decodeBase64, hopenssl, decodedText]
  dsimp only
  -- both calls agree, and what the second returns is short enough to be reserved
  have hlength : ∀ {s octets}, decodeUpdate emitOctets [] src (asInt src.length) = .ok s →
      decodeFinal emitOctets s = .ok octets → octets.length < 2 ^ 63 := by
    intro s octets hs hoctets
    have hcalls : decodeCalls emitOctets [] src (asInt src.length) = .ok octets := by
      rw [decodeCalls, hs]
      exact hoctets
    have hthree := length_of_decodeCalls hcalls
    rw [List.length_take] at hthree
    omega
  generalize decodeUpdate Target.emit ⟨heap.malloc src.length, 0⟩ src (asInt src.length) = r at hupdate ⊢
  generalize hr' : decodeUpdate emitOctets [] src (asInt src.length) = r' at hupdate ⊢
  cases hupdate with
  | error he =>
      subst he
      exact .exception _
  | @ok s s' hs =>
      rw [mapError_ok_bind]
      have hfinal := decodeFinal_agree hs
      dsimp only
      generalize decodeFinal Target.emit s = q at hfinal ⊢
      generalize hq' : decodeFinal emitOctets s' = q' at hfinal ⊢
      cases hfinal with
      | error he =>
          subst he
          exact .exception _
      | @ok temp octets hholds =>
          obtain ⟨array, hread, hwrite, hresult⟩ := exists_copy heap h hholds (hlength hr' hq')
          rw [mapError_ok_bind, hread, mapError_ok_bind, hwrite, mapError_ok_bind]
          exact .ok hresult

/-- **Round trip on memory**: what has been encoded is decoded to the same octets, into whatever `Bytes`. -/
theorem decodeBase64_encodeBase64 (heap : Heap) (h : bytes.WellFormed) (hne : bytes.octets ≠ [])
    (hlines : Base64.linesLength bytes.size_ < 2 ^ 31) {target : Bytes} (htarget : target.WellFormed) :
    ∃ text target', encodeBase64 heap bytes = .ok text ∧ decodeBase64 heap target text = .ok target' ∧
      target'.octets = bytes.octets := by
  have hlength := h.length_octets
  have hshort : bytes.size_ < 2 ^ 31 ∧ 4 * ((bytes.size_ + 2) / 3) < 2 ^ 31 := by
    unfold Base64.linesLength at hlines
    split at hlines <;> omega
  have hencode := encodeBase64_refines heap h hshort.1
  have hdecode := decodeBase64_refines heap htarget (Base64.encode bytes.octets)
  rw [encodeBase64_eq hne (by rw [hlength]; exact hlines)] at hencode
  rw [decodeBase64_encode (by rw [Base64.encode_length, hlength]; exact hshort.2)] at hdecode
  obtain ⟨text, htext, rfl⟩ := hencode.exists_ok rfl
  obtain ⟨target', htarget', -, hoctets⟩ := hdecode.exists_ok rfl
  exact ⟨_, target', htext, htarget', hoctets⟩

/-! ## Sizes -/

/-- The last octet of the buffer is needed where the last line is as long as a full one. -/
theorem linesLength_eq_base64sz_iff (hn : n < 2 ^ 31) : Base64.linesLength n + 1 = base64sz n ↔ 46 ≤ n % 48 := by
  unfold base64sz Base64.linesLength
  split <;> omega

/-- **The buffers are large enough.** OpenSSL needs memory for the text in lines and a zero, and no less where it does
not refuse the octets. `encodeBase64` allocates that much for every number of octets, and for some numbers not one octet
more. For a text, three octets suffice for every four characters, and `decodeBase64` allocates as many octets as there
are characters. So neither function has memory accessed outside of its buffer. -/
theorem base64_buffers_suffice :
    (∀ n, n < 2 ^ 31 → base64sz n = (n / 48 + 1) * 65 + 1 ∧ Base64.linesLength n + 1 ≤ base64sz n ∧
      (Base64.linesLength n + 1 = base64sz n ↔ 46 ≤ n % 48)) ∧
    (∀ out octets : Str, Base64.linesLength octets.length + 1 ≤ out.length →
      encodeCalls out octets octets.length ≠ .error .overrun) ∧
    (∀ out octets : Str, Accepted octets →
      (encodeCalls out octets octets.length = .error .overrun ↔ out.length < Base64.linesLength octets.length + 1)) ∧
    (∀ heap (bytes : Bytes), bytes.WellFormed → bytes.size_ < 2 ^ 31 →
      ∀ e, encodeBase64 heap bytes ≠ .error (.memory e)) ∧
    (∀ (out text : Str) (inl : Int), 3 * (text.length / 4) ≤ out.length →
      decodeCalls Target.emit ⟨out, 0⟩ text inl ≠ .error .overrun) ∧
    (∀ text : Str, 3 * (text.length / 4) ≤ text.length) ∧
    (∀ heap (bytes : Bytes), bytes.WellFormed → ∀ text e, decodeBase64 heap bytes text ≠ .error (.memory e)) := by
  refine ⟨?_, ?_, ?_, ?_, ?_, ?_, ?_⟩
  · intro n hn
    refine ⟨?_, linesLength_lt_base64sz hn, linesLength_eq_base64sz_iff hn⟩
    exact Nat.mod_eq_of_lt (by omega)
  · intro out octets hroom
    exact encodeCalls_safe hroom
  · intro out octets haccepted
    exact encodeCalls_overrun_iff haccepted
  · intro heap bytes hwell hsize e
    exact (encodeBase64_refines heap hwell hsize).ne_memory e
  · intro out text inl hroom
    have hgiven : (text.take inl.toNat).length ≤ text.length := by
      rw [List.length_take]
      omega
    exact (decodeCalls_agree out text inl (by omega)).ne_error (by decide)
  · intro text
    omega
  · intro heap bytes hwell text e
    exact (decodeBase64_refines heap hwell text).ne_memory e

/-- 46 octets fill the buffer, and their text of 64 characters is decoded. -/
theorem base64_buffers_suffice_full :
    Base64.linesLength 46 + 1 = base64sz 46 ∧
      encodeCalls (List.replicate 66 0) (List.replicate 46 255) 46 ≠ .error .overrun ∧
      decodeCalls Target.emit ⟨List.replicate 48 0, 0⟩ (List.replicate 64 47) 64 ≠ .error .overrun := by
  obtain ⟨hsize, hencode, -, -, hdecode, -⟩ := base64_buffers_suffice
  exact ⟨(hsize 46 (by decide)).2.2.mpr (by decide), hencode _ _ (by decide), hdecode _ _ _ (by decide)⟩

end Dodo.Common.Bytes.Memory
