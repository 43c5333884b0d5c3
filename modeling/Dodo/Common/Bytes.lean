import Dodo.Common.Text
import Dodo.Lib.Base64

/-!
# `Common.Bytes` — base64 texts of `Bytes`

The content of a `Bytes` is its list of octets. `EvpBase64` is what is assumed of the base64 functions of
OpenSSL: they implement RFC 4648, in lines of 64 characters, as far as the numbers they report fit an `int`.
-/

namespace Dodo.Common

open Lib

/-- The exceptions of this part of the library. -/
inductive CryptError where
  /-- `common::Exception` with this text. -/
  | exception (text : Str)
  /-- A division by zero. -/
  | divisionByZero
deriving DecidableEq, Repr

/-- What fails when a text is decoded. -/
inductive EvpDecodeError where
  | update
  | final
deriving DecidableEq, Repr

/-- The base64 functions of OpenSSL. -/
structure EvpBase64 where
  /-- What `EVP_EncodeUpdate` and `EVP_EncodeFinal` write, unless the former reports an error. -/
  encode : Str → Option Str
  /-- What `EVP_DecodeUpdate` and `EVP_DecodeFinal` make of the text, given its length. -/
  decode : Str → Int → Except EvpDecodeError Str
  encode_eq {x t : Str} : encode x = some t → t = Base64.lines x
  encode_isSome {x : Str} : x ≠ [] → (Base64.lines x).length < 2 ^ 31 → (encode x).isSome = true
  decode_encode {x : Str} : (Base64.encode x).length < 2 ^ 31 →
    decode (Base64.encode x) (Base64.encode x).length = .ok x

namespace Bytes

/-- The text without the ends of its lines. The number of characters is an `int`. -/
def encodeBase64 (evp : EvpBase64) (octets : Str) : Except CryptError Str :=
  match evp.encode octets with
  | none => .error (.exception (lit "EVP_EncodeUpdate failed"))
  | some target =>
    let actsize := asInt target.length
    .ok ((target.take actsize.toNat).filter (fun c => c ≠ 0 && c ≠ Base64.newline))

def decodeBase64 (evp : EvpBase64) (src : Str) : Except CryptError Str :=
  match evp.decode src (asInt src.length) with
  | .error .update => .error (.exception (lit "EVP_DecodeUpdate failed"))
  | .error .final => .error (.exception (lit "EVP_DecodeFinal failed"))
  | .ok octets => .ok octets

variable {evp : EvpBase64} {x : Str}

theorem filter_lines (x : Str) : (Base64.lines x).filter (fun c => c ≠ 0 && c ≠ Base64.newline) = Base64.encode x := by
  have hzero : ∀ c ∈ Base64.encode x, (decide (c ≠ 0)) = true := by
    intro c hc
    simp only [ne_eq, decide_not, Bool.not_eq_true', decide_eq_false_iff_not]
    rintro rfl
    have hchar := Base64.encode_chars x 0 hc
    exact absurd hchar (by unfold Base64.IsChar; decide)
  rw [← List.filter_filter, Base64.lines_filter, List.filter_eq_self.mpr hzero]

theorem encodeBase64_eq (hne : x ≠ []) (hlength : Base64.linesLength x.length < 2 ^ 31) :
    encodeBase64 evp x = .ok (Base64.encode x) := by
  rw [← Base64.lines_length] at hlength
  obtain ⟨t, ht⟩ := Option.isSome_iff_exists.mp (evp.encode_isSome hne hlength)
  obtain rfl := evp.encode_eq ht
  unfold encodeBase64
  rw [ht]
  dsimp only
  rw [asInt_eq hlength, Int.toNat_natCast, List.take_length, filter_lines]

/-- Nothing is printed of no octets, nor of so many that the number of characters is not an `int`. -/
theorem encodeBase64_eq_nil {t : Str} (hlength : x.length < 2 ^ 31)
    (hx : x = [] ∨ 2 ^ 31 ≤ Base64.linesLength x.length) (h : encodeBase64 evp x = .ok t) : t = [] := by
  unfold encodeBase64 at h
  split at h
  · cases h
  · rename_i target htarget
    obtain rfl := evp.encode_eq htarget
    rw [← Except.ok.inj h]
    rcases hx with rfl | hlong
    · rfl
    · have hbound : Base64.linesLength x.length < 2 ^ 32 := by
        unfold Base64.linesLength
        split_ifs <;> omega
      have hneg := asInt_neg hlong hbound
      rw [Base64.lines_length, Int.toNat_of_nonpos (Int.le_of_lt hneg)]
      rfl

theorem decodeBase64_encode (hlength : (Base64.encode x).length < 2 ^ 31) :
    decodeBase64 evp (Base64.encode x) = .ok x := by
  unfold decodeBase64
  rw [asInt_eq hlength, evp.decode_encode hlength]

end Bytes
end Dodo.Common
