import Dodo.Common.Bytes
import Dodo.Lib.While

/-!
# `Common.DataCrypt` — encrypted values in configuration files

`encrypt` writes the cipher, the encrypted data, the initialization vector and the tag into one text, and
`decrypt` takes them from it. `EvpGcm` is what is assumed of AES-GCM in OpenSSL. The initialization vector, which
`encrypt` draws at random, is an argument. An error of OpenSSL that is not named here (no memory) is left out.

Both set the length of the initialization vector when it has been given, where the manual allows it before that only. A
context of OpenSSL 1.1 goes on with the vector it has; since 3.0 the vector counts as used, and every update with data
fails. Which of the two the library does is `EvpGcm.keepsIv`.
-/

namespace Dodo.Common

open Lib

namespace DataCrypt

/-! ## Ciphers -/

inductive Cipher where
  | EVP_aes_128_gcm
  | EVP_aes_192_gcm
  | EVP_aes_256_gcm
  | Invalid
deriving DecidableEq, Repr

def keyOctets : Cipher → Nat
  | .EVP_aes_128_gcm => 16
  | .EVP_aes_192_gcm => 24
  | .EVP_aes_256_gcm => 32
  | .Invalid => 0

def ivOctets : Cipher → Nat
  | .EVP_aes_128_gcm => 16
  | .EVP_aes_192_gcm => 16
  | .EVP_aes_256_gcm => 16
  | .Invalid => 0

def blockOctets : Cipher → Nat
  | .EVP_aes_128_gcm => 16
  | .EVP_aes_192_gcm => 16
  | .EVP_aes_256_gcm => 16
  | .Invalid => 0

def tagLength : Cipher → Nat
  | .EVP_aes_128_gcm => 16
  | .EVP_aes_192_gcm => 16
  | .EVP_aes_256_gcm => 16
  | .Invalid => 0

def cipher2String : Cipher → Str
  | .EVP_aes_128_gcm => lit "EVP_aes_128_gcm"
  | .EVP_aes_192_gcm => lit "EVP_aes_192_gcm"
  | .EVP_aes_256_gcm => lit "EVP_aes_256_gcm"
  | .Invalid => lit "Invalid cipher"

def string2Cipher (s : Str) : Cipher :=
  if s = cipher2String .EVP_aes_128_gcm then .EVP_aes_128_gcm
  else if s = cipher2String .EVP_aes_192_gcm then .EVP_aes_192_gcm
  else if s = cipher2String .EVP_aes_256_gcm then .EVP_aes_256_gcm
  else .Invalid

/-- The size of the buffer for the encrypted data. -/
def cipherOctets (cipher : Cipher) (octets : Nat) : Except CryptError Nat :=
  if blockOctets cipher = 0 then .error .divisionByZero
  else .ok (octets + blockOctets cipher - octets % blockOctets cipher)

/-- A context behind `EVP_EncryptInit_ex` or `EVP_DecryptInit_ex`. An empty initialization vector is a null pointer. -/
structure Context where
  cipher : Cipher
  key : Str
  iv : Str
  /-- The length that is set behind the initialization vector. -/
  ivLength : Option Nat := none
  tag : Option Str := none
deriving DecidableEq, Repr

namespace Context

/-- `EVP_CTRL_AEAD_SET_IVLEN`, behind the initialization vector. -/
def setIvLength (ctx : Context) (n : Nat) : Context := { ctx with ivLength := some n }

/-- `EVP_CTRL_AEAD_SET_TAG` -/
def setTag (ctx : Context) (tag : Str) : Context := { ctx with tag := some tag }

/-- Only what the manual allows has been called. -/
def Regular (ctx : Context) : Prop := ctx.iv ≠ [] ∧ ctx.ivLength = none

end Context

/-- The length of an initialization vector of AES-GCM, unless another one is set. -/
def defaultIvLength : Nat := 12

/-- AES-GCM and the base64 functions of OpenSSL. What a call does for no data in a context is left open. -/
structure EvpGcm extends EvpBase64 where
  /-- AES-GCM with a key and an initialization vector: the encrypted data, the decrypted data, and the tag of encrypted
      data. -/
  sealed : Cipher → Str → Str → Str → Str
  opened : Cipher → Str → Str → Str → Str
  tagOf : Cipher → Str → Str → Str → Str
  length_sealed {cipher : Cipher} {k iv src : Str} : (sealed cipher k iv src).length = src.length
  opened_sealed {cipher : Cipher} {k iv src : Str} : opened cipher k iv (sealed cipher k iv src) = src
  length_tagOf {cipher : Cipher} {k iv data : Str} : (tagOf cipher k iv data).length = tagLength cipher
  /-- What `EVP_EncryptUpdate` writes, unless it fails. -/
  encryptUpdate : Context → Str → Option Str
  /-- Whether `EVP_EncryptFinal_ex` succeeds behind this update. It writes no data. -/
  encryptFinal : Context → Str → Bool
  /-- `EVP_CTRL_GCM_GET_TAG` behind it. -/
  getTag : Context → Str → Option Str
  /-- What `EVP_DecryptUpdate` writes, before the tag is looked at. -/
  decryptUpdate : Context → Str → Option Str
  /-- Whether `EVP_DecryptFinal_ex` finds the tag right. It writes no data. -/
  decryptFinal : Context → Str → Bool
  /-- What `getSSLErrors` gives behind a call that fails. -/
  errors : Str
  length_encryptUpdate {ctx : Context} {src out : Str} : encryptUpdate ctx src = some out → out.length = src.length
  length_decryptUpdate {ctx : Context} {data out : Str} : decryptUpdate ctx data = some out → out.length = data.length
  length_getTag {ctx : Context} {src tag : Str} : getTag ctx src = some tag → tag.length = tagLength ctx.cipher
  encrypts {ctx : Context} {src : Str} : ctx.Regular → src ≠ [] →
    encryptUpdate ctx src = some (sealed ctx.cipher ctx.key ctx.iv src) ∧ encryptFinal ctx src = true ∧
      getTag ctx src = some (tagOf ctx.cipher ctx.key ctx.iv (sealed ctx.cipher ctx.key ctx.iv src))
  decrypts {ctx : Context} {data : Str} : ctx.Regular → data ≠ [] →
    decryptUpdate ctx data = some (opened ctx.cipher ctx.key ctx.iv data)
  /-- A tag may be cut, but not to nothing. -/
  verifies {ctx : Context} {data : Str} : ctx.Regular → data ≠ [] →
    (decryptFinal ctx data = true ↔
      ∃ tag, ctx.tag = some tag ∧ tag ≠ [] ∧ tag <+: tagOf ctx.cipher ctx.key ctx.iv data)
  decryptUpdate_without_iv {ctx : Context} {data : Str} : ctx.iv = [] → data ≠ [] → decryptUpdate ctx data = none
  /-- Whether a context goes on after the length is set behind the initialization vector. -/
  keepsIv : Bool
  kept {ctx : Context} (n : Nat) : keepsIv = true → ctx.Regular →
    encryptUpdate (ctx.setIvLength n) = encryptUpdate ctx ∧ encryptFinal (ctx.setIvLength n) = encryptFinal ctx ∧
      getTag (ctx.setIvLength n) = getTag ctx ∧ decryptUpdate (ctx.setIvLength n) = decryptUpdate ctx ∧
      decryptFinal (ctx.setIvLength n) = decryptFinal ctx
  lost {ctx : Context} {n : Nat} {data : Str} : keepsIv = false → ctx.Regular → n ≠ defaultIvLength → data ≠ [] →
    encryptUpdate (ctx.setIvLength n) data = none ∧ decryptUpdate (ctx.setIvLength n) data = none

/-! ## Encryption -/

/-- One more character of the key, from its beginning again when it is used up. -/
def padOnce (key : Str) (p : Str × Nat) : Str × Nat :=
  (p.1 ++ [octetAt key p.2], if key.length - 1 < p.2 + 1 then 0 else p.2 + 1)

/-- Each pass adds one character, so there are not more passes than characters. -/
def paddedKey (cipher : Cipher) (key : Str) : Except CryptError Str :=
  if key.length < 1 then .error (.exception (lit "empty key"))
  else .ok (While.loop (fun p => p.1.length < keyOctets cipher) (padOnce key) (keyOctets cipher) ([], 0)).1

/-- The text of the four values. -/
def envelope (cipher data iv tag : Str) : Str :=
  lit "ENC[cipher:" ++ cipher ++ lit "," ++
  lit "data:" ++ data ++
  lit ",iv:" ++ iv ++
  lit ",tag:" ++ tag ++
  lit "]"

/-- The exception for a call of OpenSSL that fails. -/
def sslError {α : Type} (evp : EvpGcm) (call : Str) : Except CryptError α := .error (.exception (call ++ evp.errors))

/-- `iv` has been drawn at random. A cipher that is invalid does not come as far as the `switch`. -/
def encrypt (evp : EvpGcm) (iv : Str) (cipher : Cipher) (key src : Str) : Except CryptError Str := do
  let k ← paddedKey cipher key
  let _ ← cipherOctets cipher src.length
  let ctx : Context := { cipher := cipher, key := k, iv := iv }
  let ctx := ctx.setIvLength (ivOctets cipher * 8)
  match evp.encryptUpdate ctx src with
  | none => sslError evp (lit "EVP_EncryptUpdate : ")
  | some encrypted =>
    if evp.encryptFinal ctx src = false then sslError evp (lit "EVP_EncryptFinal_ex : ")
    else match evp.getTag ctx src with
    | none => sslError evp (lit "EVP_CIPHER_CTX_ctrl : ")
    | some tag => do
      let sdata ← Bytes.encodeBase64 evp.toEvpBase64 encrypted
      let siv ← Bytes.encodeBase64 evp.toEvpBase64 iv
      let stag ← Bytes.encodeBase64 evp.toEvpBase64 tag
      return envelope (cipher2String cipher) sdata siv stag

/-! ## Decryption -/

/-- The values of the text. -/
structure Envelope where
  cipher : Str := []
  data : Str := []
  iv : Str := []
  tag : Str := []
deriving DecidableEq, Repr

def charComma : Octet := 44
def charColon : Octet := 58

/-- The position of the last character that is no white space. -/
def closePos (src : Str) : Nat → Nat
  | 0 => 0
  | n + 1 => if isspace (octetAt src (n + 1)) then closePos src n else n + 1

def readSections (e : Envelope) : List Str → Option Envelope
  | [] => some e
  | s :: sections =>
    match split s charColon with
    | [name, value] =>
      if name = lit "cipher" then readSections { e with cipher := value } sections
      else if name = lit "data" then readSections { e with data := value } sections
      else if name = lit "iv" then readSections { e with iv := value } sections
      else if name = lit "tag" then readSections { e with tag := value } sections
      else none
    | _ => none

def decode (src : Str) : Option Envelope :=
  if substr src 0 4 ≠ lit "ENC[" then none
  else
    let close_pos := closePos src (src.length - 1)
    if substr src close_pos 1 ≠ lit "]" then none
    else
      let sections := split (substr src 4 (close_pos - 4)) charComma
      if sections.length ≠ 4 then none
      else
        match readSections {} sections with
        | none => none
        | some e =>
          if e.cipher.length = 0 ∨ e.data.length = 0 ∨ e.iv.length = 0 ∨ e.tag.length = 0 then none else some e

/-- `Bytes::append( src, n )` -/
def append (dest src : Str) (n : Nat) : Except CryptError Str :=
  if src.length < n then .error (.exception (lit "cannot append more than available in src"))
  else .ok (dest ++ src.take n)

/-- What is returned, and `dest` afterwards. -/
def decrypt (evp : EvpGcm) (key src dest : Str) : Except CryptError (Nat × Str) :=
  match decode src with
  | none => .ok (1, dest)
  | some e => do
    let cipher := string2Cipher e.cipher
    let data ← Bytes.decodeBase64 evp.toEvpBase64 e.data
    let iv ← Bytes.decodeBase64 evp.toEvpBase64 e.iv
    let tag ← Bytes.decodeBase64 evp.toEvpBase64 e.tag
    let k ← paddedKey cipher key
    if cipher = .Invalid then .error (.exception (lit "invalid cipher " ++ e.cipher))
    else do
      let ctx : Context := { cipher := cipher, key := k, iv := iv }
      let ctx := (ctx.setIvLength (ivOctets cipher * 8)).setTag tag
      match evp.decryptUpdate ctx data with
      | none => sslError evp (lit "EVP_DecryptUpdate : ")
      | some tmp => do
        -- the decrypted data are in `dest` before the tag is checked
        let dest ← append [] tmp tmp.length
        let result := if evp.decryptFinal ctx data then 0 else 2
        let dest ← append dest tmp 0
        return (result, dest)

/-! ## Reading the text back -/

variable {evp : EvpGcm} {cipher : Cipher} {key src dest iv : Str} {c d i t n v : Str}

/-- A value that has no delimiters. -/
def Clean (value : Str) : Prop := charComma ∉ value ∧ charColon ∉ value

theorem clean_encode (x : Str) : Clean (Base64.encode x) := by
  constructor
  · intro h
    exact absurd (Base64.encode_chars x _ h) (by unfold Base64.IsChar; decide)
  · intro h
    exact absurd (Base64.encode_chars x _ h) (by unfold Base64.IsChar; decide)

theorem clean_cipher2String (cipher : Cipher) : Clean (cipher2String cipher) := by
  cases cipher <;> exact ⟨by decide, by decide⟩

theorem string2Cipher_cipher2String (cipher : Cipher) : string2Cipher (cipher2String cipher) = cipher := by
  cases cipher <;> decide

/-- Behind the position there is only white space. -/
theorem isspace_of_closePos_lt {src : Str} {n i : Nat} (h : closePos src n < i) (hi : i ≤ n) :
    isspace (octetAt src i) = true := by
  induction n with
  | zero => omega
  | succ n ih =>
      rw [closePos] at h
      split at h
      · rename_i hspace
        rcases Nat.lt_or_eq_of_le hi with hlt | rfl
        · exact ih h (Nat.le_of_lt_succ hlt)
        · exact hspace
      · omega

/-- The position is where a character stands that is no white space, with only white space behind it. -/
theorem closePos_eq {src : Str} {n m : Nat} (hm : m ≤ n) (hstop : isspace (octetAt src m) = false)
    (hspace : ∀ i, m < i → i ≤ n → isspace (octetAt src i) = true) : closePos src n = m := by
  induction n with
  | zero => exact (Nat.le_zero.mp hm).symm
  | succ n ih =>
      rw [closePos]
      rcases Nat.lt_or_eq_of_le hm with hlt | rfl
      · rw [if_pos (hspace (n + 1) hlt (Nat.le_refl _))]
        exact ih (Nat.le_of_lt_succ hlt) (fun i h hi => hspace i h (Nat.le_succ_of_le hi))
      · rw [if_neg (by simp [hstop])]

/-- The text between the brackets is divided into its sections. -/
theorem decode_brackets (l : Str) {ws : Str} (hws : ∀ c ∈ ws, isspace c) : decode (lit "ENC[" ++ l ++ lit "]" ++ ws) =
    if (split l charComma).length ≠ 4 then none
    else match readSections {} (split l charComma) with
      | none => none
      | some e =>
        if e.cipher.length = 0 ∨ e.data.length = 0 ∨ e.iv.length = 0 ∨ e.tag.length = 0 then none else some e := by
  have htext : lit "ENC[" ++ l ++ lit "]" ++ ws = 69 :: 78 :: 67 :: 91 :: (l ++ 93 :: ws) := by simp [lit]
  have hopen : substr (lit "ENC[" ++ l ++ lit "]" ++ ws) 0 4 = lit "ENC[" := by
    rw [htext]
    rfl
  have hpos : closePos (lit "ENC[" ++ l ++ lit "]" ++ ws) ((lit "ENC[" ++ l ++ lit "]" ++ ws).length - 1) =
      l.length + 4 := by
    rw [htext]
    apply closePos_eq
    · simp
    · simp [octetAt]
      rfl
    · intro i hlt hle
      obtain ⟨k, rfl⟩ : ∃ k, i = l.length + 5 + k := ⟨i - (l.length + 5), by omega⟩
      have hk : k < ws.length := by
        simp only [List.length_cons, List.length_append] at hle
        omega
      have hat : octetAt (69 :: 78 :: 67 :: 91 :: (l ++ 93 :: ws)) (l.length + 5 + k) = ws[k] := by
        have hindex : l.length + 5 + k = l.length + (k + 1) + 1 + 1 + 1 + 1 := by omega
        rw [hindex]
        simp [octetAt, List.getD_eq_getElem?_getD, hk]
      rw [hat]
      exact hws _ (List.getElem_mem hk)
  have hclose : substr (lit "ENC[" ++ l ++ lit "]" ++ ws) (l.length + 4) 1 = lit "]" := by
    rw [htext]
    simp [substr]
    rfl
  have hinner : substr (lit "ENC[" ++ l ++ lit "]" ++ ws) 4 (l.length + 4 - 4) = l := by
    rw [htext]
    simp [substr]
  unfold decode
  rw [if_neg (by rw [hopen]; simp), hpos]
  dsimp only
  rw [if_neg (by rw [hclose]; simp), hinner]

/-- A section with a value has two parts. -/
theorem split_section (hn : charColon ∉ n) (hv : Clean v) (hne : v ≠ []) :
    split (n ++ charColon :: v) charColon = [n, v] := by
  rw [split_cons hn, split_self hv.2 hne]

section

variable {e : Envelope} {sections : List Str} (hv : Clean v) (hne : v ≠ [])

include hv hne

theorem readSections_cipher :
    readSections e ((lit "cipher" ++ charColon :: v) :: sections) = readSections { e with cipher := v } sections := by
  rw [readSections, split_section (by decide) hv hne]
  exact if_pos rfl

theorem readSections_data :
    readSections e ((lit "data" ++ charColon :: v) :: sections) = readSections { e with data := v } sections := by
  rw [readSections, split_section (by decide) hv hne]
  dsimp only
  rw [if_neg (by decide), if_pos rfl]

theorem readSections_iv :
    readSections e ((lit "iv" ++ charColon :: v) :: sections) = readSections { e with iv := v } sections := by
  rw [readSections, split_section (by decide) hv hne]
  dsimp only
  rw [if_neg (by decide), if_neg (by decide), if_pos rfl]

theorem readSections_tag :
    readSections e ((lit "tag" ++ charColon :: v) :: sections) = readSections { e with tag := v } sections := by
  rw [readSections, split_section (by decide) hv hne]
  dsimp only
  rw [if_neg (by decide), if_neg (by decide), if_neg (by decide), if_pos rfl]

end

/-- Without a value, the part behind the colon is dropped. -/
theorem readSections_nil {e : Envelope} {sections : List Str} (hn : charColon ∉ n) :
    readSections e ((n ++ [charColon]) :: sections) = none := by
  have hsplit : split (n ++ [charColon]) charColon = [n] := split_cons hn
  rw [readSections, hsplit]

theorem split_sections (hc : Clean c) (hd : Clean d) (hi : Clean i) (ht : Clean t) :
    split (lit "cipher:" ++ c ++ lit ",data:" ++ d ++ lit ",iv:" ++ i ++ lit ",tag:" ++ t) charComma =
      [lit "cipher" ++ charColon :: c, lit "data" ++ charColon :: d, lit "iv" ++ charColon :: i,
        lit "tag" ++ charColon :: t] := by
  have hsection : ∀ {n v : Str}, charComma ∉ n → Clean v → charComma ∉ n ++ charColon :: v := by
    intro n v hn hv
    have hdiffer : charComma ≠ charColon := by decide
    simp [hn, hv.1, hdiffer]
  have htext : lit "cipher:" ++ c ++ lit ",data:" ++ d ++ lit ",iv:" ++ i ++ lit ",tag:" ++ t =
      (lit "cipher" ++ charColon :: c) ++ charComma :: ((lit "data" ++ charColon :: d) ++
        charComma :: ((lit "iv" ++ charColon :: i) ++ charComma :: (lit "tag" ++ charColon :: t))) := by
    simp only [List.append_assoc]
    rfl
  rw [htext, split_cons (hsection (by decide) hc), split_cons (hsection (by decide) hd),
    split_cons (hsection (by decide) hi), split_self (hsection (by decide) ht) (by simp)]

/-- **The text is read back**, unless the data are empty. -/
theorem decode_envelope (hc : Clean c) (hd : Clean d) (hi : Clean i) (ht : Clean t) (hcne : c ≠ []) (hine : i ≠ [])
    (htne : t ≠ []) : decode (envelope c d i t) = if d = [] then none else some ⟨c, d, i, t⟩ := by
  have htext : envelope c d i t = lit "ENC[" ++ (lit "cipher:" ++ c ++ lit ",data:" ++ d ++ lit ",iv:" ++ i ++
      lit ",tag:" ++ t) ++ lit "]" := by
    unfold envelope
    simp only [List.append_assoc]
    rfl
  rw [htext, ← List.append_nil (_ ++ lit "]"), decode_brackets _ (by simp), split_sections hc hd hi ht,
    if_neg (by simp), readSections_cipher hc hcne]
  by_cases hnil : d = []
  · subst hnil
    rw [readSections_nil (by decide), if_pos rfl]
  · rw [readSections_data hd hnil, readSections_iv hi hine, readSections_tag ht htne, if_neg hnil]
    simp [readSections, hcne, hnil, hine, htne]

/-! ## What is decrypted -/

/-- What `decrypt` gives to OpenSSL. -/
structure Parts where
  cipher : Cipher
  key : Str
  iv : Str
  data : Str
  tag : Str
deriving DecidableEq, Repr

/-- The parts of a text, or that it is not recognized, or the exception that `decrypt` ends with. -/
def parts (evp : EvpGcm) (key src : Str) : Except CryptError (Option Parts) :=
  match decode src with
  | none => .ok none
  | some e => do
    let data ← Bytes.decodeBase64 evp.toEvpBase64 e.data
    let iv ← Bytes.decodeBase64 evp.toEvpBase64 e.iv
    let tag ← Bytes.decodeBase64 evp.toEvpBase64 e.tag
    let k ← paddedKey (string2Cipher e.cipher) key
    if string2Cipher e.cipher = .Invalid then .error (.exception (lit "invalid cipher " ++ e.cipher))
    else return some ⟨string2Cipher e.cipher, k, iv, data, tag⟩

namespace Parts

/-- The context as it is initialized, with the tag. -/
def context (p : Parts) : Context := { cipher := p.cipher, key := p.key, iv := p.iv, tag := some p.tag }

/-- The context that the data are decrypted in. -/
def relengthened (p : Parts) : Context := p.context.setIvLength (ivOctets p.cipher * 8)

/-- What the data are decrypted to, with the tag or without. -/
def opened (evp : EvpGcm) (p : Parts) : Str := evp.opened p.cipher p.key p.iv p.data

/-- The tag is that of the data, or the beginning of it. -/
def Genuine (evp : EvpGcm) (p : Parts) : Prop := p.tag ≠ [] ∧ p.tag <+: evp.tagOf p.cipher p.key p.iv p.data

/-- What `decrypt` makes of the parts. -/
def result (evp : EvpGcm) (p : Parts) : Except CryptError (Nat × Str) :=
  match evp.decryptUpdate p.relengthened p.data with
  | none => sslError evp (lit "EVP_DecryptUpdate : ")
  | some out => .ok (if evp.decryptFinal p.relengthened p.data then 0 else 2, out)

end Parts

theorem decrypt_eq : decrypt evp key src dest =
    match parts evp key src with
    | .error error => .error error
    | .ok none => .ok (1, dest)
    | .ok (some p) => p.result evp := by
  unfold decrypt parts
  cases decode src with
  | none => rfl
  | some e =>
      dsimp only [bind, Except.bind]
      cases Bytes.decodeBase64 evp.toEvpBase64 e.data with
      | error => rfl
      | ok data =>
        cases Bytes.decodeBase64 evp.toEvpBase64 e.iv with
        | error => rfl
        | ok iv =>
          cases Bytes.decodeBase64 evp.toEvpBase64 e.tag with
          | error => rfl
          | ok tag =>
            cases paddedKey (string2Cipher e.cipher) key with
            | error => rfl
            | ok k =>
              dsimp only
              by_cases hcipher : string2Cipher e.cipher = .Invalid
              · rw [if_pos hcipher, if_pos hcipher]
              · rw [if_neg hcipher, if_neg hcipher]
                show _ = Parts.result evp ⟨string2Cipher e.cipher, k, iv, data, tag⟩
                unfold Parts.result
                show (match evp.decryptUpdate
                  (Parts.relengthened ⟨string2Cipher e.cipher, k, iv, data, tag⟩) data with
                  | none => _
                  | some tmp => _) = _
                cases evp.decryptUpdate (Parts.relengthened ⟨string2Cipher e.cipher, k, iv, data, tag⟩) data with
                | none => rfl
                | some tmp =>
                    simp [append, pure, Except.pure]
                    rfl

/-- No length that is set here is the default. -/
theorem ivOctets_mul_ne (cipher : Cipher) : ivOctets cipher * 8 ≠ defaultIvLength := by
  cases cipher <;> decide

section

variable {p : Parts}

/-- Without an initialization vector, or where setting its length loses it, there is an exception. -/
theorem Parts.result_refused (hdata : p.data ≠ []) (h : evp.keepsIv = false ∨ p.iv = []) :
    p.result evp = sslError evp (lit "EVP_DecryptUpdate : ") := by
  have hupdate : evp.decryptUpdate p.relengthened p.data = none := by
    by_cases hiv : p.iv = []
    · exact evp.decryptUpdate_without_iv hiv hdata
    · exact (evp.lost (h.resolve_right hiv) ⟨hiv, rfl⟩ (ivOctets_mul_ne p.cipher) hdata).2
  unfold Parts.result
  rw [hupdate]

open Classical in
/-- The data are decrypted in any case, and the tag is looked at afterwards. -/
theorem Parts.result_opened (hdata : p.data ≠ []) (hkeeps : evp.keepsIv = true) (hiv : p.iv ≠ []) :
    p.result evp = .ok (if p.Genuine evp then 0 else 2, p.opened evp) := by
  have hregular : p.context.Regular := ⟨hiv, rfl⟩
  obtain ⟨-, -, -, hupdate, hfinal⟩ := evp.kept (ivOctets p.cipher * 8) hkeeps hregular
  have hgenuine : evp.decryptFinal p.context p.data = true ↔ p.Genuine evp := by
    rw [evp.verifies hregular hdata]
    constructor
    · rintro ⟨tag, htag, hne, hprefix⟩
      cases htag
      exact ⟨hne, hprefix⟩
    · rintro ⟨hne, hprefix⟩
      exact ⟨p.tag, rfl, hne, hprefix⟩
  unfold Parts.result Parts.relengthened
  rw [hupdate, hfinal, evp.decrypts hregular hdata]
  simp only [hgenuine]
  rfl

end

/-! ## The round trip -/

theorem paddedKey_ok (cipher : Cipher) (hkey : key ≠ []) : ∃ k, paddedKey cipher key = .ok k := by
  have hlength : ¬ key.length < 1 := by
    have hpos := List.length_pos_iff.mpr hkey
    omega
  exact ⟨_, if_neg hlength⟩

theorem ivOctets_eq (hcipher : cipher ≠ .Invalid) : ivOctets cipher = 16 := by
  cases cipher <;> first | rfl | exact absurd rfl hcipher

theorem tagLength_eq (hcipher : cipher ≠ .Invalid) : tagLength cipher = 16 := by
  cases cipher <;> first | rfl | exact absurd rfl hcipher

/-- The texts of the initialization vector and of the tag, which are of a fixed length. -/
theorem encodeBase64_short (evp : EvpGcm) {x : Str} (hlength : x.length = 16) :
    Bytes.encodeBase64 evp.toEvpBase64 x = .ok (Base64.encode x) ∧ Base64.encode x ≠ [] ∧
      Bytes.decodeBase64 evp.toEvpBase64 (Base64.encode x) = .ok x := by
  have hne : x ≠ [] := by
    rintro rfl
    cases hlength
  refine ⟨Bytes.encodeBase64_eq hne ?_, Base64.encode_ne_nil hne, Bytes.decodeBase64_encode ?_⟩
  · rw [hlength]
    decide
  · rw [Base64.encode_length, hlength]
    decide

theorem cipherOctets_ok (hcipher : cipher ≠ .Invalid) (n : Nat) : ∃ m, cipherOctets cipher n = .ok m := by
  have hblock : blockOctets cipher ≠ 0 := by
    cases cipher <;> first | decide | exact absurd rfl hcipher
  exact ⟨_, if_neg hblock⟩

/-- The context that `encrypt` initializes. -/
def startContext (cipher : Cipher) (k iv : Str) : Context := { cipher := cipher, key := k, iv := iv }

theorem encrypt_eq {k encrypted tag : Str} (hcipher : cipher ≠ .Invalid) (hk : paddedKey cipher key = .ok k)
    (hiv : iv.length = 16)
    (hupdate : evp.encryptUpdate ((startContext cipher k iv).setIvLength (ivOctets cipher * 8)) src = some encrypted)
    (hfinal : evp.encryptFinal ((startContext cipher k iv).setIvLength (ivOctets cipher * 8)) src = true)
    (htag : evp.getTag ((startContext cipher k iv).setIvLength (ivOctets cipher * 8)) src = some tag) :
    encrypt evp iv cipher key src = (Bytes.encodeBase64 evp.toEvpBase64 encrypted).map
      (fun sdata => envelope (cipher2String cipher) sdata (Base64.encode iv) (Base64.encode tag)) := by
  obtain ⟨m, hm⟩ := cipherOctets_ok hcipher src.length
  have hlength : tag.length = 16 := by rw [evp.length_getTag htag, ← tagLength_eq hcipher]; rfl
  unfold startContext at hupdate hfinal htag
  unfold encrypt
  rw [hk, hm]
  dsimp only [bind, Except.bind]
  rw [hupdate]
  dsimp only
  rw [if_neg (by rw [hfinal]; decide), htag]
  dsimp only
  rw [(encodeBase64_short evp hiv).1, (encodeBase64_short evp hlength).1]
  cases Bytes.encodeBase64 evp.toEvpBase64 encrypted <;> rfl

/-- A text that has been encrypted has come through all the calls. -/
theorem encrypt_inv {text : Str} (hcipher : cipher ≠ .Invalid) (hiv : iv.length = 16)
    (h : encrypt evp iv cipher key src = .ok text) :
    ∃ k encrypted sdata tag, paddedKey cipher key = .ok k ∧
      evp.encryptUpdate ((startContext cipher k iv).setIvLength (ivOctets cipher * 8)) src = some encrypted ∧
      Bytes.encodeBase64 evp.toEvpBase64 encrypted = .ok sdata ∧ tag.length = 16 ∧
      text = envelope (cipher2String cipher) sdata (Base64.encode iv) (Base64.encode tag) := by
  obtain ⟨m, hm⟩ := cipherOctets_ok hcipher src.length
  cases hk : paddedKey cipher key with
  | error error =>
      unfold encrypt at h
      rw [hk] at h
      cases h
  | ok k =>
      have hrun := h
      unfold encrypt at hrun
      rw [hk, hm] at hrun
      dsimp only [bind, Except.bind] at hrun
      cases hupdate : evp.encryptUpdate ((startContext cipher k iv).setIvLength (ivOctets cipher * 8)) src with
      | none =>
          unfold startContext at hupdate
          rw [hupdate] at hrun
          cases hrun
      | some encrypted =>
          have hupdate' := hupdate
          unfold startContext at hupdate'
          rw [hupdate'] at hrun
          dsimp only at hrun
          split at hrun
          · cases hrun
          · rename_i hfinal
            split at hrun
            · cases hrun
            · rename_i tag htag
              rw [encrypt_eq hcipher hk hiv hupdate ((Bool.not_eq_false _).mp hfinal) htag] at h
              cases hencode : Bytes.encodeBase64 evp.toEvpBase64 encrypted with
              | error error =>
                  rw [hencode] at h
                  cases h
              | ok sdata =>
                  rw [hencode] at h
                  refine ⟨k, encrypted, sdata, tag, rfl, hupdate, hencode, ?_, (Except.ok.inj h).symm⟩
                  rw [evp.length_getTag htag, ← tagLength_eq hcipher]
                  rfl

/-- The text of the sealed data is opened again. -/
theorem parts_envelope {k data tag : Str} (hcipher : cipher ≠ .Invalid) (hk : paddedKey cipher key = .ok k)
    (hiv : iv.length = 16) (htag : tag.length = 16) (hdata : data ≠ [])
    (hlength : (Base64.encode data).length < 2 ^ 31) :
    parts evp key (envelope (cipher2String cipher) (Base64.encode data) (Base64.encode iv) (Base64.encode tag)) =
      .ok (some ⟨cipher, k, iv, data, tag⟩) := by
  obtain ⟨-, hivne, hiv'⟩ := encodeBase64_short evp hiv
  obtain ⟨-, htagne, htag'⟩ := encodeBase64_short evp htag
  have hname : cipher2String cipher ≠ [] := by cases cipher <;> decide
  unfold parts
  rw [decode_envelope (clean_cipher2String cipher) (clean_encode data) (clean_encode iv) (clean_encode tag) hname hivne
    htagne, if_neg (Base64.encode_ne_nil hdata)]
  dsimp only [bind, Except.bind]
  rw [string2Cipher_cipher2String, Bytes.decodeBase64_encode hlength, hiv', htag', hk]
  exact if_neg hcipher

/-- Behind data without a text, nothing is recognized. -/
theorem parts_envelope_nil {tag : Str} (hiv : iv.length = 16) (htag : tag.length = 16) :
    parts evp key (envelope (cipher2String cipher) [] (Base64.encode iv) (Base64.encode tag)) = .ok none := by
  obtain ⟨-, hivne, -⟩ := encodeBase64_short evp hiv
  obtain ⟨-, htagne, -⟩ := encodeBase64_short evp htag
  have hname : cipher2String cipher ≠ [] := by cases cipher <;> decide
  have hnil : Clean [] := ⟨List.not_mem_nil, List.not_mem_nil⟩
  unfold parts
  rw [decode_envelope (clean_cipher2String cipher) hnil (clean_encode iv) (clean_encode tag) hname hivne htagne,
    if_pos rfl]

/-- **What is encrypted is decrypted again** where the library goes on with the initialization vector, unless the data
    are empty or their base64 text has more characters than an `int` counts. -/
theorem decrypt_encrypt_iff (hcipher : cipher ≠ .Invalid) (hkey : key ≠ []) (hiv : iv.length = ivOctets cipher)
    (hsrc : src.length < 2 ^ 31) :
    (∃ text, encrypt evp iv cipher key src = .ok text ∧ decrypt evp key text dest = .ok (0, src)) ↔
      evp.keepsIv = true ∧ src ≠ [] ∧ Base64.linesLength src.length < 2 ^ 31 := by
  rw [ivOctets_eq hcipher] at hiv
  have hivne : iv ≠ [] := by
    rintro rfl
    cases hiv
  constructor
  · rintro ⟨text, hencrypt, hdecrypt⟩
    obtain ⟨k, encrypted, sdata, tag, hk, hupdate, hencode, htag, rfl⟩ := encrypt_inv hcipher hiv hencrypt
    have hlength := evp.length_encryptUpdate hupdate
    have hsome : encrypted ≠ [] ∧ Base64.linesLength encrypted.length < 2 ^ 31 := by
      by_contra hnot
      -- there is no text of the data, so nothing is recognized
      have hdata : encrypted = [] ∨ 2 ^ 31 ≤ Base64.linesLength encrypted.length := by
        by_cases hnil : encrypted = []
        · exact .inl hnil
        · exact .inr (Nat.le_of_not_lt fun h => hnot ⟨hnil, h⟩)
      obtain rfl := Bytes.encodeBase64_eq_nil (hlength ▸ hsrc) hdata hencode
      rw [decrypt_eq, parts_envelope_nil hiv htag] at hdecrypt
      cases hdecrypt
    rw [hlength, ← List.length_pos_iff, hlength, List.length_pos_iff] at hsome
    refine ⟨?_, hsome⟩
    by_contra hkeeps
    have hlost := evp.lost ((Bool.not_eq_true _).mp hkeeps)
      (show (startContext cipher k iv).Regular from ⟨hivne, rfl⟩) (ivOctets_mul_ne cipher) hsome.1
    cases hlost.1.symm.trans hupdate
  · rintro ⟨hkeeps, hne, hlength⟩
    obtain ⟨k, hk⟩ := paddedKey_ok cipher hkey
    have hregular : (startContext cipher k iv).Regular := ⟨hivne, rfl⟩
    obtain ⟨hupdate, hfinal, hget, -, -⟩ := evp.kept (ivOctets cipher * 8) hkeeps hregular
    obtain ⟨hupdate', hfinal', hget'⟩ := evp.encrypts hregular hne
    have hsealed : (evp.sealed cipher k iv src).length = src.length := evp.length_sealed
    have hne' : evp.sealed cipher k iv src ≠ [] := by
      rw [← List.length_pos_iff, hsealed, List.length_pos_iff]
      exact hne
    have htag : (evp.tagOf cipher k iv (evp.sealed cipher k iv src)).length = 16 := by
      rw [evp.length_tagOf, tagLength_eq hcipher]
    have hlength' : (Base64.encode (evp.sealed cipher k iv src)).length < 2 ^ 31 := by
      rw [Base64.encode_length, hsealed]
      unfold Base64.linesLength at hlength
      split_ifs at hlength <;> omega
    refine ⟨envelope (cipher2String cipher) (Base64.encode (evp.sealed cipher k iv src)) (Base64.encode iv)
      (Base64.encode (evp.tagOf cipher k iv (evp.sealed cipher k iv src))), ?_, ?_⟩
    · rw [encrypt_eq hcipher hk hiv (by rw [hupdate, hupdate']) (by rw [hfinal, hfinal']) (by rw [hget, hget'])]
      show (Bytes.encodeBase64 evp.toEvpBase64 (evp.sealed cipher k iv src)).map _ = _
      rw [Bytes.encodeBase64_eq hne' (hsealed ▸ hlength)]
      rfl
    · rw [decrypt_eq, parts_envelope hcipher hk hiv htag hne' hlength']
      dsimp only
      rw [Parts.result_opened hne' hkeeps hivne, if_pos]
      · exact congrArg (fun out => Except.ok (0, out)) evp.opened_sealed
      · exact ⟨List.ne_nil_of_length_pos (by rw [htag]; decide), List.prefix_rfl⟩

/-- A library that leaves the data as they are, with a tag of zeros. -/
def plainEvp (keepsIv : Bool) : EvpGcm where
  encode x := if x = [] then none else some (Base64.lines x)
  decode t _ :=
    match Base64.decode t with
    | some x => .ok x
    | none => .error .final
  encode_eq h := by
    split at h
    · cases h
    · exact (Option.some.inj h).symm
  encode_isSome hne _ := by rw [if_neg hne]; rfl
  decode_encode _ := by rw [Base64.decode_encode]
  sealed _ _ _ src := src
  opened _ _ _ data := data
  tagOf cipher _ _ _ := List.replicate (tagLength cipher) 0
  length_sealed := rfl
  opened_sealed := rfl
  length_tagOf := List.length_replicate
  encryptUpdate ctx src := if keepsIv = false ∧ ctx.ivLength.isSome ∧ src ≠ [] then none else some src
  encryptFinal ctx _ := keepsIv || ctx.ivLength.isNone
  getTag ctx _ := some (List.replicate (tagLength ctx.cipher) 0)
  decryptUpdate ctx data :=
    if data ≠ [] ∧ (ctx.iv = [] ∨ keepsIv = false ∧ ctx.ivLength.isSome) then none else some data
  decryptFinal ctx _ :=
    match ctx.tag with
    | none => false
    | some tag => tag ≠ [] ∧ tag <+: List.replicate (tagLength ctx.cipher) 0
  errors := []
  length_encryptUpdate h := by
    split at h
    · cases h
    · rw [Option.some.inj h]
  length_decryptUpdate h := by
    split at h
    · cases h
    · rw [Option.some.inj h]
  length_getTag h := by
    rw [← Option.some.inj h]
    exact List.length_replicate
  encrypts := by
    rintro ctx src ⟨-, hlength⟩ -
    simp [hlength]
  decrypts := by
    rintro ctx data ⟨hiv, hlength⟩ -
    simp [hiv, hlength]
  verifies := by
    rintro ctx data - -
    cases ctx.tag with
    | none => simp
    | some tag => simp
  decryptUpdate_without_iv hiv hdata := if_pos ⟨hdata, .inl hiv⟩
  keepsIv := keepsIv
  kept n hkeeps h := by
    obtain ⟨hiv, -⟩ := h
    refine ⟨?_, ?_, rfl, ?_, rfl⟩
    · simp [Context.setIvLength, hkeeps]
    · simp [Context.setIvLength, hkeeps]
    · simp [Context.setIvLength, hkeeps, hiv]
  lost hkeeps h _ hdata := by
    simp [Context.setIvLength, hkeeps, hdata]

theorem decrypt_encrypt_plain : ∃ text,
    encrypt (plainEvp true) (List.replicate 16 7) .EVP_aes_256_gcm (lit "secret") (lit "value") = .ok text ∧
      decrypt (plainEvp true) (lit "secret") text (lit "old") = .ok (0, lit "value") :=
  (decrypt_encrypt_iff (by decide) (by decide) (by decide) (by decide)).mpr ⟨rfl, by decide, by decide⟩

/-- Where the initialization vector is lost, nothing is encrypted; where it is not, empty data are not. -/
theorem encrypt_throws :
    encrypt (plainEvp false) (List.replicate 16 7) .EVP_aes_256_gcm (lit "secret") (lit "value") =
        .error (.exception (lit "EVP_EncryptUpdate : ")) ∧
      encrypt (plainEvp true) (List.replicate 16 7) .EVP_aes_256_gcm (lit "secret") [] =
        .error (.exception (lit "EVP_EncodeUpdate failed")) := by
  constructor
  · decide +kernel
  · decide +kernel

end DataCrypt
end Dodo.Common
