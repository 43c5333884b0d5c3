import Dodo.Common.DataCrypt

/-!
# `Common.PaddedKey` — the key that the cipher gets

`paddedKey` writes the key to a stream, octet by octet and from its beginning again, until there are as many octets as
the cipher needs. `Padded` is the invariant of that loop: the index is the number of octets written, modulo the length
of the key. What `encrypt` and `decrypt` do with the key is separated from how they come to it (`sealWith`, `openWith`),
so that it can be said that both come to the same one.
-/

namespace Dodo.Common
namespace DataCrypt

open Lib

variable {cipher : Cipher} {key : Str} {p q : Str × Nat}

/-! ## The loop -/

/-- The condition of the loop. -/
def padding (cipher : Cipher) (p : Str × Nat) : Bool := p.1.length < keyOctets cipher

/-- The first `n` octets of the key, repeated. -/
def repeated (key : Str) (n : Nat) : Str := (List.range n).map (fun i => octetAt key (i % key.length))

/-- What has been written is the key, repeated, and the next octet is at the index. -/
structure Padded (cipher : Cipher) (key : Str) (p : Str × Nat) : Prop where
  text : p.1 = repeated key p.1.length
  index : p.2 = p.1.length % key.length
  short : p.1.length ≤ keyOctets cipher

theorem padded_start : Padded cipher key ([], 0) := ⟨rfl, (Nat.zero_mod _).symm, Nat.zero_le _⟩

/-- The index starts again exactly where the number of octets is a multiple of the length. -/
theorem succ_mod_eq {n : Nat} (hn : 0 < n) (m : Nat) : (m + 1) % n = if n - 1 < m % n + 1 then 0 else m % n + 1 := by
  have hlt := Nat.mod_lt m hn
  have hsplit : m + 1 = n * (m / n) + (m % n + 1) := by
    rw [← Nat.add_assoc, Nat.div_add_mod]
  by_cases hlast : n - 1 < m % n + 1
  · have hwhole : m % n + 1 = n := by omega
    rw [if_pos hlast, hsplit, hwhole, Nat.mul_add_mod, Nat.mod_self]
  · rw [if_neg hlast, hsplit, Nat.mul_add_mod]
    exact Nat.mod_eq_of_lt (by omega)

theorem Padded.pass (hkey : key ≠ []) (hgoing : padding cipher p = true) (h : Padded cipher key p) :
    Padded cipher key (padOnce key p) := by
  have hlength : (padOnce key p).1.length = p.1.length + 1 := List.length_append
  refine ⟨?_, ?_, ?_⟩
  · rw [hlength, repeated, List.range_succ, List.map_append, ← repeated, ← h.text]
    show p.1 ++ [octetAt key p.2] = p.1 ++ [octetAt key (p.1.length % key.length)]
    rw [h.index]
  · rw [hlength, succ_mod_eq (List.length_pos_iff.mpr hkey), ← h.index]
    rfl
  · rw [hlength]
    exact of_decide_eq_true hgoing

theorem padded_of_steps (hkey : key ≠ []) (hsteps : While.Steps (padding cipher) (padOnce key) ([], 0) p) :
    Padded cipher key p :=
  hsteps.preserves (fun _ hgoing h => h.pass hkey hgoing) padded_start

/-- Every access is inside the key. -/
theorem Padded.index_lt (hkey : key ≠ []) (h : Padded cipher key p) : p.2 < key.length := by
  rw [h.index]
  exact Nat.mod_lt _ (List.length_pos_iff.mpr hkey)

/-- A loop that has ended has written all the octets. -/
theorem Padded.ended (h : Padded cipher key p) (hended : padding cipher p = false) :
    p.1 = repeated key (keyOctets cipher) := by
  have hlength : p.1.length = keyOctets cipher :=
    Nat.le_antisymm h.short (Nat.le_of_not_lt (of_decide_eq_false hended))
  rw [h.text, hlength]

theorem keyOctets_pos (hcipher : cipher ≠ .Invalid) : 0 < keyOctets cipher := by
  cases cipher with
  | Invalid => exact absurd rfl hcipher
  | EVP_aes_128_gcm => decide
  | EVP_aes_192_gcm => decide
  | EVP_aes_256_gcm => decide

/-- **Termination**: there are as many passes as octets. -/
theorem exists_steps_padding (hcipher : cipher ≠ .Invalid) (hkey : key ≠ []) :
    ∃ k index, While.Steps (padding cipher) (padOnce key) ([], 0) (k, index) ∧ padding cipher (k, index) = false ∧
      paddedKey cipher key = .ok k := by
  have hsteps : While.Steps (padding cipher) (padOnce key) ([], 0)
      (While.loop (padding cipher) (padOnce key) (keyOctets cipher) ([], 0)) := While.steps_loop _ _
  have hended : padding cipher (While.loop (padding cipher) (padOnce key) (keyOctets cipher) ([], 0)) = false := by
    apply While.loop_ended (fun p : Str × Nat => keyOctets cipher - 1 - p.1.length)
    · intro p _ hgoing
      have hlength : (padOnce key p).1.length = p.1.length + 1 := List.length_append
      have hlt : (padOnce key p).1.length < keyOctets cipher := of_decide_eq_true hgoing
      omega
    · have hpos := keyOctets_pos hcipher
      show keyOctets cipher - 1 - 0 < keyOctets cipher
      omega
  have hlength : ¬ key.length < 1 := by
    have hpos := List.length_pos_iff.mpr hkey
    omega
  exact ⟨_, _, hsteps, hended, if_neg hlength⟩

/-! ## The repeated key -/

theorem length_repeated (key : Str) (n : Nat) : (repeated key n).length = n := by
  rw [repeated, List.length_map, List.length_range]

theorem getElem?_repeated (hkey : key ≠ []) {n i : Nat} (hi : i < n) :
    (repeated key n)[i]? = key[i % key.length]? := by
  have hlt : i % key.length < key.length := Nat.mod_lt _ (List.length_pos_iff.mpr hkey)
  rw [repeated, List.getElem?_map, List.getElem?_range hi, Option.map_some, octetAt, List.getD_eq_getElem?_getD,
    List.getElem?_eq_getElem hlt, Option.getD_some]

/-- A long key is cut off. -/
theorem repeated_eq_take {n : Nat} (hn : n ≤ key.length) : repeated key n = key.take n := by
  apply List.ext_getElem?
  intro i
  by_cases hi : i < n
  · have hkey : key ≠ [] := List.ne_nil_of_length_pos (by omega)
    rw [getElem?_repeated hkey hi, List.getElem?_take_of_lt hi, Nat.mod_eq_of_lt (by omega)]
  · have hlength := length_repeated key n
    rw [List.getElem?_eq_none (by omega), List.getElem?_eq_none (by rw [List.length_take]; omega)]

/-! ## Where the key is used -/

/-- `encrypt` with the key `k` for the cipher. -/
def sealWith (evp : EvpGcm) (iv : Str) (cipher : Cipher) (k src : Str) : Except CryptError Str := do
  let _ ← cipherOctets cipher src.length
  let ctx := (startContext cipher k iv).setIvLength (ivOctets cipher * 8)
  match evp.encryptUpdate ctx src with
  | none => sslError evp (lit "EVP_EncryptUpdate : ")
  | some encrypted =>
    if evp.encryptFinal ctx src = false then sslError evp (lit "EVP_EncryptFinal_ex : ")
    else match evp.getTag ctx src with
    | none => sslError evp (lit "EVP_CIPHER_CTX_ctrl : ")
    | some tag => do
      let sdata ← Bytes.encodeBase64 evp.toEvpBase64 encrypted
      let siv ← Bytes.encodeBase64 evp.toEvpBase64 iv
      let stag ← Bytes.encodeBase64 evp.toEvpBase64 tag
      return envelope (cipher2String cipher) sdata siv stag

/-- `decrypt` with the key `k` for the cipher, of a text with these values. -/
def openWith (evp : EvpGcm) (cipher : Cipher) (k : Str) (e : Envelope) : Except CryptError (Nat × Str) := do
  let data ← Bytes.decodeBase64 evp.toEvpBase64 e.data
  let iv ← Bytes.decodeBase64 evp.toEvpBase64 e.iv
  let tag ← Bytes.decodeBase64 evp.toEvpBase64 e.tag
  Parts.result evp ⟨cipher, k, iv, data, tag⟩

variable {evp : EvpGcm} {iv src text dest k : Str} {e : Envelope}

theorem encrypt_eq_sealWith (hk : paddedKey cipher key = .ok k) :
    encrypt evp iv cipher key src = sealWith evp iv cipher k src := by
  unfold encrypt
  rw [hk]
  rfl

theorem decrypt_eq_openWith (hcipher : cipher ≠ .Invalid) (hk : paddedKey cipher key = .ok k)
    (htext : decode text = some e) (he : string2Cipher e.cipher = cipher) :
    decrypt evp key text dest = openWith evp cipher k e := by
  rw [decrypt_eq]
  unfold parts openWith
  rw [htext]
  dsimp only [bind, Except.bind]
  rw [he, hk]
  cases Bytes.decodeBase64 evp.toEvpBase64 e.data with
  | error => rfl
  | ok data =>
    cases Bytes.decodeBase64 evp.toEvpBase64 e.iv with
    | error => rfl
    | ok iv =>
      cases Bytes.decodeBase64 evp.toEvpBase64 e.tag with
      | error => rfl
      | ok tag =>
        dsimp only
        rw [if_neg hcipher]
        rfl

/-- A text in base64 has no delimiters, however much of it is kept. -/
theorem clean_encodeBase64 {evp : EvpBase64} {x t : Str} (h : Bytes.encodeBase64 evp x = .ok t) : Clean t := by
  unfold Bytes.encodeBase64 at h
  cases hencode : evp.encode x with
  | none =>
      rw [hencode] at h
      cases h
  | some target =>
      rw [hencode] at h
      obtain rfl := evp.encode_eq hencode
      obtain rfl := Except.ok.inj h
      have hsub := ((Base64.lines x).take_sublist (asInt (Base64.lines x).length).toNat).filter
        (fun c => c ≠ 0 && c ≠ Base64.newline)
      rw [Bytes.filter_lines] at hsub
      obtain ⟨hcomma, hcolon⟩ := clean_encode x
      exact ⟨fun hmem => hcomma (hsub.mem hmem), fun hmem => hcolon (hsub.mem hmem)⟩

/-- What is encrypted names its cipher. -/
theorem cipher_of_encrypt (hcipher : cipher ≠ .Invalid)
    (hiv : iv.length = ivOctets cipher) (hencrypt : encrypt evp iv cipher key src = .ok text)
    (htext : decode text = some e) : string2Cipher e.cipher = cipher := by
  rw [ivOctets_eq hcipher] at hiv
  have hname : cipher2String cipher ≠ [] := by cases cipher <;> decide
  obtain ⟨-, encrypted, sdata, tag, -, -, hdata, htag, rfl⟩ := encrypt_inv hcipher hiv hencrypt
  rw [decode_envelope (clean_cipher2String cipher) (clean_encodeBase64 hdata) (clean_encode iv) (clean_encode _) hname
    (encodeBase64_short evp hiv).2.1 (encodeBase64_short evp htag).2.1] at htext
  by_cases hnil : sdata = []
  · rw [if_pos hnil] at htext
    cases htext
  · rw [if_neg hnil] at htext
    rw [← Option.some.inj htext]
    exact string2Cipher_cipher2String cipher

/-- **The key for the cipher** is the key, repeated or cut off to the size that the cipher needs. The loop comes to an end
with it and stays inside the key on the way, and both directions use it: `encrypt`, and `decrypt` of every text that names
the cipher, as those that were encrypted do. -/
theorem paddedKey_repeats (hcipher : cipher ≠ .Invalid) (hkey : key ≠ []) :
    ∃ k index, paddedKey cipher key = .ok k ∧
      (While.Steps (padding cipher) (padOnce key) ([], 0) (k, index) ∧ padding cipher (k, index) = false) ∧
      (∀ p, While.Steps (padding cipher) (padOnce key) ([], 0) p → p.2 < key.length) ∧
      k.length = keyOctets cipher ∧ (∀ i < keyOctets cipher, k[i]? = key[i % key.length]?) ∧
      (keyOctets cipher ≤ key.length → k = key.take (keyOctets cipher)) ∧
      (∀ (evp : EvpGcm) (iv src : Str), encrypt evp iv cipher key src = sealWith evp iv cipher k src) ∧
      (∀ (evp : EvpGcm) (text dest : Str) (e : Envelope), decode text = some e → string2Cipher e.cipher = cipher →
        decrypt evp key text dest = openWith evp cipher k e) ∧
      (∀ (evp : EvpGcm) (iv src text : Str) (e : Envelope), iv.length = ivOctets cipher →
        encrypt evp iv cipher key src = .ok text → decode text = some e → string2Cipher e.cipher = cipher) := by
  obtain ⟨k, index, hsteps, hended, hk⟩ := exists_steps_padding hcipher hkey
  have hrepeated : k = repeated key (keyOctets cipher) := (padded_of_steps hkey hsteps).ended hended
  refine ⟨k, index, hk, ⟨hsteps, hended⟩, ?_, ?_, ?_, ?_, ?_, ?_, ?_⟩
  · intro p hp
    exact (padded_of_steps hkey hp).index_lt hkey
  · rw [hrepeated, length_repeated]
  · intro i hi
    rw [hrepeated, getElem?_repeated hkey hi]
  · intro hlong
    rw [hrepeated, repeated_eq_take hlong]
  · intro evp iv src
    exact encrypt_eq_sealWith hk
  · intro evp text dest e htext he
    exact decrypt_eq_openWith hcipher hk htext he
  · intro evp iv src text e hiv hencrypt htext
    exact cipher_of_encrypt hcipher hiv hencrypt htext

/-- A key of six octets for one of sixteen: twice the whole of it, and four octets more. -/
theorem paddedKey_repeats_short : paddedKey .EVP_aes_128_gcm (lit "secret") = .ok (lit "secretsecretsecr") := by
  obtain ⟨k, index, hk, _, _, hlength, hoctets, _⟩ :=
    @paddedKey_repeats .EVP_aes_128_gcm (lit "secret") (by decide) (by decide)
  have hsame : ∀ i < 16, (lit "secret")[i % (lit "secret").length]? = (lit "secretsecretsecr")[i]? := by decide
  rw [hk]
  congr 1
  apply List.ext_getElem?
  intro i
  by_cases hi : i < 16
  · rw [hoctets i hi, hsame i hi]
  · have hshort : k.length ≤ i := by
      rw [hlength]
      exact Nat.le_of_not_lt hi
    rw [List.getElem?_eq_none hshort, List.getElem?_eq_none (Nat.le_of_not_lt hi)]

end DataCrypt
end Dodo.Common
