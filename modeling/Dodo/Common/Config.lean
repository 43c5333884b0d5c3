import Dodo.Common.DataCrypt

/-!
# `Common.Config` — encrypted values, and what is released of them

`getDecryptedValue` decrypts a text of the configuration file with the secret of the application. Of yaml-cpp,
`YamlCpp` has what it calls: a node under a key, and the text of a node. Unless OpenSSL refuses to decrypt at all,
`decrypt` has written the decrypted data into `dest` when it finds that the tag is wrong, and `getDecryptedValue` does
not look at what it returns; `released_iff` says when nothing comes out that is not authentic.
-/

namespace Dodo.Common

open Lib DataCrypt

inductive YamlException where
  | badSubscript
  | badConversion
deriving DecidableEq, Repr

/-- The functions of yaml-cpp. -/
structure YamlCpp (Node : Type) where
  /-- `ref[k]`, which may be undefined. -/
  get : Node → Str → Except YamlException (Option Node)
  /-- `as<std::string>` -/
  asString : Node → Except YamlException Str

inductive ConfigError where
  /-- `common::Exception` with this text. -/
  | exception (text : Str)
  | yaml (error : YamlException)
  | crypt (error : CryptError)
deriving DecidableEq, Repr

structure Config (Node : Type) where
  path_ : Str
  secret_ : Str
  yaml_ : Node

namespace Config

variable {Node : Type}

def flattenKeyPath (keypath : List Str) : Str :=
  keypath.foldl (fun ss k => (if ss.length ≠ 0 then ss ++ lit "::" else ss) ++ k) []

/-- The loop over the keys that are left. -/
def follow (yaml : YamlCpp Node) (missing : Str) (ref : Node) : List Str → Except ConfigError Node
  | [] => .ok ref
  | k :: keypath =>
    match yaml.get ref k with
    | .error error => .error (.yaml error)
    | .ok none => .error (.exception missing)
    | .ok (some ref') => follow yaml missing ref' keypath

/-- The text at a key path. -/
def textAt (yaml : YamlCpp Node) (config : Config Node) (keypath : List Str) : Except ConfigError Str := do
  let ref ← follow yaml (lit "key " ++ flattenKeyPath keypath ++ lit " not found in " ++ config.path_) config.yaml_ keypath
  match yaml.asString ref with
  | .error error => .error (.yaml error)
  | .ok text => .ok text

/-- `decrypted` afterwards. What `decrypt` returns is dropped. -/
def getDecryptedValue (yaml : YamlCpp Node) (evp : EvpGcm) (config : Config Node) (keypath : List Str) (decrypted : Str) :
    Except ConfigError Str := do
  let text ← textAt yaml config keypath
  match decrypt evp config.secret_ text decrypted with
  | .error error => .error (.crypt error)
  | .ok (_, dest) => .ok dest

/-! ## What is released -/

variable {evp : EvpGcm} {yaml : YamlCpp Node} {config : Config Node} {keypath : List Str} {key src dest decrypted : Str}

/-- Where `decrypt` fails, it leaves `dest` as it is or empty. -/
def Withholds (evp : EvpGcm) (key src dest : Str) : Prop :=
  ∀ code out, decrypt evp key src dest = .ok (code, out) → code ≠ 0 → out = dest ∨ out = []

/-- What `getDecryptedValue` gives has been decrypted without an error. -/
def Authenticated (yaml : YamlCpp Node) (evp : EvpGcm) (config : Config Node) (keypath : List Str) (decrypted : Str) :
    Prop :=
  ∀ out, getDecryptedValue yaml evp config keypath decrypted = .ok out →
    ∃ text, textAt yaml config keypath = .ok text ∧ decrypt evp config.secret_ text decrypted = .ok (0, out)

/-- Where the data are decrypted, their tag is right. -/
def Vouched (evp : EvpGcm) (p : Parts) : Prop :=
  p.data ≠ [] → p.iv ≠ [] → evp.keepsIv = true → p.Genuine evp

/-- Without data, OpenSSL fails at once or finds the tag right. -/
def VouchedEmpty (evp : EvpGcm) (p : Parts) : Prop :=
  p.data = [] → evp.decryptUpdate p.relengthened [] = none ∨ evp.decryptFinal p.relengthened [] = true

variable {p : Parts} {code : Nat} {out : Str}

theorem length_of_result (h : p.result evp = .ok (code, out)) : out.length = p.data.length := by
  unfold Parts.result at h
  cases hupdate : evp.decryptUpdate p.relengthened p.data with
  | none =>
      rw [hupdate] at h
      cases h
  | some dest =>
      rw [hupdate] at h
      cases h
      exact evp.length_decryptUpdate hupdate

/-- Data whose tag does not count are released with the error. -/
theorem result_of_not_vouched (h : ¬ Vouched evp p) :
    p.result evp = .ok (2, p.opened evp) ∧ p.opened evp ≠ [] := by
  unfold Vouched at h
  push Not at h
  obtain ⟨hdata, hiv, hkeeps, hforged⟩ := h
  have hresult := Parts.result_opened hdata hkeeps hiv
  rw [if_neg hforged] at hresult
  refine ⟨hresult, ?_⟩
  rw [← List.length_pos_iff, length_of_result hresult, List.length_pos_iff]
  exact hdata

theorem code_of_vouched (hdata : p.data ≠ []) (h : Vouched evp p) (hresult : p.result evp = .ok (code, out)) :
    code = 0 := by
  by_cases hrefused : evp.keepsIv = false ∨ p.iv = []
  · rw [Parts.result_refused hdata hrefused] at hresult
    cases hresult
  · rw [not_or, Bool.not_eq_false] at hrefused
    rw [Parts.result_opened hdata hrefused.1 hrefused.2, if_pos (h hdata hrefused.2 hrefused.1)] at hresult
    cases hresult
    rfl

theorem withholds_iff :
    (∀ dest, Withholds evp key src dest) ↔ ∀ p, parts evp key src = .ok (some p) → Vouched evp p := by
  constructor
  · intro h p hp
    by_contra hforged
    obtain ⟨hresult, hne⟩ := result_of_not_vouched hforged
    have hdecrypt : decrypt evp key src [] = .ok (2, p.opened evp) := by
      rw [decrypt_eq, hp]
      exact hresult
    rcases h [] _ _ hdecrypt (by decide) with hnil | hnil
    · exact hne hnil
    · exact hne hnil
  · intro h dest code out hdecrypt hcode
    rw [decrypt_eq] at hdecrypt
    cases hparts : parts evp key src with
    | error error =>
        rw [hparts] at hdecrypt
        cases hdecrypt
    | ok result =>
        rw [hparts] at hdecrypt
        cases result with
        | none =>
            cases hdecrypt
            exact .inl rfl
        | some p =>
            right
            by_cases hdata : p.data = []
            · rw [← List.length_eq_zero_iff, length_of_result hdecrypt, hdata]
              rfl
            · exact absurd (code_of_vouched hdata (h p hparts) hdecrypt) hcode

theorem getDecryptedValue_iff {out : Str} : getDecryptedValue yaml evp config keypath decrypted = .ok out ↔
    ∃ text code, textAt yaml config keypath = .ok text ∧
      decrypt evp config.secret_ text decrypted = .ok (code, out) := by
  unfold getDecryptedValue
  cases textAt yaml config keypath with
  | error error => simp [bind, Except.bind]
  | ok text =>
      cases hdecrypt : decrypt evp config.secret_ text decrypted with
      | error error => simp [bind, Except.bind, hdecrypt]
      | ok result =>
          obtain ⟨code, dest⟩ := result
          simp [bind, Except.bind, hdecrypt]

/-- No code but zero is returned with data, exactly if the tag vouches for them. -/
theorem code_iff : (∀ code out, p.result evp = .ok (code, out) → code = 0) ↔ Vouched evp p ∧ VouchedEmpty evp p := by
  constructor
  · intro h
    constructor
    · by_contra hforged
      exact absurd (h _ _ (result_of_not_vouched hforged).1) (by decide)
    · intro hdata
      by_contra hnot
      rw [not_or] at hnot
      obtain ⟨dest, hupdate⟩ := Option.ne_none_iff_exists'.mp hnot.1
      have hresult : p.result evp = .ok (2, dest) := by
        unfold Parts.result
        rw [hdata, hupdate]
        dsimp only
        rw [if_neg hnot.2]
      exact absurd (h _ _ hresult) (by decide)
  · rintro ⟨hvouched, hempty⟩ code out hresult
    by_cases hdata : p.data = []
    · unfold Parts.result at hresult
      rw [hdata] at hresult
      rcases hempty hdata with hupdate | hfinal
      · rw [hupdate] at hresult
        cases hresult
      · cases hupdate : evp.decryptUpdate p.relengthened [] with
        | none =>
            rw [hupdate] at hresult
            cases hresult
        | some dest =>
            rw [hupdate] at hresult
            dsimp only at hresult
            rw [if_pos hfinal] at hresult
            cases hresult
            rfl
    · exact code_of_vouched hdata hvouched hresult

theorem authenticated_iff : Authenticated yaml evp config keypath decrypted ↔
    ∀ text, textAt yaml config keypath = .ok text →
      (∃ error, parts evp config.secret_ text = .error error) ∨
        ∃ p, parts evp config.secret_ text = .ok (some p) ∧ Vouched evp p ∧ VouchedEmpty evp p := by
  constructor
  · intro h text htext
    -- whatever is returned is given out, so nothing but zero may be returned
    have hzero : ∀ code out, decrypt evp config.secret_ text decrypted = .ok (code, out) → code = 0 := by
      intro code out hdecrypt
      obtain ⟨text', htext', hdecrypt'⟩ := h out (getDecryptedValue_iff.mpr ⟨text, code, htext, hdecrypt⟩)
      cases htext.symm.trans htext'
      cases hdecrypt.symm.trans hdecrypt'
      rfl
    rw [decrypt_eq] at hzero
    cases hparts : parts evp config.secret_ text with
    | error error => exact .inl ⟨error, rfl⟩
    | ok result =>
        rw [hparts] at hzero
        cases result with
        | none => exact absurd (hzero _ _ rfl) (by decide)
        | some p => exact .inr ⟨p, rfl, code_iff.mp hzero⟩
  · intro h out hget
    obtain ⟨text, code, htext, hdecrypt⟩ := getDecryptedValue_iff.mp hget
    refine ⟨text, htext, ?_⟩
    rw [decrypt_eq] at hdecrypt ⊢
    rcases h text htext with ⟨error, hparts⟩ | ⟨p, hparts, hvouched⟩
    · rw [hparts] at hdecrypt
      cases hdecrypt
    · rw [hparts] at hdecrypt ⊢
      obtain rfl := code_iff.mpr hvouched code out hdecrypt
      exact hdecrypt

/-- **Nothing is released that is not authentic**, where the tag of what is decrypted is right. -/
theorem released_iff (evp : EvpGcm) (key src : Str) (yaml : YamlCpp Node) (config : Config Node)
    (keypath : List Str) (decrypted : Str) :
    (∀ dest, Withholds evp key src dest) ∧ Authenticated yaml evp config keypath decrypted ↔
      (∀ p, parts evp key src = .ok (some p) → Vouched evp p) ∧
      (∀ text, textAt yaml config keypath = .ok text →
        (∃ error, parts evp config.secret_ text = .error error) ∨
          ∃ p, parts evp config.secret_ text = .ok (some p) ∧ Vouched evp p ∧ VouchedEmpty evp p) :=
  and_congr withholds_iff authenticated_iff

/-- A text whose tag is not that of its data. -/
def forged : Str := lit "ENC[cipher:EVP_aes_128_gcm,data:YXR0YWNr,iv:AAAAAAAAAAAAAAAAAAAAAA==,tag:AQAAAAAAAAAAAAAAAAAAAA==]"

/-- A file that is one text. -/
def scalarYaml : YamlCpp Str where
  get _ _ := .error .badSubscript
  asString node := .ok node

/-- With every library, a text that is not recognized is taken for a value. Where the library goes on with the
initialization vector, the data of a forged text are in `dest` when the error is reported, and in the value. -/
theorem forged_released :
    (∀ evp, decrypt evp (lit "secret") (lit "plain") (lit "old") = .ok (1, lit "old") ∧
      getDecryptedValue scalarYaml evp ⟨lit "config.yaml", lit "secret", lit "plain"⟩ [] (lit "old") =
        .ok (lit "old")) ∧
      decrypt (plainEvp true) (lit "secret") forged [] = .ok (2, lit "attack") ∧
      getDecryptedValue scalarYaml (plainEvp true) ⟨lit "config.yaml", lit "secret", forged⟩ [] [] =
        .ok (lit "attack") := by
  refine ⟨fun evp => ⟨rfl, rfl⟩, ?_, ?_⟩
  · decide +kernel
  · decide +kernel

end Config
end Dodo.Common
