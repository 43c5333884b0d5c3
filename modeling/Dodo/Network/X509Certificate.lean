import Mathlib.Data.List.Basic
import Dodo.Common.Text

/-!
# `X509Certificate` — the names of a certificate

`verifySAN` compares the name of a peer with the common name and the subject alternative names of its
certificate. A certificate is its common name and its list of alternative names as octets. `verifyName_iff` says
what the scan from the right accepts, and `verifySAN_dns_iff` which certificates are accepted without wildcards.
-/

namespace Dodo.Network

open Common

inductive SANType where
  | stDNS
  | stURI
  | stEMAIL
  | stIP
deriving DecidableEq, Repr

structure SAN where
  san_type : SANType
  san_name : Str
deriving DecidableEq, Repr

/-- An entry of the extension. The types that are skipped are `none`. -/
structure GeneralName where
  type : Option SANType
  data : Str
deriving DecidableEq, Repr

structure X509 where
  commonName : Str
  generalNames : List GeneralName
deriving DecidableEq, Repr

/-- `inet_pton` for the two address families: the octets of the address. -/
structure InetPton where
  ipv4 : Str → Option Str
  ipv6 : Str → Option Str

/-- An `Address` without a port. -/
inductive IPAddress where
  | unspec
  | ipv4 (octets : Str)
  | ipv6 (octets : Str)
deriving DecidableEq, Repr

/-- The assignment of a string to a fresh address. -/
def IPAddress.ofString (pton : InetPton) (address : Str) : IPAddress :=
  match pton.ipv4 (cstr address) with
  | some octets => .ipv4 octets
  | none =>
    match pton.ipv6 (cstr address) with
    | some octets => .ipv6 octets
    | none => .unspec

def IPAddress.isValid (address : IPAddress) : Bool := address ≠ .unspec

namespace X509Certificate

def charDot : Octet := 46
def charStar : Octet := 42

/-! ## Subject alternative names -/

/-- The numbers of pairs of octets. -/
def hexPairs : Str → List Str
  | a :: b :: l => hexadecimal (a.toNat * 256 + b.toNat) :: hexPairs l
  | _ => []

def ipText (data : Str) : Str :=
  if data.length = 4 then (lit ".").intercalate (data.map (fun c => decimal c.toNat))
  else (lit ":").intercalate (hexPairs data)

/-- A name is taken from the octets as a C string. -/
def sanOf (name : GeneralName) : Option SAN :=
  match name.type with
  | some .stURI => some ⟨.stURI, cstr name.data⟩
  | some .stDNS => some ⟨.stDNS, cstr name.data⟩
  | some .stEMAIL => some ⟨.stEMAIL, cstr name.data⟩
  | some .stIP => some ⟨.stIP, ipText name.data⟩
  | none => none

def getSubjectAltNames (cert : X509) : List SAN := cert.generalNames.filterMap sanOf

/-! ## Verification -/

/-- The inner loop: no dots to the left. -/
def noDots : Str → Bool
  | [] => true
  | c :: l => if c = charDot then false else noDots l

/-- The loop over the names from the right to the left, and what it returns from inside. -/
def compareNames (allowwildcard : Bool) : Str → Str → Option Bool
  | c :: peer, d :: san =>
    if c ≠ d then
      if allowwildcard ∧ d = charStar then some (noDots (c :: peer)) else some false
    else compareNames allowwildcard peer san
  | _, _ => none

def verifyName (peer san : Str) (allowwildcard : Bool) : Bool :=
  if peer.length < san.length then false
  else (compareNames allowwildcard peer.reverse san.reverse).getD (peer.length = san.length)

def verifyIP (pton : InetPton) (peer san : Str) : Bool :=
  let addr_peer := IPAddress.ofString pton peer
  let addr_san := IPAddress.ofString pton san
  addr_peer.isValid && addr_san.isValid && addr_peer = addr_san

def verifySAN (pton : InetPton) (cert : X509) (san : SAN) (wildcards : Bool) : Bool :=
  let cert_sans := ⟨san.san_type, cert.commonName⟩ :: getSubjectAltNames cert
  match san.san_type with
  | .stDNS | .stURI | .stEMAIL =>
    cert_sans.any (fun s => s.san_type = san.san_type && verifyName san.san_name s.san_name wildcards)
  | .stIP => cert_sans.any (fun s => s.san_type = san.san_type && verifyIP pton san.san_name s.san_name)

/-! ## What the scan accepts -/

variable {peer san p q x : Str} {c d : Octet} {allowwildcard : Bool}

theorem noDots_iff {l : Str} : noDots l = true ↔ charDot ∉ l := by
  induction l with
  | nil => simp [noDots]
  | cons c l ih =>
      unfold noDots
      by_cases hc : c = charDot
      · simp [hc]
      · rw [if_neg hc, ih, List.mem_cons]
        simp [Ne.symm hc]

/-- The names from the right: one begins with the other, or there is a first difference. -/
theorem compareNames_cases (allowwildcard : Bool) (l m : Str) :
    (compareNames allowwildcard l m = none ∧ (l <+: m ∨ m <+: l)) ∨
    ∃ q c d l' m', l = q ++ c :: l' ∧ m = q ++ d :: m' ∧ c ≠ d ∧
      (compareNames allowwildcard l m = some true ↔ allowwildcard = true ∧ d = charStar ∧ charDot ∉ c :: l') ∧
      compareNames allowwildcard l m ≠ none := by
  induction l generalizing m with
  | nil => exact .inl ⟨by simp [compareNames], .inl List.nil_prefix⟩
  | cons c l ih =>
      cases m with
      | nil => exact .inl ⟨by simp [compareNames], .inr List.nil_prefix⟩
      | cons d m =>
          unfold compareNames
          by_cases hcd : c = d
          · subst hcd
            rw [if_neg (by simp)]
            rcases ih m with ⟨hnone, hpre⟩ | ⟨q, a, b, l', m', rfl, rfl, hne, htrue, hsome⟩
            · refine .inl ⟨hnone, ?_⟩
              simpa using hpre
            · exact .inr ⟨c :: q, a, b, l', m', rfl, rfl, hne, htrue, hsome⟩
          · rw [if_pos hcd]
            refine .inr ⟨[], c, d, l, m, rfl, rfl, hcd, ?_, ?_⟩
            · split_ifs with hwild
              · rw [Option.some.injEq, noDots_iff]
                exact ⟨fun h => ⟨hwild.1, hwild.2, h⟩, fun h => h.2.2⟩
              · simp only [Option.some.injEq, Bool.false_eq_true, false_iff]
                rintro ⟨hallow, hstar, -⟩
                exact hwild ⟨hallow, hstar⟩
            · split_ifs <;> simp

/-- The name differs from the other, from the right, first where that has a `*`. What is left of the name has no
    dots and is longer than what stands in front of the `*`. -/
structure Wildcard (peer san p x q : Str) : Prop where
  san_eq : san = p ++ charStar :: q
  peer_eq : peer = x ++ q
  differs : x.getLast? ≠ some charStar
  dotless : charDot ∉ x
  longer : p.length < x.length

theorem compareNames_append (q l m : Str) :
    compareNames allowwildcard (q ++ l) (q ++ m) = compareNames allowwildcard l m := by
  induction q with
  | nil => rfl
  | cons c q ih =>
      rw [List.cons_append, List.cons_append]
      conv_lhs => unfold compareNames
      rw [if_neg (by simp), ih]

theorem Wildcard.verifyName_eq (h : Wildcard peer san p x q) : verifyName peer san true = true := by
  obtain ⟨rfl, rfl, hdiffers, hdots, hlonger⟩ := h
  obtain ⟨x, c, rfl⟩ := (List.eq_nil_or_concat' x).resolve_left (by rintro rfl; simp at hlonger)
  have hc : c ≠ charStar := by simpa using hdiffers
  have hdots' : noDots (c :: x.reverse) = true := noDots_iff.mpr (by simpa [or_comm] using hdots)
  have hcompare : compareNames true (x ++ [c] ++ q).reverse (p ++ charStar :: q).reverse = some true := by
    have hpeer : (x ++ [c] ++ q).reverse = q.reverse ++ c :: x.reverse := by simp
    have hsan : (p ++ charStar :: q).reverse = q.reverse ++ charStar :: p.reverse := by simp
    rw [hpeer, hsan, compareNames_append]
    unfold compareNames
    rw [if_pos hc, if_pos ⟨rfl, rfl⟩, hdots']
  unfold verifyName
  rw [hcompare, if_neg (by simp at hlonger ⊢; omega)]
  rfl

/-- **What `verifyName` accepts.** -/
theorem verifyName_iff : verifyName peer san allowwildcard = true ↔
    peer = san ∨ (allowwildcard = true ∧ ∃ p x q, Wildcard peer san p x q) := by
  constructor
  · intro h
    unfold verifyName at h
    split_ifs at h with hlength
    rcases compareNames_cases allowwildcard peer.reverse san.reverse with
      ⟨hnone, hpre⟩ | ⟨q, c, d, l, m, hpeer, hsan, hcd, htrue, hsome⟩
    · -- no difference: the names are equal, because they are of one length
      rw [hnone, Option.getD_none, decide_eq_true_eq] at h
      left
      rcases hpre with hpre | hpre
      · exact List.reverse_injective (hpre.eq_of_length (by simpa using h))
      · exact List.reverse_injective (hpre.eq_of_length (by simpa using h.symm)).symm
    · right
      obtain ⟨b, hb⟩ := Option.ne_none_iff_exists'.mp hsome
      rw [hb, Option.getD_some] at h
      rw [hb, h] at htrue
      obtain ⟨hallow, rfl, hdots⟩ := htrue.mp rfl
      have hpeer' : peer = l.reverse ++ [c] ++ q.reverse := by
        rw [← List.reverse_reverse peer, hpeer]
        simp
      have hsan' : san = m.reverse ++ charStar :: q.reverse := by
        rw [← List.reverse_reverse san, hsan]
        simp
      refine ⟨hallow, m.reverse, l.reverse ++ [c], q.reverse, hsan', hpeer', ?_, ?_, ?_⟩
      · simpa using hcd
      · simpa [or_comm] using hdots
      · rw [hpeer', hsan'] at hlength
        simp at hlength ⊢
        omega
  · rintro (rfl | ⟨rfl, p, x, q, hwild⟩)
    · have hcompare : compareNames allowwildcard (peer.reverse ++ []) (peer.reverse ++ []) = none := by
        rw [compareNames_append]
        simp [compareNames]
      rw [List.append_nil] at hcompare
      unfold verifyName
      rw [if_neg (by simp), hcompare]
      simp
    · exact hwild.verifyName_eq

/-! ## Wildcards -/

/-- A text without dots stands for one `*`. -/
def WildcardMatch (peer san : Str) : Prop :=
  ∃ p w q, san = p ++ charStar :: q ∧ peer = p ++ w ++ q ∧ w ≠ [] ∧ charDot ∉ w

theorem Wildcard.wildcardMatch (h : Wildcard peer san p x q) (hp : p <+: peer) : WildcardMatch peer san := by
  obtain ⟨hsan, rfl, -, hdots, hlonger⟩ := h
  obtain ⟨w, rfl⟩ := List.prefix_of_prefix_length_le hp (List.prefix_append x q) (Nat.le_of_lt hlonger)
  refine ⟨p, w, q, hsan, rfl, ?_, fun hw => hdots (List.mem_append_right p hw)⟩
  rintro rfl
  simp at hlonger

theorem Wildcard.ne (h : Wildcard peer san p x q) : peer ≠ san := by
  intro heq
  rw [h.peer_eq, h.san_eq, ← List.singleton_append, ← List.append_assoc] at heq
  apply h.differs
  rw [List.append_cancel_right heq]
  simp

/-- Where the name is matched by some `*`, it begins with what stands in front of the `*` that the scan has met. -/
theorem Wildcard.prefix_of_match (h : Wildcard peer san p x q) (hmatch : WildcardMatch peer san) : p <+: peer := by
  obtain ⟨p', w, q', hsan, hpeer, -, -⟩ := hmatch
  have hp : p <+: san := h.san_eq ▸ List.prefix_append p _
  have hp' : p' <+: san := hsan ▸ List.prefix_append p' _
  have hp'' : p' <+: peer := by
    rw [hpeer, List.append_assoc]
    exact List.prefix_append p' _
  rcases Nat.lt_or_ge p'.length p.length with hlt | hge
  · -- the other `*` is further to the left: the `*` of the scan would be in the name too
    exfalso
    obtain ⟨r, rfl⟩ := List.prefix_of_prefix_length_le hp' hp (Nat.le_of_lt hlt)
    have hq : charStar :: q' = r ++ charStar :: q := by
      have hboth := hsan.symm.trans h.san_eq
      rw [List.append_assoc] at hboth
      exact List.append_cancel_left hboth
    cases r with
    | nil => simp at hlt
    | cons c r =>
        rw [List.cons_append, List.cons.injEq] at hq
        have hx : x ++ q = p' ++ w ++ r ++ [charStar] ++ q := by
          rw [← h.peer_eq, hpeer, hq.2]
          simp
        apply h.differs
        simp [List.append_cancel_right hx]
  · exact (List.prefix_of_prefix_length_le hp hp' hge).trans hp''

/-- **Names are matched soundly**, where the name begins with what stands in front of the `*` that the scan meets. -/
theorem verifyName_sound_iff (peer san : Str) :
    ((verifyName peer san true = true → peer = san ∨ WildcardMatch peer san) ∧
      (verifyName peer san false = true ↔ peer = san)) ↔
    ∀ p x q, Wildcard peer san p x q → p <+: peer := by
  have hplain : verifyName peer san false = true ↔ peer = san := by
    rw [verifyName_iff]
    simp
  constructor
  · rintro ⟨hsound, -⟩ p x q hwild
    rcases hsound hwild.verifyName_eq with heq | hmatch
    · exact absurd heq hwild.ne
    · exact hwild.prefix_of_match hmatch
  · intro hfront
    refine ⟨?_, hplain⟩
    intro h
    rcases verifyName_iff.mp h with heq | ⟨-, p, x, q, hwild⟩
    · exact .inl heq
    · exact .inr (hwild.wildcardMatch (hfront p x q hwild))

/-- What stands in front of the `*` is not compared. -/
theorem verifyName_overlooks_front : verifyName (lit "evil.com") (lit "my*.com") true = true ∧
    lit "evil.com" ≠ lit "my*.com" ∧ ¬ WildcardMatch (lit "evil.com") (lit "my*.com") := by
  have hwild : Wildcard (lit "evil.com") (lit "my*.com") (lit "my") (lit "evil") (lit ".com") := by
    constructor <;> decide
  refine ⟨hwild.verifyName_eq, hwild.ne, ?_⟩
  intro hmatch
  exact absurd (hwild.prefix_of_match hmatch) (by decide)

/-! ## Whole names -/

/-- The octets of the entries of type dNSName. -/
def dNSNames (cert : X509) : List Str :=
  (cert.generalNames.filter (fun name => name.type = some .stDNS)).map GeneralName.data

/-- The text of a name, by its type. -/
def sanText : SANType → Str → Str
  | .stIP, data => ipText data
  | _, data => cstr data

theorem sanOf_eq_some {entry : GeneralName} {type : SANType} {name : Str} :
    sanOf entry = some ⟨type, name⟩ ↔ entry.type = some type ∧ sanText type entry.data = name := by
  obtain ⟨found, data⟩ := entry
  cases found with
  | none => simp [sanOf]
  | some found => cases found <;> cases type <;> simp [sanOf, sanText]

theorem mem_getSubjectAltNames_of (type : SANType) {cert : X509} {name : Str} :
    ⟨type, name⟩ ∈ getSubjectAltNames cert ↔
      ∃ data ∈ (cert.generalNames.filter (fun entry => entry.type = some type)).map GeneralName.data,
        sanText type data = name := by
  simp only [getSubjectAltNames, List.mem_filterMap, List.mem_map, List.mem_filter, sanOf_eq_some, decide_eq_true_eq]
  constructor
  · rintro ⟨entry, hmem, htype, hname⟩
    exact ⟨entry.data, ⟨entry, ⟨hmem, htype⟩, rfl⟩, hname⟩
  · rintro ⟨_, ⟨entry, ⟨hmem, htype⟩, rfl⟩, hname⟩
    exact ⟨entry, hmem, htype, hname⟩

theorem mem_getSubjectAltNames {cert : X509} {name : Str} :
    ⟨.stDNS, name⟩ ∈ getSubjectAltNames cert ↔ ∃ data ∈ dNSNames cert, cstr data = name :=
  mem_getSubjectAltNames_of .stDNS

/-- **What is accepted without wildcards**: the common name, or an entry up to its first zero octet. -/
theorem verifySAN_dns_iff {pton : InetPton} {cert : X509} : verifySAN pton cert ⟨.stDNS, peer⟩ false = true ↔
    cert.commonName = peer ∨ ∃ data ∈ dNSNames cert, cstr data = peer := by
  have hname : ∀ san, verifyName peer san false = true ↔ peer = san := by
    intro san
    rw [verifyName_iff]
    simp
  rw [← mem_getSubjectAltNames]
  simp only [verifySAN, List.any_eq_true, List.mem_cons, Bool.and_eq_true, decide_eq_true_eq, hname]
  constructor
  · rintro ⟨⟨type, name⟩, hmem, rfl, rfl⟩
    rcases hmem with heq | hmem
    · cases heq
      exact .inl rfl
    · exact .inr hmem
  · rintro (rfl | hmem)
    · exact ⟨_, .inl rfl, rfl, rfl⟩
    · exact ⟨_, .inr hmem, rfl, rfl⟩

/-- Names are compared as a whole, where no entry goes on behind the name with a zero octet. -/
theorem verifySAN_whole_iff (pton : InetPton) (cert : X509) (peer : Str) :
    (verifySAN pton cert ⟨.stDNS, peer⟩ false = true → peer ∈ dNSNames cert ∨ cert.commonName = peer) ↔
    ((∃ r, peer ++ 0 :: r ∈ dNSNames cert) → 0 ∉ peer → peer ∈ dNSNames cert ∨ cert.commonName = peer) := by
  rw [verifySAN_dns_iff]
  constructor
  · rintro h ⟨r, hmem⟩ hzero
    exact h (.inr ⟨_, hmem, cstr_eq_iff.mpr ⟨hzero, .inr ⟨r, rfl⟩⟩⟩)
  · rintro h (hcommon | ⟨data, hmem, hdata⟩)
    · exact .inr hcommon
    · obtain ⟨hzero, rfl | ⟨r, rfl⟩⟩ := cstr_eq_iff.mp hdata
      · exact .inl hmem
      · exact h ⟨r, hmem⟩ hzero

/-- A certificate for a name that goes on behind a zero octet. -/
def truncated : X509 := ⟨lit "me", [⟨some .stDNS, lit "bank.com" ++ 0 :: lit ".evil.com"⟩]⟩

theorem verifySAN_truncated :
    verifySAN ⟨fun _ => none, fun _ => none⟩ truncated ⟨.stDNS, lit "bank.com"⟩ false = true ∧
    lit "bank.com" ∉ dNSNames truncated ∧ truncated.commonName ≠ lit "bank.com" := by
  decide

end X509Certificate
end Dodo.Network
