import Mathlib.Data.List.Forall2
import Mathlib.Logic.Function.Basic
import Mathlib.Tactic.IntervalCases
import Dodo.Common.EscapedSplit
import Dodo.Network.X509Certificate

/-!
# `Network.Identity` — the subject of a certificate

`getSubject` has the subject printed by OpenSSL, in the form of RFC 2253 (`Rfc2253`), and takes the text apart again.
The text is a list of attributes with commas between them, in the reverse order, and characters that have a meaning are
escaped; the parser splits at the commas that are not escaped and then at the equals signs. It has its own idea of
escapes (`Common.EscapedSplit`): a text with an escaped character other than a comma is joined to the attribute behind it.

What becomes of an attribute is said by `legible`. From it follow the subjects that are read as they are, and that no
name is made up: a name that is verified against the common name is the value of an attribute of the subject, unless
there are characters in it that are printed as something else.
-/

namespace Dodo.Network

open Common

/-! ## Printing -/

/-- A value as text in UTF-8, or of a type without text, which is printed as its encoding. -/
inductive AttributeValue where
  | text (octets : Str)
  | encoding (der : Str)
deriving DecidableEq, Repr

/-- An attribute of a name. `key` is the short name of its type or the number of the type, none of which have characters
    with a meaning. -/
structure Attribute where
  key : Str
  value : AttributeValue
  key_plain : 44 ∉ key ∧ 61 ∉ key ∧ 92 ∉ key
deriving DecidableEq, Repr

/-- A part of a name: one attribute, or several at once. -/
structure Rdn where
  first : Attribute
  others : List Attribute
deriving DecidableEq, Repr

/-- The subject, in the order of the certificate. -/
abbrev X509Name := List Rdn

def upperHex (c : Octet) : Str :=
  [octetAt (lit "0123456789ABCDEF") (c.toNat / 16), octetAt (lit "0123456789ABCDEF") (c.toNat % 16)]

/-- An octet of a value, with `ASN1_STRFLGS_RFC2253`: control characters and those that are not ASCII become numbers. At
    the beginning of a value, unless it ends there, a `#` has a meaning, and at both ends a blank. -/
def escapedOctet (first last : Bool) (c : Octet) : Str :=
  if c < 32 ∨ 127 ≤ c then 92 :: upperHex c
  else if c ∈ lit ",+\"<>;\\" ∨ (c = 35 ∧ first ∧ ¬ last) ∨ (c = 32 ∧ (first ∨ last)) then [92, c]
  else [c]

def escapedText (first : Bool) : Str → Str
  | [] => []
  | [c] => escapedOctet first true c
  | c :: d :: l => escapedOctet first false c ++ escapedText false (d :: l)

/-- The documented output of `X509_NAME_print_ex( output_bio, name, 0, XN_FLAG_RFC2253 )`, which is a parameter of what
    follows. -/
structure Rfc2253 (print : X509Name → Str) : Prop where
  /-- `XN_FLAG_DN_REV`, and the comma of `XN_FLAG_SEP_COMMA_PLUS` -/
  parts (name : X509Name) : print name = [44].intercalate (name.reverse.map fun r => print [r])
  /-- The plus of `XN_FLAG_SEP_COMMA_PLUS` -/
  attributes (r : Rdn) : print [r] = [43].intercalate ((r.first :: r.others).reverse.map fun a => print [⟨a, []⟩])
  /-- `XN_FLAG_FN_SN` and `ASN1_STRFLGS_RFC2253` -/
  text (a : Attribute) {octets : Str} (h : a.value = .text octets) :
    print [⟨a, []⟩] = a.key ++ 61 :: escapedText true octets
  /-- `XN_FLAG_DUMP_UNKNOWN_FIELDS` and `ASN1_STRFLGS_DUMP_DER` -/
  encoding (a : Attribute) {der : Str} (h : a.value = .encoding der) :
    print [⟨a, []⟩] = a.key ++ 61 :: 35 :: der.flatMap upperHex

def AttributeValue.printed : AttributeValue → Str
  | .text octets => escapedText true octets
  | .encoding der => 35 :: der.flatMap upperHex

def Attribute.printed (a : Attribute) : Str := a.key ++ 61 :: a.value.printed

def Rdn.printed (r : Rdn) : Str := [43].intercalate ((r.first :: r.others).reverse.map Attribute.printed)

/-- The one output that is so. -/
def printName (name : X509Name) : Str := [44].intercalate (name.reverse.map Rdn.printed)

theorem printName_part (r : Rdn) : printName [r] = r.printed := by simp [printName, List.intercalate]

theorem printName_attribute (a : Attribute) : printName [⟨a, []⟩] = a.printed := by
  rw [printName_part]
  simp [Rdn.printed, List.intercalate]

theorem rfc2253_printName : Rfc2253 printName where
  parts name := by
    simp only [printName_part]
    rfl
  attributes r := by
    simp only [printName_attribute]
    exact printName_part r
  text a octets h := by rw [printName_attribute, Attribute.printed, h, AttributeValue.printed]
  encoding a der h := by rw [printName_attribute, Attribute.printed, h, AttributeValue.printed]

theorem Rfc2253.eq_printName {print : X509Name → Str} (h : Rfc2253 print) : print = printName := by
  have hattribute (a : Attribute) : print [⟨a, []⟩] = a.printed := by
    rw [Attribute.printed]
    cases hvalue : a.value with
    | text octets => exact h.text a hvalue
    | encoding der => exact h.encoding a hvalue
  have hpart (r : Rdn) : print [r] = r.printed := by
    rw [h.attributes]
    simp only [hattribute]
    rfl
  funext name
  rw [h.parts]
  simp only [hpart]
  rfl

/-! ## Parsing -/

/-- The members of an `Identity`. -/
inductive Member where
  | countryCode
  | state
  | locality
  | organization
  | organizationUnit
  | commonName
  | email
  | businessCategory
  | jurisdictionC
  | jurisdictionST
  | serialNumber
  | street
  | postalCode
deriving DecidableEq, Repr

def Member.key : Member → Str
  | .countryCode => lit "C"
  | .state => lit "ST"
  | .locality => lit "L"
  | .organization => lit "O"
  | .organizationUnit => lit "OU"
  | .commonName => lit "CN"
  | .email => lit "emailAddress"
  | .businessCategory => lit "businessCategory"
  | .jurisdictionC => lit "jurisdictionC"
  | .jurisdictionST => lit "jurisdictionST"
  | .serialNumber => lit "serialNumber"
  | .street => lit "street"
  | .postalCode => lit "postalCode"

/-- In the order of the comparisons. -/
def Member.all : List Member :=
  [.countryCode, .state, .locality, .organization, .organizationUnit, .commonName, .email, .businessCategory,
    .jurisdictionC, .jurisdictionST, .serialNumber, .street, .postalCode]

def Member.ofKey (key : Str) : Option Member := Member.all.find? (fun m => m.key = key)

structure Identity where
  member : Member → Str := fun _ => []
  other : Str → Option Str := fun _ => none

namespace Identity

def assign (identity : Identity) (key value : Str) : Identity :=
  match Member.ofKey key with
  | some m => { identity with member := Function.update identity.member m value }
  | none => { identity with other := Function.update identity.other key (some value) }

/-- An item is used if it is split into two. -/
def pairOf (item : Str) : Option (Str × Str) :=
  match split item 61 with
  | [key, value] => some (key, value)
  | _ => none

def pass (identity : Identity) (item : Str) : Identity :=
  match pairOf item with
  | some (key, value) => identity.assign key value
  | none => identity

/-- The escape characters that are given to `escapedSplit`. -/
def backslash : List Octet := [92]

def parseIdentity (src : Str) : Identity := (escapedSplit src backslash 44).foldl pass {}

def getSubject (print : X509Name → Str) (name : X509Name) : Identity := parseIdentity (print name)

/-- What is known under a key. -/
def get (identity : Identity) (key : Str) : Str :=
  match Member.ofKey key with
  | some m => identity.member m
  | none => (identity.other key).getD []

/-- The value of the last pair with a key. -/
def lastValue (key : Str) (pairs : List (Str × Str)) (value : Str) : Str :=
  pairs.foldl (fun value pair => if pair.1 = key then pair.2 else value) value

theorem ofKey_eq_some {key : Str} {m : Member} (h : Member.ofKey key = some m) : key = m.key := by
  have hfound := List.find?_some h
  rw [decide_eq_true_iff] at hfound
  exact hfound.symm

theorem get_assign (identity : Identity) (key value key' : Str) :
    (identity.assign key value).get key' = if key = key' then value else identity.get key' := by
  unfold assign get
  cases hkey : Member.ofKey key with
  | some m =>
      by_cases heq : key = key'
      · subst heq
        simp [hkey]
      · rw [if_neg heq]
        cases hkey' : Member.ofKey key' with
        | none => rfl
        | some m' =>
            have hne : m' ≠ m := by
              rintro rfl
              exact heq ((ofKey_eq_some hkey).trans (ofKey_eq_some hkey').symm)
            exact Function.update_of_ne hne _ _
  | none =>
      by_cases heq : key = key'
      · subst heq
        simp [hkey]
      · rw [if_neg heq]
        cases hkey' : Member.ofKey key' with
        | none => exact congrArg (fun value => Option.getD value []) (Function.update_of_ne (Ne.symm heq) _ _)
        | some m' => rfl

theorem get_foldl (items : List Str) (identity : Identity) (key : Str) :
    (items.foldl pass identity).get key = lastValue key (items.filterMap pairOf) (identity.get key) := by
  induction items generalizing identity with
  | nil => rfl
  | cons item items ih =>
      rw [List.foldl_cons, ih]
      cases hpair : pairOf item with
      | none => rw [List.filterMap_cons_none hpair, pass, hpair]
      | some pair =>
          rw [List.filterMap_cons_some hpair, pass, hpair]
          show lastValue key _ ((identity.assign pair.1 pair.2).get key) = _
          rw [get_assign]
          rfl

theorem get_parseIdentity (src key : Str) :
    (parseIdentity src).get key = lastValue key ((escapedSplit src backslash 44).filterMap pairOf) [] := by
  have hempty : ({} : Identity).get key = [] := by
    unfold get
    cases Member.ofKey key with
    | none => rfl
    | some m => rfl
  rw [parseIdentity, get_foldl, hempty]

/-! ## What is printed -/

/-- A value has no equals sign, and something is left of it without the escapes. -/
def Worded : AttributeValue → Prop
  | .text octets => 61 ∉ octets ∧ ∃ c ∈ octets, c ≠ 92
  | .encoding _ => True

theorem mem_upperHex {c d : Octet} (h : d ∈ upperHex c) : d ∈ lit "0123456789ABCDEF" := by
  have hdigit {n : Nat} (hn : n < 16) : octetAt (lit "0123456789ABCDEF") n ∈ lit "0123456789ABCDEF" := by
    interval_cases n <;> decide
  have hc := c.toNat_lt
  rcases List.mem_cons.mp h with rfl | h
  · exact hdigit (by omega)
  · rw [List.mem_singleton.mp h]
    exact hdigit (Nat.mod_lt _ (by decide))

theorem ne_of_mem_hex {d : Octet} (h : d ∈ lit "0123456789ABCDEF") : d ≠ 44 ∧ d ≠ 61 ∧ d ∉ backslash := by
  revert d
  decide +kernel

/-- The texts that an attribute is printed as can be read from any state of the parser. -/
def Readable (t : Str) : Prop := ∀ b, guarded backslash 44 b t = true

theorem Readable.append {s t : Str} (hs : Readable s) (ht : Readable t) : Readable (s ++ t) := by
  intro b
  rw [guarded_append, hs, ht, Bool.and_true]

theorem readable_plain {t : Str} (h : ∀ c ∈ t, c ∉ backslash ∧ c ≠ 44) : Readable t := guarded_plain h

theorem readable_singleton {c : Octet} (h : c ∉ backslash ∧ c ≠ 44) : Readable [c] :=
  readable_plain (List.forall_mem_singleton.mpr h)

/-- An escape character and what it is for. -/
theorem readable_escape {t : Str} (h : ∀ c ∈ t.tail, c ∉ backslash ∧ c ≠ 44) : Readable (92 :: t) := by
  intro b
  show guarded backslash 44 true t = true
  cases t with
  | nil => rfl
  | cons c t =>
      have hplain (b : Bool) : guarded backslash 44 b t = true := guarded_plain h b
      rw [guarded, hplain, hplain]
      simp

theorem readable_escapedOctet (first last : Bool) (c : Octet) : Readable (escapedOctet first last c) := by
  unfold escapedOctet
  split
  · refine readable_escape fun d hd => ?_
    obtain ⟨hcomma, _, hescape⟩ := ne_of_mem_hex (mem_upperHex (c := c) (List.mem_of_mem_tail hd))
    exact ⟨hescape, hcomma⟩
  · split
    · exact readable_escape fun d hd => absurd hd List.not_mem_nil
    · rename_i hplain
      have hc : c ∉ lit ",+\"<>;\\" := fun h => hplain (.inl h)
      refine readable_plain fun d hd => ?_
      rw [List.mem_singleton.mp hd]
      exact ⟨fun h => hc (List.mem_singleton.mp h ▸ by decide), fun h => hc (h ▸ by decide)⟩

theorem readable_escapedText (first : Bool) (octets : Str) : Readable (escapedText first octets) := by
  fun_induction escapedText first octets with
  | case1 => exact fun _ => rfl
  | case2 first c => exact readable_escapedOctet first true c
  | case3 first c d l ih => exact (readable_escapedOctet first false c).append ih

theorem readable_flatMap_upperHex (der : Str) : ∀ c ∈ der.flatMap upperHex, c ≠ 44 ∧ c ≠ 61 ∧ c ∉ backslash := by
  intro c hc
  obtain ⟨d, _, hmem⟩ := List.mem_flatMap.mp hc
  exact ne_of_mem_hex (mem_upperHex hmem)

theorem readable_value (v : AttributeValue) : Readable v.printed := by
  cases v with
  | text octets => exact readable_escapedText true octets
  | encoding der =>
      refine readable_plain fun c hc => ?_
      rcases List.mem_cons.mp hc with rfl | hc
      · decide
      · exact ⟨(readable_flatMap_upperHex der c hc).2.2, (readable_flatMap_upperHex der c hc).1⟩

theorem readable_attribute (a : Attribute) : Readable a.printed := by
  have hkey : Readable a.key := readable_plain fun c hc =>
    ⟨fun h => a.key_plain.2.2 (List.mem_singleton.mp h ▸ hc), fun h => a.key_plain.1 (h ▸ hc)⟩
  exact hkey.append ((readable_singleton (c := 61) (by decide)).append (readable_value a.value))

theorem readable_attributes (attributes : List Attribute) :
    Readable ([43].intercalate (attributes.map Attribute.printed)) := by
  induction attributes with
  | nil => exact fun _ => rfl
  | cons a attributes ih =>
      cases attributes with
      | nil => simpa [List.intercalate] using readable_attribute a
      | cons a' attributes =>
          rw [List.map_cons, intercalate_cons (by simp)]
          exact (readable_attribute a).append ((readable_singleton (c := 43) (by decide)).append ih)

/-! ## What is left of it -/

theorem strip_escapedOctet {c : Octet} (first last : Bool) (hc : c ≠ 92) :
    strip backslash (escapedOctet first last c) ≠ [] := by
  have hback : c ∉ backslash := fun h => hc (List.mem_singleton.mp h)
  unfold escapedOctet
  split
  · have hhex := strip_plain (fun d hd => (ne_of_mem_hex (mem_upperHex (c := c) hd)).2.2)
    show strip backslash (upperHex c) ≠ []
    rw [hhex]
    exact List.cons_ne_nil _ _
  · have hkeep : strip backslash [c] = [c] := strip_plain (by simpa using hback)
    split
    · show strip backslash [c] ≠ []
      rw [hkeep]
      exact List.cons_ne_nil _ _
    · rw [hkeep]
      exact List.cons_ne_nil _ _

theorem equals_not_mem_escapedOctet {c : Octet} (first last : Bool) (hc : c ≠ 61) : 61 ∉ escapedOctet first last c := by
  unfold escapedOctet
  intro hmem
  split at hmem
  · rcases List.mem_cons.mp hmem with h | h
    · exact absurd h (by decide)
    · exact (ne_of_mem_hex (mem_upperHex h)).2.1 rfl
  · split at hmem
    · rcases List.mem_cons.mp hmem with h | h
      · exact absurd h (by decide)
      · exact hc (List.mem_singleton.mp h).symm
    · exact hc (List.mem_singleton.mp hmem).symm

theorem equals_not_mem_escapedText (first : Bool) {octets : Str} (h : 61 ∉ octets) : 61 ∉ escapedText first octets := by
  fun_induction escapedText first octets with
  | case1 => exact h
  | case2 first c => exact equals_not_mem_escapedOctet first true (fun heq => h (heq ▸ List.mem_cons_self))
  | case3 first c d l ih =>
      rw [List.mem_cons, not_or] at h
      rw [List.mem_append, not_or]
      exact ⟨equals_not_mem_escapedOctet first false (Ne.symm h.1), ih h.2⟩

theorem strip_escapedText (first : Bool) {octets : Str} (h : ∃ c ∈ octets, c ≠ 92) :
    strip backslash (escapedText first octets) ≠ [] := by
  fun_induction escapedText first octets with
  | case1 =>
      obtain ⟨c, hc, _⟩ := h
      cases hc
  | case2 first c =>
      obtain ⟨c', hc', hne⟩ := h
      exact strip_escapedOctet first true (List.mem_singleton.mp hc' ▸ hne)
  | case3 first c d l ih =>
      rw [strip_append]
      obtain ⟨c', hc', hne⟩ := h
      rcases List.mem_cons.mp hc' with rfl | hc'
      · exact List.append_ne_nil_of_left_ne_nil (strip_escapedOctet first false hne) _
      · exact List.append_ne_nil_of_right_ne_nil _ (ih ⟨c', hc', hne⟩)

/-- The value, without the escapes. -/
def reading (v : AttributeValue) : Str := strip backslash v.printed

theorem Worded.reading {v : AttributeValue} (h : Worded v) : reading v ≠ [] ∧ 61 ∉ reading v := by
  cases v with
  | text octets =>
      refine ⟨strip_escapedText true h.2, fun hmem => ?_⟩
      exact equals_not_mem_escapedText true h.1 (List.mem_of_mem_filter hmem)
  | encoding der =>
      refine ⟨List.cons_ne_nil 35 _, fun hmem => ?_⟩
      have hprinted : 61 ∈ 35 :: der.flatMap upperHex := by
        rw [Identity.reading, strip] at hmem
        exact List.mem_of_mem_filter hmem
      rcases List.mem_cons.mp hprinted with h | h
      · exact absurd h (by decide)
      · exact (readable_flatMap_upperHex der 61 h).2.1 rfl

theorem strip_attribute (a : Attribute) : strip backslash a.printed = a.key ++ 61 :: reading a.value := by
  have hkey : strip backslash a.key = a.key :=
    strip_plain fun c hc h => a.key_plain.2.2 (List.mem_singleton.mp h ▸ hc)
  rw [Attribute.printed, strip_append, hkey]
  rfl

/-- The text ends with the value of an attribute. -/
def EndsInValue (t : Str) : Prop := ∃ front v, t = front ++ v ∧ v ≠ [] ∧ 61 ∉ v

theorem EndsInValue.append {t : Str} (h : EndsInValue t) (s : Str) : EndsInValue (s ++ t) := by
  obtain ⟨front, v, rfl, hv⟩ := h
  exact ⟨s ++ front, v, (List.append_assoc _ _ _).symm, hv⟩

/-- The attributes of a part, without the escapes: as many equals signs as there are attributes. -/
theorem strip_attributes {attributes : List Attribute} (hne : attributes ≠ []) (h : ∀ a ∈ attributes, Worded a.value) :
    EndsInValue (strip backslash ([43].intercalate (attributes.map Attribute.printed))) ∧
      (strip backslash ([43].intercalate (attributes.map Attribute.printed))).count 61 = attributes.length := by
  induction attributes with
  | nil => exact absurd rfl hne
  | cons a attributes ih =>
      obtain ⟨ha, hrest⟩ := List.forall_mem_cons.mp h
      obtain ⟨hvalue, hequals⟩ := ha.reading
      have hcount : (a.key ++ 61 :: reading a.value).count 61 = 1 := by
        rw [List.count_append, List.count_cons_self, List.count_eq_zero_of_not_mem a.key_plain.2.1,
          List.count_eq_zero_of_not_mem hequals]
      have hends : EndsInValue (a.key ++ 61 :: reading a.value) :=
        ⟨a.key ++ [61], reading a.value, by simp, hvalue, hequals⟩
      cases attributes with
      | nil =>
          have hone : [43].intercalate ([a].map Attribute.printed) = a.printed := by simp [List.intercalate]
          rw [hone, strip_attribute]
          exact ⟨hends, hcount⟩
      | cons a' attributes =>
          obtain ⟨ihends, ihcount⟩ := ih (List.cons_ne_nil _ _) hrest
          have hjoin : strip backslash ([43].intercalate ((a :: a' :: attributes).map Attribute.printed)) =
              (a.key ++ 61 :: reading a.value ++ [43]) ++
                strip backslash ([43].intercalate ((a' :: attributes).map Attribute.printed)) := by
            rw [List.map_cons, intercalate_cons (by simp), strip_append, strip_attribute,
              List.append_assoc (a.key ++ 61 :: reading a.value) [43]]
            rfl
          rw [hjoin]
          refine ⟨ihends.append _, ?_⟩
          rw [List.count_append, List.count_append, ihcount, hcount]
          simp [Nat.add_comm]

/-! ## What is read -/

theorem length_splitFrom {d : Octet} {piece l : Str} (hne : piece ++ l ≠ []) (hlast : (piece ++ l).getLast? ≠ some d)
    (hpiece : d ∉ piece) : (splitFrom d piece l).length = l.count d + 1 := by
  induction l generalizing piece with
  | nil =>
      have hne' : piece ≠ [] := by simpa using hne
      rw [splitFrom, if_neg hne']
      rfl
  | cons c l ih =>
      rw [splitFrom]
      by_cases hc : c = d
      · subst hc
        have hl : l ≠ [] := by
          rintro rfl
          exact hlast (by simp)
        have hlast' : ([] ++ l).getLast? ≠ some c := by
          rw [List.getLast?_append_of_ne_nil _ (List.cons_ne_nil c l), List.getLast?_cons_of_ne_nil hl] at hlast
          exact hlast
        rw [if_pos rfl, List.length_cons, ih (by simpa using hl) hlast' List.not_mem_nil, List.count_cons_self]
      · rw [if_neg hc, ih (by simp) (by simpa using hlast) (by simp [hpiece, Ne.symm hc]),
          List.count_cons_of_ne hc]

theorem pairOf_attribute {key value : Str} (hkey : 61 ∉ key) (hne : value ≠ []) (hvalue : 61 ∉ value) :
    pairOf (key ++ 61 :: value) = some (key, value) := by
  rw [pairOf, split_cons hkey, split_self hvalue hne]

/-- Text with more than one equals sign is not used. -/
theorem pairOf_eq_none {item : Str} (hends : EndsInValue item) (hcount : 2 ≤ item.count 61) : pairOf item = none := by
  obtain ⟨front, v, rfl, hne, hequals⟩ := hends
  have hlast : ([] ++ (front ++ v)).getLast? ≠ some 61 := by
    rw [List.nil_append, List.getLast?_append_of_ne_nil front hne]
    exact fun h => hequals (List.mem_of_getLast? h)
  have hlength : (split (front ++ v) 61).length = (front ++ v).count 61 + 1 :=
    length_splitFrom (by simp [hne]) hlast List.not_mem_nil
  unfold pairOf
  split
  next hpair =>
    rw [hpair] at hlength
    change 2 = _ at hlength
    omega
  next => rfl

/-- The attributes of the parts that are read as they are printed, in that order, and as what. A part with several
    attributes is not read; one with an escape that is still in effect at its end is joined to the next one, and neither
    of them is read. `joined` says that the first part is joined to another one. -/
def legible : Bool → List Rdn → List (Str × Str)
  | _, [] => []
  | joined, r :: parts =>
    let joins := pending backslash 44 false r.printed && !parts.isEmpty
    (if !joined && !joins && r.others.isEmpty then [(r.first.key, reading r.first.value)] else []) ++
      legible joins parts

/-- All values of a part have text without an equals sign. -/
def WordedPart (r : Rdn) : Prop := ∀ a ∈ r.first :: r.others, Worded a.value

theorem strip_part {r : Rdn} (h : WordedPart r) :
    EndsInValue (strip backslash r.printed) ∧ (strip backslash r.printed).count 61 = r.others.length + 1 := by
  have hworded : ∀ a ∈ (r.first :: r.others).reverse, Worded a.value := fun a ha => h a (List.mem_reverse.mp ha)
  have hne : (r.first :: r.others).reverse ≠ [] := by simp
  obtain ⟨hends, hcount⟩ := strip_attributes hne hworded
  exact ⟨hends, hcount.trans (by simp)⟩

/-- A part that stands alone and has one attribute is read; behind the text of another part it is not. -/
theorem pairOf_part {piece : Str} {r : Rdn} (h : WordedPart r) (hpiece : piece ≠ [] → 1 ≤ piece.count 61) :
    pairOf (piece ++ strip backslash r.printed) =
      if piece = [] ∧ r.others = [] then some (r.first.key, reading r.first.value) else none := by
  obtain ⟨hends, hcount⟩ := strip_part h
  by_cases hread : piece = [] ∧ r.others = []
  · obtain ⟨rfl, hsingle⟩ := hread
    have hprinted : r.printed = r.first.printed := by
      rw [Rdn.printed, hsingle]
      simp [List.intercalate]
    obtain ⟨hne, hequals⟩ := (h r.first List.mem_cons_self).reading
    rw [if_pos ⟨rfl, hsingle⟩, List.nil_append, hprinted, strip_attribute]
    exact pairOf_attribute r.first.key_plain.2.1 hne hequals
  · rw [if_neg hread]
    refine pairOf_eq_none (hends.append piece) ?_
    rw [List.count_append, hcount]
    by_cases hempty : piece = []
    · have hmany : r.others ≠ [] := fun hsingle => hread ⟨hempty, hsingle⟩
      have := List.length_pos_iff.mpr hmany
      omega
    · have := hpiece hempty
      omega

theorem filterMap_pairOf_blocks {piece : Str} {parts : List Rdn} (hne : parts ≠ []) (hparts : ∀ r ∈ parts, WordedPart r)
    (hpiece : piece ≠ [] → 1 ≤ piece.count 61) :
    (blocks backslash 44 piece (parts.map Rdn.printed)).filterMap pairOf = legible (piece ≠ []) parts := by
  induction parts generalizing piece with
  | nil => exact absurd rfl hne
  | cons r parts ih =>
      obtain ⟨hr, hrest⟩ := List.forall_mem_cons.mp hparts
      have hpart := pairOf_part hr hpiece
      cases parts with
      | nil =>
          show [piece ++ strip backslash r.printed].filterMap pairOf = _
          rw [List.filterMap_cons, hpart]
          by_cases hempty : piece = [] <;> by_cases hsingle : r.others = [] <;> simp [legible, hempty, hsingle]
      | cons r' parts =>
          rw [List.map_cons, List.map_cons, blocks, legible]
          by_cases hpending : pending backslash 44 false r.printed = true
          · have hcount : 1 ≤ (piece ++ strip backslash r.printed ++ [44]).count 61 := by
              rw [List.count_append, List.count_append, (strip_part hr).2]
              omega
            rw [if_pos hpending, ← List.map_cons, ih (List.cons_ne_nil _ _) hrest (fun _ => hcount)]
            simp [hpending]
          · rw [if_neg hpending, ← List.map_cons, List.filterMap_cons, hpart,
              ih (List.cons_ne_nil _ _) hrest (fun h => absurd rfl h)]
            by_cases hempty : piece = [] <;> by_cases hsingle : r.others = [] <;> simp [hpending, hempty, hsingle]

theorem filterMap_pairOf_printName {name : X509Name} (h : ∀ r ∈ name, WordedPart r) :
    (escapedSplit (printName name) backslash 44).filterMap pairOf = legible false name.reverse := by
  by_cases hname : name = []
  · rw [hname]
    rfl
  · have hne : name.reverse ≠ [] := by simpa using hname
    have hworded : ∀ r ∈ name.reverse, WordedPart r := fun r hr => h r (List.mem_reverse.mp hr)
    have htexts : ∀ t ∈ name.reverse.map Rdn.printed, guarded backslash 44 false t = true ∧ strip backslash t ≠ [] := by
      intro t ht
      obtain ⟨r, hr, rfl⟩ := List.mem_map.mp ht
      refine ⟨readable_attributes _ false, fun hempty => ?_⟩
      have hcount := (strip_part (hworded r hr)).2
      rw [hempty] at hcount
      cases hcount
    rw [printName, escapedSplit_intercalate (by decide) (by simpa using hname) htexts,
      filterMap_pairOf_blocks hne hworded (fun h => absurd rfl h)]
    rfl

/-- **What is read of a subject**: under every key the last attribute of its kind that can be read, as the text is
    printed. -/
theorem get_getSubject {print : X509Name → Str} (hprint : Rfc2253 print) {name : X509Name}
    (h : ∀ r ∈ name, WordedPart r) (key : Str) :
    (getSubject print name).get key = lastValue key (legible false name.reverse) [] := by
  rw [hprint.eq_printName, getSubject, get_parseIdentity, filterMap_pairOf_printName h]

/-- A part of a name with one attribute. -/
def part (key octets : Str) (h : 44 ∉ key ∧ 61 ∉ key ∧ 92 ∉ key) : Rdn := ⟨⟨key, .text octets, h⟩, []⟩

/-- `CN=app,O=a\+b,C=NL` as it is printed. -/
def plusName : X509Name :=
  [part (lit "C") (lit "NL") (by decide), part (lit "O") (lit "a+b") (by decide), part (lit "CN") (lit "app") (by decide)]

/-- The escape in the organization joins the country to it, and both are lost. -/
theorem get_getSubject_plusName : (getSubject printName plusName).get (lit "CN") = lit "app" ∧
    (getSubject printName plusName).get (lit "O") = [] ∧ (getSubject printName plusName).get (lit "C") = [] := by
  have hworded : ∀ r ∈ plusName, WordedPart r := by
    intro r hr a ha
    simp only [plusName, List.mem_cons, List.not_mem_nil, or_false] at hr
    rcases hr with rfl | rfl | rfl <;>
      · rw [List.mem_singleton.mp ha]
        exact ⟨by decide, by decide⟩
  have hget := get_getSubject rfc2253_printName hworded
  rw [hget, hget, hget]
  decide

/-! ## Values that are read as they are -/

/-- The text is of characters that are printed as themselves or with an escape character before them. -/
def Printable (octets : Str) : Prop := ∀ c ∈ octets, 32 ≤ c ∧ c < 127 ∧ c ≠ 92

instance (octets : Str) : Decidable (Printable octets) := inferInstanceAs (Decidable (∀ c ∈ octets, _))

theorem strip_escapedOctet_printable {c : Octet} (hc : 32 ≤ c ∧ c < 127 ∧ c ≠ 92) (first last : Bool) :
    strip backslash (escapedOctet first last c) = [c] := by
  have hrange : ¬ (c < 32 ∨ 127 ≤ c) := by
    rw [not_or, UInt8.not_lt, UInt8.not_le]
    exact ⟨hc.1, hc.2.1⟩
  have hkeep : strip backslash [c] = [c] := strip_plain fun d hd hback =>
    hc.2.2 ((List.mem_singleton.mp hd).symm.trans (List.mem_singleton.mp hback))
  rw [escapedOctet, if_neg hrange]
  split
  · exact hkeep
  · exact hkeep

theorem reading_text {octets : Str} (h : Printable octets) : reading (.text octets) = octets := by
  suffices htext : ∀ first, strip backslash (escapedText first octets) = octets from htext true
  intro first
  fun_induction escapedText first octets with
  | case1 => rfl
  | case2 first c => exact strip_escapedOctet_printable (h c List.mem_cons_self) first true
  | case3 first c d l ih =>
      obtain ⟨hc, hrest⟩ := List.forall_mem_cons.mp h
      rw [strip_append, strip_escapedOctet_printable hc, ih hrest]
      rfl

/-- The text needs no escapes but those of commas. -/
structure Plain (octets : Str) : Prop where
  ne_nil : octets ≠ []
  printable : Printable octets
  meaningless : ∀ c ∈ octets, c ∉ lit "+\"<>;="
  head : octets.head? ≠ some 32 ∧ octets.head? ≠ some 35
  last : octets.getLast? ≠ some 32

theorem Plain.worded {octets : Str} (h : Plain octets) : Worded (.text octets) := by
  refine ⟨fun hequals => h.meaningless 61 hequals (by decide), ?_⟩
  obtain ⟨c, hc⟩ := List.exists_mem_of_ne_nil _ h.ne_nil
  exact ⟨c, hc, (h.printable c hc).2.2⟩

/-- No escape is in effect behind the octet. -/
theorem pending_escapedOctet {c : Octet} (hc : 32 ≤ c ∧ c < 127 ∧ c ≠ 92) (hmeaning : c ∉ lit "+\"<>;=")
    {first last : Bool} (hfirst : first = true → c ≠ 32 ∧ c ≠ 35) (hlast : last = true → c ≠ 32) :
    pending backslash 44 false (escapedOctet first last c) = false := by
  have hrange : ¬ (c < 32 ∨ 127 ≤ c) := by
    rw [not_or, UInt8.not_lt, UInt8.not_le]
    exact ⟨hc.1, hc.2.1⟩
  by_cases hcomma : c = 44
  · subst hcomma
    cases first <;> cases last <;> rfl
  · have hspecial : ¬ (c ∈ lit ",+\"<>;\\" ∨ (c = 35 ∧ first ∧ ¬ last) ∨ (c = 32 ∧ (first ∨ last))) := by
      rintro (h | ⟨h, hf, -⟩ | ⟨h, hf | hl⟩)
      · simp [lit] at h hmeaning
        tauto
      · exact (hfirst hf).2 h
      · exact (hfirst hf).1 h
      · exact hlast hl h
    rw [escapedOctet, if_neg hrange, if_neg hspecial]
    exact pending_plain (by simp [backslash, hc.2.2, hcomma]) false

theorem Plain.pending {octets : Str} (h : Plain octets) : pending backslash 44 false (escapedText true octets) = false := by
  obtain ⟨-, hprintable, hmeaning, hhead, hlast⟩ := h
  -- only the first octet may not be a blank or a `#`
  suffices htext : ∀ first, (first = true → octets.head? ≠ some 32 ∧ octets.head? ≠ some 35) →
      Common.pending backslash 44 false (escapedText first octets) = false from htext true (fun _ => hhead)
  clear hhead
  intro first hfirst
  fun_induction escapedText first octets with
  | case1 => rfl
  | case2 first c =>
      refine pending_escapedOctet (hprintable c List.mem_cons_self) (hmeaning c List.mem_cons_self) ?_ ?_
      · simpa using hfirst
      · simpa using hlast
  | case3 first c d l ih =>
      obtain ⟨hc, hrest⟩ := List.forall_mem_cons.mp hprintable
      obtain ⟨hc', hrest'⟩ := List.forall_mem_cons.mp hmeaning
      rw [pending_append, pending_escapedOctet hc hc' (by simpa using hfirst) (by simp)]
      exact ih hrest hrest' (by simpa [List.getLast?_cons_cons] using hlast) (by simp)

/-- One attribute with a plain text. -/
structure PlainPart (r : Rdn) (octets : Str) : Prop where
  single : r.others = []
  value : r.first.value = .text octets
  plain : Plain octets

theorem PlainPart.wordedPart {r : Rdn} {octets : Str} (h : PlainPart r octets) : WordedPart r := by
  intro a ha
  rw [h.single, List.mem_singleton] at ha
  rw [ha, h.value]
  exact h.plain.worded

theorem PlainPart.pending {r : Rdn} {octets : Str} (h : PlainPart r octets) :
    pending backslash 44 false r.printed = false := by
  have hprinted : r.printed = r.first.key ++ ([61] ++ escapedText true octets) := by
    rw [Rdn.printed, h.single, show ([r.first].reverse.map Attribute.printed) = [r.first.printed] from rfl,
      Attribute.printed, h.value]
    simp [List.intercalate, AttributeValue.printed]
  have hkey : ∀ c ∈ r.first.key, c ∉ backslash ∧ c ≠ 44 := fun c hc =>
    ⟨fun h => r.first.key_plain.2.2 (List.mem_singleton.mp h ▸ hc), fun h => r.first.key_plain.1 (h ▸ hc)⟩
  have hequals : ∀ c ∈ [(61 : Octet)], c ∉ backslash ∧ c ≠ 44 := List.forall_mem_singleton.mpr (by decide)
  rw [hprinted, pending_append, pending_plain hkey, pending_append, pending_plain hequals]
  exact h.plain.pending

/-- A name as it is meant: types and texts, in the order of the certificate. -/
def PlainName (name : X509Name) (texts : List Str) : Prop := List.Forall₂ PlainPart name texts

theorem legible_plain {name : X509Name} {texts : List Str} (h : List.Forall₂ PlainPart name texts) :
    legible false name = (name.map (fun r => r.first.key)).zip texts := by
  induction h with
  | nil => rfl
  | @cons r octets parts texts hr _ ih =>
      rw [legible, hr.pending, Bool.false_and, ih, hr.value, reading_text hr.plain.printable, hr.single]
      rfl

theorem lastValue_reverse (key : Str) (pairs : List (Str × Str)) (value : Str) :
    lastValue key pairs.reverse value = ((pairs.find? (fun pair => pair.1 = key)).map Prod.snd).getD value := by
  induction pairs with
  | nil => rfl
  | cons pair pairs ih =>
      rw [lastValue, List.reverse_cons, List.foldl_append, List.find?_cons]
      show (if pair.1 = key then pair.2 else lastValue key pairs.reverse value) = _
      by_cases hkey : pair.1 = key
      · simp [hkey]
      · simp [hkey, ih]

theorem PlainName.wordedPart {name : X509Name} {texts : List Str} (h : PlainName name texts) :
    ∀ r ∈ name, WordedPart r := by
  induction h with
  | nil => exact fun r hr => absurd hr List.not_mem_nil
  | cons hr _ ih => exact List.forall_mem_cons.mpr ⟨hr.wordedPart, ih⟩

/-- **Plain subjects are read as they are**: under every key the text of the first attribute of that type in the
    certificate. -/
theorem get_getSubject_plain {print : X509Name → Str} (hprint : Rfc2253 print) {name : X509Name} {texts : List Str}
    (h : PlainName name texts) (key : Str) :
    (getSubject print name).get key =
      ((((name.map (fun r => r.first.key)).zip texts).find? (fun pair => pair.1 = key)).map Prod.snd).getD [] := by
  have hlegible : legible false name.reverse = ((name.map (fun r => r.first.key)).zip texts).reverse := by
    have hlength : (name.map (fun r => r.first.key)).length = texts.length := by
      rw [List.length_map]
      exact h.length_eq
    rw [legible_plain (List.rel_reverse h), List.map_reverse]
    exact (List.reverse_zipWith hlength).symm
  rw [hprint.eq_printName, getSubject, get_parseIdentity, filterMap_pairOf_printName h.wordedPart, hlegible,
    lastValue_reverse]

/-- `CN=app,O=Acme\, Inc.,C=NL` as it is printed. -/
def commaName : X509Name :=
  [part (lit "C") (lit "NL") (by decide), part (lit "O") (lit "Acme, Inc.") (by decide),
    part (lit "CN") (lit "app") (by decide)]

theorem get_getSubject_plain_comma : (getSubject printName commaName).get (lit "O") = lit "Acme, Inc." := by
  have hplain {octets : Str} (hne : octets ≠ []) (hprintable : Printable octets)
      (hmeaning : ∀ c ∈ octets, c ∉ lit "+\"<>;=") (hhead : octets.head? ≠ some 32 ∧ octets.head? ≠ some 35)
      (hlast : octets.getLast? ≠ some 32) (key : Str) (hkey) : PlainPart (part key octets hkey) octets :=
    ⟨rfl, rfl, hne, hprintable, hmeaning, hhead, hlast⟩
  have hname : PlainName commaName [lit "NL", lit "Acme, Inc.", lit "app"] :=
    .cons (hplain (by decide) (by decide +kernel) (by decide +kernel) (by decide) (by decide) _ _)
      (.cons (hplain (by decide) (by decide +kernel) (by decide +kernel) (by decide) (by decide) _ _)
        (.cons (hplain (by decide) (by decide +kernel) (by decide +kernel) (by decide) (by decide) _ _) .nil))
  rw [get_getSubject_plain rfc2253_printName hname]
  decide

/-! ## Verified names -/

/-- The certificate as `verifySAN` sees it. -/
def certificate (print : X509Name → Str) (name : X509Name) (generalNames : List GeneralName) : X509 :=
  ⟨(getSubject print name).member .commonName, generalNames⟩

theorem mem_legible {joined : Bool} {parts : List Rdn} {pair : Str × Str} (h : pair ∈ legible joined parts) :
    ∃ r ∈ parts, r.others = [] ∧ pair = (r.first.key, reading r.first.value) := by
  induction parts generalizing joined with
  | nil => cases h
  | cons r parts ih =>
      rw [legible, List.mem_append] at h
      rcases h with h | h
      · split at h
        next hread =>
          rw [Bool.and_eq_true, List.isEmpty_iff] at hread
          exact ⟨r, List.mem_cons_self, hread.2, List.mem_singleton.mp h⟩
        next => cases h
      · obtain ⟨r', hr', hpair⟩ := ih h
        exact ⟨r', List.mem_cons_of_mem r hr', hpair⟩

theorem lastValue_mem {key : Str} {pairs : List (Str × Str)} {value : Str} (h : lastValue key pairs value ≠ value) :
    (key, lastValue key pairs value) ∈ pairs := by
  induction pairs generalizing value with
  | nil => exact absurd rfl h
  | cons pair pairs ih =>
      by_cases hsame : lastValue key pairs (if pair.1 = key then pair.2 else value) =
          if pair.1 = key then pair.2 else value
      · have hcons : lastValue key (pair :: pairs) value = if pair.1 = key then pair.2 else value := hsame
        rw [hcons] at h ⊢
        split at h
        next hkey =>
          rw [if_pos hkey, ← hkey]
          exact List.mem_cons_self
        next => exact absurd rfl h
      · exact List.mem_cons_of_mem _ (ih hsame)

/-- **No name is made up.** If the values of a subject are printable texts, a name is verified only because of a
    common name or an alternative name that stands in the certificate. -/
theorem verifySAN_certificate {pton : InetPton} {print : X509Name → Str} (hprint : Rfc2253 print) {name : X509Name}
    {generalNames : List GeneralName} {type : SANType} {peer : Str} {wildcards : Bool}
    (hvalues : ∀ r ∈ name, ∀ a ∈ r.first :: r.others,
      ∃ octets, a.value = .text octets ∧ octets ≠ [] ∧ 61 ∉ octets ∧ Printable octets)
    (htype : type ≠ .stIP) (hpeer : peer ≠ [])
    (h : X509Certificate.verifySAN pton (certificate print name generalNames) ⟨type, peer⟩ wildcards = true) :
    (∃ r ∈ name, r.others = [] ∧ r.first.key = lit "CN" ∧ ∃ octets, r.first.value = .text octets ∧
      X509Certificate.verifyName peer octets wildcards = true) ∨
    ∃ s ∈ X509Certificate.getSubjectAltNames (certificate print name generalNames), s.san_type = type ∧
      X509Certificate.verifyName peer s.san_name wildcards = true := by
  have hfound : ∃ s ∈ (⟨type, (getSubject print name).member .commonName⟩ : SAN) ::
      X509Certificate.getSubjectAltNames (certificate print name generalNames),
      s.san_type = type ∧ X509Certificate.verifyName peer s.san_name wildcards = true := by
    cases type with
    | stIP => exact absurd rfl htype
    | stDNS | stURI | stEMAIL =>
        obtain ⟨s, hs, hverified⟩ := List.any_eq_true.mp h
        rw [Bool.and_eq_true, decide_eq_true_iff] at hverified
        exact ⟨s, hs, hverified⟩
  obtain ⟨s, hs, hsame, hverified⟩ := hfound
  rcases List.mem_cons.mp hs with rfl | hs
  · left
    have hworded : ∀ r ∈ name, WordedPart r := by
      intro r hr a ha
      obtain ⟨octets, hvalue, hne, hequals, hprintable⟩ := hvalues r hr a ha
      obtain ⟨c, hc⟩ := List.exists_mem_of_ne_nil _ hne
      rw [hvalue]
      exact ⟨hequals, c, hc, (hprintable c hc).2.2⟩
    have hname : (getSubject print name).member .commonName = lastValue (lit "CN") (legible false name.reverse) [] := by
      rw [hprint.eq_printName, ← filterMap_pairOf_printName hworded, ← get_parseIdentity]
      rfl
    have hne : lastValue (lit "CN") (legible false name.reverse) [] ≠ [] := by
      intro hempty
      rw [hname, hempty, X509Certificate.verifyName_iff] at hverified
      rcases hverified with heq | ⟨_, p, x, q, hwild⟩
      · exact hpeer heq
      · exact absurd hwild.san_eq (by simp)
    obtain ⟨r, hr, hsingle, hpair⟩ := mem_legible (lastValue_mem hne)
    obtain ⟨octets, hvalue, _, _, hprintable⟩ := hvalues r (List.mem_reverse.mp hr) r.first List.mem_cons_self
    rw [Prod.mk.injEq, hvalue, reading_text hprintable, ← hname] at hpair
    refine ⟨r, List.mem_reverse.mp hr, hsingle, hpair.1.symm, octets, hvalue, ?_⟩
    rw [← hpair.2]
    exact hverified
  · exact .inr ⟨s, hs, hsame, hverified⟩

theorem verifySAN_certificate_comma :
    (∃ r ∈ commaName, r.others = [] ∧ r.first.key = lit "CN" ∧ ∃ octets, r.first.value = .text octets ∧
      X509Certificate.verifyName (lit "app") octets false = true) ∨
    ∃ s ∈ X509Certificate.getSubjectAltNames (certificate printName commaName []), s.san_type = .stDNS ∧
      X509Certificate.verifyName (lit "app") s.san_name false = true := by
  have hverified : X509Certificate.verifySAN ⟨fun _ => none, fun _ => none⟩ (certificate printName commaName [])
      ⟨.stDNS, lit "app"⟩ false = true := by
    decide
  refine verifySAN_certificate rfc2253_printName ?_ (by decide) (by decide) hverified
  intro r hr a ha
  simp only [commaName, List.mem_cons, List.not_mem_nil, or_false] at hr
  rcases hr with rfl | rfl | rfl <;>
    · rw [List.mem_singleton.mp ha]
      exact ⟨_, rfl, by decide, by decide, by decide +kernel⟩

end Identity
end Dodo.Network
