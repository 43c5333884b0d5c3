import Dodo.Network.Address

/-!
# `Network.InetPton` — addresses as texts, and the IP addresses of a certificate

`inet_pton` is the function of the C library, as glibc has it: an IPv4 address is four numbers without leading zeros, an
IPv6 address up to eight groups of up to four hexadecimal digits, with at most one `::` and maybe an IPv4 address at the
end. It is written out here because the texts that `getSubjectAltNames` builds from the octets of an entry go through it
again: they are compared as addresses, not as texts.

## Contents
- **The code.** `inet_pton4` and `inet_pton6`, with the variables of their loops.
- **Lengths.** What they return are four and sixteen octets.
- **Reading back.** The text of four or sixteen octets is read as these octets.
- **Certificates.** Which peers are accepted for the IP addresses of a certificate.
-/

namespace Dodo.Network

open Common

namespace InetPton

def charDot : Octet := 46
def charColon : Octet := 58

/-! ## The code -/

/-- The variables of `inet_pton4`: `tmp` are the octets in front of `*tp`, and `cur` is `*tp`. -/
structure Pton4 where
  tmp : Str := []
  cur : Nat := 0
  saw_digit : Bool := false
  octets : Nat := 0
deriving DecidableEq, Repr

/-- The body of the loop of `inet_pton4`; `none` where it returns 0. -/
def Pton4.pass (p : Pton4) (ch : Octet) : Option Pton4 :=
  if isdigit ch then
    let new := p.cur * 10 + (ch.toNat - 48)
    if p.saw_digit ∧ p.cur = 0 then none
    else if 255 < new then none
    else if p.saw_digit then some { p with cur := new }
    else if 4 < p.octets + 1 then none
    else some { p with cur := new, octets := p.octets + 1, saw_digit := true }
  else if ch = charDot ∧ p.saw_digit then
    if p.octets = 4 then none
    else some { p with tmp := p.tmp ++ [UInt8.ofNat p.cur], cur := 0, saw_digit := false }
  else none

def inet_pton4 (src : Str) : Option Str := do
  let p ← src.foldlM Pton4.pass {}
  if p.octets < 4 then none else some (p.tmp ++ [UInt8.ofNat p.cur])

/-- The variables of `inet_pton6`: `tmp` are the octets in front of `tp`, and `colonp` is the place of a `::` in it. -/
structure Pton6 where
  tmp : Str := []
  colonp : Option Nat := none
  curtok : Str
  xdigits_seen : Nat := 0
  val : Nat := 0
deriving DecidableEq, Repr

/-- The two octets of a group are written to `tmp`, if there is room for them. -/
def Pton6.putGroup (p : Pton6) : Option Pton6 :=
  if 16 < p.tmp.length + 2 then none
  else some { p with tmp := p.tmp ++ [UInt8.ofNat (p.val / 256), UInt8.ofNat (p.val % 256)] }

/-- The loop of `inet_pton6`, on the rest of the text. -/
def Pton6.loop : Str → Pton6 → Option Pton6
  | [], p => some p
  | ch :: src, p =>
    if isxdigit ch then
      let val := p.val * 16 + hexDigit ch
      if p.xdigits_seen = 4 then none
      else if 0xffff < val then none
      else loop src { p with val := val, xdigits_seen := p.xdigits_seen + 1 }
    else if ch = charColon then
      if p.xdigits_seen = 0 then
        if p.colonp.isSome then none else loop src { p with curtok := src, colonp := some p.tmp.length }
      else if src = [] then none
      else
        match p.putGroup with
        | none => none
        | some p => loop src { p with curtok := src, xdigits_seen := 0, val := 0 }
    else if ch = charDot ∧ p.tmp.length + 4 ≤ 16 then
      -- the rest of the text is an IPv4 address, and the loop ends
      (inet_pton4 p.curtok).map (fun octets => { p with tmp := p.tmp ++ octets, xdigits_seen := 0 })
    else none

/-- The place of a `::` is filled with zeros. -/
def Pton6.expand (p : Pton6) : Option Str :=
  match p.colonp with
  | none => if p.tmp.length ≠ 16 then none else some p.tmp
  | some colonp =>
    if p.tmp.length = 16 then none
    else some (p.tmp.take colonp ++ List.replicate (16 - p.tmp.length) 0 ++ p.tmp.drop colonp)

/-- What `inet_pton6` does behind the loop. -/
def Pton6.finish (p : Pton6) : Option Str := (if 0 < p.xdigits_seen then p.putGroup else some p).bind Pton6.expand

def inet_pton6 (src : Str) : Option Str :=
  match src with
  | [] => none
  | ch :: rest =>
    if ch = charColon then
      if rest.head? ≠ some charColon then none else (Pton6.loop rest { curtok := rest }).bind Pton6.finish
    else (Pton6.loop src { curtok := src }).bind Pton6.finish

/-- `inet_pton` of glibc. -/
def glibc : InetPton := ⟨inet_pton4, inet_pton6⟩

/-! ## Lengths -/

/-- The number of octets that were begun. -/
structure Pton4.Counted (p : Pton4) : Prop where
  octets : p.octets = p.tmp.length + p.saw_digit.toNat
  room : p.tmp.length ≤ 3

theorem Pton4.Counted.pass {p q : Pton4} (h : p.Counted) {ch : Octet} (hpass : p.pass ch = some q) : q.Counted := by
  obtain ⟨hoctets, hroom⟩ := h
  unfold Pton4.pass at hpass
  dsimp only at hpass
  split_ifs at hpass with hdigit hzero hlarge hsaw hfull hdot hfour
  · rw [← Option.some.inj hpass]
    exact ⟨hoctets, hroom⟩
  · rw [← Option.some.inj hpass]
    have hsaw' : p.saw_digit = false := by simpa using hsaw
    rw [hsaw'] at hoctets
    exact ⟨by simpa using hoctets, hroom⟩
  · rw [← Option.some.inj hpass]
    rw [hdot.2] at hoctets
    have hlength : p.octets = p.tmp.length + 1 := hoctets
    constructor
    · simpa using hlength
    · rw [List.length_append, List.length_singleton]
      omega

theorem Pton4.Counted.foldlM {p q : Pton4} (h : p.Counted) {src : Str} (hloop : src.foldlM Pton4.pass p = some q) :
    q.Counted := by
  induction src generalizing p with
  | nil =>
      rw [← Option.some.inj hloop]
      exact h
  | cons ch src ih =>
      rw [List.foldlM_cons] at hloop
      obtain ⟨p', hpass, hrest⟩ := Option.bind_eq_some_iff.mp hloop
      exact ih (h.pass hpass) hrest

theorem length_inet_pton4 {src octets : Str} (h : inet_pton4 src = some octets) : octets.length = 4 := by
  obtain ⟨p, hloop, h⟩ := Option.bind_eq_some_iff.mp h
  have hstart : Pton4.Counted {} := ⟨rfl, Nat.zero_le 3⟩
  obtain ⟨hoctets, hroom⟩ := hstart.foldlM hloop
  split_ifs at h with hfew
  have hbit := p.saw_digit.toNat_le
  rw [← Option.some.inj h, List.length_append, List.length_singleton]
  omega

theorem Pton6.length_putGroup {p q : Pton6} (h : p.putGroup = some q) : q.tmp.length ≤ 16 := by
  unfold Pton6.putGroup at h
  split_ifs at h with hroom
  rw [← Option.some.inj h, List.length_append]
  exact Nat.not_lt.mp hroom

theorem Pton6.length_loop {p q : Pton6} {src : Str} (hp : p.tmp.length ≤ 16) (h : Pton6.loop src p = some q) :
    q.tmp.length ≤ 16 := by
  induction src generalizing p with
  | nil =>
      rw [← Option.some.inj h]
      exact hp
  | cons ch src ih =>
      rw [Pton6.loop] at h
      dsimp only at h
      split_ifs at h with hdigit hfour hlarge hcolon hseen hagain hlast hdot
      · refine ih ?_ h
        exact hp
      · refine ih ?_ h
        exact hp
      · split at h
        · contradiction
        · rename_i p' hput
          refine ih ?_ h
          show p'.tmp.length ≤ 16
          exact Pton6.length_putGroup hput
      · obtain ⟨octets, hoctets, rfl⟩ := Option.map_eq_some_iff.mp h
        rw [List.length_append, length_inet_pton4 hoctets]
        exact hdot.2

theorem Pton6.length_finish {p : Pton6} {octets : Str} (hp : p.tmp.length ≤ 16) (h : p.finish = some octets) :
    octets.length = 16 := by
  obtain ⟨q, hq, h⟩ := Option.bind_eq_some_iff.mp h
  have hlength : q.tmp.length ≤ 16 := by
    split_ifs at hq with hseen
    · exact Pton6.length_putGroup hq
    · rwa [← Option.some.inj hq]
  unfold Pton6.expand at h
  split at h
  · split_ifs at h with hfull
    rw [← Option.some.inj h]
    exact not_not.mp hfull
  · split_ifs at h with hfull
    rw [← Option.some.inj h]
    simp only [List.length_append, List.length_take, List.length_replicate, List.length_drop]
    omega

theorem length_inet_pton6 {src octets : Str} (h : inet_pton6 src = some octets) : octets.length = 16 := by
  have hread {rest : Str} (h : (Pton6.loop rest { curtok := rest }).bind Pton6.finish = some octets) :
      octets.length = 16 := by
    obtain ⟨p, hloop, hfinish⟩ := Option.bind_eq_some_iff.mp h
    exact Pton6.length_finish (Pton6.length_loop (by simp) hloop) hfinish
  unfold inet_pton6 at h
  split at h
  · contradiction
  · split_ifs at h
    · exact hread h
    · exact hread h

theorem lawful_glibc : glibc.Lawful where
  ipv4 := length_inet_pton4
  ipv6 := length_inet_pton6

/-! ## Reading back -/

def digitOctet (k : Nat) : Octet := (Nat.digitChar k).toNat.toUInt8

/-- The last digit of a number comes off its end. -/
theorem map_toDigits_eq {base : Nat} (hbase : 1 < base) (n : Nat) :
    (Nat.toDigits base n).map (fun c => c.toNat.toUInt8) =
      (if n < base then [] else (Nat.toDigits base (n / base)).map (fun c => c.toNat.toUInt8)) ++
        [digitOctet (n % base)] := by
  rw [Nat.toDigits_eq_if hbase]
  by_cases hn : n < base
  · rw [if_pos hn, if_pos hn, Nat.mod_eq_of_lt hn]
    rfl
  · rw [if_neg hn, if_neg hn, List.map_append]
    rfl

theorem decimal_eq (n : Nat) :
    decimal n = (if n < 10 then [] else decimal (n / 10)) ++ [digitOctet (n % 10)] := map_toDigits_eq (by decide) n

theorem hexadecimal_eq (n : Nat) :
    hexadecimal n = (if n < 16 then [] else hexadecimal (n / 16)) ++ [digitOctet (n % 16)] :=
  map_toDigits_eq (by decide) n

theorem isdigit_digitOctet : ∀ k < 10, isdigit (digitOctet k) = true ∧ (digitOctet k).toNat - 48 = k := by decide

theorem isxdigit_digitOctet : ∀ k < 16, isxdigit (digitOctet k) = true ∧ hexDigit (digitOctet k) = k := by decide

theorem hexadecimal_ne_nil (n : Nat) : hexadecimal n ≠ [] := by
  simp [hexadecimal, Nat.toDigits_ne_nil]

theorem length_hexadecimal {n : Nat} (h : n < 0x10000) :
    0 < (hexadecimal n).length ∧ (hexadecimal n).length ≤ 4 := by
  refine ⟨List.length_pos_iff.mpr (hexadecimal_ne_nil n), ?_⟩
  rw [hexadecimal, List.length_map]
  exact (Nat.length_toDigits_le_iff (by decide) (by decide)).mpr h

/-- Another digit of a number. -/
theorem pass_digit {k cur octets : Nat} {saw : Bool} (tmp : Str) (hk : k < 10) (hzero : ¬ (saw = true ∧ cur = 0))
    (hnew : cur * 10 + k < 256) (hoctets : saw = false → octets < 4) :
    Pton4.pass ⟨tmp, cur, saw, octets⟩ (digitOctet k) =
      some ⟨tmp, cur * 10 + k, true, if saw then octets else octets + 1⟩ := by
  obtain ⟨hdigit, hvalue⟩ := isdigit_digitOctet k hk
  unfold Pton4.pass
  dsimp only
  rw [if_pos hdigit, hvalue, if_neg hzero, if_neg (by omega)]
  cases saw with
  | true => rfl
  | false =>
      have hroom := hoctets rfl
      rw [if_neg (by simp), if_neg (by omega)]
      rfl

theorem mem_hexadecimal {n : Nat} {c : Octet} (h : c ∈ hexadecimal n) : isxdigit c = true := by
  induction n using Nat.strongRecOn with
  | ind n ih =>
      rw [hexadecimal_eq] at h
      rcases List.mem_append.mp h with h | h
      · split_ifs at h with hsmall
        · exact absurd h List.not_mem_nil
        · exact ih (n / 16) (by omega) h
      · rw [List.mem_singleton.mp h]
        exact (isxdigit_digitOctet (n % 16) (Nat.mod_lt n (by decide))).1

/-- A number of an IPv4 address, at its beginning. -/
theorem foldlM_decimal (n : Nat) (hn : n < 256) (tmp : Str) {octets : Nat} (hoctets : octets < 4) :
    (decimal n).foldlM Pton4.pass ⟨tmp, 0, false, octets⟩ = some ⟨tmp, n, true, octets + 1⟩ := by
  induction n using Nat.strongRecOn with
  | ind n ih =>
      have hlast : n % 10 < 10 := Nat.mod_lt n (by decide)
      rw [decimal_eq, List.foldlM_append]
      by_cases hsmall : n < 10
      · rw [if_pos hsmall, List.foldlM_nil, Nat.mod_eq_of_lt hsmall]
        show (List.foldlM Pton4.pass _ [digitOctet n]) = _
        rw [List.foldlM_cons, pass_digit tmp hsmall (by simp) (by omega) (fun _ => hoctets), Nat.zero_mul, Nat.zero_add]
        rfl
      · have hdivide : n / 10 * 10 + n % 10 = n := by omega
        rw [if_neg hsmall, ih (n / 10) (by omega) (by omega)]
        show (List.foldlM Pton4.pass _ [digitOctet (n % 10)]) = _
        rw [List.foldlM_cons, pass_digit tmp hlast (by simp; omega) (by omega) (by simp), hdivide]
        rfl

/-- The dot behind a number that is not the last. -/
theorem pass_dot (tmp : Str) (cur : Nat) {octets : Nat} (hoctets : octets ≠ 4) :
    Pton4.pass ⟨tmp, cur, true, octets⟩ charDot = some ⟨tmp ++ [UInt8.ofNat cur], 0, false, octets⟩ := by
  have hdigit : isdigit charDot = false := by decide
  unfold Pton4.pass
  rw [if_neg (by simp [hdigit]), if_pos ⟨rfl, rfl⟩, if_neg hoctets]

/-- A number that is not the last. -/
theorem foldlM_decimal_dot (c : Octet) (rest tmp : Str) {octets : Nat} (hoctets : octets < 3) :
    (decimal c.toNat ++ charDot :: rest).foldlM Pton4.pass ⟨tmp, 0, false, octets⟩ =
      rest.foldlM Pton4.pass ⟨tmp ++ [c], 0, false, octets + 1⟩ := by
  rw [List.foldlM_append, foldlM_decimal c.toNat c.toNat_lt tmp (by omega)]
  show (charDot :: rest).foldlM Pton4.pass _ = _
  rw [List.foldlM_cons, pass_dot tmp c.toNat (by omega), UInt8.ofNat_toNat]
  rfl

/-- **The text of four octets is an IPv4 address.** -/
theorem inet_pton4_ipText {data : Str} (h : data.length = 4) : inet_pton4 (X509Certificate.ipText data) = some data := by
  match data, h with
  | [a, b, c, d], h =>
    have htext : X509Certificate.ipText [a, b, c, d] = decimal a.toNat ++ charDot :: (decimal b.toNat ++
        charDot :: (decimal c.toNat ++ charDot :: decimal d.toNat)) := by
      rw [X509Certificate.ipText, if_pos h]
      simp [List.intercalate, lit]
      rfl
    unfold inet_pton4
    rw [htext, foldlM_decimal_dot a _ [] (by decide), foldlM_decimal_dot b _ _ (by decide),
      foldlM_decimal_dot c _ _ (by decide), foldlM_decimal d.toNat d.toNat_lt _ (by decide)]
    show some ([a, b, c] ++ [UInt8.ofNat d.toNat]) = _
    rw [UInt8.ofNat_toNat]
    rfl

/-- A colon is in no IPv4 address. -/
theorem inet_pton4_colon {src : Str} (h : charColon ∈ src) : inet_pton4 src = none := by
  obtain ⟨x, y, rfl⟩ := List.append_of_mem h
  have hcolon (p : Pton4) : p.pass charColon = none := by
    have hdigit : isdigit charColon = false := by decide
    have hdot : charColon ≠ charDot := by decide
    unfold Pton4.pass
    rw [if_neg (by simp [hdigit]), if_neg (by simp [hdot])]
  unfold inet_pton4
  rw [List.foldlM_append]
  cases x.foldlM Pton4.pass {} with
  | none => rfl
  | some p =>
      show (charColon :: y).foldlM Pton4.pass p >>= _ = none
      rw [List.foldlM_cons, hcolon]
      rfl

/-- Another digit of a group. -/
theorem loop_digit {k : Nat} (hk : k < 16) (rest : Str) {p : Pton6} (hseen : p.xdigits_seen < 4)
    (hval : p.val * 16 + k < 0x10000) : Pton6.loop (digitOctet k :: rest) p =
      Pton6.loop rest { p with val := p.val * 16 + k, xdigits_seen := p.xdigits_seen + 1 } := by
  obtain ⟨hdigit, hvalue⟩ := isxdigit_digitOctet k hk
  rw [Pton6.loop, if_pos hdigit]
  dsimp only
  rw [hvalue, if_neg (by omega), if_neg (by omega)]

/-- The digits of a group. -/
theorem loop_hexadecimal (n : Nat) (hn : n < 0x10000) (rest : Str) {p : Pton6} (hseen : p.xdigits_seen = 0)
    (hval : p.val = 0) : Pton6.loop (hexadecimal n ++ rest) p =
      Pton6.loop rest { p with val := n, xdigits_seen := (hexadecimal n).length } := by
  induction n using Nat.strongRecOn generalizing rest with
  | ind n ih =>
      obtain ⟨_, hlength⟩ := length_hexadecimal hn
      rw [hexadecimal_eq] at hlength ⊢
      by_cases hsmall : n < 16
      · rw [if_pos hsmall, List.nil_append, Nat.mod_eq_of_lt hsmall, List.singleton_append,
          loop_digit hsmall rest (by omega) (by omega), hval, hseen, Nat.zero_mul, Nat.zero_add n]
        rfl
      · have hdivide : n / 16 * 16 + n % 16 = n := by omega
        rw [if_neg hsmall, List.length_append, List.length_singleton] at hlength
        rw [if_neg hsmall, List.append_assoc, List.singleton_append, ih (n / 16) (by omega) (by omega),
          loop_digit (Nat.mod_lt n (by decide)) rest (by dsimp only; omega) (by dsimp only; omega), List.length_append]
        dsimp only
        rw [hdivide]
        rfl

theorem pair_eq (a b : Octet) : UInt8.ofNat ((a.toNat * 256 + b.toNat) / 256) = a ∧
    UInt8.ofNat ((a.toNat * 256 + b.toNat) % 256) = b ∧ a.toNat * 256 + b.toNat < 0x10000 := by
  have ha := a.toNat_lt
  have hb := b.toNat_lt
  have hfirst : (a.toNat * 256 + b.toNat) / 256 = a.toNat := by omega
  have hsecond : (a.toNat * 256 + b.toNat) % 256 = b.toNat := by omega
  rw [hfirst, hsecond, UInt8.ofNat_toNat, UInt8.ofNat_toNat]
  exact ⟨rfl, rfl, by omega⟩

/-- The octets of a group. -/
theorem putGroup_eq {p : Pton6} (a b : Octet) (hval : p.val = a.toNat * 256 + b.toNat) (hroom : p.tmp.length + 2 ≤ 16) :
    p.putGroup = some { p with tmp := p.tmp ++ [a, b] } := by
  obtain ⟨ha, hb, _⟩ := pair_eq a b
  unfold Pton6.putGroup
  rw [if_neg (by omega), hval, ha, hb]

/-- The colon behind a group that is not the last. -/
theorem loop_colon {p : Pton6} (a b : Octet) {src : Str} (hsrc : src ≠ []) (hseen : p.xdigits_seen ≠ 0)
    (hval : p.val = a.toNat * 256 + b.toNat) (hroom : p.tmp.length + 2 ≤ 16) : Pton6.loop (charColon :: src) p =
      Pton6.loop src { p with tmp := p.tmp ++ [a, b], curtok := src, xdigits_seen := 0, val := 0 } := by
  have hdigit : isxdigit charColon = false := by decide
  rw [Pton6.loop, if_neg (by simp [hdigit]), if_pos rfl, if_neg hseen, if_neg hsrc, putGroup_eq a b hval hroom]

/-- The text that is built from pairs of octets. -/
def groups (data : Str) : Str := (lit ":").intercalate (X509Certificate.hexPairs data)

theorem groups_pair (a b : Octet) : groups [a, b] = hexadecimal (a.toNat * 256 + b.toNat) := by
  simp [groups, X509Certificate.hexPairs, List.intercalate]

theorem groups_cons (a b c d : Octet) (l : Str) : groups (a :: b :: c :: d :: l) =
    hexadecimal (a.toNat * 256 + b.toNat) ++ charColon :: groups (c :: d :: l) :=
  intercalate_cons (List.cons_ne_nil _ _)

theorem groups_ne_nil (a b : Octet) (l : Str) (heven : l.length % 2 = 0) : groups (a :: b :: l) ≠ [] := by
  have hgroup := hexadecimal_ne_nil (a.toNat * 256 + b.toNat)
  match l, heven with
  | [], _ => rwa [groups_pair]
  | c :: d :: l, _ =>
    rw [groups_cons]
    exact List.append_ne_nil_of_left_ne_nil hgroup _

/-- The groups of a text, behind the octets in `tmp`. -/
theorem loop_groups (tmp curtok : Str) (a b : Octet) (l : Str) (heven : l.length % 2 = 0)
    (hlength : tmp.length + 2 + l.length = 16) :
    (Pton6.loop (groups (a :: b :: l)) { tmp := tmp, curtok := curtok }).bind Pton6.finish =
      some (tmp ++ a :: b :: l) := by
  obtain ⟨_, _, hlt⟩ := pair_eq a b
  obtain ⟨hpos, _⟩ := length_hexadecimal hlt
  match l, heven with
  | [], _ =>
    rw [groups_pair, ← List.append_nil (hexadecimal _), loop_hexadecimal _ hlt [] rfl rfl, Pton6.loop,
      Option.bind_some, Pton6.finish, if_pos hpos, putGroup_eq a b rfl (by simpa using hlength.le), Option.bind_some]
    exact if_neg (not_not.mpr (by simpa using hlength))
  | c :: d :: l, heven =>
    rw [List.length_cons, List.length_cons] at heven hlength
    rw [groups_cons, loop_hexadecimal _ hlt _ rfl rfl,
      loop_colon a b (groups_ne_nil c d l (by omega)) hpos.ne' rfl (by dsimp only; omega)]
    have hrest := loop_groups (tmp ++ [a, b]) (groups (c :: d :: l)) c d l (by omega)
      (by rw [List.length_append, List.length_cons, List.length_singleton]; omega)
    rw [List.append_assoc] at hrest
    exact hrest

/-- **The text of sixteen octets is an IPv6 address**, and no IPv4 address. -/
theorem inet_pton_groups {data : Str} (h : data.length = 16) :
    inet_pton4 (groups data) = none ∧ inet_pton6 (groups data) = some data := by
  match data, h with
  | a :: b :: c :: d :: l, h =>
    rw [List.length_cons, List.length_cons, List.length_cons, List.length_cons] at h
    constructor
    · apply inet_pton4_colon
      rw [groups_cons]
      simp
    · have hloop := loop_groups [] (groups (a :: b :: c :: d :: l)) a b (c :: d :: l)
        (by rw [List.length_cons, List.length_cons]; omega) (by rw [List.length_cons, List.length_cons]; simp; omega)
      -- the text begins with a digit, so there is no `::` at its beginning
      obtain ⟨ch, digits, hgroup⟩ := List.exists_cons_of_ne_nil (hexadecimal_ne_nil (a.toNat * 256 + b.toNat))
      have hdigit : isxdigit ch = true := mem_hexadecimal (by rw [hgroup]; exact List.mem_cons_self)
      have hcolon : ch ≠ charColon := by
        rintro rfl
        exact absurd hdigit (by decide)
      rw [groups_cons, hgroup, List.cons_append] at hloop ⊢
      unfold inet_pton6
      dsimp only
      rw [if_neg hcolon]
      exact hloop

/-! ## Certificates -/

/-- The address that four or sixteen octets are. -/
def ofOctets (data : Str) : IPAddress := if data.length = 4 then .ipv4 data else .ipv6 data

theorem isValid_ofOctets (data : Str) : (ofOctets data).isValid = true := by
  unfold ofOctets
  split <;> simp [IPAddress.isValid]

theorem mem_intercalate {c d : Octet} {pieces : List Str} (h : c ∈ [d].intercalate pieces) :
    c = d ∨ ∃ x ∈ pieces, c ∈ x := by
  induction pieces with
  | nil => exact absurd h (by simp [List.intercalate])
  | cons x pieces ih =>
      by_cases hnil : pieces = []
      · subst hnil
        exact .inr ⟨x, List.mem_cons_self, by simpa [List.intercalate] using h⟩
      · rw [intercalate_cons hnil, List.mem_append, List.mem_cons] at h
        rcases h with h | h | h
        · exact .inr ⟨x, List.mem_cons_self, h⟩
        · exact .inl h
        · rcases ih h with h | ⟨y, hy, hc⟩
          · exact .inl h
          · exact .inr ⟨y, List.mem_cons_of_mem x hy, hc⟩

theorem mem_hexPairs {data x : Str} (h : x ∈ X509Certificate.hexPairs data) : ∃ n, x = hexadecimal n := by
  induction data using X509Certificate.hexPairs.induct with
  | case1 a b l ih =>
      rcases List.mem_cons.mp h with rfl | h
      · exact ⟨_, rfl⟩
      · exact ih h
  | case2 data hshort =>
      rw [X509Certificate.hexPairs.eq_2 data hshort] at h
      exact absurd h List.not_mem_nil

/-- A text that is built from octets does not end early as a C string. -/
theorem cstr_ipText (data : Str) : cstr (X509Certificate.ipText data) = X509Certificate.ipText data := by
  rw [cstr_eq_self_iff]
  intro h
  unfold X509Certificate.ipText at h
  split_ifs at h
  · rcases mem_intercalate (d := 46) h with h | ⟨x, hx, h⟩
    · exact absurd h (by decide)
    · obtain ⟨c, _, rfl⟩ := List.mem_map.mp hx
      exact absurd (mem_decimal h) (by decide)
  · rcases mem_intercalate (d := 58) h with h | ⟨x, hx, h⟩
    · exact absurd h (by decide)
    · obtain ⟨n, rfl⟩ := mem_hexPairs hx
      exact absurd (mem_hexadecimal h) (by decide)

/-- **The texts of addresses are read back**: of four octets as IPv4, of sixteen as IPv6. -/
theorem ofString_ipText {data : Str} (h : data.length = 4 ∨ data.length = 16) :
    IPAddress.ofString glibc (X509Certificate.ipText data) = ofOctets data := by
  unfold IPAddress.ofString ofOctets
  rw [cstr_ipText]
  rcases h with h | h
  · rw [show glibc.ipv4 _ = _ from inet_pton4_ipText h, if_pos h]
  · have htext : X509Certificate.ipText data = groups data := if_neg (by omega)
    obtain ⟨hipv4, hipv6⟩ := inet_pton_groups h
    rw [htext, show glibc.ipv4 _ = _ from hipv4, show glibc.ipv6 _ = _ from hipv6, if_neg (by omega)]

/-- The octets of the entries of type iPAddress. -/
def iPAddresses (cert : X509) : List Str :=
  (cert.generalNames.filter (fun name => name.type = some .stIP)).map GeneralName.data

theorem mem_getSubjectAltNames_ip {cert : X509} {name : Str} :
    ⟨.stIP, name⟩ ∈ X509Certificate.getSubjectAltNames cert ↔
      ∃ data ∈ iPAddresses cert, X509Certificate.ipText data = name := X509Certificate.mem_getSubjectAltNames_of .stIP

theorem verifyIP_iff {peer san : Str} : X509Certificate.verifyIP glibc peer san = true ↔
    (IPAddress.ofString glibc san).isValid = true ∧ IPAddress.ofString glibc peer = IPAddress.ofString glibc san := by
  simp only [X509Certificate.verifyIP, Bool.and_eq_true, decide_eq_true_eq]
  constructor
  · rintro ⟨⟨_, hvalid⟩, heq⟩
    exact ⟨hvalid, heq⟩
  · rintro ⟨hvalid, heq⟩
    exact ⟨⟨heq ▸ hvalid, hvalid⟩, heq⟩

/-- **IP addresses match by value**: where the common name is no address, a peer is accepted if and only if it denotes
one of the addresses of the certificate. The texts of these are read back, and what is compared are the `Address`
objects. -/
theorem verifySAN_ip_iff (cert : X509) (hentries : ∀ data ∈ iPAddresses cert, data.length = 4 ∨ data.length = 16)
    (hname : (IPAddress.ofString glibc cert.commonName).isValid = false) (peer : Str) (wildcards : Bool) :
    (X509Certificate.verifySAN glibc cert ⟨.stIP, peer⟩ wildcards = true ↔
      ∃ data ∈ iPAddresses cert, IPAddress.ofString glibc peer = ofOctets data) ∧
    (∀ data : Str, data.length = 4 ∨ data.length = 16 →
      IPAddress.ofString glibc (X509Certificate.ipText data) = ofOctets data) ∧
    ∀ peer san : Str, X509Certificate.verifyIP glibc peer san =
      ((Address.init.assign glibc peer).isValid && (Address.init.assign glibc san).isValid &&
        (Address.init.assign glibc peer).beq (Address.init.assign glibc san)) := by
  refine ⟨?_, fun data => ofString_ipText, Address.verifyIP_eq_beq lawful_glibc⟩
  simp only [X509Certificate.verifySAN, List.any_eq_true, List.mem_cons, Bool.and_eq_true, decide_eq_true_eq,
    verifyIP_iff]
  constructor
  · rintro ⟨⟨type, name⟩, hmem, rfl, hvalid, heq⟩
    rcases hmem with hcommon | hmem
    · cases hcommon
      rw [hname] at hvalid
      contradiction
    · obtain ⟨data, hdata, rfl⟩ := mem_getSubjectAltNames_ip.mp hmem
      exact ⟨data, hdata, heq.trans (ofString_ipText (hentries data hdata))⟩
  · rintro ⟨data, hdata, heq⟩
    have hread := ofString_ipText (hentries data hdata)
    refine ⟨⟨.stIP, X509Certificate.ipText data⟩, .inr (mem_getSubjectAltNames_ip.mpr ⟨data, hdata, rfl⟩), rfl, ?_, ?_⟩
    · rw [hread]
      exact isValid_ofOctets data
    · rw [hread]
      exact heq

/-- A certificate for `::1`, and two ways to write that address. -/
theorem verifySAN_ip_loopback :
    X509Certificate.verifySAN glibc ⟨lit "localhost", [⟨some .stIP, List.replicate 15 0 ++ [1]⟩]⟩ ⟨.stIP, lit "::1"⟩
        false = true ∧
      X509Certificate.verifySAN glibc ⟨lit "localhost", [⟨some .stIP, List.replicate 15 0 ++ [1]⟩]⟩
        ⟨.stIP, lit "::0.0.0.1"⟩ false = true := by
  have hentries : ∀ data ∈ iPAddresses ⟨lit "localhost", [⟨some .stIP, List.replicate 15 0 ++ [1]⟩]⟩,
      data.length = 4 ∨ data.length = 16 := by decide
  exact ⟨(verifySAN_ip_iff _ hentries (by decide) _ false).1.mpr ⟨_, List.mem_singleton_self _, by decide⟩,
    (verifySAN_ip_iff _ hentries (by decide) _ false).1.mpr ⟨_, List.mem_singleton_self _, by decide⟩⟩

end InetPton
end Dodo.Network
