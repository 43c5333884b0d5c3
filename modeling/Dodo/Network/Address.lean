import Dodo.Network.X509Certificate

/-!
# `Network.Address` — the octets of an `Address`

An `Address` is a `sockaddr_storage`, read as a `sockaddr_in` or a `sockaddr_in6` by its family. The two lie in the
same memory: the four octets of an IPv4 address are where the flow information of an IPv6 address is, and the first
half of an IPv6 address is in the padding of a `sockaddr_in`. A string assignment writes the family and the octets
of the address, and `operator==` compares the whole structures. What an earlier address has left in the rest of the
structure is compared as well.
-/

namespace Dodo.Network

open Common

/-- The octets of a `sockaddr_storage`. -/
abbrev Storage := Fin 128 → Octet

namespace Storage

def zero : Storage := fun _ => 0

/-- `octets` are written from `offset` on. -/
def write (m : Storage) (offset : Nat) (octets : Str) : Storage := fun i =>
  if offset ≤ i.val ∧ i.val < offset + octets.length then octets.getD (i.val - offset) 0 else m i

/-- The first `n` octets are the same, as `memcmp` finds them. -/
def memcmp (m m' : Storage) (n : Nat) : Bool := decide (∀ i : Fin 128, i.val < n → m i = m' i)

end Storage

/-- Where a socket address has its parts, behind the two octets of the family. -/
structure Layout where
  family : Octet
  /-- The octets of the address. -/
  offset : Nat
  length : Nat
  size : Nat
  header : 2 ≤ offset
  inside : offset + length ≤ size
  fits : size ≤ 128

def sockaddr_in : Layout := ⟨2, 4, 4, 16, by decide, by decide, by decide⟩

def sockaddr_in6 : Layout := ⟨10, 8, 16, 28, by decide, by decide, by decide⟩

def AF_UNSPEC : Nat := 0
def AF_INET : Nat := sockaddr_in.family.toNat
def AF_INET6 : Nat := sockaddr_in6.family.toNat

structure Address where
  addr_ : Storage

namespace Address

/-- The family is a number of two octets, the lower one first. -/
def ss_family (self : Address) : Nat := (self.addr_ 0).toNat + 256 * (self.addr_ 1).toNat

def setFamily (self : Address) (family : Octet) : Address := ⟨self.addr_.write 0 [family, 0]⟩

def init : Address := setFamily ⟨Storage.zero⟩ 0

/-- What `inet_pton` finds is written, and then the family. -/
def store (self : Address) (layout : Layout) (octets : Str) : Address :=
  setFamily ⟨self.addr_.write layout.offset octets⟩ layout.family

/-- `operator=` of a string; where `inet_pton` fails it writes nothing. -/
def assign (pton : InetPton) (self : Address) (address : Str) : Address :=
  match pton.ipv4 (cstr address) with
  | some octets => self.store sockaddr_in octets
  | none =>
    match pton.ipv6 (cstr address) with
    | some octets => self.store sockaddr_in6 octets
    | none => init

def isValid (self : Address) : Bool := self.ss_family ≠ AF_UNSPEC

/-- `operator==` -/
def beq (self address : Address) : Bool :=
  if self.ss_family = address.ss_family then
    if self.ss_family = AF_INET then self.addr_.memcmp address.addr_ sockaddr_in.size
    else if self.ss_family = AF_INET6 then self.addr_.memcmp address.addr_ sockaddr_in6.size
    else false
  else false

/-- How an `Address` has come about. The memory of an object may hold anything before it is constructed. -/
inductive History where
  /-- `Address()` writes the family only. -/
  | default (memory : Storage)
  | ofString (address : Str)
  | ofStorage (address : Storage)
  | ofSockaddr (memory : Storage) (address : Str) (fits : address.length ≤ 128)
  | copy (address : History)
  | assign (self : History) (address : Str)

def History.address (pton : InetPton) : History → Address
  | default memory => setFamily ⟨memory⟩ 0
  | ofString address => init.assign pton address
  | ofStorage address => ⟨address⟩
  | ofSockaddr memory address _ => ⟨(setFamily ⟨memory⟩ 0).addr_.write 0 address⟩
  | copy address => address.address pton
  | assign self address => (self.address pton).assign pton address

end Address

/-- `inet_pton` writes as many octets as an address of the family has. -/
structure InetPton.Lawful (pton : InetPton) : Prop where
  ipv4 {address octets : Str} : pton.ipv4 address = some octets → octets.length = sockaddr_in.length
  ipv6 {address octets : Str} : pton.ipv6 address = some octets → octets.length = sockaddr_in6.length

/-- The memories agree in the octets of the structure that a string assignment does not write. -/
def Layout.SameRest (layout : Layout) (m m' : Storage) : Prop :=
  ∀ i : Fin 128, 2 ≤ i.val → i.val < layout.size → ¬ (layout.offset ≤ i.val ∧ i.val < layout.offset + layout.length) →
    m i = m' i

def IPAddress.family : IPAddress → Nat
  | unspec => AF_UNSPEC
  | ipv4 _ => AF_INET
  | ipv6 _ => AF_INET6

/-- The same, by the family of an address. -/
def IPAddress.SameRest (m m' : Storage) : IPAddress → Prop
  | unspec => True
  | ipv4 _ => sockaddr_in.SameRest m m'
  | ipv6 _ => sockaddr_in6.SameRest m m'

namespace Address

/-! ## What is stored -/

section store

variable {self self' : Address} {layout : Layout} {octets octets' : Str}

theorem addr_store (i : Fin 128) : (self.store layout octets).addr_ i =
    if i.val < 2 then [layout.family, 0].getD i.val 0
    else if layout.offset ≤ i.val ∧ i.val < layout.offset + octets.length then octets.getD (i.val - layout.offset) 0
    else self.addr_ i := by
  simp [store, setFamily, Storage.write]

theorem addr_store_octet (k : Nat) (hk : k < octets.length) (i : Fin 128) (hi : i.val = layout.offset + k) :
    (self.store layout octets).addr_ i = octets[k] := by
  have hheader := layout.header
  have hfamily : ¬ i.val < 2 := by omega
  have haddress : layout.offset ≤ i.val ∧ i.val < layout.offset + octets.length := by omega
  rw [addr_store, if_neg hfamily, if_pos haddress, hi, Nat.add_sub_cancel_left, List.getD_eq_getElem?_getD,
    List.getElem?_eq_getElem hk, Option.getD_some]

theorem addr_store_rest (i : Fin 128) (hfamily : 2 ≤ i.val)
    (hrest : ¬ (layout.offset ≤ i.val ∧ i.val < layout.offset + octets.length)) :
    (self.store layout octets).addr_ i = self.addr_ i := by
  rw [addr_store, if_neg (by omega), if_neg hrest]

theorem ss_family_store : (self.store layout octets).ss_family = layout.family.toNat := by
  rw [ss_family, addr_store, addr_store]
  rfl

/-- **The comparison of two stored addresses** sees the octets and the rest. -/
theorem memcmp_store_iff (h : octets.length = layout.length) (h' : octets'.length = layout.length) :
    (self.store layout octets).addr_.memcmp (self'.store layout octets').addr_ layout.size = true ↔
      octets = octets' ∧ layout.SameRest self.addr_ self'.addr_ := by
  have hinside := layout.inside
  have hfits := layout.fits
  rw [Storage.memcmp, decide_eq_true_iff]
  constructor
  · intro hsame
    constructor
    · apply List.ext_getElem (h.trans h'.symm)
      intro k hk hk'
      have hat := hsame ⟨layout.offset + k, by omega⟩ (by dsimp only; omega)
      rwa [addr_store_octet k hk _ rfl, addr_store_octet k hk' _ rfl] at hat
    · intro i hfamily hi hrest
      have hat := hsame i hi
      rwa [addr_store_rest i hfamily (by rwa [h]), addr_store_rest i hfamily (by rwa [h'])] at hat
  · rintro ⟨rfl, hrest⟩ i hi
    rw [addr_store, addr_store]
    split_ifs with hfamily haddress
    · rfl
    · rfl
    · exact hrest i (by omega) hi (by rwa [← h])

end store

/-! ## Assigned strings -/

variable {pton : InetPton} {one two : Address} {a b octets octets' : Str}

/-- What a string denotes, and what its assignment does. -/
theorem assign_cases (pton : InetPton) (a : Str) :
    (∃ octets, pton.ipv4 (cstr a) = some octets ∧ IPAddress.ofString pton a = .ipv4 octets ∧
        ∀ one : Address, one.assign pton a = one.store sockaddr_in octets) ∨
      (∃ octets, pton.ipv6 (cstr a) = some octets ∧ IPAddress.ofString pton a = .ipv6 octets ∧
        ∀ one : Address, one.assign pton a = one.store sockaddr_in6 octets) ∨
      IPAddress.ofString pton a = .unspec ∧ ∀ one : Address, one.assign pton a = init := by
  unfold IPAddress.ofString assign
  cases pton.ipv4 (cstr a) with
  | some octets => exact Or.inl ⟨octets, rfl, rfl, fun _ => rfl⟩
  | none =>
      cases pton.ipv6 (cstr a) with
      | some octets => exact Or.inr (Or.inl ⟨octets, rfl, rfl, fun _ => rfl⟩)
      | none => exact Or.inr (Or.inr ⟨rfl, fun _ => rfl⟩)

theorem ss_family_assign : (one.assign pton a).ss_family = (IPAddress.ofString pton a).family := by
  rcases assign_cases pton a with ⟨octets, -, hip, hassign⟩ | ⟨octets, -, hip, hassign⟩ | ⟨hip, hassign⟩
  · rw [hip, hassign, ss_family_store]
    rfl
  · rw [hip, hassign, ss_family_store]
    rfl
  · rw [hip, hassign]
    decide

theorem beq_store_ipv4 : (one.store sockaddr_in octets).beq (two.store sockaddr_in octets') =
    (one.store sockaddr_in octets).addr_.memcmp (two.store sockaddr_in octets').addr_ sockaddr_in.size := by
  rw [beq, ss_family_store, ss_family_store, if_pos rfl, if_pos (show sockaddr_in.family.toNat = AF_INET from rfl)]

theorem beq_store_ipv6 : (one.store sockaddr_in6 octets).beq (two.store sockaddr_in6 octets') =
    (one.store sockaddr_in6 octets).addr_.memcmp (two.store sockaddr_in6 octets').addr_ sockaddr_in6.size := by
  rw [beq, ss_family_store, ss_family_store, if_pos rfl, if_neg (by decide),
    if_pos (show sockaddr_in6.family.toNat = AF_INET6 from rfl)]

/-- **Equality of assigned addresses**, whatever was in the objects before: both are valid and the same, and the
    rest of the structure is the same. -/
theorem beq_assign (hpton : pton.Lawful) : (one.assign pton a).beq (two.assign pton b) = true ↔
    (IPAddress.ofString pton a).isValid = true ∧ IPAddress.ofString pton a = IPAddress.ofString pton b ∧
      (IPAddress.ofString pton a).SameRest one.addr_ two.addr_ := by
  by_cases hfamily : (IPAddress.ofString pton a).family = (IPAddress.ofString pton b).family
  · rcases assign_cases pton a with ⟨octets, ha, hip, hassign⟩ | ⟨octets, ha, hip, hassign⟩ | ⟨hip, hassign⟩ <;>
      rcases assign_cases pton b with
        ⟨octets', hb, hip', hassign'⟩ | ⟨octets', hb, hip', hassign'⟩ | ⟨hip', hassign'⟩ <;>
      rw [hip, hip'] at hfamily
    case inl.inl =>
      rw [hip, hip', hassign, hassign', beq_store_ipv4, memcmp_store_iff (hpton.ipv4 ha) (hpton.ipv4 hb)]
      simp [IPAddress.isValid, IPAddress.SameRest]
    case inr.inl.inr.inl =>
      rw [hip, hip', hassign, hassign', beq_store_ipv6, memcmp_store_iff (hpton.ipv6 ha) (hpton.ipv6 hb)]
      simp [IPAddress.isValid, IPAddress.SameRest]
    case inr.inr.inr.inr =>
      rw [hip, hassign, hassign']
      exact iff_of_false (by decide) (by simp [IPAddress.isValid])
    -- two different families
    all_goals exact absurd hfamily (by simp only [IPAddress.family]; decide)
  · have hne : (one.assign pton a).ss_family ≠ (two.assign pton b).ss_family := by
      rwa [ss_family_assign, ss_family_assign]
    rw [beq, if_neg hne]
    refine iff_of_false Bool.false_ne_true ?_
    rintro ⟨-, hsame, -⟩
    exact hfamily (congrArg IPAddress.family hsame)

/-- **Address equality.** After any histories of the two objects, a string that denotes an address is assigned to
    one and a string to the other. The objects compare as the addresses do, exactly if the rest of the structure is
    the same in both where the addresses are the same. -/
theorem beq_assign_iff (pton : InetPton) (hpton : pton.Lawful) (one two : History) (a b : Str)
    (ha : (IPAddress.ofString pton a).isValid = true) :
    (((one.address pton).assign pton a).beq ((two.address pton).assign pton b) =
        decide (IPAddress.ofString pton a = IPAddress.ofString pton b)) ↔
      (IPAddress.ofString pton a = IPAddress.ofString pton b →
        (IPAddress.ofString pton a).SameRest (one.address pton).addr_ (two.address pton).addr_) := by
  rw [Bool.eq_iff_iff, decide_eq_true_iff, beq_assign hpton]
  constructor
  · intro h hsame
    exact (h.mpr hsame).2.2
  · intro hrest
    exact ⟨fun h => h.2.1, fun hsame => ⟨ha, hsame, hrest hsame⟩⟩

/-! ## Objects without a rest -/

theorem sameRest_of_forall {m m' : Storage} (ip : IPAddress) (h : ∀ i : Fin 128, 2 ≤ i.val → m i = m' i) :
    ip.SameRest m m' := by
  cases ip with
  | unspec => trivial
  | ipv4 _ | ipv6 _ => exact fun i hi _ _ => h i hi

theorem addr_init (i : Fin 128) (hi : 2 ≤ i.val) : init.addr_ i = 0 := by
  have hfamily : ¬ i.val < 2 := by omega
  simp [init, setFamily, Storage.write, Storage.zero, hfamily]

/-- An assignment of the same family, or of no address, leaves no rest. -/
theorem sameRest_assign_zero (hpton : pton.Lawful) (ip : IPAddress)
    (hfamily : (IPAddress.ofString pton a).family = AF_UNSPEC ∨ (IPAddress.ofString pton a).family = ip.family)
    (h : ip.SameRest one.addr_ Storage.zero) : ip.SameRest (one.assign pton a).addr_ Storage.zero := by
  have hstore : ∀ (layout : Layout) (octets : Str), octets.length = layout.length →
      layout.SameRest one.addr_ Storage.zero → layout.SameRest (one.store layout octets).addr_ Storage.zero := by
    intro layout octets hlength hrest i hlow hhigh hi
    rw [addr_store_rest i hlow (by rwa [hlength])]
    exact hrest i hlow hhigh hi
  rcases assign_cases pton a with ⟨octets, ha, hip, hassign⟩ | ⟨octets, ha, hip, hassign⟩ | ⟨-, hassign⟩
  · cases ip with
    | unspec => trivial
    | ipv4 _ =>
        rw [hassign]
        exact hstore sockaddr_in octets (hpton.ipv4 ha) h
    | ipv6 _ =>
        rw [hip] at hfamily
        exact absurd hfamily (by simp only [IPAddress.family]; decide)
  · cases ip with
    | unspec => trivial
    | ipv6 _ =>
        rw [hassign]
        exact hstore sockaddr_in6 octets (hpton.ipv6 ha) h
    | ipv4 _ =>
        rw [hip] at hfamily
        exact absurd hfamily (by simp only [IPAddress.family]; decide)
  · rw [hassign]
    exact sameRest_of_forall ip addr_init

/-- The object was built from a string, and all strings so far denoted addresses of the family, or none. -/
def History.Only (pton : InetPton) (family : Nat) : History → Prop
  | ofString address =>
    (IPAddress.ofString pton address).family = AF_UNSPEC ∨ (IPAddress.ofString pton address).family = family
  | copy address => address.Only pton family
  | assign self address => self.Only pton family ∧
    ((IPAddress.ofString pton address).family = AF_UNSPEC ∨ (IPAddress.ofString pton address).family = family)
  | default _ | ofStorage _ | ofSockaddr _ _ _ => False

/-- **Over its whole history**, such an object has zeros in the rest. -/
theorem History.Only.rest (hpton : pton.Lawful) (ip : IPAddress) {one : History} (h : one.Only pton ip.family) :
    ip.SameRest (one.address pton).addr_ Storage.zero := by
  induction one with
  | default | ofStorage | ofSockaddr => exact h.elim
  | ofString address =>
      apply sameRest_assign_zero hpton ip h
      exact sameRest_of_forall ip addr_init
  | copy address ih => exact ih h
  | assign self address ih => exact sameRest_assign_zero hpton ip h.2 (ih h.1)

theorem sameRest_of_same {m m' m'' : Storage} (ip : IPAddress) (h : ip.SameRest m m'') (h' : ip.SameRest m' m'') :
    ip.SameRest m m' := by
  cases ip with
  | unspec => trivial
  | ipv4 _ | ipv6 _ => exact fun i hlow hhigh hi => (h i hlow hhigh hi).trans (h' i hlow hhigh hi).symm

/-- `inet_pton`, of three texts. -/
def somePton : InetPton where
  ipv4 address := if address = lit "127.0.0.1" then some [127, 0, 0, 1] else none
  ipv6 address :=
    if address = lit "::1" then some [0, 0, 0, 0, 0, 0, 0, 0, 0, 0, 0, 0, 0, 0, 0, 1]
    else if address = lit "1::" then some [0, 1, 0, 0, 0, 0, 0, 0, 0, 0, 0, 0, 0, 0, 0, 0]
    else none

theorem somePton_lawful : somePton.Lawful where
  ipv4 h := by
    dsimp only [somePton] at h
    split_ifs at h
    rw [← Option.some.inj h]
    rfl
  ipv6 h := by
    dsimp only [somePton] at h
    split_ifs at h
    · rw [← Option.some.inj h]
      rfl
    · rw [← Option.some.inj h]
      rfl

/-- Two objects that have only held IPv6 addresses. -/
theorem beq_assign_iff_ipv6 :
    (((History.ofString (lit "::1")).address somePton).assign somePton (lit "1::")).beq
        (((History.ofString (lit "1::")).address somePton).assign somePton (lit "1::")) = true := by
  have hvalid : (IPAddress.ofString somePton (lit "1::")).isValid = true := by decide +kernel
  have hone : (History.ofString (lit "::1")).Only somePton (IPAddress.ofString somePton (lit "1::")).family :=
    Or.inr (by decide +kernel)
  have htwo : (History.ofString (lit "1::")).Only somePton (IPAddress.ofString somePton (lit "1::")).family :=
    Or.inr rfl
  have hrest := sameRest_of_same _ (hone.rest somePton_lawful _) (htwo.rest somePton_lawful _)
  have hequal := (beq_assign_iff somePton somePton_lawful (.ofString (lit "::1")) (.ofString (lit "1::")) (lit "1::")
    (lit "1::") hvalid).mpr fun _ => hrest
  rw [hequal, decide_eq_true_iff]

/-- An object that held the address `1::` before is not equal to a fresh one, both with the address 127.0.0.1. -/
theorem reassigned_address_differs :
    IPAddress.ofString somePton (lit "127.0.0.1") = .ipv4 [127, 0, 0, 1] ∧
      (((History.ofString (lit "1::")).address somePton).assign somePton (lit "127.0.0.1")).beq
        (((History.ofString (lit "127.0.0.1")).address somePton).assign somePton (lit "127.0.0.1")) = false := by
  decide +kernel

/-! ## Addresses built from strings -/

theorem isValid_assign : (one.assign pton a).isValid = (IPAddress.ofString pton a).isValid := by
  rw [isValid, ss_family_assign]
  cases IPAddress.ofString pton a <;> rfl

/-- `verifyIP` builds two objects from strings. Their rest is zero, so they compare as the addresses do. -/
theorem verifyIP_eq_beq (hpton : pton.Lawful) (peer san : Str) : X509Certificate.verifyIP pton peer san =
    ((init.assign pton peer).isValid && (init.assign pton san).isValid &&
      (init.assign pton peer).beq (init.assign pton san)) := by
  have hrest : (IPAddress.ofString pton peer).SameRest init.addr_ init.addr_ := sameRest_of_forall _ fun _ _ => rfl
  rw [X509Certificate.verifyIP, isValid_assign, isValid_assign, Bool.eq_iff_iff]
  simp only [Bool.and_eq_true, decide_eq_true_eq, beq_assign hpton]
  constructor
  · rintro ⟨⟨hpeer, hsan⟩, hsame⟩
    exact ⟨⟨hpeer, hsan⟩, hpeer, hsame, hrest⟩
  · rintro ⟨hvalid, -, hsame, -⟩
    exact ⟨hvalid, hsame⟩

end Address
end Dodo.Network
