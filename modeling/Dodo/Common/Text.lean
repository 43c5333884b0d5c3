import Mathlib.Data.List.TakeWhile
import Mathlib.Algebra.Group.Nat.Defs
import Dodo.Common.SystemError

/-!
# `Common.Text` — byte strings and the C library functions the code applies to them

`std::string` and `common::Bytes` are lists of octets. The classification functions are those of the
"C" locale; `char` is signed, so an octet from 128 on is negative and no function of the "C" locale
classifies it. The number conversions follow the documented behaviour of `std::stoul` and of stream
extraction (`>>`): a number out of range makes the former throw and the latter store the largest value.
-/

namespace Dodo.Common

/-- `common::Octet`, and a `char` read as an unsigned value. -/
abbrev Octet := UInt8

/-- The content of a `std::string`. -/
abbrev Str := List UInt8

/-- The content of a string literal of the source (ASCII). -/
def lit (s : String) : Str := s.toList.map (fun c => c.toNat.toUInt8)

/-- What holds of all characters of a literal; they are known without decoding it. -/
theorem all_lit {p : Octet → Bool} (l : List Char) (h : l.all (fun c => p c.toNat.toUInt8) = true) :
    (lit (String.ofList l)).all p = true := by
  rw [lit, String.toList_ofList, List.all_map]
  exact h

/-- `s[i]`; at the end of a string there is a zero octet. -/
def octetAt (s : Str) (i : Nat) : Octet := s.getD i 0

/-- `s.substr( pos, n )` -/
def substr (s : Str) (pos n : Nat) : Str := (s.drop pos).take n

/-! ## Character classes -/

def isspace (c : Octet) : Bool := c = 32 || (9 ≤ c && c ≤ 13)

def isdigit (c : Octet) : Bool := 48 ≤ c && c ≤ 57

def isalpha (c : Octet) : Bool := (65 ≤ c && c ≤ 90) || (97 ≤ c && c ≤ 122)

def isxdigit (c : Octet) : Bool := isdigit c || (65 ≤ c && c ≤ 70) || (97 ≤ c && c ≤ 102)

def tolower (c : Octet) : Octet := if 65 ≤ c ∧ c ≤ 90 then c + 32 else c

/-- `std::string( s )` of a C string, which ends at its first zero octet. -/
def cstr (s : Str) : Str := s.takeWhile (· ≠ 0)

theorem cstr_eq_iff {s t : Str} : cstr s = t ↔ 0 ∉ t ∧ (s = t ∨ ∃ r, s = t ++ 0 :: r) := by
  unfold cstr
  induction s generalizing t with
  | nil => cases t <;> simp
  | cons c s ih =>
      by_cases hc : c = 0
      · subst hc
        rw [List.takeWhile_cons_of_neg (by simp)]
        cases t with
        | nil => simp
        | cons d t =>
            simp only [List.cons_append, List.cons.injEq]
            constructor
            · intro h
              cases h
            · rintro ⟨hzero, ⟨rfl, -⟩ | ⟨r, rfl, -⟩⟩ <;> exact absurd List.mem_cons_self hzero
      · rw [List.takeWhile_cons_of_pos (by simpa using hc)]
        cases t with
        | nil => simp [hc]
        | cons d t =>
            simp only [List.cons_append, List.cons.injEq, ih, List.mem_cons, not_or]
            constructor
            · rintro ⟨rfl, hzero, h⟩
              exact ⟨⟨fun h => hc h.symm, hzero⟩, h.imp (fun h => ⟨rfl, h⟩) (fun ⟨r, h⟩ => ⟨r, rfl, h⟩)⟩
            · rintro ⟨⟨-, hzero⟩, ⟨rfl, h⟩ | ⟨r, rfl, h⟩⟩
              · exact ⟨rfl, hzero, .inl h⟩
              · exact ⟨rfl, hzero, .inr ⟨r, h⟩⟩

/-- A C string keeps all octets exactly if there is no zero among them. -/
theorem cstr_eq_self_iff {s : Str} : cstr s = s ↔ 0 ∉ s := by
  rw [cstr_eq_iff]
  simp

theorem isspace_of_isdigit {c : Octet} (h : isdigit c = true) : isspace c = false := by
  simp only [isdigit, isspace] at *
  grind

/-! ## Pieces -/

/-- `getline` from a stream, until it fails. What is behind the last delimiter is a piece unless it is empty;
    `piece` has been read of the next one. -/
def splitFrom (delimiter : Octet) (piece : Str) : Str → List Str
  | [] => if piece = [] then [] else [piece]
  | c :: l => if c = delimiter then piece :: splitFrom delimiter [] l else splitFrom delimiter (piece ++ [c]) l

def split (src : Str) (delimiter : Octet) : List Str := splitFrom delimiter [] src

section

variable {d : Octet} {x l : Str}

theorem splitFrom_append (p : Str) (h : d ∉ x) : splitFrom d p (x ++ l) = splitFrom d (p ++ x) l := by
  induction x generalizing p with
  | nil => simp
  | cons c x ih =>
      have hc : c ≠ d := fun heq => h (heq ▸ List.mem_cons_self)
      rw [List.cons_append, splitFrom, if_neg hc, ih (p ++ [c]) (fun hx => h (List.mem_cons_of_mem c hx))]
      simp

theorem split_cons (h : d ∉ x) : split (x ++ d :: l) d = x :: split l d := by
  unfold split
  rw [splitFrom_append [] h, List.nil_append, splitFrom, if_pos rfl]

/-- The last piece. -/
theorem split_self (h : d ∉ x) (hne : x ≠ []) : split x d = [x] := by
  have hsplit := splitFrom_append (l := []) [] h
  rw [List.append_nil, List.nil_append] at hsplit
  unfold split
  rw [hsplit, splitFrom, if_neg hne]

/-- `l` is the pieces with delimiters between them, and maybe one behind the last. -/
def Joined (d : Octet) (pieces : List Str) (l : Str) : Prop :=
  l = [d].intercalate pieces ∨ l = [d].intercalate pieces ++ [d]

theorem intercalate_cons {x : Str} {pieces : List Str} (hne : pieces ≠ []) :
    [d].intercalate (x :: pieces) = x ++ d :: [d].intercalate pieces := by
  cases pieces with
  | nil => contradiction
  | cons y pieces => simp [List.intercalate]

theorem splitFrom_ne_nil (p : Str) {c : Octet} : splitFrom d p (c :: l) ≠ [] := by
  induction l generalizing p c with
  | nil =>
      rw [splitFrom]
      split <;> simp [splitFrom]
  | cons e l ih =>
      rw [splitFrom]
      split
      · simp
      · exact ih _

/-- The pieces are those of the string. -/
theorem joined_splitFrom (p l : Str) : Joined d (splitFrom d p l) (p ++ l) := by
  induction l generalizing p with
  | nil =>
      left
      rw [splitFrom]
      split
      · rename_i hp
        rw [hp]
        rfl
      · simp [List.intercalate]
  | cons c l ih =>
      rw [splitFrom]
      split
      · rename_i hc
        subst hc
        cases l with
        | nil => exact .inr (by simp [splitFrom, List.intercalate])
        | cons e l =>
            unfold Joined
            rw [intercalate_cons (splitFrom_ne_nil [])]
            rcases ih [] with h | h
            · exact .inl (congrArg (fun l => p ++ c :: l) h)
            · right
              rw [List.append_assoc, List.cons_append]
              exact congrArg (fun l => p ++ c :: l) h
      · have h := ih (p ++ [c])
        rwa [List.append_assoc, List.singleton_append] at h

theorem joined_split (l : Str) : Joined d (split l d) l := joined_splitFrom [] l

theorem not_mem_splitFrom {p : Str} (hp : d ∉ p) : ∀ x ∈ splitFrom d p l, d ∉ x := by
  induction l generalizing p with
  | nil =>
      rw [splitFrom]
      split <;> simp [hp]
  | cons c l ih =>
      rw [splitFrom]
      split
      · intro x hx
        rcases List.mem_cons.mp hx with rfl | hx
        · exact hp
        · exact ih List.not_mem_nil x hx
      · rename_i hc
        exact ih (by simp [hp, Ne.symm hc])

/-- There is no delimiter in a piece. -/
theorem not_mem_split : ∀ x ∈ split l d, d ∉ x := not_mem_splitFrom List.not_mem_nil

/-- Pieces that are not empty are found again, also when there is a delimiter behind the last. -/
theorem split_joined {pieces : List Str} (h : Joined d pieces l) (hne : pieces ≠ [])
    (hpieces : ∀ x ∈ pieces, d ∉ x ∧ x ≠ []) : split l d = pieces := by
  induction pieces generalizing l with
  | nil => contradiction
  | cons x pieces ih =>
      obtain ⟨hx, hxne⟩ := hpieces x List.mem_cons_self
      cases pieces with
      | nil =>
          rcases h with rfl | rfl
          · simpa [List.intercalate] using split_self hx hxne
          · have hlast : split (x ++ [d]) d = [x] := split_cons hx
            simpa [List.intercalate] using hlast
      | cons y pieces =>
          have htail : ∀ {l'}, Joined d (y :: pieces) l' → split l' d = y :: pieces := fun h' =>
            ih h' (List.cons_ne_nil y pieces) (fun z hz => hpieces z (List.mem_cons_of_mem x hz))
          unfold Joined at h
          rw [intercalate_cons (List.cons_ne_nil y pieces)] at h
          rcases h with rfl | rfl
          · rw [split_cons hx, htail (.inl rfl)]
          · rw [List.append_assoc, List.cons_append, split_cons hx, htail (.inr rfl)]

end

/-! ## Numbers -/

/-- The conversion of a size to `int`. -/
def asInt (n : Nat) : Int := Int.bmod n (2 ^ 32)

theorem asInt_eq {n : Nat} (h : n < 2 ^ 31) : asInt n = n := by
  unfold asInt
  rw [Int.bmod_def, Int.emod_eq_of_lt (by omega) (by omega), if_pos (by omega)]

/-- A size that is too large becomes negative. -/
theorem asInt_neg {n : Nat} (h : 2 ^ 31 ≤ n) (h' : n < 2 ^ 32) : asInt n < 0 := by
  unfold asInt
  rw [Int.bmod_def, Int.emod_eq_of_lt (by omega) (by omega), if_neg (by omega)]
  omega

/-- What is left of a size is not larger than it, nor than an `int`. -/
theorem toNat_asInt_le (n : Nat) : (asInt n).toNat ≤ n ∧ (asInt n).toNat < 2 ^ 31 := by
  unfold asInt
  rw [Int.bmod_def]
  split <;> omega

/-- `ss << n` of an unsigned number. -/
def decimal (n : Nat) : Str := (Nat.toDigits 10 n).map (fun c => c.toNat.toUInt8)

/-- `ss << std::hex << n` of an unsigned number. -/
def hexadecimal (n : Nat) : Str := (Nat.toDigits 16 n).map (fun c => c.toNat.toUInt8)

/-- The number a string of decimal digits denotes. -/
def decVal (ds : Str) : Nat := ds.foldl (fun v c => 10 * v + (c.toNat - 48)) 0

/-- The value of a hexadecimal digit. -/
def hexDigit (c : Octet) : Nat :=
  if c ≤ 57 then c.toNat - 48 else if c ≤ 70 then c.toNat - 55 else c.toNat - 87

/-- The number a string of hexadecimal digits denotes. -/
def hexVal (ds : Str) : Nat := ds.foldl (fun v c => 16 * v + hexDigit c) 0

/-- `ss >> value` into an `unsigned int`, from a stream that holds the digits `ds`. An empty stream
    leaves the variable as it was; a number too large stores the largest value. -/
def extractUInt (ds : Str) (value : UInt32) : UInt32 :=
  if ds = [] then value else UInt32.ofNat (min (decVal ds) (2 ^ 32 - 1))

/-- `ss >> std::hex >> value` into an `unsigned long`, from a stream of one or more hex digits. -/
def extractHex (ds : Str) : Nat := min (hexVal ds) (2 ^ 64 - 1)

/-- `std::stoul( s, &pos )`: the value and `pos`. White space and a sign may come first, and a minus
    sign negates modulo `2^64`. -/
def stoul (s : Str) : Except Exn (Nat × Nat) :=
  let s₁ := s.dropWhile isspace
  let sign : Nat := if s₁.head? = some 43 ∨ s₁.head? = some 45 then 1 else 0
  let ds := (s₁.drop sign).takeWhile isdigit
  if ds = [] then .error .invalidArgument
  else if 2 ^ 64 ≤ decVal ds then .error .outOfRange
  else .ok (if s₁.head? = some 45 then (2 ^ 64 - decVal ds) % 2 ^ 64 else decVal ds,
            (s.takeWhile isspace).length + sign + ds.length)

/-! ## Printing a number and reading it back -/

theorem mem_decimal {n : Nat} {c : Octet} (h : c ∈ decimal n) : isdigit c = true := by
  obtain ⟨d, hd, rfl⟩ := List.mem_map.mp h
  have hdig := Nat.isDigit_of_mem_toDigits (by omega) (by omega) hd
  simp only [Char.isDigit, Bool.and_eq_true, decide_eq_true_eq, ge_iff_le] at hdig
  obtain ⟨h₁, h₂⟩ := hdig
  have h₁' : 48 ≤ d.toNat := h₁
  have h₂' : d.toNat ≤ 57 := h₂
  simp only [isdigit, Bool.and_eq_true, decide_eq_true_eq, UInt8.le_iff_toNat_le]
  have : (d.toNat.toUInt8).toNat = d.toNat := by
    simp [Nat.toUInt8]; omega
  rw [this]
  exact ⟨h₁', h₂'⟩

theorem decimal_ne_nil (n : Nat) : decimal n ≠ [] := by
  simp [decimal, Nat.toDigits_ne_nil]

/-- **Decimal round trip.** -/
theorem decVal_decimal (n : Nat) : decVal (decimal n) = n := by
  have hdig : ∀ d ∈ Nat.toDigits 10 n, (d.toNat.toUInt8).toNat = d.toNat := by
    intro d hd
    have := Nat.isDigit_of_mem_toDigits (by omega) (by omega) hd
    simp only [Char.isDigit, Bool.and_eq_true, decide_eq_true_eq, ge_iff_le] at this
    have h₂ : d.toNat ≤ 57 := this.2
    simp [Nat.toUInt8]; omega
  have key : ∀ (ds : List Char) (v : Nat), (∀ d ∈ ds, (d.toNat.toUInt8).toNat = d.toNat) →
      (ds.map (fun c => c.toNat.toUInt8)).foldl (fun v c => 10 * v + (c.toNat - 48)) v
        = Nat.ofDigitChars 10 ds v := by
    intro ds
    induction ds with
    | nil => intro v _; simp
    | cons d ds ih =>
        intro v h
        rw [List.map_cons, List.foldl_cons, ih _ (fun x hx => h x (by simp [hx])), h d (by simp),
          Nat.ofDigitChars_cons]
        rfl
  rw [decVal, decimal, key _ _ hdig, Nat.ofDigitChars_toDigits (by omega) (by omega)]

/-- **Stream extraction undoes stream insertion** of any 32-bit number. -/
theorem extractUInt_decimal (n value : UInt32) : extractUInt (decimal n.toNat) value = n := by
  have hn : n.toNat < 2 ^ 32 := n.toNat_lt
  rw [extractUInt, if_neg (decimal_ne_nil _), decVal_decimal, Nat.min_eq_left (by omega)]
  exact UInt32.ofNat_toNat

/-- **`std::stoul` reads back a printed number**, and all of it. -/
theorem stoul_decimal {n : Nat} (hn : n < 2 ^ 64) :
    stoul (decimal n) = .ok (n, (decimal n).length) := by
  obtain ⟨c, ds, hcs⟩ := List.exists_cons_of_ne_nil (decimal_ne_nil n)
  have hall : ∀ d ∈ c :: ds, isdigit d = true := by
    intro d hd; exact mem_decimal (n := n) (hcs ▸ hd)
  have hc : isdigit c = true := hall c (by simp)
  have hsp : isspace c = false := isspace_of_isdigit hc
  have h43 : c ≠ 43 := by rintro rfl; exact absurd hc (by decide)
  have h45 : c ≠ 45 := by rintro rfl; exact absurd hc (by decide)
  have hdig : (c :: ds).takeWhile isdigit = c :: ds := List.takeWhile_eq_self_iff.mpr hall
  have hval : decVal (c :: ds) = n := by rw [← hcs]; exact decVal_decimal n
  rw [hcs]
  simp only [stoul, List.dropWhile_cons, hsp, List.head?_cons, Option.some.injEq, h43, h45, or_self,
    if_false, List.drop_zero, hdig, hval, List.takeWhile_cons, List.length_nil, Nat.zero_add,
    Bool.false_eq_true]
  rw [if_neg (by simp), if_neg (by omega)]

/-! ## What `std::stoul` reads -/

/-- The text `s` starts with a number: white space, a sign or none, and the digits `ds` up to `rest`. -/
structure Numeral (s blanks sign ds rest : Str) : Prop where
  eq : s = blanks ++ (sign ++ (ds ++ rest))
  blanks_isspace : ∀ c ∈ blanks, isspace c = true
  sign_eq : sign = [] ∨ sign = [43] ∨ sign = [45]
  ds_isdigit : ∀ c ∈ ds, isdigit c = true
  ds_ne_nil : ds ≠ []
  rest_nondigit : ∀ c ∈ rest.head?, isdigit c = false

namespace Numeral

variable {s blanks sign ds rest : Str}

theorem head (h : Numeral s blanks sign ds rest) : ∃ c l, sign ++ (ds ++ rest) = c :: l ∧
    isspace c = false ∧ (sign = [] → isdigit c = true) := by
  obtain ⟨d, ds, rfl⟩ := List.exists_cons_of_ne_nil h.ds_ne_nil
  have hd := h.ds_isdigit d List.mem_cons_self
  rcases h.sign_eq with rfl | rfl | rfl
  · exact ⟨d, _, rfl, isspace_of_isdigit hd, fun _ => hd⟩
  · exact ⟨43, _, rfl, by decide, fun hnil => by cases hnil⟩
  · exact ⟨45, _, rfl, by decide, fun hnil => by cases hnil⟩

theorem takeWhile_isspace (h : Numeral s blanks sign ds rest) :
    s.takeWhile isspace = blanks ∧ s.dropWhile isspace = sign ++ (ds ++ rest) := by
  obtain ⟨c, l, hl, hc, -⟩ := h.head
  rw [h.eq, List.takeWhile_append_of_pos h.blanks_isspace, List.dropWhile_append_of_pos h.blanks_isspace, hl,
    List.takeWhile_cons_of_neg (by simp [hc]), List.dropWhile_cons_of_neg (by simp [hc])]
  exact ⟨List.append_nil _, rfl⟩

theorem takeWhile_isdigit (h : Numeral s blanks sign ds rest) : (ds ++ rest).takeWhile isdigit = ds := by
  rw [List.takeWhile_append_of_pos h.ds_isdigit]
  cases rest with
  | nil => simp
  | cons c rest =>
      rw [List.takeWhile_cons_of_neg (by simp [h.rest_nondigit c rfl]), List.append_nil]

/-- The number at the start of a text is what `std::stoul` reads, and `pos` is behind it. -/
theorem stoul_eq (h : Numeral s blanks sign ds rest) : stoul s =
    if 2 ^ 64 ≤ decVal ds then .error .outOfRange
    else .ok (if sign = [45] then (2 ^ 64 - decVal ds) % 2 ^ 64 else decVal ds,
      blanks.length + sign.length + ds.length) := by
  obtain ⟨c, l, hl, -, hdigit⟩ := h.head
  obtain ⟨htake, hdrop⟩ := h.takeWhile_isspace
  unfold stoul
  simp only [htake, hdrop]
  rcases h.sign_eq with rfl | rfl | rfl
  · -- the first octet is a digit
    have hc := hdigit rfl
    have h43 : c ≠ 43 := by rintro rfl; exact absurd hc (by decide)
    have h45 : c ≠ 45 := by rintro rfl; exact absurd hc (by decide)
    rw [List.nil_append] at hl
    simp [hl ▸ h.takeWhile_isdigit, hl, h43, h45, h.ds_ne_nil]
  · simp [h.takeWhile_isdigit, h.ds_ne_nil]
  · simp [h.takeWhile_isdigit, h.ds_ne_nil]

/-- Where all octets are digits, the number is the text. -/
theorem of_all_isdigit (h : Numeral s blanks sign ds rest) (hs : ∀ c ∈ s, isdigit c = true) :
    blanks = [] ∧ sign = [] ∧ rest = [] := by
  rw [h.eq] at hs
  refine ⟨?_, ?_, ?_⟩
  · cases hb : blanks with
    | nil => rfl
    | cons c l =>
        have hspace := h.blanks_isspace c (hb ▸ List.mem_cons_self)
        rw [isspace_of_isdigit (hs c (by simp [hb]))] at hspace
        cases hspace
  · rcases h.sign_eq with rfl | rfl | rfl
    · rfl
    · exact absurd (hs 43 (by simp)) (by decide)
    · exact absurd (hs 45 (by simp)) (by decide)
  · cases hr : rest with
    | nil => rfl
    | cons c l =>
        have hnot := h.rest_nondigit c (by simp [hr])
        rw [hs c (by simp [hr])] at hnot
        cases hnot

end Numeral

/-- `s` starts with a number that an `unsigned long` can hold. -/
def StartsWithNumber (s : Str) : Prop :=
  ∃ blanks sign ds rest, Numeral s blanks sign ds rest ∧ decVal ds < 2 ^ 64

theorem exists_numeral_of_stoul {s : Str} {x : Nat × Nat} (h : stoul s = .ok x) :
    ∃ blanks sign ds rest, Numeral s blanks sign ds rest := by
  rw [stoul] at h
  generalize hn : (if (s.dropWhile isspace).head? = some 43 ∨ (s.dropWhile isspace).head? = some 45
    then 1 else 0) = n at h
  have hds : ((s.dropWhile isspace).drop n).takeWhile isdigit ≠ [] := by
    intro hnil
    rw [if_pos hnil] at h
    cases h
  refine ⟨s.takeWhile isspace, (s.dropWhile isspace).take n, _,
    ((s.dropWhile isspace).drop n).dropWhile isdigit, ?_, ?_, ?_, ?_, hds, ?_⟩
  · rw [List.takeWhile_append_dropWhile, List.take_append_drop, List.takeWhile_append_dropWhile]
  · exact fun c hc => List.mem_takeWhile_imp hc
  · rw [← hn]
    cases s.dropWhile isspace with
    | nil => simp
    | cons c l =>
        by_cases h43 : c = 43
        · simp [h43]
        by_cases h45 : c = 45
        · simp [h45]
        · simp [h43, h45]
  · exact fun c hc => List.mem_takeWhile_imp hc
  · intro c hc
    have hne : ((s.dropWhile isspace).drop n).dropWhile isdigit ≠ [] := by
      rintro hnil
      rw [hnil] at hc
      cases hc
    rw [List.head?_eq_some_head hne] at hc
    have hnot := List.head_dropWhile_not isdigit hne
    rwa [Option.some.inj hc] at hnot

/-- **`std::stoul` returns** exactly if its text starts with a number that fits. -/
theorem stoul_isOk_iff {s : Str} : (∃ x, stoul s = .ok x) ↔ StartsWithNumber s := by
  constructor
  · rintro ⟨x, hx⟩
    obtain ⟨blanks, sign, ds, rest, h⟩ := exists_numeral_of_stoul hx
    refine ⟨blanks, sign, ds, rest, h, ?_⟩
    rw [h.stoul_eq] at hx
    split at hx
    · cases hx
    · omega
  · rintro ⟨blanks, sign, ds, rest, h, hlt⟩
    rw [h.stoul_eq, if_neg (by omega)]
    exact ⟨_, rfl⟩

end Dodo.Common
