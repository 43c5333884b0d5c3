import Mathlib.Data.List.Basic

/-!
# `Lib.Base64` — base64 texts

The encoding of RFC 4648 with padding, its inverse, and the same text in lines of 64 characters. A group of three
octets gives four characters, so texts of whole groups are encoded one after the other.
-/

namespace Dodo.Lib.Base64

abbrev Octets := List UInt8

variable {l x y : Octets} {c : UInt8}

/-! ## Characters -/

/-- The character of a number below 64. -/
def digit (n : Nat) : UInt8 :=
  if n < 26 then (65 + n).toUInt8
  else if n < 52 then (71 + n).toUInt8
  else if n < 62 then (n - 4).toUInt8
  else if n = 62 then 43
  else 47

def pad : UInt8 := 61

/-- The number of a character. -/
def value (c : UInt8) : Option Nat :=
  if 65 ≤ c ∧ c ≤ 90 then some (c.toNat - 65)
  else if 97 ≤ c ∧ c ≤ 122 then some (c.toNat - 71)
  else if 48 ≤ c ∧ c ≤ 57 then some (c.toNat + 4)
  else if c = 43 then some 62
  else if c = 47 then some 63
  else none

theorem value_digit {n : Nat} (h : n < 64) : value (digit n) = some n := by
  revert n
  decide

theorem value_pad : value pad = none := by decide

theorem ne_pad_of_value {n : Nat} (h : value c = some n) : c ≠ pad := by
  rintro rfl
  rw [value_pad] at h
  cases h

/-- The characters of texts. -/
def IsChar (c : UInt8) : Prop := (value c).isSome = true ∨ c = pad

/-! ## Encoding -/

def encode : Octets → Octets
  | [] => []
  | [a] => [digit (a.toNat / 4), digit (a.toNat % 4 * 16), pad, pad]
  | [a, b] => [digit (a.toNat / 4), digit (a.toNat % 4 * 16 + b.toNat / 16), digit (b.toNat % 16 * 4), pad]
  | a :: b :: c :: l =>
    digit (a.toNat / 4) :: digit (a.toNat % 4 * 16 + b.toNat / 16) :: digit (b.toNat % 16 * 4 + c.toNat / 64) ::
      digit (c.toNat % 64) :: encode l

/-- The number of paddings in the text of `n` octets. -/
def padding (n : Nat) : Nat := (3 - n % 3) % 3

theorem padding_group (n : Nat) : padding (n + 1 + 1 + 1) = padding n := by
  unfold padding
  omega

/-- Padding stands at the end of the text only. -/
theorem encode_eq_append (l : Octets) :
    ∃ w, encode l = w ++ List.replicate (padding l.length) pad ∧ ∀ c ∈ w, ∃ n, value c = some n := by
  fun_induction encode l with
  | case1 => exact ⟨[], rfl, by simp⟩
  | case2 a =>
      have ha := a.toNat_lt
      refine ⟨[digit (a.toNat / 4), digit (a.toNat % 4 * 16)], rfl, ?_⟩
      simp only [List.mem_cons, List.not_mem_nil, or_false]
      rintro c (rfl | rfl)
      · exact ⟨_, value_digit (by omega)⟩
      · exact ⟨_, value_digit (by omega)⟩
  | case3 a b =>
      have ha := a.toNat_lt
      have hb := b.toNat_lt
      refine ⟨[digit (a.toNat / 4), digit (a.toNat % 4 * 16 + b.toNat / 16), digit (b.toNat % 16 * 4)], rfl, ?_⟩
      simp only [List.mem_cons, List.not_mem_nil, or_false]
      rintro c (rfl | rfl | rfl)
      · exact ⟨_, value_digit (by omega)⟩
      · exact ⟨_, value_digit (by omega)⟩
      · exact ⟨_, value_digit (by omega)⟩
  | case4 a b c l ih =>
      have ha := a.toNat_lt
      have hb := b.toNat_lt
      have hc := c.toNat_lt
      obtain ⟨w, hw, hdigits⟩ := ih
      refine ⟨digit (a.toNat / 4) :: digit (a.toNat % 4 * 16 + b.toNat / 16) ::
        digit (b.toNat % 16 * 4 + c.toNat / 64) :: digit (c.toNat % 64) :: w, ?_, ?_⟩
      · rw [hw, List.length_cons, List.length_cons, List.length_cons, padding_group]
        rfl
      · simp only [List.mem_cons]
        rintro d (rfl | rfl | rfl | rfl | hd)
        · exact ⟨_, value_digit (by omega)⟩
        · exact ⟨_, value_digit (by omega)⟩
        · exact ⟨_, value_digit (by omega)⟩
        · exact ⟨_, value_digit (by omega)⟩
        · exact hdigits d hd

theorem encode_chars (l : Octets) : ∀ c ∈ encode l, IsChar c := by
  obtain ⟨w, hw, hdigits⟩ := encode_eq_append l
  rw [hw]
  intro c hc
  rcases List.mem_append.mp hc with hc | hc
  · obtain ⟨n, hn⟩ := hdigits c hc
    left
    rw [hn]
    rfl
  · exact .inr (List.eq_of_mem_replicate hc)

theorem encode_length (l : Octets) : (encode l).length = 4 * ((l.length + 2) / 3) := by
  fun_induction encode l with
  | case1 | case2 | case3 => simp
  | case4 a b c l ih =>
      simp only [List.length_cons, ih]
      omega

theorem encode_ne_nil (h : l ≠ []) : encode l ≠ [] := by
  have hlength := encode_length l
  have hpos := List.length_pos_iff.mpr h
  intro heq
  rw [heq, List.length_nil] at hlength
  omega

/-- Whole groups are encoded one after the other. -/
theorem encode_append (h : 3 ∣ x.length) : encode (x ++ y) = encode x ++ encode y := by
  fun_induction encode x with
  | case1 => rfl
  | case2 | case3 => simp at h
  | case4 a b c l ih =>
      have hl : 3 ∣ l.length := by
        simp only [List.length_cons] at h
        omega
      simp only [List.cons_append]
      rw [encode, ih hl]

/-! ## Decoding -/

/-- The last group may end with padding. -/
def decode : Octets → Option Octets
  | [] => some []
  | w :: x :: y :: z :: l => do
    let w ← value w
    let x ← value x
    if y = pad ∧ z = pad ∧ l = [] then some [(w * 4 + x / 16).toUInt8]
    else
      let y ← value y
      if z = pad ∧ l = [] then some [(w * 4 + x / 16).toUInt8, (x % 16 * 16 + y / 4).toUInt8]
      else
        let z ← value z
        let r ← decode l
        some ((w * 4 + x / 16).toUInt8 :: (x % 16 * 16 + y / 4).toUInt8 :: (y % 4 * 64 + z).toUInt8 :: r)
  | _ => none

theorem digit_ne_pad {n : Nat} (h : n < 64) : digit n ≠ pad := ne_pad_of_value (value_digit h)

theorem toUInt8_eq {n : Nat} (h : n = c.toNat) : n.toUInt8 = c := by
  rw [h]
  exact UInt8.ofNat_toNat

/-! The octets that the digits of a group are made of. -/

theorem first_octet (a b : UInt8) : (a.toNat / 4 * 4 + (a.toNat % 4 * 16 + b.toNat / 16) / 16).toUInt8 = a := by
  have hb := b.toNat_lt
  exact toUInt8_eq (by omega)

theorem second_octet (a b c : UInt8) :
    ((a.toNat % 4 * 16 + b.toNat / 16) % 16 * 16 + (b.toNat % 16 * 4 + c.toNat / 64) / 4).toUInt8 = b := by
  have hb := b.toNat_lt
  have hc := c.toNat_lt
  exact toUInt8_eq (by omega)

theorem third_octet (b c : UInt8) : ((b.toNat % 16 * 4 + c.toNat / 64) % 4 * 64 + c.toNat % 64).toUInt8 = c := by
  have hc := c.toNat_lt
  exact toUInt8_eq (by omega)

/-- The only octet, and the last of two. -/
theorem only_octet (a : UInt8) : (a.toNat / 4 * 4 + a.toNat % 4 * 16 / 16).toUInt8 = a := toUInt8_eq (by omega)

theorem last_octet (a b : UInt8) :
    ((a.toNat % 4 * 16 + b.toNat / 16) % 16 * 16 + b.toNat % 16 * 4 / 4).toUInt8 = b := by
  have hb := b.toNat_lt
  exact toUInt8_eq (by omega)

theorem decode_encode (l : Octets) : decode (encode l) = some l := by
  fun_induction encode l with
  | case1 => rfl
  | case2 a =>
      have ha := a.toNat_lt
      unfold decode
      rw [value_digit (by omega), value_digit (by omega)]
      dsimp only [bind, Option.bind]
      rw [if_pos ⟨rfl, rfl, rfl⟩, only_octet]
  | case3 a b =>
      have ha := a.toNat_lt
      have hb := b.toNat_lt
      have hpad : digit (b.toNat % 16 * 4) ≠ pad := digit_ne_pad (by omega)
      unfold decode
      rw [value_digit (by omega), value_digit (by omega), value_digit (by omega)]
      dsimp only [bind, Option.bind]
      rw [if_neg (by simp [hpad]), if_pos ⟨rfl, rfl⟩, first_octet, last_octet]
  | case4 a b c l ih =>
      have ha := a.toNat_lt
      have hb := b.toNat_lt
      have hc := c.toNat_lt
      have hpad : digit (c.toNat % 64) ≠ pad := digit_ne_pad (by omega)
      unfold decode
      rw [value_digit (by omega), value_digit (by omega), value_digit (by omega), value_digit (by omega), ih]
      dsimp only [bind, Option.bind]
      rw [if_neg (by simp [hpad]), if_neg (by simp [hpad]), first_octet, second_octet, third_octet]

/-! ## Lines -/

def newline : UInt8 := 10

/-- Each 48 octets, and what is left of them, give a line. `n` bounds the number of lines. -/
def linesUpTo : Nat → Octets → Octets
  | 0, _ => []
  | _, [] => []
  | n + 1, l => encode (l.take 48) ++ newline :: linesUpTo n (l.drop 48)

theorem linesUpTo_succ {n : Nat} (h : l ≠ []) :
    linesUpTo (n + 1) l = encode (l.take 48) ++ newline :: linesUpTo n (l.drop 48) := by
  cases l with
  | nil => exact absurd rfl h
  | cons a l => rfl

/-- The text in lines of 64 characters. -/
def lines (l : Octets) : Octets := linesUpTo l.length l

/-- The length of the text in lines. -/
def linesLength (n : Nat) : Nat := 65 * (n / 48) + (if n % 48 = 0 then 0 else 4 * ((n % 48 + 2) / 3) + 1)

theorem linesUpTo_length {n : Nat} (h : l.length ≤ n) : (linesUpTo n l).length = linesLength l.length := by
  induction n generalizing l with
  | zero =>
      rw [List.length_eq_zero_iff.mp (Nat.le_zero.mp h)]
      rfl
  | succ n ih =>
      cases l with
      | nil => rfl
      | cons a l =>
          have hdrop : (List.drop 48 (a :: l)).length ≤ n := by
            simp only [List.length_drop, List.length_cons] at h ⊢
            omega
          unfold linesUpTo
          simp only [List.length_append, List.length_cons, encode_length, ih hdrop, List.length_take, List.length_drop]
          -- a full line leaves the rest of a full group, and a shorter one leaves nothing
          unfold linesLength
          split_ifs <;> omega

theorem lines_length (l : Octets) : (lines l).length = linesLength l.length := linesUpTo_length (Nat.le_refl _)

theorem newline_not_isChar : ¬ IsChar newline := by
  unfold IsChar
  decide

/-- Without the ends of the lines, the text is the encoding. -/
theorem linesUpTo_filter {n : Nat} (h : l.length ≤ n) : (linesUpTo n l).filter (· ≠ newline) = encode l := by
  induction n generalizing l with
  | zero =>
      rw [List.length_eq_zero_iff.mp (Nat.le_zero.mp h)]
      rfl
  | succ n ih =>
      cases hl : l with
      | nil => rfl
      | cons a m =>
          rw [← hl]
          have hdrop : (l.drop 48).length ≤ n := by
            rw [hl] at h ⊢
            simp only [List.length_drop, List.length_cons] at h ⊢
            omega
          have hline : (encode (l.take 48)).filter (· ≠ newline) = encode (l.take 48) := by
            rw [List.filter_eq_self]
            intro c hc
            have hchar := encode_chars _ c hc
            simp only [ne_eq, decide_not, Bool.not_eq_true', decide_eq_false_iff_not]
            rintro rfl
            exact newline_not_isChar hchar
          rw [linesUpTo_succ (by simp [hl]), List.filter_append, hline, List.filter_cons_of_neg (by simp), ih hdrop]
          by_cases hfull : 48 ≤ l.length
          · have hgroups : 3 ∣ (l.take 48).length := by
              rw [List.length_take, Nat.min_eq_left hfull]
              decide
            rw [← encode_append hgroups, List.take_append_drop]
          · -- the last line
            rw [List.take_of_length_le (by omega), List.drop_of_length_le (by omega), encode, List.append_nil]

theorem lines_filter (l : Octets) : (lines l).filter (· ≠ newline) = encode l := linesUpTo_filter (Nat.le_refl _)

/-- More lines than there are octets make no difference. -/
theorem linesUpTo_eq {n m : Nat} (hn : l.length ≤ n) (hm : l.length ≤ m) : linesUpTo n l = linesUpTo m l := by
  induction n generalizing l m with
  | zero =>
      obtain rfl := List.length_eq_zero_iff.mp (Nat.le_zero.mp hn)
      cases m <;> rfl
  | succ n ih =>
      cases l with
      | nil => cases m <;> rfl
      | cons a l =>
          obtain ⟨m, rfl⟩ := Nat.exists_eq_add_one_of_ne_zero (Nat.ne_of_gt (Nat.lt_of_lt_of_le (Nat.succ_pos _) hm))
          simp only [List.length_cons] at hn hm
          have hdrop : ((a :: l).drop 48).length ≤ n ∧ ((a :: l).drop 48).length ≤ m := by
            rw [List.length_drop, List.length_cons]
            omega
          rw [linesUpTo_succ (List.cons_ne_nil _ _), linesUpTo_succ (List.cons_ne_nil _ _), ih hdrop.1 hdrop.2]

theorem lines_step (h : l ≠ []) : lines l = encode (l.take 48) ++ newline :: lines (l.drop 48) := by
  have hlength : (l.drop 48).length ≤ l.length := by
    rw [List.length_drop]
    omega
  rw [lines, linesUpTo_eq (Nat.le_refl _) (Nat.le_succ _), linesUpTo_succ h, linesUpTo_eq hlength (Nat.le_refl _)]
  rfl

/-- The first lines, and those that follow. -/
theorem lines_eq_append {k : Nat} (h : 48 * k ≤ l.length) : lines l = linesUpTo k l ++ lines (l.drop (48 * k)) := by
  induction k generalizing l with
  | zero => rfl
  | succ k ih =>
      have hne : l ≠ [] := List.length_pos_iff.mp (by omega)
      have hdrop : 48 * k ≤ (l.drop 48).length := by
        rw [List.length_drop]
        omega
      rw [lines_step hne, ih hdrop, linesUpTo_succ hne, List.drop_drop, Nat.mul_add_one, Nat.add_comm 48,
        List.append_assoc, List.cons_append]

end Dodo.Lib.Base64
