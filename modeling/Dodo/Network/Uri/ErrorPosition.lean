import Mathlib.Data.List.TakeDrop
import Dodo.Network.Uri.Parse

/-!
# `Uri.ErrorPosition` — the index with which `parse` fails

The automaton goes from left to right, and no pass looks at a character behind the `idx` it ends with. So a
parse that fails at `idx` fails there on every string with the same characters up to that one. What is in front
of `idx` can still become a URI: where the loop has come to `idx` in a state that goes on, the string up to there
is accepted as it is; the two passes that fail further on, at the second slash and inside an octet with a percent
sign, have not seen what they expect, and it can be put there.
-/

namespace Dodo.Network.URI

open Common Lib

namespace Parser

variable {s t : Str} {p q : Parser} {c : Octet} {n i : Nat}

/-! ## What a pass looks at -/

/-- The first `n` characters of both strings are the same. -/
def Agree (n : Nat) (s t : Str) : Prop := s.take n = t.take n

theorem Agree.mono {m : Nat} (h : Agree n s t) (hm : m ≤ n) : Agree m s t := by
  have hmin : min m n = m := Nat.min_eq_left hm
  unfold Agree
  rw [← hmin, ← List.take_take, ← List.take_take, h]

theorem Agree.octetAt_eq (h : Agree n s t) (hi : i < n) : octetAt t i = octetAt s i := by
  unfold octetAt
  rw [List.getD_eq_getElem?_getD, List.getD_eq_getElem?_getD, ← List.getElem?_take_of_lt hi, ← h,
    List.getElem?_take_of_lt hi]

theorem Agree.text_eq (h : Agree p.idx s t) : p.text t = p.text s := by
  unfold text substr
  rw [← List.drop_take, ← List.drop_take, h]

theorem agree_take : Agree n s (s.take n) := by
  unfold Agree
  rw [List.take_take, Nat.min_self]

theorem agree_of_prefix (hn : n ≤ s.length) (h : s.take n <+: t) : Agree n s t := by
  obtain ⟨rest, rfl⟩ := h
  unfold Agree
  rw [List.take_append_of_le_length (by rw [List.length_take]; omega), List.take_take, Nat.min_self]

theorem octetAt_end (h : s.length ≤ i) : octetAt s i = 0 := by
  rw [octetAt, List.getD_eq_getElem?_getD, List.getElem?_eq_none h]
  rfl

/-- The end of a string is no hexadecimal digit, so the tests on its length say nothing more. -/
theorem lt_and_isxdigit : (i < s.length ∧ isxdigit (octetAt s i) = true) ↔ isxdigit (octetAt s i) = true := by
  refine and_iff_right_of_imp fun h => ?_
  by_contra hlt
  rw [octetAt_end (Nat.not_lt.mp hlt)] at h
  exact absurd h (by decide)

/-- The states whose pass looks at more than one character. -/
def LooksAhead (state : ParseState) : Prop := state = .psSchemeEnd ∨ state = .psPCTEncoded

theorem switch_congr (hstate : ¬ LooksAhead p.state) (htext : p.text t = p.text s) : p.switch t c = p.switch s c := by
  unfold switch
  cases h : p.state with
  | psSchemeEnd => exact absurd (.inl h) hstate
  | psPCTEncoded => exact absurd (.inr h) hstate
  | _ => simp only [htext]

/-- A pass that looks at one character does not go past the next one, and does not move if it fails. -/
theorem idx_switch (hstate : ¬ LooksAhead p.state) (hgoing : p.state ≠ .psError) :
    (p.switch s c).idx = p.idx ∨ (p.switch s c).idx = p.idx + 1 ∧ (p.switch s c).state ≠ .psError := by
  unfold switch
  cases h : p.state with
  | psSchemeEnd => exact absurd (.inl h) hstate
  | psPCTEncoded => exact absurd (.inr h) hstate
  | psError => exact absurd h hgoing
  | psDone => exact .inr ⟨rfl, by simp [next, h]⟩
  | _ =>
      dsimp only
      split_ifs <;> simp [goto, next, percent, h]

/-- What the pass in `psSchemeEnd` does, by the two characters behind the colon. -/
theorem switch_schemeEnd (h : p.state = .psSchemeEnd) : p.switch s c =
    if octetAt s (p.idx + 1) = charSlash then
      if octetAt s (p.idx + 2) = charSlash then
        { p with
          uri := { p.uri with scheme_ := p.text s }, idx := p.idx + 3, mark := p.idx + 3
          state := .psAuthorityStart }
      else { p with uri := { p.uri with scheme_ := p.text s }, idx := p.idx + 2, state := .psError }
    else
      { p with
        uri := { p.uri with scheme_ := p.text s }, idx := p.idx + 1, mark := p.idx + 1, state := .psPathStart } := by
  rw [switch, h]
  rfl

/-- What the pass in `psPCTEncoded` does, by the two characters behind the percent sign. -/
theorem switch_percent (h : p.state = .psPCTEncoded) : p.switch s c =
    if c = charPercent then
      if isxdigit (octetAt s (p.idx + 1)) = true then
        if isxdigit (octetAt s (p.idx + 2)) = true then { p with idx := p.idx + 3, state := p.return_state }
        else { p with idx := p.idx + 2, state := .psError }
      else { p with idx := p.idx + 1, state := .psError }
    else { p with state := .psError } := by
  rw [switch, h]
  simp only [next, goto, lt_and_isxdigit]

theorem idx_le_switch : p.idx ≤ (p.switch s c).idx := by
  by_cases hstate : LooksAhead p.state
  · rcases hstate with h | h
    · rw [switch_schemeEnd h]
      split_ifs <;> dsimp only <;> omega
    · rw [switch_percent h]
      split_ifs <;> dsimp only <;> omega
  · by_cases herror : p.state = .psError
    · rw [switch, herror]
      exact Nat.le_succ _
    · rcases idx_switch (s := s) (c := c) hstate herror with h | ⟨h, -⟩ <;> omega

theorem idx_le_pass : p.idx ≤ (pass s p).idx := idx_le_switch

/-- A pass ends in the same way on a string with the same characters in front of the `idx` it ends with, if the
    character there is the same too; one that has not failed may also find the end of the string there. -/
theorem pass_eq_of_agree (hagree : Agree (pass s p).idx s t) (hchar : octetAt t p.idx = octetAt s p.idx)
    (hlast : octetAt t (pass s p).idx = octetAt s (pass s p).idx ∨
      octetAt t (pass s p).idx = 0 ∧ (pass s p).state ≠ .psError) :
    pass t p = pass s p := by
  have htext : p.text t = p.text s := Agree.text_eq (hagree.mono idx_le_pass)
  unfold pass at hagree hlast ⊢
  rw [hchar]
  suffices hswitch : p.switch t (octetAt s p.idx) = p.switch s (octetAt s p.idx) by rw [hswitch]
  dsimp only at hagree hlast
  by_cases hahead : LooksAhead p.state
  · rcases hahead with hahead | hahead
    · rw [switch_schemeEnd hahead] at hagree hlast ⊢
      rw [switch_schemeEnd hahead, htext]
      split_ifs at hagree hlast with h₁ h₂
      · rw [hagree.octetAt_eq (by dsimp only; omega), hagree.octetAt_eq (by dsimp only; omega)]
      · rcases hlast with hlast | ⟨-, hlive⟩
        · rw [hagree.octetAt_eq (by dsimp only; omega), hlast]
        · exact absurd rfl hlive
      · -- the character behind the colon is not a slash, and neither is the end of the string
        rcases hlast with hlast | ⟨hlast, -⟩
        · rw [hlast, if_neg h₁, if_neg h₁]
        · rw [hlast, if_neg (by decide), if_neg h₁]
    · rw [switch_percent hahead] at hagree hlast ⊢
      rw [switch_percent hahead]
      split_ifs at hagree hlast with hpct h₁ h₂
      · rw [hagree.octetAt_eq (by dsimp only; omega), hagree.octetAt_eq (by dsimp only; omega)]
      · rcases hlast with hlast | ⟨-, hlive⟩
        · rw [hagree.octetAt_eq (by dsimp only; omega), hlast]
        · exact absurd rfl hlive
      · rcases hlast with hlast | ⟨-, hlive⟩
        · rw [hlast, if_neg h₁, if_neg h₁]
        · exact absurd rfl hlive
      · rw [if_neg hpct, if_neg hpct]
  · exact switch_congr hahead htext

/-- **A pass looks at no character behind the `idx` it ends with.** -/
theorem pass_congr (h : Agree ((pass s p).idx + 1) s t) : pass t p = pass s p :=
  pass_eq_of_agree (h.mono (Nat.le_succ _)) (h.octetAt_eq (Nat.lt_succ_of_le idx_le_pass))
    (.inl (h.octetAt_eq (Nat.lt_succ_self _)))

/-- A pass that goes on, past some character, ends as well where the string ends there. -/
theorem pass_take (hlt : p.idx < (pass s p).idx) (hstate : (pass s p).state ≠ .psError) :
    pass (s.take (pass s p).idx) p = pass s p :=
  pass_eq_of_agree agree_take (agree_take.octetAt_eq hlt)
    (.inr ⟨octetAt_end (List.length_take_le _ _), hstate⟩)

theorem lt_of_octetAt (h : octetAt s i ≠ 0) : i < s.length := by
  by_contra hlt
  exact h (octetAt_end (Nat.not_lt.mp hlt))

theorem idx_pass_le (hidx : p.idx < s.length) : (pass s p).idx ≤ s.length := by
  change (p.switch s (octetAt s p.idx)).idx ≤ s.length
  by_cases hahead : LooksAhead p.state
  · rcases hahead with hahead | hahead
    · rw [switch_schemeEnd hahead]
      split_ifs with h₁ h₂
      · exact lt_of_octetAt (by rw [h₂]; decide)
      · exact lt_of_octetAt (by rw [h₁]; decide)
      · exact hidx
    · rw [switch_percent hahead]
      split_ifs with hpct h₁ h₂
      · exact (lt_and_isxdigit.mpr h₂).1
      · exact (lt_and_isxdigit.mpr h₁).1
      · exact hidx
      · exact Nat.le_of_lt hidx
  · by_cases herror : p.state = .psError
    · rw [switch, herror]
      exact hidx
    · rcases idx_switch (s := s) (c := octetAt s p.idx) hahead herror with h | ⟨h, -⟩ <;> omega

theorem octetAt_behind {rest : Str} (hn : n ≤ s.length) : octetAt (s.take n ++ rest) (n + i) = octetAt rest i := by
  have hlength : (s.take n).length = n := List.length_take_of_le hn
  unfold octetAt
  rw [List.getD_eq_getElem?_getD, List.getD_eq_getElem?_getD, List.getElem?_append_right (by omega), hlength,
    Nat.add_sub_cancel_left]

/-- A percent sign leads back to a state that goes on. -/
def LeadsBack (p : Parser) : Prop := p.state = .psPCTEncoded → p.return_state ≠ .psError

theorem LeadsBack.pass (h : LeadsBack p) (herror : p.state ≠ .psError) : LeadsBack (pass s p) := by
  unfold LeadsBack at h ⊢
  change (p.switch s (octetAt s p.idx)).state = .psPCTEncoded → (p.switch s (octetAt s p.idx)).return_state ≠ .psError
  unfold switch
  cases hstate : p.state with
  | psError => exact absurd hstate herror
  | psDone => simp [next, hstate]
  | psPCTEncoded =>
      have hreturn := h hstate
      dsimp only
      split_ifs <;> simp [goto, next, hreturn]
  | _ =>
      dsimp only
      split_ifs <;> simp [goto, next, percent, hstate]

/-- The passes that fail further on than they begin: at the second slash, and at a digit of an octet. -/
theorem fails_ahead (hback : LeadsBack p) (herror : p.state ≠ .psError) (hlt : p.idx < (pass s p).idx)
    (hfails : (pass s p).state = .psError) :
    (p.state = .psSchemeEnd ∧ octetAt s (p.idx + 1) = charSlash ∧ (pass s p).idx = p.idx + 2) ∨
    (p.state = .psPCTEncoded ∧ octetAt s p.idx = charPercent ∧
      ((pass s p).idx = p.idx + 1 ∨ isxdigit (octetAt s (p.idx + 1)) = true ∧ (pass s p).idx = p.idx + 2)) := by
  change p.idx < (p.switch s (octetAt s p.idx)).idx at hlt
  change (p.switch s (octetAt s p.idx)).state = .psError at hfails
  change (_ ∧ _ ∧ (p.switch s (octetAt s p.idx)).idx = _) ∨
    (_ ∧ _ ∧ ((p.switch s (octetAt s p.idx)).idx = _ ∨ _ ∧ (p.switch s (octetAt s p.idx)).idx = _))
  by_cases hahead : LooksAhead p.state
  · rcases hahead with hahead | hahead
    · rw [switch_schemeEnd hahead] at hfails ⊢
      split_ifs at hfails ⊢ with h₁ h₂
      exact .inl ⟨hahead, h₁, rfl⟩
    · rw [switch_percent hahead] at hlt hfails ⊢
      split_ifs at hlt hfails ⊢ with hpct h₁ h₂
      · exact absurd hfails (hback hahead)
      · exact .inr ⟨hahead, hpct, .inr ⟨h₁, rfl⟩⟩
      · exact .inr ⟨hahead, hpct, .inl rfl⟩
      · exact absurd hlt (Nat.lt_irrefl _)
  · rcases idx_switch (s := s) (c := octetAt s p.idx) hahead herror with h | ⟨-, h⟩
    · omega
    · exact absurd hfails h

theorem pass_slashes (hstate : p.state = .psSchemeEnd) (h₁ : octetAt s (p.idx + 1) = charSlash)
    (h₂ : octetAt s (p.idx + 2) = charSlash) :
    (pass s p).state = .psAuthorityStart ∧ (pass s p).idx = p.idx + 3 := by
  unfold pass
  rw [switch_schemeEnd hstate, if_pos h₁, if_pos h₂]
  exact ⟨rfl, rfl⟩

theorem pass_octet (hstate : p.state = .psPCTEncoded) (hpct : octetAt s p.idx = charPercent)
    (h₁ : isxdigit (octetAt s (p.idx + 1)) = true) (h₂ : isxdigit (octetAt s (p.idx + 2)) = true) :
    (pass s p).state = p.return_state ∧ (pass s p).idx = p.idx + 3 := by
  unfold pass
  rw [switch_percent hstate, if_pos hpct, if_pos h₁, if_pos h₂]
  exact ⟨rfl, rfl⟩

/-- Such a pass can be completed: what it has expected is put there. -/
theorem pass_completion (hback : LeadsBack p) (herror : p.state ≠ .psError) (hidx : p.idx < s.length)
    (hlt : p.idx < (pass s p).idx) (hfails : (pass s p).state = .psError) :
    ∃ t, s.take (pass s p).idx <+: t ∧ (pass t p).state ≠ .psError ∧ (pass t p).idx = t.length := by
  have hle : (pass s p).idx ≤ s.length := idx_pass_le hidx
  have hcases := fails_ahead hback herror hlt hfails
  generalize (pass s p).idx = k at hle hcases
  have hagree : ∀ rest, Agree k s (s.take k ++ rest) := fun rest => agree_of_prefix hle (List.prefix_append _ rest)
  have hlength : ∀ rest : Str, (s.take k ++ rest).length = k + rest.length := by
    intro rest
    rw [List.length_append, List.length_take_of_le hle]
  obtain ⟨hstate, h₁, rfl⟩ | ⟨hstate, hpct, rfl | ⟨h₁, rfl⟩⟩ := hcases
  · -- a slash, two digits or one digit are missing
    have hslash : octetAt (s.take (p.idx + 2) ++ [charSlash]) (p.idx + 2) = charSlash := octetAt_behind (i := 0) hle
    obtain ⟨hpass, hpassIdx⟩ := pass_slashes hstate (((hagree _).octetAt_eq (by omega)).trans h₁) hslash
    refine ⟨_, List.prefix_append _ _, by rw [hpass]; nofun, ?_⟩
    rw [hpassIdx, hlength]
    rfl
  · have hdigit₁ : octetAt (s.take (p.idx + 1) ++ [48, 48]) (p.idx + 1) = 48 := octetAt_behind (i := 0) hle
    have hdigit₂ : octetAt (s.take (p.idx + 1) ++ [48, 48]) (p.idx + 2) = 48 := octetAt_behind (i := 1) hle
    obtain ⟨hpass, hpassIdx⟩ := pass_octet hstate (((hagree _).octetAt_eq (by omega)).trans hpct)
      (by rw [hdigit₁]; decide) (by rw [hdigit₂]; decide)
    refine ⟨_, List.prefix_append _ _, by rw [hpass]; exact hback hstate, ?_⟩
    rw [hpassIdx, hlength]
    rfl
  · have hdigit : octetAt (s.take (p.idx + 2) ++ [48]) (p.idx + 2) = 48 := octetAt_behind (i := 0) hle
    have hfirst := (hagree [48]).octetAt_eq (i := p.idx + 1) (by omega)
    obtain ⟨hpass, hpassIdx⟩ := pass_octet hstate (((hagree _).octetAt_eq (by omega)).trans hpct)
      (by rw [hfirst]; exact h₁) (by rw [hdigit]; decide)
    refine ⟨_, List.prefix_append _ _, by rw [hpass]; exact hback hstate, ?_⟩
    rw [hpassIdx, hlength]
    rfl

/-! ## Runs -/

theorem going_iff : going s p = true ↔ p.state ≠ .psDone ∧ p.state ≠ .psError ∧ p.idx < s.length := by
  simp [going]

theorem steps_of_error (hsteps : While.Steps (going s) (pass s) p q) (h : p.state = .psError) : q = p := by
  cases hsteps with
  | refl => rfl
  | pass hgoing => exact absurd h (going_iff.mp hgoing).2.1

theorem idx_le_of_steps (hsteps : While.Steps (going s) (pass s) p q) : p.idx ≤ q.idx :=
  hsteps.preserves (P := fun q => p.idx ≤ q.idx) (fun _ _ h => Nat.le_trans h idx_le_pass) (Nat.le_refl _)

theorem idx_le_length (hsteps : While.Steps (going s) (pass s) p q) (hidx : p.idx ≤ s.length) :
    q.idx ≤ s.length :=
  hsteps.preserves (P := fun q => q.idx ≤ s.length) (fun _ hgoing _ => idx_pass_le (going_iff.mp hgoing).2.2) hidx

/-- A run is the same on every string with the same characters up to its end. -/
theorem steps_congr (hsteps : While.Steps (going s) (pass s) p q) (hlt : q.idx < t.length)
    (hagree : Agree (q.idx + 1) s t) : While.Steps (going t) (pass t) p q := by
  induction hsteps with
  | refl => exact .refl _
  | @pass p q hgoing rest ih =>
      have hle := idx_le_of_steps rest
      have hle' : p.idx ≤ (Parser.pass s p).idx := idx_le_pass
      obtain ⟨hdone, herror, -⟩ := going_iff.mp hgoing
      have hpass : Parser.pass t p = Parser.pass s p := pass_congr (hagree.mono (by omega))
      refine .pass (going_iff.mpr ⟨hdone, herror, by omega⟩) ?_
      rw [hpass]
      exact ih hlt hagree

/-- **Before a failure there is a way to go on**: the loop accepts some string with the same characters up to the
    index of the failure. -/
theorem steps_completion (hsteps : While.Steps (going s) (pass s) p q) (hback : LeadsBack p)
    (herror : p.state ≠ .psError) (hidx : p.idx ≤ s.length) (hfails : q.state = .psError) :
    ∃ t, s.take q.idx <+: t ∧ ∃ q', While.Steps (going t) (pass t) p q' ∧ going t q' = false ∧
      q'.state ≠ .psError := by
  have hlength : (s.take q.idx).length = q.idx := List.length_take_of_le (idx_le_length hsteps hidx)
  induction hsteps with
  | refl => exact absurd hfails herror
  | @pass p q hgoing rest ih =>
      obtain ⟨hdone, -, hlt⟩ := going_iff.mp hgoing
      by_cases hend : p.idx = q.idx
      · -- the loop has come to the index of the failure, where the shorter string ends
        refine ⟨s.take q.idx, List.prefix_rfl, p, .refl p, ?_, herror⟩
        rw [Bool.eq_false_iff, ne_eq, going_iff, hlength]
        omega
      have hbefore : p.idx < q.idx := by
        have := idx_le_of_steps (.pass hgoing rest)
        omega
      have hgoing' : ∀ t, s.take q.idx <+: t → going t p = true := by
        intro t ht
        have hle := ht.length_le
        exact going_iff.mpr ⟨hdone, herror, by omega⟩
      by_cases hpass : (Parser.pass s p).state = .psError
      · -- this pass fails further on, and is completed
        obtain rfl := steps_of_error rest hpass
        obtain ⟨t, ht, hstate, hidx'⟩ := pass_completion hback herror hlt hbefore hpass
        refine ⟨t, ht, Parser.pass t p, .single (hgoing' t ht), ?_, hstate⟩
        rw [Bool.eq_false_iff, ne_eq, going_iff, hidx']
        omega
      by_cases hreached : (Parser.pass s p).idx = q.idx
      · -- this pass is the last one before the failure, and the shorter string ends behind it
        have htake : Parser.pass (s.take q.idx) p = Parser.pass s p := by
          rw [← hreached]
          exact pass_take (by omega) hpass
        refine ⟨s.take q.idx, List.prefix_rfl, Parser.pass s p, ?_, ?_, hpass⟩
        · have hsingle : While.Steps (going (s.take q.idx)) (Parser.pass (s.take q.idx)) p _ :=
            .single (hgoing' _ List.prefix_rfl)
          rwa [htake] at hsingle
        · rw [Bool.eq_false_iff, ne_eq, going_iff, hlength]
          omega
      · obtain ⟨t, ht, q', hsteps', hended, hstate⟩ :=
          ih (hback.pass herror) hpass (idx_pass_le hlt) hfails hlength
        have hle := idx_le_of_steps rest
        have hagree := agree_of_prefix (idx_le_length rest (idx_pass_le hlt)) ht
        have hsame : Parser.pass t p = Parser.pass s p := pass_congr (hagree.mono (by omega))
        refine ⟨t, ht, q', .pass (hgoing' t ht) ?_, hended, hstate⟩
        rw [hsame]
        exact hsteps'

theorem parse_of_steps (hsteps : While.Steps (going s) (pass s) {} p) (hended : going s p = false) :
    parse s = (decide (p.state ≠ .psError), p.idx, p.finish s) := by
  unfold parse
  rw [run_eq hsteps hended]

end Parser

/-- **The index of a failure is exact**: it is in the string or at its end, every string with the same characters
    up to and with it fails there, and some string with the same characters in front of it is accepted. -/
theorem parse_error_position (s : Str) (k : Nat) (u : URI) (h : parse s = (false, k, u)) :
    k ≤ s.length ∧
      (k < s.length → ∀ t : Str, t.take (k + 1) = s.take (k + 1) → (parse t).1 = false ∧ (parse t).2.1 = k) ∧
      ∃ t, s.take k <+: t ∧ (parse t).1 = true := by
  have hsteps : While.Steps (Parser.going s) (Parser.pass s) {} (Parser.run s) := While.steps_loop _ _
  obtain ⟨hstate, hrest⟩ := Prod.mk.inj h
  obtain ⟨hk, -⟩ := Prod.mk.inj hrest
  have hfails : (Parser.run s).state = .psError := by simpa using hstate
  refine ⟨?_, ?_, ?_⟩
  · rw [← hk]
    exact Parser.idx_le_length hsteps (Nat.zero_le _)
  · intro hlt t hagree
    have hlength : k < t.length := by
      have := congrArg List.length hagree
      simp only [List.length_take] at this
      omega
    have hsteps' : While.Steps (Parser.going t) (Parser.pass t) {} (Parser.run s) :=
      Parser.steps_congr hsteps (by omega) (by rw [hk]; exact hagree.symm)
    have hended : Parser.going t (Parser.run s) = false := by simp [Parser.going, hfails]
    rw [Parser.parse_of_steps hsteps' hended]
    exact ⟨by simp [hfails], hk⟩
  · have hback : Parser.LeadsBack {} := by simp [Parser.LeadsBack]
    obtain ⟨t, ht, q, hsteps', hended, hlive⟩ :=
      Parser.steps_completion hsteps hback (by decide) (Nat.zero_le _) hfails
    rw [hk] at ht
    refine ⟨t, ht, ?_⟩
    rw [Parser.parse_of_steps hsteps' hended]
    simpa using hlive

/-- In `a:/b` the second slash is missing, which the parser says of the `b`. -/
theorem parse_error_position_slash :
    3 ≤ (lit "a:/b").length ∧
      (3 < (lit "a:/b").length → ∀ t : Str, t.take (3 + 1) = (lit "a:/b").take (3 + 1) →
        (parse t).1 = false ∧ (parse t).2.1 = 3) ∧
      ∃ t, (lit "a:/b").take 3 <+: t ∧ (parse t).1 = true :=
  parse_error_position (lit "a:/b") 3 (parse (lit "a:/b")).2.2 (by decide +kernel)

end Dodo.Network.URI
