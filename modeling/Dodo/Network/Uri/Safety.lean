import Mathlib.Data.Prod.Lex
import Dodo.Network.Uri.ErrorPosition

/-!
# `Uri.Safety` — what `parse` accesses, and that it ends

`Parser.switch` reads a character at any index and cuts out any substring. In the source `s[i]` is defined for `i` up to
the size of the string, where it is the zero octet, and `substr` throws if its position is behind the end. Here is the
automaton once more, with these two checked wherever the source does them, and with the `default` branch of the switch
reported. On every string it makes the same passes as the one without checks: `mark` is never behind `idx`, and `idx`
never behind the end of the string.

Many passes leave `idx` where it is. Then the state comes nearer to one that reads: `stage` counts the states up to
there, and the remaining characters and the stage together go down with every pass.
-/

namespace Dodo.Network.URI

open Common Lib

namespace Parser

/-- What the source must not do. -/
inductive Fault where
  /-- `s[i]` with `i` behind the size. -/
  | access (i : Nat)
  /-- `s.substr( pos, .. )` with `pos` behind the size: `std::out_of_range`. -/
  | outOfRange (pos : Nat)
  /-- The `default` branch. -/
  | unforeseen (state : ParseState)
deriving DecidableEq, Repr

/-- `s[i]` -/
def access (s : Str) (i : Nat) : Except Fault Octet :=
  if i ≤ s.length then .ok (octetAt s i) else .error (.access i)

/-- `s.substr( pos, n )` -/
def cut (s : Str) (pos n : Nat) : Except Fault Str :=
  if pos ≤ s.length then .ok (substr s pos n) else .error (.outOfRange pos)

/-- The switch in the loop, with its accesses. -/
def checkedSwitch (s : Str) (p : Parser) : Except Fault Parser :=
  match p.state with
  | .psSchemeStart => do
    let c ← access s p.idx
    if p.prev_state ≠ .psSchemeStart ∧ ¬ isalpha c then return p.goto .psError
    else if c = charColon then return p.goto .psSchemeEnd
    else if ¬ verifySchemeChar c then return p.goto .psError
    else return p.next
  | .psSchemeEnd => do
    let p := { p with uri := { p.uri with scheme_ := ← cut s p.mark (p.idx - p.mark) } }.next
    if (← access s p.idx) = charSlash then
      let p := p.next
      if (← access s p.idx) = charSlash then
        return { p with idx := p.idx + 1, mark := p.idx + 1, state := .psAuthorityStart }
      else return p.goto .psError
    else return { p with state := .psPathStart, mark := p.idx }
  | .psAuthorityStart => do
    let c ← access s p.idx
    if c = charAt then return p.goto .psUserInfoEnd
    else if c = charSlash then return p.goto .psHostEnd
    else if c = charColon then return p.goto .psHostEnd
    else if c = charOpen then return (p.goto .psTCP6Start).next
    else if c = charPercent then return p.percent
    else if verifyUserInfoHostChar c then return p.next
    else return p.goto .psError
  | .psUserInfoEnd =>
    if p.mark < p.idx then do
      return { p with
        uri := { p.uri with userinfo_ := ← cut s p.mark (p.idx - p.mark) }
        idx := p.idx + 1, mark := p.idx + 1, state := .psHostStart }
    else return p.goto .psError
  | .psHostStart => do
    let c ← access s p.idx
    if c = charOpen then return (p.goto .psTCP6Start).next
    else if c = charColon ∨ c = charSlash then return p.goto .psHostEnd
    else if verifyUserInfoHostChar c then return p.next
    else if c = charPercent then return p.percent
    else return p.goto .psError
  | .psTCP6Start => do
    let c ← access s p.idx
    if c = charClose then return (p.goto .psHostEnd).next
    else if verifyTCP6Char c then return p.next
    else return p.goto .psError
  | .psHostEnd =>
    if p.mark < p.idx then do
      let p := { p with uri := { p.uri with host_ := ← cut s p.mark (p.idx - p.mark) } }
      if (← access s p.idx) = charColon then
        return { p with state := .psPortStart, idx := p.idx + 1, mark := p.idx + 1 }
      else return { p with state := .psPathStart, mark := p.idx }
    else return p.goto .psError
  | .psPortStart => do
    if ¬ isdigit (← access s p.idx) then return p.goto .psPortEnd else return p.next
  | .psPortEnd =>
    if p.mark < p.idx then do
      return { p with
        uri := { p.uri with port_ := ← cut s p.mark (p.idx - p.mark) }, state := .psPathStart, mark := p.idx }
    else return p.goto .psError
  | .psPathStart => do
    let c ← access s p.idx
    if c = charQuestion then return p.goto .psPathEnd
    else if c = charHash then return p.goto .psPathEnd
    else if verifyPathChar c then return p.next
    else if c = charPercent then return p.percent
    else return p.goto .psError
  | .psPathEnd =>
    if p.mark < p.idx then do
      let p := { p with uri := { p.uri with path_ := ← cut s p.mark (p.idx - p.mark) } }
      let c ← access s p.idx
      let p := if c = charQuestion then p.goto .psQueryStart
        else if c = charHash then p.goto .psFragmentStart
        else p
      return { p with idx := p.idx + 1, mark := p.idx + 1 }
    else return p.goto .psError
  | .psQueryStart => do
    let c ← access s p.idx
    if c = charHash then return p.goto .psQueryEnd
    else if verifyQueryFragmentChar c then return p.next
    else if c = charPercent then return p.percent
    else return p.goto .psError
  | .psQueryEnd =>
    if p.mark < p.idx then do
      return { p with
        uri := { p.uri with query_ := ← cut s p.mark (p.idx - p.mark) }
        state := .psFragmentStart, idx := p.idx + 1, mark := p.idx + 1 }
    else return p.goto .psError
  | .psFragmentStart => do
    let c ← access s p.idx
    if verifyQueryFragmentChar c then return p.next
    else if c = charPercent then return p.percent
    else return p.goto .psError
  | .psPCTEncoded => do
    if (← access s p.idx) = charPercent then
      let p := p.next
      -- `&&` looks at the character only if there is one
      if p.idx < s.length then
        if isxdigit (← access s p.idx) then
          let p := p.next
          if p.idx < s.length then
            if isxdigit (← access s p.idx) then return p.next.goto p.return_state
            else return p.goto .psError
          else return p.goto .psError
        else return p.goto .psError
      else return p.goto .psError
    else return p.goto .psError
  | .psError => .error (.unforeseen .psError)
  | .psDone => .error (.unforeseen .psDone)

/-- The body of the loop. -/
def checkedPass (s : Str) (p : Parser) : Except Fault Parser := do
  let p ← p.checkedSwitch s
  return { p with prev_state := p.state }

/-- At most `n` passes. -/
def checkedRun (s : Str) : Nat → Parser → Except Fault Parser
  | 0, p => return p
  | n + 1, p => if going s p then do checkedRun s n (← checkedPass s p) else return p

/-- The switch behind the loop. -/
def checkedFinish (s : Str) (p : Parser) : Except Fault URI :=
  match p.state with
  | .psAuthorityStart => do return { p.uri with host_ := ← cut s p.mark (s.length - p.mark) }
  | .psPathStart => do return { p.uri with path_ := ← cut s p.mark (s.length - p.mark) }
  | .psQueryStart => do return { p.uri with query_ := ← cut s p.mark (s.length - p.mark) }
  | .psFragmentStart => do return { p.uri with fragment_ := ← cut s p.mark (s.length - p.mark) }
  | _ => return p.uri

end Parser

/-- `parse( s, idx )`, with its accesses. -/
def checkedParse (s : Str) : Except Parser.Fault (Bool × Nat × URI) := do
  let p ← Parser.checkedRun s (4 * s.length + 2) {}
  return (p.state ≠ .psError, p.idx, ← p.checkedFinish s)

namespace Parser

variable {s : Str} {p q : Parser} {n : Nat}

/-! ## One pass -/

/-- The component that is being read lies in front of `idx`, and `idx` inside the string. -/
structure Inside (s : Str) (p : Parser) : Prop where
  mark : p.mark ≤ p.idx
  idx : p.idx ≤ s.length

theorem access_eq {i : Nat} (h : i ≤ s.length) : access s i = .ok (octetAt s i) := if_pos h

theorem cut_eq {pos : Nat} (h : pos ≤ s.length) : cut s pos n = .ok (substr s pos n) := if_pos h

/-- A pass of the loop does nothing that it must not do. -/
theorem checkedSwitch_eq (h : Inside s p) (hgoing : going s p = true) :
    p.checkedSwitch s = .ok (p.switch s (octetAt s p.idx)) := by
  obtain ⟨hdone, herror, hidx⟩ := going_iff.mp hgoing
  have hmark : p.mark ≤ s.length := Nat.le_trans h.mark h.idx
  have hchar := access_eq h.idx
  have htext := cut_eq (n := p.idx - p.mark) hmark
  cases hstate : p.state with
  | psError => exact absurd hstate herror
  | psDone => exact absurd hstate hdone
  | psSchemeEnd =>
      have hfirst : access s (p.idx + 1) = .ok (octetAt s (p.idx + 1)) := access_eq hidx
      rw [switch_schemeEnd hstate, checkedSwitch, hstate]
      simp only [htext, next, hfirst, bind, Except.bind, pure, Except.pure]
      by_cases hslash : octetAt s (p.idx + 1) = charSlash
      · -- the slash is a character of the string, so the index behind it is at most the size
        have hlt : p.idx + 1 < s.length := lt_of_octetAt (by rw [hslash]; decide)
        have hsecond : access s (p.idx + 1 + 1) = .ok (octetAt s (p.idx + 2)) := access_eq hlt
        rw [if_pos hslash, if_pos hslash, hsecond]
        dsimp only
        split_ifs <;> rfl
      · rw [if_neg hslash, if_neg hslash]
        rfl
  | psPCTEncoded =>
      rw [checkedSwitch, switch, hstate]
      simp only [hchar, next, bind, Except.bind, pure, Except.pure]
      by_cases hfirst : p.idx + 1 < s.length
      · have hfirst' : access s (p.idx + 1) = .ok (octetAt s (p.idx + 1)) := access_eq hfirst.le
        simp only [hfirst, hfirst', if_true, true_and]
        by_cases hsecond : p.idx + 1 + 1 < s.length
        · have hsecond' : access s (p.idx + 1 + 1) = .ok (octetAt s (p.idx + 1 + 1)) := access_eq hsecond.le
          simp only [hsecond, hsecond', if_true, true_and]
          split_ifs <;> rfl
        · simp only [hsecond, if_false, false_and]
          split_ifs <;> rfl
      · simp only [hfirst, if_false, false_and]
        split_ifs <;> rfl
  | _ =>
      rw [checkedSwitch, switch, hstate]
      simp only [hchar, htext, bind, Except.bind, pure, Except.pure]
      split_ifs <;> rfl

theorem checkedPass_eq (h : Inside s p) (hgoing : going s p = true) : checkedPass s p = .ok (pass s p) := by
  unfold checkedPass
  rw [checkedSwitch_eq h hgoing]
  rfl

/-- The mark is moved to the new index, or stays where it is. -/
theorem mark_switch (c : Octet) : (p.switch s c).mark = p.mark ∨ (p.switch s c).mark = (p.switch s c).idx := by
  unfold switch
  cases hstate : p.state with
  | psError | psDone => exact .inl rfl
  | _ =>
      dsimp only
      split_ifs <;> simp [goto, next, percent]

theorem Inside.pass (h : Inside s p) (hgoing : going s p = true) : Inside s (pass s p) where
  mark := by
    show (p.switch s (octetAt s p.idx)).mark ≤ (p.switch s (octetAt s p.idx)).idx
    have hidx : p.idx ≤ (p.switch s (octetAt s p.idx)).idx := idx_le_switch
    have hmark := h.mark
    rcases mark_switch (p := p) (s := s) (octetAt s p.idx) with heq | heq <;> omega
  idx := idx_pass_le (going_iff.mp hgoing).2.2

/-! ## The measure -/

/-- How many states are ahead before one reads a character, or the loop ends. -/
def stage (state : ParseState) : Nat := if state = .psError ∨ state = .psDone then 0 else rank state + 1

/-- The characters that are left, and the stage. -/
def measure (s : Str) (p : Parser) : Nat × Nat := (s.length - p.idx, stage p.state)

/-- A pass that reads nothing brings the state nearer to one that does. -/
theorem stage_pass (hgoing : going s p = true) (hidx : (pass s p).idx = p.idx) :
    stage (pass s p).state < stage p.state := by
  obtain ⟨hdone, herror, _⟩ := going_iff.mp hgoing
  revert hidx
  unfold pass switch
  cases hstate : p.state with
  | psError => exact absurd hstate herror
  | psDone => exact absurd hstate hdone
  | _ =>
      dsimp only [goto, next, percent]
      split_ifs <;> intro hidx <;>
        first
        | (dsimp only at hidx; omega)
        | simp [stage, rank]

/-- **Every pass lowers the measure.** -/
theorem measure_pass (hgoing : going s p = true) :
    Prod.Lex (· < ·) (· < ·) (measure s (pass s p)) (measure s p) := by
  have hlt := (going_iff.mp hgoing).2.2
  have hle : p.idx ≤ (pass s p).idx := idx_le_pass
  rcases Nat.eq_or_lt_of_le hle with heq | hmore
  · unfold measure
    rw [← heq]
    exact .right _ (stage_pass hgoing heq.symm)
  · exact .left _ _ (by omega)

/-! ## The run -/

/-- Along every run the indices stay inside the string. -/
theorem inside_of_steps (hsteps : While.Steps (going s) (pass s) p q) (h : Inside s p) : Inside s q :=
  hsteps.preserves (fun _ hgoing h => h.pass hgoing) h

theorem inside_start (s : Str) : Inside s {} := ⟨Nat.le_refl 0, Nat.zero_le _⟩

theorem checkedRun_eq (h : Inside s p) : checkedRun s n p = .ok (While.loop (going s) (pass s) n p) := by
  induction n generalizing p with
  | zero => rfl
  | succ n ih =>
      unfold checkedRun While.loop
      by_cases hgoing : going s p = true
      · rw [if_pos hgoing, if_pos hgoing, checkedPass_eq h hgoing]
        exact ih (h.pass hgoing)
      · rw [if_neg hgoing, if_neg hgoing]
        rfl

theorem checkedFinish_eq (h : Inside s p) : checkedFinish s p = .ok (finish s p) := by
  have hrest := cut_eq (s := s) (n := s.length - p.mark) (Nat.le_trans h.mark h.idx)
  unfold checkedFinish finish
  cases hstate : p.state with
  | _ =>
      dsimp only
      first
        | rfl
        | rw [hrest]; rfl

/-- **`parse` ends, and does nothing that it must not do.** The automaton with checks gives what the one without gives,
its loop has ended, and in every state that the loop comes to, the indices are inside the string and a further pass
lowers the measure. -/
theorem parse_safe (s : Str) :
    checkedParse s = .ok (parse s) ∧ going s (run s) = false ∧
    ∀ p, While.Steps (going s) (pass s) {} p →
      p.mark ≤ p.idx ∧ p.idx ≤ s.length ∧
      (going s p = true → Prod.Lex (· < ·) (· < ·) (measure s (pass s p)) (measure s p)) := by
  refine ⟨?_, not_going_run s, ?_⟩
  · have hinside := inside_of_steps (While.steps_loop (4 * s.length + 2) {}) (inside_start s)
    unfold checkedParse
    rw [checkedRun_eq (inside_start s)]
    show (do return (_, _, ← checkedFinish s (While.loop (going s) (pass s) (4 * s.length + 2) {}))) = _
    rw [checkedFinish_eq hinside]
    rfl
  · intro p hsteps
    have hinside := inside_of_steps hsteps (inside_start s)
    exact ⟨hinside.mark, hinside.idx, measure_pass⟩

end Parser
end Dodo.Network.URI
