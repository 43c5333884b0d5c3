import Mathlib.Data.List.TakeDrop
import Dodo.Network.Uri.Read

/-!
# `Uri.Refine` — the automaton computes `read`

`Sees` ties the indices of the parser to the text: what it has read since `mark`, and what is left. For each
state that reads a component there is one lemma: from there the parser ends with what the reader of that
component gives. They are proved from the last component to the first.
-/

namespace Dodo.Network.URI

open Common Lib

/-- The parser has read `t` since `mark`, and `r` is left. -/
structure Sees (s : Str) (mark idx : Nat) (t r : Str) : Prop where
  mark_eq : s.drop mark = t ++ r
  idx_eq : idx = mark + t.length

namespace Sees

variable {s t r l : Str} {mark idx : Nat} {c : Octet}

theorem drop_eq (h : Sees s mark idx t r) : s.drop idx = r := by
  rw [h.idx_eq, ← List.drop_drop, h.mark_eq, List.drop_left]

theorem octetAt_eq (h : Sees s mark idx t (c :: r)) : octetAt s idx = c := by
  have hdrop := h.drop_eq
  unfold octetAt
  rw [List.getD_eq_getElem?_getD, ← Nat.add_zero idx, ← List.getElem?_drop, hdrop]
  rfl

/-- At the end of the string there is a zero octet, which is no delimiter. -/
theorem octetAt_iff (h : Sees s mark idx t r) (hc : c ≠ 0) : octetAt s idx = c ↔ r.head? = some c := by
  cases r with
  | nil =>
      have hend : octetAt s idx = 0 := by
        unfold octetAt
        rw [List.getD_eq_getElem?_getD, ← Nat.add_zero idx, ← List.getElem?_drop, h.drop_eq]
        rfl
      simp [hend, hc.symm]
  | cons d r => simp [h.octetAt_eq]

theorem lt (h : Sees s mark idx t (c :: r)) : idx < s.length := by
  have hlength := congrArg List.length h.drop_eq
  rw [List.length_drop, List.length_cons] at hlength
  omega

theorem ended (h : Sees s mark idx t []) : ¬ idx < s.length := by
  have hlength := congrArg List.length h.drop_eq
  rw [List.length_drop, List.length_nil] at hlength
  omega

theorem text_eq (h : Sees s mark idx t r) : substr s mark (idx - mark) = t := by
  unfold substr
  rw [h.mark_eq, h.idx_eq, Nat.add_sub_cancel_left, List.take_left]

/-- At the end of the string, the text since `mark` is the rest of it. -/
theorem last_eq (h : Sees s mark idx t []) : substr s mark (s.length - mark) = t := by
  unfold substr
  rw [← List.length_drop, List.take_length, h.mark_eq, List.append_nil]

theorem mark_lt (h : Sees s mark idx t r) : mark < idx ↔ t ≠ [] := by
  rw [h.idx_eq, ← List.length_pos_iff]
  omega

theorem next (h : Sees s mark idx t (c :: r)) : Sees s mark (idx + 1) (t ++ [c]) r where
  mark_eq := by rw [h.mark_eq, List.append_assoc, List.singleton_append]
  idx_eq := by
    rw [h.idx_eq, List.length_append, List.length_singleton]
    omega

/-- A component begins here. -/
theorem remark (h : Sees s mark idx t r) : Sees s idx idx [] r := ⟨h.drop_eq, rfl⟩

/-- A component begins behind this character. -/
theorem skip (h : Sees s mark idx t (c :: r)) : Sees s (idx + 1) (idx + 1) [] r := h.next.remark

end Sees

namespace Parser

variable {s t r l : Str} {p q : Parser} {c : Octet} {u u' : URI} {X Y : ParseState} {result : Option URI}

/-! ## Outcomes -/

/-- What `parse` gives when the loop has ended in `p`. -/
def outcome (s : Str) (p : Parser) : Option URI := if p.state = .psError then none else some (p.finish s)

/-- The loop leads from `p` to an end with this outcome. -/
def Yields (s : Str) (p : Parser) (result : Option URI) : Prop :=
  ∃ q, While.Steps (going s) (pass s) p q ∧ going s q = false ∧ outcome s q = result

theorem Yields.of_steps (hsteps : While.Steps (going s) (pass s) p q) (h : Yields s q result) : Yields s p result := by
  obtain ⟨q', hrest, hended, houtcome⟩ := h
  exact ⟨q', hsteps.trans hrest, hended, houtcome⟩

theorem yields_error (h : p.state = .psError) : Yields s p none := by
  refine ⟨p, .refl p, ?_, if_pos h⟩
  simp [going, h]

/-! ## Positions -/

/-- The parser is in state `X` with the components `u`, has read `t` since `mark`, and `r` is left. -/
structure At (s : Str) (p : Parser) (X : ParseState) (u : URI) (t r : Str) : Prop where
  state_eq : p.state = X
  uri_eq : p.uri = u
  sees : Sees s p.mark p.idx t r

/-- The states in which the loop goes on. -/
def Alive (X : ParseState) : Prop := X ≠ .psDone ∧ X ≠ .psError

instance (X : ParseState) : Decidable (Alive X) := inferInstanceAs (Decidable (_ ∧ _))

namespace At

theorem text_eq (h : At s p X u t r) : p.text s = t := h.sees.text_eq

theorem going (h : At s p X u t (c :: r)) (hX : Alive X) : going s p = true := by
  obtain ⟨hdone, herror⟩ := hX
  simp [Parser.going, h.sees.lt, h.state_eq, hdone, herror]

/-- The loop makes a pass: the switch on the next character. -/
theorem yields (h : At s p X u t (c :: r)) (hX : Alive X) (hpass : Yields s (pass s p) result) : Yields s p result :=
  Yields.of_steps (.single (h.going hX)) hpass

/-- The end of the string. -/
theorem yields_finish (h : At s p X u t []) (hX : Alive X) (hfinish : p.finish s = u') : Yields s p (some u') := by
  refine ⟨p, .refl p, ?_, ?_⟩
  · simp [Parser.going, h.sees.ended]
  · unfold outcome
    rw [if_neg (by rw [h.state_eq]; exact hX.2), hfinish]

theorem pass_eq (h : At s p X u t (c :: r)) (hswitch : p.switch s c = q) : pass s p = { q with prev_state := q.state } := by
  unfold pass
  rw [h.sees.octetAt_eq, hswitch]

/-! The passes that do not fail: to another state, past a character, or to the beginning of a component. -/

theorem goto (h : At s p X u t (c :: r)) (hswitch : p.switch s c = p.goto Y) : At s (pass s p) Y u t (c :: r) := by
  rw [h.pass_eq hswitch]
  exact ⟨rfl, h.uri_eq, h.sees⟩

theorem next (h : At s p X u t (c :: r)) (hswitch : p.switch s c = (p.goto Y).next) :
    At s (pass s p) Y u (t ++ [c]) r := by
  rw [h.pass_eq hswitch]
  exact ⟨rfl, h.uri_eq, h.sees.next⟩

theorem skip (h : At s p X u t (c :: r))
    (hswitch : p.switch s c = { p with uri := u', state := Y, idx := p.idx + 1, mark := p.idx + 1 }) :
    At s (pass s p) Y u' [] r := by
  rw [h.pass_eq hswitch]
  exact ⟨rfl, rfl, h.sees.skip⟩

theorem remark (h : At s p X u t (c :: r)) (hswitch : p.switch s c = { p with uri := u', state := Y, mark := p.idx }) :
    At s (pass s p) Y u' [] (c :: r) := by
  rw [h.pass_eq hswitch]
  exact ⟨rfl, rfl, h.sees.remark⟩

/-- The pass that fails. -/
theorem fails (h : At s p X u t (c :: r)) (hX : Alive X) (hswitch : p.switch s c = p.goto .psError) : Yields s p none := by
  apply h.yields hX
  rw [h.pass_eq hswitch]
  exact yields_error rfl

end At

/-! ## Runs of characters -/

/-- In state `X` the parser reads characters of the class `ok` and percent signs with two digits. -/
structure Reads (X : ParseState) (ok : Octet → Bool) : Prop where
  alive : Alive X
  char {s : Str} {p : Parser} {c : Octet} : p.state = X → ok c = true → p.switch s c = (p.goto X).next
  percent {s : Str} {p : Parser} : p.state = X → p.switch s charPercent = p.percent

namespace Reads

variable {ok : Octet → Bool} {a b : Octet}

/-- A percent sign leads to `psPCTEncoded`. -/
theorem to_percent (hX : Reads X ok) (h : At s p X u t (charPercent :: r)) :
    At s (pass s p) .psPCTEncoded u t (charPercent :: r) ∧ (pass s p).return_state = X := by
  rw [h.pass_eq (hX.percent h.state_eq)]
  exact ⟨⟨rfl, h.uri_eq, h.sees⟩, h.state_eq⟩

/-- An octet written as a percent sign and two digits is read. -/
theorem steps_percent (hX : Reads X ok) (h : At s p X u t (charPercent :: a :: b :: r)) (ha : isxdigit a = true)
    (hb : isxdigit b = true) : ∃ q, While.Steps (going s) (pass s) p q ∧ At s q X u (t ++ [charPercent, a, b]) r := by
  obtain ⟨hat, hreturn⟩ := hX.to_percent h
  have hfirst := hat.sees.next
  have hsecond := hfirst.next
  have hswitch : (pass s p).switch s charPercent = ((pass s p).next.next.next).goto X := by
    simp [switch, hat.state_eq, Parser.next, goto, hfirst.lt, hfirst.octetAt_eq, hsecond.lt, hsecond.octetAt_eq, ha,
      hb, hreturn]
  refine ⟨pass s (pass s p), ?_, ?_⟩
  · exact .pass (h.going hX.alive) (.single (hat.going (by decide)))
  · rw [hat.pass_eq hswitch]
    refine ⟨rfl, hat.uri_eq, ?_⟩
    show Sees s (pass s p).mark ((pass s p).idx + 1 + 1 + 1) _ r
    simpa using hsecond.next

/-- A percent sign without two digits is refused. -/
theorem fails_percent (hX : Reads X ok) (h : At s p X u t (charPercent :: r))
    (hr : ∀ a b l, r = a :: b :: l → ¬ (isxdigit a = true ∧ isxdigit b = true)) : Yields s p none := by
  obtain ⟨hat, -⟩ := hX.to_percent h
  apply h.yields hX.alive
  apply hat.yields (by decide)
  rw [hat.pass_eq rfl]
  apply yields_error
  have hfirst := hat.sees.next
  match r, hr, hfirst with
  | [], _, hfirst => simp [switch, hat.state_eq, Parser.next, goto, hfirst.ended]
  | [a], _, hfirst =>
      have hsecond := hfirst.next.ended
      simp only [switch, hat.state_eq, Parser.next, goto]
      grind
  | a :: b :: l, hr, hfirst =>
      have hsecond := hfirst.next
      have hdigits := hr a b l rfl
      simp only [switch, hat.state_eq, Parser.next, goto, hfirst.octetAt_eq, hsecond.octetAt_eq]
      grind

/-- The longest run is read. -/
theorem steps_scan (hX : Reads X ok) (h : At s p X u t l) :
    ∃ q, While.Steps (going s) (pass s) p q ∧ At s q X u (t ++ (scan ok l).1) (scan ok l).2 := by
  fun_induction scan ok l generalizing p t with
  | case1 => exact ⟨p, .refl p, by simpa using h⟩
  | case2 c l hc ih =>
      obtain ⟨q, hsteps, hq⟩ := ih (h.next (hX.char h.state_eq hc))
      exact ⟨q, .pass (h.going hX.alive) hsteps, by simpa using hq⟩
  | case3 a b l hhex hc ih =>
      obtain ⟨p', hsteps, hp'⟩ := hX.steps_percent h hhex.1 hhex.2
      obtain ⟨q, hrest, hq⟩ := ih hp'
      exact ⟨q, hsteps.trans hrest, by simpa using hq⟩
  | case4 | case5 | case6 => exact ⟨p, .refl p, by simpa using h⟩

end Reads

/-! ## The states that read runs

A character of a class is none of the delimiters that the state looks for first. -/

theorem ne_of_class {ok : Octet → Bool} {d : Octet} (hc : ok c = true) (hd : ok d = false) : c ≠ d := by
  rintro rfl
  exact absurd hc (by simp [hd])

theorem reads_authority : Reads .psAuthorityStart verifyUserInfoHostChar where
  alive := by decide
  char := by
    intro s p c hstate hc
    have hat : c ≠ charAt := ne_of_class hc (by decide)
    have hslash : c ≠ charSlash := ne_of_class hc (by decide)
    have hcolon : c ≠ charColon := ne_of_class hc (by decide)
    have hopen : c ≠ charOpen := ne_of_class hc (by decide)
    have hpercent : c ≠ charPercent := ne_of_class hc (by decide)
    simp [switch, hstate, hat, hslash, hcolon, hopen, hpercent, hc, goto, next]
  percent := by
    intro s p hstate
    simp only [switch, hstate]
    rw [if_neg (by decide), if_neg (by decide), if_neg (by decide), if_neg (by decide), if_pos trivial]

theorem reads_host : Reads .psHostStart verifyUserInfoHostChar where
  alive := by decide
  char := by
    intro s p c hstate hc
    have hopen : c ≠ charOpen := ne_of_class hc (by decide)
    have hcolon : c ≠ charColon := ne_of_class hc (by decide)
    have hslash : c ≠ charSlash := ne_of_class hc (by decide)
    simp [switch, hstate, hopen, hcolon, hslash, hc, goto, next]
  percent := by
    intro s p hstate
    simp only [switch, hstate]
    rw [if_neg (by decide), if_neg (by decide), if_neg (by decide), if_pos trivial]

theorem reads_path : Reads .psPathStart verifyPathChar where
  alive := by decide
  char := by
    intro s p c hstate hc
    have hquestion : c ≠ charQuestion := ne_of_class hc (by decide)
    have hhash : c ≠ charHash := ne_of_class hc (by decide)
    simp [switch, hstate, hquestion, hhash, hc, goto, next]
  percent := by
    intro s p hstate
    simp only [switch, hstate]
    rw [if_neg (by decide), if_neg (by decide), if_neg (by decide), if_pos trivial]

theorem reads_query : Reads .psQueryStart verifyQueryFragmentChar where
  alive := by decide
  char := by
    intro s p c hstate hc
    have hhash : c ≠ charHash := ne_of_class hc (by decide)
    simp [switch, hstate, hhash, hc, goto, next]
  percent := by
    intro s p hstate
    simp only [switch, hstate]
    rw [if_neg (by decide), if_neg (by decide), if_pos trivial]

theorem reads_fragment : Reads .psFragmentStart verifyQueryFragmentChar where
  alive := by decide
  char := by
    intro s p c hstate hc
    simp [switch, hstate, hc, goto, next]
  percent := by
    intro s p hstate
    simp only [switch, hstate]
    rw [if_neg (by decide), if_pos trivial]

/-! ## From the last component to the first -/

/-- The longest run has been read when the next character is looked at. -/
theorem Reads.yields {ok : Octet → Bool} (hX : Reads X ok) (h : At s p X u t l)
    (hscan : ∀ q, At s q X u (t ++ (scan ok l).1) (scan ok l).2 → Yields s q result) : Yields s p result := by
  obtain ⟨q, hsteps, hq⟩ := hX.steps_scan h
  exact Yields.of_steps hsteps (hscan q hq)

/-- A character of no class is refused, a percent sign too. -/
theorem Reads.refuses {ok : Octet → Bool} (hX : Reads X ok) (h : At s p X u t (c :: r)) (hstops : Stops ok (c :: r))
    (hother : c ≠ charPercent → p.switch s c = p.goto .psError) : Yields s p none := by
  by_cases hc : c = charPercent
  · subst hc
    exact hX.fails_percent h (hstops.2 rfl)
  · exact h.fails hX.alive (hother hc)

theorem yields_fragment (h : At s p .psFragmentStart u [] l) : Yields s p (readFragment u l) := by
  apply reads_fragment.yields h
  intro q hq
  have hstops : Stops verifyQueryFragmentChar (scan verifyQueryFragmentChar l).2 := scan_stops l
  unfold readFragment
  generalize scan verifyQueryFragmentChar l = tr at hq hstops
  obtain ⟨t, r⟩ := tr
  cases r with
  | nil =>
      apply hq.yields_finish (by decide)
      simp [finish, hq.state_eq, hq.uri_eq, hq.sees.last_eq]
  | cons c r =>
      apply reads_fragment.refuses hq hstops
      intro hpercent
      simp [switch, hq.state_eq, hstops.1, hpercent]

theorem yields_query (h : At s p .psQueryStart u [] l) : Yields s p (readQuery u l) := by
  apply reads_query.yields h
  intro q hq
  have hstops : Stops verifyQueryFragmentChar (scan verifyQueryFragmentChar l).2 := scan_stops l
  unfold readQuery
  generalize scan verifyQueryFragmentChar l = tr at hq hstops
  obtain ⟨t, r⟩ := tr
  cases r with
  | nil =>
      apply hq.yields_finish (by decide)
      simp [finish, hq.state_eq, hq.uri_eq, hq.sees.last_eq]
  | cons c r =>
      dsimp only
      by_cases hhash : c = charHash
      · have hend := hq.goto (Y := .psQueryEnd) (by simp [switch, hq.state_eq, hhash])
        apply hq.yields (by decide)
        by_cases ht : t = []
        · rw [if_neg (by simp [ht])]
          apply hend.fails (by decide)
          simp [switch, hend.state_eq, hend.sees.mark_lt, ht]
        · rw [if_pos ⟨hhash, ht⟩]
          apply hend.yields (by decide)
          apply yields_fragment
          apply hend.skip
          simp [switch, hend.state_eq, hend.sees.mark_lt, ht, hend.text_eq, hend.uri_eq]
      · rw [if_neg (by simp [hhash])]
        apply reads_query.refuses hq hstops
        intro hpercent
        simp [switch, hq.state_eq, hstops.1, hpercent, hhash]

theorem yields_path (h : At s p .psPathStart u [] l) : Yields s p (readPath u l) := by
  apply reads_path.yields h
  intro q hq
  have hstops : Stops verifyPathChar (scan verifyPathChar l).2 := scan_stops l
  unfold readPath
  generalize scan verifyPathChar l = tr at hq hstops
  obtain ⟨t, r⟩ := tr
  cases r with
  | nil =>
      apply hq.yields_finish (by decide)
      simp [finish, hq.state_eq, hq.uri_eq, hq.sees.last_eq]
  | cons c r =>
      dsimp only
      by_cases hdelim : c = charQuestion ∨ c = charHash
      · have hend : At s (pass s q) .psPathEnd u ([] ++ t) (c :: r) := by
          apply hq.goto
          rcases hdelim with rfl | rfl <;> simp [switch, hq.state_eq, charQuestion, charHash]
        apply hq.yields (by decide)
        by_cases ht : t = []
        · rw [if_pos ht]
          apply hend.fails (by decide)
          simp [switch, hend.state_eq, hend.sees.mark_lt, ht]
        · rw [if_neg ht]
          apply hend.yields (by decide)
          rcases hdelim with rfl | rfl
          · rw [if_pos rfl]
            apply yields_query
            apply hend.skip
            simp [switch, hend.state_eq, hend.sees.mark_lt, ht, hend.text_eq, hend.uri_eq, goto]
          · rw [if_neg (by decide), if_pos rfl]
            apply yields_fragment
            apply hend.skip
            have hne : charHash ≠ charQuestion := by decide
            simp [switch, hend.state_eq, hend.sees.mark_lt, ht, hend.text_eq, hend.uri_eq, goto, hne]
      · obtain ⟨hquestion, hhash⟩ := not_or.mp hdelim
        have hnone : (if t = [] then none
            else if c = charQuestion then readQuery { u with path_ := t } r
            else if c = charHash then readFragment { u with path_ := t } r else none) = none := by
          simp [hquestion, hhash]
        rw [hnone]
        apply reads_path.refuses hq hstops
        intro hpercent
        simp [switch, hq.state_eq, hstops.1, hpercent, hquestion, hhash]

/-! The digits of a port and the characters of an address in brackets have no percent signs. -/

/-- In state `X` the parser reads characters of the class `ok`. -/
structure Spans (X : ParseState) (ok : Octet → Bool) : Prop where
  alive : Alive X
  char {s : Str} {p : Parser} {c : Octet} : p.state = X → ok c = true → p.switch s c = (p.goto X).next

theorem Spans.steps_span {ok : Octet → Bool} (hX : Spans X ok) (h : At s p X u t l) :
    ∃ q, While.Steps (going s) (pass s) p q ∧ At s q X u (t ++ (l.span ok).1) (l.span ok).2 := by
  rw [List.span_eq_takeWhile_dropWhile]
  induction l generalizing p t with
  | nil => exact ⟨p, .refl p, by simpa using h⟩
  | cons c l ih =>
      by_cases hc : ok c = true
      · obtain ⟨q, hsteps, hq⟩ := ih (h.next (hX.char h.state_eq hc))
        refine ⟨q, .pass (h.going hX.alive) hsteps, ?_⟩
        simpa [hc] using hq
      · exact ⟨p, .refl p, by simpa [hc] using h⟩

theorem Spans.yields {ok : Octet → Bool} (hX : Spans X ok) (h : At s p X u t l)
    (hspan : ∀ q, At s q X u (t ++ (l.span ok).1) (l.span ok).2 → Yields s q result) : Yields s p result := by
  obtain ⟨q, hsteps, hq⟩ := hX.steps_span h
  exact Yields.of_steps hsteps (hspan q hq)

/-- Behind the longest run there is no character of the class. -/
theorem span_stops {ok : Octet → Bool} (h : l.span ok = (t, c :: r)) : ok c = false := by
  rw [List.span_eq_takeWhile_dropWhile, Prod.mk.injEq] at h
  have hhead := List.head?_dropWhile_not ok l
  rw [h.2] at hhead
  simpa using hhead

theorem spans_port : Spans .psPortStart isdigit where
  alive := by decide
  char := by
    intro s p c hstate hc
    simp [switch, hstate, hc, goto, next]

theorem spans_tcp6 : Spans .psTCP6Start verifyTCP6Char where
  alive := by decide
  char := by
    intro s p c hstate hc
    have hclose : c ≠ charClose := ne_of_class hc (by decide)
    simp [switch, hstate, hclose, hc, goto, next]

theorem yields_port (h : At s p .psPortStart u [] l) : Yields s p (readPort u l) := by
  apply spans_port.yields h
  intro q hq
  unfold readPort
  generalize hspan : l.span isdigit = tr at hq
  obtain ⟨t, r⟩ := tr
  cases r with
  | nil =>
      apply hq.yields_finish (by decide)
      simp [finish, hq.state_eq, hq.uri_eq]
  | cons c r =>
      have hend := hq.goto (Y := .psPortEnd) (by simp [switch, hq.state_eq, span_stops hspan])
      apply hq.yields (by decide)
      dsimp only
      by_cases ht : t = []
      · rw [if_pos ht]
        apply hend.fails (by decide)
        simp [switch, hend.state_eq, hend.sees.mark_lt, ht]
      · rw [if_neg ht]
        apply hend.yields (by decide)
        apply yields_path
        apply hend.remark
        simp [switch, hend.state_eq, hend.sees.mark_lt, ht, hend.text_eq, hend.uri_eq]

theorem yields_hostEnd (h : At s p .psHostEnd u t l) (ht : t ≠ []) : Yields s p (readHostEnd u t l) := by
  cases l with
  | nil =>
      apply h.yields_finish (by decide)
      simp [finish, h.state_eq, h.uri_eq]
  | cons c r =>
      unfold readHostEnd
      dsimp only
      apply h.yields (by decide)
      by_cases hcolon : c = charColon
      · rw [if_pos hcolon]
        apply yields_port
        apply h.skip
        simp [switch, h.state_eq, h.sees.mark_lt, ht, h.text_eq, h.uri_eq, hcolon]
      · rw [if_neg hcolon]
        apply yields_path
        apply h.remark
        simp [switch, h.state_eq, h.sees.mark_lt, ht, h.text_eq, h.uri_eq, hcolon]

theorem yields_tcp6 (h : At s p .psTCP6Start u t l) : Yields s p (readTCP6 u t l) := by
  apply spans_tcp6.yields h
  intro q hq
  unfold readTCP6
  generalize hspan : l.span verifyTCP6Char = yr at hq
  obtain ⟨y, r⟩ := yr
  cases r with
  | nil =>
      apply hq.yields_finish (by decide)
      simp [finish, hq.state_eq, hq.uri_eq]
  | cons c r =>
      dsimp only
      by_cases hclose : c = charClose
      · rw [if_pos hclose]
        apply hq.yields (by decide)
        apply yields_hostEnd _ (by simp)
        apply hq.next
        simp [switch, hq.state_eq, hclose]
      · rw [if_neg hclose]
        apply hq.fails (by decide)
        simp [switch, hq.state_eq, hclose, span_stops hspan]

/-- A state that reads a host has come to the character behind it. -/
theorem Reads.yields_hostPart (hX : Reads X verifyUserInfoHostChar) (h : At s p X u t (c :: r))
    (hstops : Stops verifyUserInfoHostChar (c :: r))
    (hopen : c = charOpen → p.switch s c = (p.goto .psTCP6Start).next)
    (hdelim : c = charColon ∨ c = charSlash → p.switch s c = p.goto .psHostEnd)
    (hother : c ≠ charOpen → ¬ (c = charColon ∨ c = charSlash) → c ≠ charPercent → p.switch s c = p.goto .psError) :
    Yields s p (readHostPart u t c r) := by
  unfold readHostPart
  by_cases hc : c = charOpen
  · rw [if_pos hc]
    apply h.yields hX.alive
    apply yields_tcp6
    exact h.next (hopen hc)
  · rw [if_neg hc]
    by_cases hc' : c = charColon ∨ c = charSlash
    · -- a host that is empty is refused by `psHostEnd`
      have hend := h.goto (hdelim hc')
      apply h.yields hX.alive
      by_cases ht : t = []
      · rw [if_neg (by simp [ht])]
        apply hend.fails (by decide)
        simp [switch, hend.state_eq, hend.sees.mark_lt, ht]
      · rw [if_pos ⟨hc', ht⟩]
        exact yields_hostEnd hend ht
    · rw [if_neg (by simp [hc'])]
      exact hX.refuses h hstops (hother hc hc')

theorem yields_host (h : At s p .psHostStart u [] l) : Yields s p (readHost u l) := by
  apply reads_host.yields h
  intro q hq
  have hstops : Stops verifyUserInfoHostChar (scan verifyUserInfoHostChar l).2 := scan_stops l
  unfold readHost
  generalize scan verifyUserInfoHostChar l = tr at hq hstops
  obtain ⟨t, r⟩ := tr
  cases r with
  | nil =>
      apply hq.yields_finish (by decide)
      simp [finish, hq.state_eq, hq.uri_eq]
  | cons c r =>
      apply reads_host.yields_hostPart hq hstops
      · rintro rfl
        simp [switch, hq.state_eq]
      · intro hdelim
        have hopen : c ≠ charOpen := by
          rintro rfl
          exact absurd hdelim (by decide)
        simp [switch, hq.state_eq, hopen, hdelim]
      · intro hopen hdelim hpercent
        simp [switch, hq.state_eq, hopen, hdelim, hstops.1, hpercent]

theorem yields_authority (h : At s p .psAuthorityStart u [] l) : Yields s p (readAuthority u l) := by
  apply reads_authority.yields h
  intro q hq
  have hstops : Stops verifyUserInfoHostChar (scan verifyUserInfoHostChar l).2 := scan_stops l
  unfold readAuthority
  generalize scan verifyUserInfoHostChar l = tr at hq hstops
  obtain ⟨t, r⟩ := tr
  cases r with
  | nil =>
      apply hq.yields_finish (by decide)
      simp [finish, hq.state_eq, hq.uri_eq, hq.sees.last_eq]
  | cons c r =>
      dsimp only
      by_cases hat : c = charAt
      · have hend := hq.goto (Y := .psUserInfoEnd) (by simp [switch, hq.state_eq, hat])
        rw [if_pos hat]
        apply hq.yields (by decide)
        by_cases ht : t = []
        · rw [if_pos ht]
          apply hend.fails (by decide)
          simp [switch, hend.state_eq, hend.sees.mark_lt, ht]
        · rw [if_neg ht]
          apply hend.yields (by decide)
          apply yields_host
          apply hend.skip
          simp [switch, hend.state_eq, hend.sees.mark_lt, ht, hend.text_eq, hend.uri_eq]
      · rw [if_neg hat]
        apply reads_authority.yields_hostPart hq hstops
        · rintro rfl
          simp only [switch, hq.state_eq]
          rw [if_neg hat, if_neg (by decide), if_neg (by decide), if_pos trivial]
        · intro hdelim
          simp only [switch, hq.state_eq]
          rcases hdelim with rfl | rfl
          · rw [if_neg hat, if_neg (by decide), if_pos rfl]
          · rw [if_neg hat, if_pos rfl]
        · intro hopen hdelim hpercent
          obtain ⟨hcolon, hslash⟩ := not_or.mp hdelim
          simp [switch, hq.state_eq, hat, hopen, hcolon, hslash, hstops.1, hpercent]

/-- The colon behind the scheme, and the slashes behind it. -/
theorem yields_rest (h : At s p .psSchemeEnd u t (charColon :: l)) : Yields s p (readRest { u with scheme_ := t } l) := by
  have hfirst := h.sees.next
  unfold readRest
  apply h.yields (by decide)
  by_cases hslash : l.head? = some charSlash
  · obtain ⟨r, rfl⟩ := List.head?_eq_some_iff.mp hslash
    have hsecond := hfirst.next
    rw [if_pos hslash, List.tail_cons]
    by_cases hslash' : r.head? = some charSlash
    · obtain ⟨r', rfl⟩ := List.head?_eq_some_iff.mp hslash'
      rw [if_pos hslash', List.tail_cons]
      apply yields_authority
      rw [h.pass_eq rfl]
      simp only [switch, h.state_eq, h.text_eq, h.uri_eq, next, hfirst.octetAt_eq, hsecond.octetAt_eq, ↓reduceIte]
      exact ⟨rfl, rfl, hsecond.skip⟩
    · rw [if_neg hslash', h.pass_eq rfl]
      apply yields_error
      have hother : octetAt s (p.idx + 1 + 1) ≠ charSlash := by
        rw [Ne, hsecond.octetAt_iff (by decide)]
        exact hslash'
      simp [switch, h.state_eq, next, hfirst.octetAt_eq, hother, goto]
  · have hother : octetAt s (p.idx + 1) ≠ charSlash := by
      rw [Ne, hfirst.octetAt_iff (by decide)]
      exact hslash
    rw [if_neg hslash]
    apply yields_path
    rw [h.pass_eq rfl]
    simp only [switch, h.state_eq, h.text_eq, h.uri_eq, next, hother, ↓reduceIte]
    exact ⟨rfl, rfl, hfirst.remark⟩

/-- Behind the first letter, the characters of the scheme are read. -/
theorem steps_scheme (h : At s p .psSchemeStart u t l) (hprev : p.prev_state = .psSchemeStart) :
    ∃ q, While.Steps (going s) (pass s) p q ∧ q.prev_state = .psSchemeStart ∧
      At s q .psSchemeStart u (t ++ (l.span verifySchemeChar).1) (l.span verifySchemeChar).2 := by
  rw [List.span_eq_takeWhile_dropWhile]
  induction l generalizing p t with
  | nil => exact ⟨p, .refl p, hprev, by simpa using h⟩
  | cons c l ih =>
      by_cases hc : verifySchemeChar c = true
      · have hcolon : c ≠ charColon := ne_of_class hc (by decide)
        have hswitch : p.switch s c = (p.goto .psSchemeStart).next := by
          simp [switch, h.state_eq, hprev, hcolon, hc, goto, Parser.next]
        have hprev' : (pass s p).prev_state = .psSchemeStart := by
          rw [h.pass_eq hswitch]
          rfl
        obtain ⟨q, hsteps, hq, hat⟩ := ih (h.next hswitch) hprev'
        refine ⟨q, .pass (h.going (by decide)) hsteps, hq, ?_⟩
        simpa [hc] using hat
      · exact ⟨p, .refl p, hprev, by simpa [hc] using h⟩

theorem isalpha_scheme (h : isalpha c = true) : verifySchemeChar c = true := by
  simp [verifySchemeChar, h]

theorem yields_read (s : Str) : Yields s {} (read s) := by
  have hstart : At s {} .psSchemeStart {} [] s := ⟨rfl, rfl, ⟨rfl, rfl⟩⟩
  unfold read
  generalize hspan : s.span verifySchemeChar = tr
  obtain ⟨t, r⟩ := tr
  dsimp only
  cases s with
  | nil =>
      cases hspan
      exact hstart.yields_finish (by decide) rfl
  | cons c l =>
      by_cases hc : isalpha c = true
      · -- the first letter is read, then the others
        have hscheme := isalpha_scheme hc
        have hcolon : c ≠ charColon := ne_of_class hscheme (by decide)
        have hswitch : ({} : Parser).switch (c :: l) c = ((({} : Parser)).goto .psSchemeStart).next := by
          simp [switch, hc, hcolon, hscheme, goto]
        have hprev : (pass (c :: l) {}).prev_state = .psSchemeStart := by
          rw [hstart.pass_eq hswitch]
          rfl
        obtain ⟨q, hsteps, hq, hat⟩ := steps_scheme (hstart.next hswitch) hprev
        rw [if_pos (by simpa using hc)]
        apply hstart.yields (by decide)
        apply Yields.of_steps hsteps
        have hspan' : l.span verifySchemeChar = (t.tail, r) ∧ t = c :: t.tail := by
          rw [List.span_eq_takeWhile_dropWhile, List.takeWhile_cons_of_pos hscheme,
            List.dropWhile_cons_of_pos hscheme] at hspan
          cases hspan
          exact ⟨List.span_eq_takeWhile_dropWhile _ l, rfl⟩
        rw [hspan'.1] at hat
        have hat : At (c :: l) q .psSchemeStart {} t r := by
          rw [hspan'.2]
          exact hat
        cases r with
        | nil =>
            apply hat.yields_finish (by decide)
            simp [finish, hat.state_eq, hat.uri_eq]
        | cons d r =>
            dsimp only
            by_cases hd : d = charColon
            · rw [if_pos hd]
              subst hd
              apply hat.yields (by decide)
              apply yields_rest (u := {})
              apply hat.goto
              simp [switch, hat.state_eq, hq]
            · rw [if_neg hd]
              apply hat.fails (by decide)
              simp [switch, hat.state_eq, hq, hd, span_stops hspan]
      · rw [if_neg (by simpa using hc)]
        apply hstart.fails (by decide)
        simp [switch, hc]

end Parser

/-- **The automaton computes `read`.** -/
theorem read_eq (s : Str) : read s = if (parse s).1 then some (parse s).2.2 else none := by
  obtain ⟨q, hsteps, hended, houtcome⟩ := Parser.yields_read s
  unfold parse
  dsimp only
  rw [Parser.run_eq hsteps hended, ← houtcome]
  unfold Parser.outcome
  by_cases herror : q.state = .psError
  · simp [herror]
  · simp [herror]

end Dodo.Network.URI
