import Dodo.Network.Stream
import Dodo.Network.Http.Grammar

/-!
# `Http.Refine.Scanners` — the scanners compute the grammar

Over every buffer that delivers its octets in order, each scanner ends, and it ends as the function of
`Http.Grammar` of the same name says. The octet that `get()` gives behind the end of the text is
arbitrary; that no outcome depends on it is part of every statement here.

## Contents
- Postconditions (`Decodes`, `Yields`, `Stuck`) and one rule of sequencing for each.
- The scanners of `HTTPMessage` up to `parseHeaders`.
-/

namespace Dodo.Network.Http

open Common Lib Lib.Comp

/-- Not a success: a result that is not ok, or an exception. -/
def Rejects : Except Exn ParseResult → Prop
  | .ok parseResult => parseResult.ok = false
  | .error _ => True

@[simp] theorem rejects_ok {parseResult : ParseResult} :
    Rejects (.ok parseResult) ↔ parseResult.ok = false := Iff.rfl

@[simp] theorem rejects_error {x : Exn} : Rejects (.error x) := trivial

variable {β ω γ : Type} [VirtualReadBuffer β] {e : SystemError} {D : Delivers β e} {b : β} {o : ω}
  {l : Str}

variable (D) in
/-- The postcondition of a parser of the grammar: success with the object and the rest that `res` gives,
    or no success. -/
def Decodes (res : Option (ω × Str)) (r : Except Exn ParseResult) (s : β × ω) : Prop :=
  match res with
  | some (o, l) => D.Scan {} o l r s
  | none => Rejects r

theorem decodes_none {r : Except Exn ParseResult} {s : β × ω} : Decodes D none r s ↔ Rejects r := Iff.rfl

variable (D) in
/-- The same, where no success leaves the object `left`. -/
def Leaves (res : Option (ω × Str)) (left : ω) (r : Except Exn ParseResult) (s : β × ω) : Prop :=
  match res with
  | some (o, l) => D.Scan {} o l r s
  | none => Rejects r ∧ s.2 = left

theorem Leaves.decodes {res : Option (ω × Str)} {left : ω} {r : Except Exn ParseResult} {s : β × ω}
    (h : Leaves D res left r s) : Decodes D res r s := by
  cases res with
  | none => exact h.1
  | some v => exact h

/-- The error at the end of the text is not success. -/
theorem not_ok_end (D : Delivers β e) : (ParseResult.setSystemError e).ok = false := by
  rw [← Bool.not_eq_true, ParseResult.ok_setSystemError]
  exact D.err_ne

@[simp] theorem setSystemError_endOr_cons {c : Octet} :
    ParseResult.setSystemError (endOr e (c :: l)) = {} := by simp

/-- `if ( !parseResult.ok() ) return parseResult;` behind a failed and a successful `next()`. -/
theorem ite_end (D : Delivers β e) {x y : γ} :
    (if (!(ParseResult.setSystemError e).ok) = true then x else y) = x := by simp [not_ok_end D]

@[simp] theorem ite_default {x y : γ} : (if (!({} : ParseResult).ok) = true then x else y) = y := rfl

variable {α : Type}

variable (D) in
/-- The postcondition of a scanner that also gives a value: the value and the rest of `res`, with the
    object `o` as it was, or no success. -/
def Yields (res : Option (α × Str)) (o : ω) (r : Except Exn (ParseResult × α)) (s : β × ω) : Prop :=
  match res with
  | some (a, l) => D.Scan ({}, a) o l r s
  | none => Rejects (r.map Prod.fst)

/-- Sequencing behind a parser. -/
theorem Decodes.bind {p : Comp (β × ω) Exn ParseResult} {f : ParseResult → Comp (β × ω) Exn γ}
    {res : Option (ω × Str)} {Q : Except Exn γ → β × ω → Prop} (hp : wp p (Decodes D res) (b, o))
    (hok : ∀ o' l' b', res = some (o', l') → D.At b' l' → wp (f {}) Q (b', o'))
    (hthrow : res = none → ∀ x s, Q (.error x) s)
    (hfail : res = none → ∀ parseResult s, parseResult.ok = false → wp (f parseResult) Q s) :
    wp (p >>= f) Q (b, o) := by
  refine wp_bind.mpr (wp_mono hp ?_)
  rintro r ⟨b', o'⟩ hr
  cases res with
  | some v =>
      obtain ⟨rfl, rfl, hat⟩ := hr
      exact hok _ _ _ rfl hat
  | none =>
      cases r with
      | ok parseResult => exact hfail rfl parseResult _ hr
      | error x => exact hthrow rfl x _

/-- Sequencing behind a parser, where the rest of the grammar is `k`. -/
theorem Decodes.seq {p : Comp (β × ω) Exn ParseResult} {f : ParseResult → Comp (β × ω) Exn ParseResult}
    {res : Option (ω × Str)} {k : ω × Str → Option (ω × Str)} (hp : wp p (Decodes D res) (b, o))
    (hok : ∀ o' l' b', res = some (o', l') → D.At b' l' → wp (f {}) (Decodes D (k (o', l'))) (b', o'))
    (hfail : ∀ parseResult s, parseResult.ok = false → wp (f parseResult) (fun r _ => Rejects r) s) :
    wp (p >>= f) (Decodes D (res.bind k)) (b, o) := by
  refine Decodes.bind hp ?_ ?_ ?_
  · rintro o' l' b' rfl h'
    exact hok o' l' b' rfl h'
  · rintro rfl x s
    exact trivial
  · rintro rfl parseResult s hpr
    exact hfail parseResult s hpr

/-- Sequencing behind a scanner that gives a value. -/
theorem Yields.bind {p : Comp (β × ω) Exn (ParseResult × α)}
    {f : ParseResult × α → Comp (β × ω) Exn γ} {res : Option (α × Str)}
    {Q : Except Exn γ → β × ω → Prop} {o' : ω} (hp : wp p (Yields D res o') (b, o))
    (hok : ∀ a l' b', res = some (a, l') → D.At b' l' → wp (f ({}, a)) Q (b', o'))
    (hthrow : res = none → ∀ x s, Q (.error x) s)
    (hfail : res = none → ∀ parseResult a s, parseResult.ok = false → wp (f (parseResult, a)) Q s) :
    wp (p >>= f) Q (b, o) := by
  refine wp_bind.mpr (wp_mono hp ?_)
  rintro r ⟨b', o''⟩ hr
  cases res with
  | some v =>
      obtain ⟨rfl, rfl, hat⟩ := hr
      exact hok _ _ _ rfl hat
  | none =>
      cases r with
      | ok a => exact hfail rfl a.1 a.2 _ hr
      | error x => exact hthrow rfl x _

variable (D) in
/-- The postcondition of a scanner that starts behind the end: it ends there too, and does not throw. -/
def Stuck (o : ω) (r : Except Exn α) (s : β × ω) : Prop :=
  (∃ a, r = .ok a) ∧ s.2 = o ∧ D.At s.1 []

theorem Stuck.bind {p : Comp (β × ω) Exn α} {f : α → Comp (β × ω) Exn γ}
    {Q : Except Exn γ → β × ω → Prop} {s : β × ω} (hp : wp p (Stuck D o) s)
    (hf : ∀ a b', D.At b' [] → wp (f a) Q (b', o)) : wp (p >>= f) Q s := by
  refine wp_bind.mpr (wp_mono hp ?_)
  rintro r ⟨b', o'⟩ ⟨⟨a, rfl⟩, rfl, h'⟩
  exact hf a b' h'

namespace HTTPMessage

open Grammar

/-! ## Scanners -/

theorem eatSpace_loop (h : D.At b l) :
    wp (.loop eatSpacePass (endOr e l))
      (D.Scan (endOr e (l.dropWhile isSP)) o (l.dropWhile isSP)) (b, o) := by
  induction l generalizing b with
  | nil =>
      refine wp_loop.mpr (Delivers.get_bind_nil h fun c => ?_)
      rw [if_neg (by simp [D.err_ne])]
      exact wp_break.mpr ⟨rfl, rfl, h⟩
  | cons c l ih =>
      refine wp_loop.mpr (Delivers.get_bind h ?_)
      by_cases hc : isSP c = true
      · rw [if_pos (by simp [hc]), List.dropWhile_cons_of_pos hc]
        refine Delivers.next_bind h fun b' h' => ?_
        exact wp_continue.mpr (ih h')
      · rw [if_neg (by simp [hc]), List.dropWhile_cons_of_neg hc]
        exact wp_break.mpr ⟨by simp, rfl, h⟩

/-- `eatSpace` fails if and only if blanks are all that is left. -/
theorem eatSpace_spec (h : D.At b l) (hl : l ≠ []) :
    wp eatSpace (D.Scan (endOr e (l.dropWhile isSP)) o (l.dropWhile isSP)) (b, o) := by
  have hstart : endOr e l = .ecOK := by simp [endOr, hl]
  have := eatSpace_loop (o := o) h
  rwa [hstart] at this

theorem eatSpace_nil (h : D.At b []) : wp eatSpace (Stuck D o) (b, o) := by
  refine wp_loop.mpr (Delivers.get_bind_nil h fun c => ?_)
  split
  · refine Delivers.next_bind_nil h fun b' h' => wp_continue.mpr ?_
    exact wp_mono (eatSpace_loop h') fun r s hr => ⟨⟨_, hr.1⟩, hr.2⟩
  · exact wp_break.mpr ⟨⟨_, rfl⟩, rfl, h⟩

theorem parseCRLF_spec (h : D.At b l) (hl : l ≠ []) :
    wp parseCRLF (Decodes D ((crlf l).map fun rest => (o, rest))) (b, o) := by
  obtain ⟨c, l, rfl⟩ := List.exists_cons_of_ne_nil hl
  refine Delivers.get_bind h ?_
  by_cases hc : c = charCR
  · subst hc
    rw [if_neg (by simp)]
    refine Delivers.next_bind h fun b₁ h₁ => ?_
    cases l with
    | nil => simp [not_ok_end D, crlf, decodes_none]
    | cons d l =>
        simp only [setSystemError_endOr_cons, ite_default]
        refine Delivers.get_bind h₁ ?_
        by_cases hd : d = charLF
        · subst hd
          rw [if_neg (by simp)]
          refine Delivers.next_bind h₁ fun b₂ h₂ => wp_pure.mpr ?_
          cases l with
          | nil => simp [not_ok_end D, crlf, charCR, charLF, decodes_none]
          | cons x l => exact ⟨by simp, rfl, h₂⟩
        · rw [if_pos hd, crlf_of_ne_lf hd]
          exact wp_pure.mpr rfl
  · rw [if_pos hc, crlf_of_ne_cr hc]
    exact wp_pure.mpr rfl

theorem parseToken_loop (h : D.At b l) (hl : l ≠ []) (stoken : Str) :
    wp (.loop parseTokenPass stoken)
      (Yields D ((skip isToken l).map fun rest => (stoken ++ l.takeWhile isToken, rest)) o) (b, o) := by
  induction l generalizing b stoken with
  | nil => exact absurd rfl hl
  | cons c l ih =>
      refine wp_loop.mpr (Delivers.get_bind h ?_)
      rw [show (!isSeparator c && !isCTL c) = isToken c from rfl]
      by_cases hc : isToken c = true
      · rw [if_pos hc]
        refine Delivers.next_bind h fun b' h' => ?_
        cases l with
        | nil =>
            simp only [endOr_nil, not_ok_end D, skip, List.dropWhile_cons_of_pos hc, List.dropWhile_nil]
            exact wp_break.mpr (not_ok_end D)
        | cons d l =>
            simp only [setSystemError_endOr_cons, ite_default]
            have := ih h' (by simp) (stoken ++ [c])
            simp only [skip, List.dropWhile_cons_of_pos hc, List.takeWhile_cons_of_pos hc,
              List.append_assoc, List.singleton_append] at this ⊢
            exact wp_continue.mpr this
      · have hend : (isSeparator c || isCTL c) = true := by
          cases hs : isSeparator c <;> simp_all [isToken]
        rw [if_neg hc, if_pos hend]
        refine wp_break.mpr ?_
        simp only [skip, List.dropWhile_cons_of_neg hc, List.takeWhile_cons_of_neg hc, List.append_nil]
        exact ⟨rfl, rfl, h⟩

theorem parseToken_spec (h : D.At b l) (hl : l ≠ []) :
    wp parseToken (Yields D ((skip isToken l).map fun rest => (l.takeWhile isToken, rest)) o) (b, o) :=
  parseToken_loop h hl []

theorem parseToken_nil (h : D.At b []) : wp parseToken (Stuck D o) (b, o) := by
  refine wp_loop.mpr (Delivers.get_bind_nil h fun c => ?_)
  split
  · refine Delivers.next_bind_nil h fun b' h' => ?_
    simp only [not_ok_end D, Bool.not_false, if_true]
    exact wp_break.mpr ⟨⟨_, rfl⟩, rfl, h'⟩
  split
  · exact wp_break.mpr ⟨⟨_, rfl⟩, rfl, h⟩
  · exact wp_break.mpr ⟨⟨_, rfl⟩, rfl, h⟩

/-- The end of a number may be the end of the text; the result is an error then. -/
theorem parseUInt_loop (h : D.At b l) (ss : Str) :
    wp (.loop parseUIntPass (ss, .setSystemError (endOr e l)))
      (D.Scan (parseUIntEnd (ss ++ l.takeWhile isdigit) (.setSystemError (endOr e (l.dropWhile isdigit))))
        o (l.dropWhile isdigit)) (b, o) := by
  induction l generalizing b ss with
  | nil =>
      refine wp_loop.mpr ?_
      simp only [parseUIntPass, endOr_nil, not_ok_end D, Bool.false_eq_true, if_false]
      exact wp_break.mpr ⟨by simp, rfl, h⟩
  | cons c l ih =>
      refine wp_loop.mpr ?_
      simp only [parseUIntPass, setSystemError_endOr_cons, ParseResult.ok_default, if_true]
      refine Delivers.get_bind h ?_
      by_cases hc : isdigit c = true
      · rw [if_pos hc]
        refine Delivers.next_bind h fun b' h' => wp_continue.mpr ?_
        have := ih h' (ss ++ [c])
        simpa only [List.dropWhile_cons_of_pos hc, List.takeWhile_cons_of_pos hc, List.append_assoc,
          List.singleton_append] using this
      · rw [if_neg hc]
        refine wp_break.mpr ?_
        simp only [List.dropWhile_cons_of_neg hc, List.takeWhile_cons_of_neg hc, List.append_nil,
          setSystemError_endOr_cons]
        exact ⟨rfl, rfl, h⟩

theorem parseUInt_spec (h : D.At b l) (hl : l ≠ []) :
    wp parseUInt (Yields D (number l) o) (b, o) := by
  rw [number]
  obtain ⟨c, l, rfl⟩ := List.exists_cons_of_ne_nil hl
  have hloop := parseUInt_loop (o := o) h []
  rw [setSystemError_endOr_cons, List.nil_append] at hloop
  refine wp_mono hloop ?_
  rintro r s ⟨rfl, rfl, hat⟩
  by_cases hds : (c :: l).takeWhile isdigit = []
  · simp only [parseUIntEnd, hds, List.length_nil, if_true]
    rfl
  · simp only [parseUIntEnd, hds, List.length_eq_zero_iff, if_false, skip]
    by_cases hrest : (c :: l).dropWhile isdigit = []
    · simp only [hrest, endOr_nil, if_true]
      exact not_ok_end D
    · obtain ⟨d, l', hl'⟩ := List.exists_cons_of_ne_nil hrest
      simp only [hl', setSystemError_endOr_cons] at hat ⊢
      exact ⟨rfl, rfl, hat⟩

/-! ## Field values -/

variable (D) in
/-- The postcondition of `parseFieldValue`. Its caller goes on after an `eof` too: then nothing is left. -/
def ReadsField (value : Str) (o : ω) (res : Option (Str × Str)) (r : Except Exn (ParseResult × Str))
    (s : β × ω) : Prop :=
  match res with
  | some (w, rest) => D.Scan ({}, value ++ w) o rest r s
  | none => s.2 = o ∧ ∃ parseResult v, r = .ok (parseResult, v) ∧ parseResult.ok = false ∧
      (parseResult.eof = true → D.At s.1 [])

theorem readsField_emit {value t : Str} {res : Option (Str × Str)} {r : Except Exn (ParseResult × Str)}
    {s : β × ω} : ReadsField D value o (emit t res) r s ↔ ReadsField D (value ++ t) o res r s := by
  cases res <;> simp [ReadsField, emit]

/-- A pass that meets the end of the text in the middle of a value. -/
theorem parseFieldValue_end {value : Str} {state : FieldState} (D : Delivers β e) (hs : state ≠ .psDone) :
    wp (.loop parseFieldValuePass (value, state, .setSystemError e)) (ReadsField D value o none) (b, o) := by
  refine wp_loop.mpr ?_
  simp only [parseFieldValuePass, not_ok_end D, Bool.false_and, Bool.false_eq_true, if_false, ne_eq, hs,
    not_false_eq_true, if_true]
  exact wp_break.mpr ⟨rfl, _, _, rfl, rfl, fun heof => absurd heof (by decide)⟩

/-- The pass that leaves the loop. -/
theorem parseFieldValue_done {value : Str} {parseResult : ParseResult} {s : β × ω}
    {Q : Except Exn (ParseResult × Str) → β × ω → Prop} (hQ : Q (.ok (parseResult, value)) s) :
    wp (.loop parseFieldValuePass (value, .psDone, parseResult)) Q s := by
  refine wp_loop.mpr ?_
  simp only [parseFieldValuePass, ne_eq, not_true, decide_false, Bool.and_false, Bool.false_eq_true,
    if_false]
  exact wp_break.mpr hQ

/-- What follows the `switch`: the loop again, or a `return`. -/
def fieldValueNext (value : Str) :
    (Str × FieldState × ParseResult) ⊕ ParseResult → Comp (β × ω) Exn (ParseResult × Str)
  | .inl vars => .loop parseFieldValuePass vars
  | .inr parseResult => pure (parseResult, value)

theorem parseFieldValue_step {value : Str} {state : FieldState} {s : β × ω}
    {Q : Except Exn (ParseResult × Str) → β × ω → Prop} (hs : state ≠ .psDone)
    (hstep : wp (fieldValueStep value state) (seqPost (fieldValueNext value) Q) s) :
    wp (.loop parseFieldValuePass (value, state, {})) Q s := by
  refine wp_loop.mpr ?_
  simp only [parseFieldValuePass, ParseResult.ok_default, Bool.true_and, ne_eq, hs, not_false_eq_true,
    decide_true, if_true]
  refine wp_bind.mpr (wp_mono hstep ?_)
  rintro (x | vars | parseResult) s' hq
  · exact hq
  · exact wp_continue.mpr hq
  · exact wp_break.mpr (wp_pure.mp hq)

/-- The pass that reads one octet of the value, and the loop after it. -/
theorem parseFieldValue_read {c : Octet} {value : Str} (h : D.At b (c :: l))
    (ih : ∀ b' value state, D.At b' l → state ≠ .psDone →
      wp (.loop parseFieldValuePass (value, state, .setSystemError (endOr e l)))
        (ReadsField D value o (fieldValue state l)) (b', o)) :
    wp (.loop parseFieldValuePass (value, .psReadValue, {}))
      (ReadsField D value o (fieldValue .psReadValue (c :: l))) (b, o) := by
  refine parseFieldValue_step (by decide) (Delivers.get_bind h ?_)
  simp only [fieldValue]
  split
  · exact Delivers.next_bind h fun b' h' => wp_pure.mpr (ih _ _ _ h' (by decide))
  split
  · exact Delivers.next_bind h fun b' h' => wp_pure.mpr (ih _ _ _ h' (by decide))
  · refine Delivers.next_bind h fun b' h' => wp_pure.mpr ?_
    exact wp_mono (ih _ _ _ h' (by decide)) fun r s hr => readsField_emit.mpr hr

/-- The pass behind a CR. The octet behind the LF decides whether the value goes on. -/
theorem parseFieldValue_cr {c : Octet} {value : Str} (h : D.At b (c :: l))
    (ih : ∀ b' d l', l = d :: l' → D.At b' l' →
      wp (.loop parseFieldValuePass (value, .psSP, .setSystemError (endOr e l')))
        (ReadsField D value o (fieldValue .psSP l')) (b', o)) :
    wp (.loop parseFieldValuePass (value, .psCR, {}))
      (ReadsField D value o (fieldValue .psCR (c :: l))) (b, o) := by
  refine parseFieldValue_step (by decide) (Delivers.get_bind h ?_)
  by_cases hc : c = charLF
  · simp only [hc, if_true]
    refine Delivers.next_bind h fun b' h' => ?_
    cases l with
    | nil =>
        simp only [endOr_nil, not_ok_end D, Bool.false_eq_true, if_false, fieldValue]
        exact wp_pure.mpr (parseFieldValue_done ⟨rfl, _, _, rfl, not_ok_end D, fun _ => h'⟩)
    | cons d l =>
        simp only [setSystemError_endOr_cons, ParseResult.ok_default, if_true, fieldValue, ne_eq,
          not_true, if_false]
        refine Delivers.get_bind h' ?_
        split
        · exact Delivers.next_bind h' fun b'' h'' => wp_pure.mpr (ih _ _ _ rfl h'')
        · exact wp_pure.mpr (parseFieldValue_done ⟨by rw [List.append_nil], rfl, h'⟩)
  · have hnone : fieldValue .psCR (c :: l) = none := by cases l <;> simp [fieldValue, hc]
    rw [if_neg hc, hnone]
    exact wp_pure.mpr (wp_pure.mpr ⟨rfl, _, _, rfl, rfl, fun heof => absurd heof (by decide)⟩)

theorem parseFieldValue_loop (h : D.At b l) (value : Str) (state : FieldState) (hs : state ≠ .psDone) :
    wp (.loop parseFieldValuePass (value, state, .setSystemError (endOr e l)))
      (ReadsField D value o (fieldValue state l)) (b, o) := by
  -- behind a CR two octets may be read in one pass, so the induction is on the length
  induction hn : l.length using Nat.strong_induction_on generalizing l b value state with
  | _ n ih =>
    subst hn
    cases l with
    | nil => cases state <;> exact parseFieldValue_end D hs
    | cons c l =>
        have ihl : ∀ b' value state, D.At b' l → state ≠ .psDone →
            wp (.loop parseFieldValuePass (value, state, .setSystemError (endOr e l)))
              (ReadsField D value o (fieldValue state l)) (b', o) :=
          fun b' value state h' hs' => ih l.length (by simp) h' value state hs' rfl
        rw [setSystemError_endOr_cons]
        cases state with
        | psReadValue => exact parseFieldValue_read h ihl
        | psCR =>
            refine parseFieldValue_cr h ?_
            rintro b' d l' rfl h'
            exact ih l'.length (by simp only [List.length_cons]; omega) h' value .psSP (by decide) rfl
        | psStart =>
            refine parseFieldValue_step hs (Delivers.get_bind h ?_)
            by_cases hc : isSP c = true
            · simp only [hc, Bool.not_true, Bool.false_eq_true, if_false, fieldValue, if_true]
              exact Delivers.next_bind h fun b' h' => wp_pure.mpr (ihl _ _ _ h' (by decide))
            · rw [Bool.not_eq_true] at hc
              simp only [hc, Bool.not_false, if_true, fieldValue_start hc]
              exact wp_pure.mpr (parseFieldValue_read h ihl)
        | psSP =>
            refine parseFieldValue_step hs (Delivers.get_bind h ?_)
            by_cases hc : isSP c = true
            · simp only [hc, fieldValue, if_true]
              exact Delivers.next_bind h fun b' h' => wp_pure.mpr (ihl _ _ _ h' (by decide))
            · rw [Bool.not_eq_true] at hc
              simp only [hc, Bool.false_eq_true, if_false, fieldValue_sp hc]
              refine wp_pure.mpr ?_
              exact wp_mono (parseFieldValue_read h ihl) fun r s hr => readsField_emit.mpr hr
        | psDone => exact absurd rfl hs

theorem parseFieldValue_spec (h : D.At b l) (hl : l ≠ []) :
    wp parseFieldValue (ReadsField D [] o (fieldValue .psStart l)) (b, o) := by
  obtain ⟨c, l, rfl⟩ := List.exists_cons_of_ne_nil hl
  have := parseFieldValue_loop (o := o) h [] .psStart (by decide)
  rwa [setSystemError_endOr_cons] at this

/-! ## Headers -/

variable {m : HTTPMessage}

/-- Behind the end no further header line is read. -/
theorem parseHeaders_end (h : D.At b []) :
    wp (.loop parseHeadersPass ()) (fun r _ => Rejects r) (b, m) := by
  refine wp_loop.mpr (Stuck.bind (parseToken_nil h) fun ⟨parseResult, key⟩ b₁ h₁ => ?_)
  dsimp only
  split
  case isFalse hpr => exact wp_break.mpr (by simpa using hpr)
  refine Stuck.bind (eatSpace_nil h₁) fun se b₂ h₂ => ?_
  split
  case isTrue hse => exact wp_break.mpr (by simpa using hse)
  refine Delivers.get_bind_nil h₂ fun c => ?_
  split
  case isTrue => exact wp_break.mpr rfl
  refine Stuck.bind (eatSpace_nil h₂) fun se b₃ h₃ => ?_
  split
  case isTrue hse => exact wp_break.mpr (by simpa using hse)
  refine Delivers.next_bind_nil h₃ fun b₄ h₄ => ?_
  simp only [not_ok_end D, Bool.not_false, if_true]
  exact wp_break.mpr (not_ok_end D)

theorem parseHeadersAdd_nil {k v : Str} (h : D.At b []) :
    wp (parseHeadersAdd k v) (seqPost (loopNext parseHeadersPass) fun r _ => Rejects r) (b, m) := by
  refine wp_bind.mpr (wp_prim.mpr ?_)
  refine Stuck.bind (eatSpace_nil h) fun se b₁ h₁ => ?_
  dsimp only
  split
  case isTrue hse => exact wp_break.mpr (by simpa using hse)
  refine Delivers.get_bind_nil h₁ fun c => ?_
  split
  case isTrue => exact wp_continue.mpr (parseHeaders_end h₁)
  refine Delivers.next_bind_nil h₁ fun b₂ h₂ => ?_
  simp only [not_ok_end D, Bool.not_false, if_true]
  exact wp_break.mpr (not_ok_end D)

/-- What the grammar does behind a header line. -/
def fieldsNext (m : HTTPMessage) (l : Str) : Option (HTTPMessage × Str) :=
  if l.head? ≠ some charCR then (fields l).map fun r => (m.addHeaders r.1, charLF :: r.2)
  else if l.tail.head? ≠ some charLF then none else some (m, charLF :: l.drop 2)

theorem parseHeadersAdd_spec {k v : Str} {d : Octet} (h : D.At b (d :: l)) (hd : isSP d = false)
    (ih : ∀ b', D.At b' (d :: l) → wp (.loop parseHeadersPass ())
      (Decodes D ((fields (d :: l)).map fun r => ((m.addHeader k v).addHeaders r.1, charLF :: r.2)))
      (b', m.addHeader k v)) :
    wp (parseHeadersAdd k v) (seqPost (loopNext parseHeadersPass)
      (Decodes D (fieldsNext (m.addHeader k v) (d :: l)))) (b, m) := by
  refine wp_bind.mpr (wp_prim.mpr ?_)
  refine D.bind (eatSpace_spec h (by simp)) fun b₁ h₁ => ?_
  rw [List.dropWhile_cons_of_neg (by simp [hd])] at h₁ ⊢
  simp only [setSystemError_endOr_cons, ite_default]
  refine Delivers.get_bind h₁ ?_
  by_cases hcr : d = charCR
  · subst hcr
    simp only [ne_eq, not_true, if_false, fieldsNext, List.head?_cons, List.tail_cons]
    refine Delivers.next_bind h₁ fun b₂ h₂ => ?_
    cases l with
    | nil =>
        simp only [endOr_nil, ite_end D]
        exact wp_break.mpr (not_ok_end D)
    | cons x l =>
        simp only [setSystemError_endOr_cons, ParseResult.ok_default, Bool.not_true, Bool.false_eq_true,
          if_false, List.head?_cons, Option.some.injEq]
        refine Delivers.get_bind h₂ ?_
        split
        case isTrue hx => exact wp_break.mpr rfl
        case isFalse hx =>
          rw [not_not] at hx
          exact wp_break.mpr ⟨rfl, rfl, hx ▸ h₂⟩
  · rw [if_pos hcr, fieldsNext, if_pos (by simpa using hcr)]
    exact wp_continue.mpr (ih b₁ h₁)

theorem map_fields_of_some {k v rest : Str} (hline : fieldLine l = some ((k, v), rest)) :
    (fields l).map (fun r => (m.addHeaders r.1, charLF :: r.2)) = fieldsNext (m.addHeader k v) rest := by
  rw [fields_of_some hline, fieldsNext]
  split
  · rw [Option.map_map]; rfl
  split <;> rfl

theorem parseHeaders_loop (h : D.At b l) (hl : l ≠ []) :
    wp (.loop parseHeadersPass ())
      (Decodes D ((fields l).map fun r => (m.addHeaders r.1, charLF :: r.2))) (b, m) := by
  induction hn : l.length using Nat.strong_induction_on generalizing l b m with
  | _ n ih =>
    subst hn
    -- every way out before the value is read is one where the line is no header line
    have hreject : ∀ {pr : ParseResult} {s : β × HTTPMessage}, fieldLine l = none → pr.ok = false →
        wp (pure (.inr pr)) (seqPost (loopNext parseHeadersPass)
          (Decodes D ((fields l).map fun r => (m.addHeaders r.1, charLF :: r.2)))) s := by
      intro pr s hnone hpr
      rw [fields_of_none hnone]
      exact wp_break.mpr hpr
    refine wp_loop.mpr (Yields.bind (parseToken_spec h hl) ?_ ?_ ?_)
    case refine_2 =>
      intro hnone x s
      rw [Option.map_eq_none_iff] at hnone
      rw [fields_of_none (by simp [fieldLine, hnone])]
      trivial
    case refine_3 =>
      intro hnone pr key s hpr
      rw [Option.map_eq_none_iff] at hnone
      simp only [hpr, Bool.false_eq_true, if_false]
      exact hreject (by simp [fieldLine, hnone]) hpr
    intro key l' b₁ hres h₁
    obtain ⟨l₁, hskip, hkey⟩ := Option.map_eq_some_iff.mp hres
    obtain ⟨rfl, rfl⟩ := Prod.mk.inj hkey
    have hl₁ := (skip_eq_some.mp hskip).2
    simp only [ParseResult.ok_default, if_true]
    refine D.bind (eatSpace_spec h₁ hl₁) fun b₂ h₂ => ?_
    cases hl₂ : l₁.dropWhile isSP with
    | nil =>
        simp only [endOr_nil, ite_end D]
        have hskip₂ : skip isSP l₁ = none := skip_eq_none.mpr hl₂
        exact hreject (by simp [fieldLine, hskip, hskip₂]) (not_ok_end D)
    | cons c l₃ =>
        have hskip₂ : skip isSP l₁ = some (c :: l₃) := skip_eq_some.mpr ⟨hl₂, by simp⟩
        rw [hl₂] at h₂
        simp only [setSystemError_endOr_cons, ite_default]
        refine Delivers.get_bind h₂ ?_
        by_cases hc : c = 58
        case neg =>
          rw [if_pos hc]
          exact hreject (by simp [fieldLine, hskip, hskip₂, octet, hc]) rfl
        subst hc
        rw [if_neg (by simp)]
        refine D.bind (eatSpace_spec h₂ (by simp)) fun b₃ h₃ => ?_
        rw [List.dropWhile_cons_of_neg (by decide)] at h₃ ⊢
        simp only [setSystemError_endOr_cons, ite_default]
        refine Delivers.next_bind h₃ fun b₄ h₄ => ?_
        have hline : fieldLine l = (fieldValue .psStart l₃).bind fun r =>
            some (((l.takeWhile isToken).map tolower, r.1), r.2) := by
          simp [fieldLine, hskip, hskip₂, octet]
        cases l₃ with
        | nil =>
            simp only [endOr_nil, ite_end D]
            exact hreject (by rw [hline]; rfl) (not_ok_end D)
        | cons d l₃ =>
            simp only [setSystemError_endOr_cons, ite_default]
            refine wp_bind.mpr (wp_mono (parseFieldValue_spec h₄ (by simp)) ?_)
            rintro r ⟨b₅, m'⟩ hr
            cases hv : fieldValue .psStart (d :: l₃) with
            | none =>
                rw [hv] at hr hline
                obtain ⟨rfl, pr, v, rfl, hpr, heof⟩ := hr
                simp only [seqPost_ok, hpr, Bool.false_or]
                split
                case isTrue hpe =>
                  rw [fields_of_none hline]
                  exact parseHeadersAdd_nil (heof hpe)
                case isFalse => exact hreject hline hpr
            | some res =>
                obtain ⟨v, rest⟩ := res
                rw [hv] at hr hline
                obtain ⟨rfl, rfl, hrest⟩ := hr
                obtain ⟨x, l', rfl, hx⟩ := fieldValue_rest hv
                simp only [seqPost_ok, ParseResult.ok_default, Bool.true_or, if_true, List.nil_append]
                rw [map_fields_of_some hline]
                exact parseHeadersAdd_spec hrest hx fun b' h' =>
                  ih _ (fieldLine_length hline) h' (by simp) rfl

/-- The header section ends on the LF of the empty line. -/
theorem parseHeaders_spec (h : D.At b l) (hl : l ≠ []) :
    wp parseHeaders
      (Decodes D ((headerSection l).map fun r => (m.addHeaders r.1, charLF :: r.2))) (b, m) := by
  refine D.bind (eatSpace_spec h hl) fun b' h' => ?_
  rw [headerSection]
  cases hs : l.dropWhile isSP with
  | nil =>
      rw [hs] at h'
      have hnone : fields [] = none := fields_of_none rfl
      rw [hnone]
      exact parseHeaders_end h'
  | cons c l' =>
      rw [hs] at h'
      exact parseHeaders_loop h' (by simp)

end HTTPMessage
end Dodo.Network.Http
