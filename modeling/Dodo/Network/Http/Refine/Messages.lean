import Dodo.Network.Http.Refine.Scanners

/-!
# `Http.Refine.Messages` — bodies, start lines and whole messages

`HTTPRequest.parse_spec` and `HTTPResponse.parse_spec` are the results: over every buffer that delivers the text `l`
and then reports `ecEAGAIN`, the parsers end, with success exactly where the grammar accepts `l`, and
then with the object and at the place the grammar gives.
-/

namespace Dodo.Network.Http

open Common Lib Lib.Comp Grammar

variable {β ω : Type} [VirtualReadBuffer β] {e : SystemError} {D : Delivers β e} {b : β} {o : ω}
  {l : Str}

namespace HTTPMessage

variable {m : HTTPMessage}

/-! ## Bodies -/

theorem parseChunkHex_loop (h : D.At b l) (hl : l ≠ []) (ss : Str) :
    wp (.loop parseChunkHexPass ss) (Yields D (if ss ++ l.takeWhile isxdigit = [] then none else
      (crlf (l.dropWhile isxdigit)).map fun rest => (extractHex (ss ++ l.takeWhile isxdigit), rest)) o)
      (b, o) := by
  induction l generalizing b ss with
  | nil => exact absurd rfl hl
  | cons c l ih =>
      refine wp_loop.mpr (Delivers.get_bind h ?_)
      by_cases hc : isxdigit c = true
      · simp only [hc, if_true, List.dropWhile_cons_of_pos, List.takeWhile_cons_of_pos]
        refine Delivers.next_bind h fun b' h' => ?_
        cases l with
        | nil =>
            simp only [endOr_nil, not_ok_end D, Bool.not_false, if_true, List.dropWhile_nil]
            refine wp_break.mpr ?_
            rw [if_neg (by simp)]
            exact not_ok_end D
        | cons d l =>
            simp only [setSystemError_endOr_cons, ite_default]
            have := ih h' (by simp) (ss ++ [c])
            simp only [List.append_assoc, List.singleton_append] at this
            exact wp_continue.mpr this
      · rw [if_neg hc, List.dropWhile_cons_of_neg hc, List.takeWhile_cons_of_neg hc, List.append_nil]
        cases ss with
        | nil =>
            simp only [List.length_nil, if_true]
            exact wp_break.mpr rfl
        | cons x ss =>
            rw [if_neg (by simp), if_neg (by simp)]
            refine Decodes.bind (parseCRLF_spec h (by simp)) ?_ ?_ ?_
            · intro o' l' b' hres h'
              obtain ⟨rest, hrest, hpair⟩ := Option.map_eq_some_iff.mp hres
              obtain ⟨rfl, rfl⟩ := Prod.mk.inj hpair
              rw [hrest]
              exact wp_break.mpr ⟨rfl, rfl, h'⟩
            · intro hnone x s
              rw [Option.map_eq_none_iff] at hnone
              rw [hnone]
              trivial
            · intro hnone pr s hpr
              rw [Option.map_eq_none_iff] at hnone
              rw [hnone]
              exact wp_break.mpr hpr

theorem parseChunkHex_spec (h : D.At b l) (hl : l ≠ []) :
    wp parseChunkHex (Yields D (chunkHex l) o) (b, o) := by
  have := parseChunkHex_loop (o := o) h hl []
  rw [List.nil_append] at this
  have heq : chunkHex l = if l.takeWhile isxdigit = [] then none else
      (crlf (l.dropWhile isxdigit)).map fun rest => (extractHex (l.takeWhile isxdigit), rest) := by
    simp only [chunkHex]
    split
    · rfl
    · cases crlf (l.dropWhile isxdigit) <;> rfl
  rwa [heq]

/-- A chunk of `n` octets needs one more octet behind it. -/
theorem parseChunk_loop {n i : Nat} (hi : i ≤ n) (h : D.At b l) (hl : l ≠ []) :
    wp (.loop (parseChunkPass n) i) (Decodes D (if n - i < l.length then
      some (m.appendAll (l.take (n - i)), l.drop (n - i)) else none)) (b, m) := by
  induction hk : n - i generalizing i b l m with
  | zero =>
      refine wp_loop.mpr ?_
      rw [parseChunkPass, if_neg (by omega), if_pos (List.length_pos_of_ne_nil hl)]
      exact wp_break.mpr ⟨rfl, by simp, h⟩
  | succ k ih =>
      obtain ⟨c, l, rfl⟩ := List.exists_cons_of_ne_nil hl
      refine wp_loop.mpr ?_
      rw [parseChunkPass, if_pos (by omega)]
      refine Delivers.get_bind h (wp_bind.mpr (wp_prim.mpr (Delivers.next_bind h fun b' h' => ?_)))
      cases l with
      | nil =>
          simp only [endOr_nil, ite_end D]
          rw [if_neg (by simp)]
          exact wp_break.mpr (not_ok_end D)
      | cons d l =>
          simp only [setSystemError_endOr_cons, ite_default]
          have := ih (i := i + 1) (m := m.append c) (by omega) h' (by simp) (by omega)
          simp only [append_appendAll, List.length_cons, Nat.add_lt_add_iff_right, List.take_succ_cons,
            List.drop_succ_cons] at this ⊢
          exact wp_continue.mpr this

theorem map_emit {t : Str} {r : Option (Str × Str)} :
    (emit t r).map (fun r => (m.appendAll r.1, r.2)) =
      r.map fun r => ((m.appendAll t).appendAll r.1, r.2) := by
  cases r <;> simp [emit]

theorem parseChunkedBody_spec (h : D.At b l) (hl : l ≠ []) :
    wp parseChunkedBody (Decodes D ((chunks l).map fun r => (m.appendAll r.1, r.2))) (b, m) := by
  induction hn : l.length using Nat.strong_induction_on generalizing l b m with
  | _ n ih =>
    subst hn
    refine wp_loop.mpr (Yields.bind (parseChunkHex_spec h hl) ?_ ?_ ?_)
    · intro n rest b₁ hhex h₁
      simp only [ParseResult.ok_default, if_true]
      split
      case isTrue hn =>
        rw [chunks_of_zero (hn ▸ hhex)]
        exact wp_break.mpr ⟨rfl, by simp, h₁⟩
      case isFalse hn =>
        rw [chunks_of_pos hhex hn]
        have hrest := (chunkHex_eq_some.mp hhex).2.2.2
        have hchunk := parseChunk_loop (m := m) (Nat.zero_le n) h₁ hrest
        rw [Nat.sub_zero] at hchunk
        by_cases hlen : n < rest.length
        case neg =>
          have hdrop : rest.drop n = [] := List.drop_eq_nil_of_le (by omega)
          rw [hdrop]
          rw [if_neg hlen] at hchunk
          refine Decodes.bind hchunk (fun _ _ _ hres => by cases hres) (fun _ _ _ => trivial) ?_
          intro _ pr s hpr
          simp only [hpr, Bool.not_false, if_true]
          exact wp_break.mpr hpr
        rw [if_pos hlen] at hchunk
        refine D.bind hchunk fun b₂ h₂ => ?_
        simp only [ParseResult.ok_default, Bool.not_true, Bool.false_eq_true, if_false]
        have hdrop : rest.drop n ≠ [] := by simpa using hlen
        refine Decodes.bind (parseCRLF_spec h₂ hdrop) ?_ ?_ ?_
        · intro m' l' b₃ hres h₃
          obtain ⟨rest', hcrlf, hpair⟩ := Option.map_eq_some_iff.mp hres
          obtain ⟨rfl, rfl⟩ := Prod.mk.inj hpair
          simp only [hcrlf, ParseResult.ok_default, Bool.not_true, Bool.false_eq_true, if_false,
            Option.bind_some, map_emit]
          have hlt : rest'.length < l.length := by
            have h₁ := chunkHex_length hhex
            have h₂ := crlf_length hcrlf
            rw [List.length_drop] at h₂
            omega
          exact wp_continue.mpr (ih _ hlt h₃ (crlf_eq_some.mp hcrlf).2 rfl)
        · intro hnone x s
          rw [Option.map_eq_none_iff] at hnone
          rw [hnone]
          trivial
        · intro hnone pr s hpr
          rw [Option.map_eq_none_iff] at hnone
          simp only [hnone, hpr, Bool.not_false, if_true]
          exact wp_break.mpr hpr
    · intro hnone x s
      rw [chunks_of_none hnone]
      trivial
    · intro hnone pr n s hpr
      rw [chunks_of_none hnone]
      simp only [hpr, Bool.false_eq_true, if_false]
      exact wp_break.mpr hpr

theorem parseContent_loop {n i : Nat} (hi : i ≤ n) (h : D.At b l) (hl : l ≠ []) :
    wp (.loop (parseContentPass n) (i, {}))
      (Decodes D ((content (n - i) l).map fun r => (m.appendAll r.1, r.2))) (b, m) := by
  induction hk : n - i generalizing i b l m with
  | zero =>
      refine wp_loop.mpr ?_
      rw [parseContentPass, if_neg (by omega)]
      exact wp_break.mpr ⟨rfl, by simp, h⟩
  | succ k ih =>
      obtain ⟨c, l, rfl⟩ := List.exists_cons_of_ne_nil hl
      refine wp_loop.mpr ?_
      rw [parseContentPass, if_pos (by omega)]
      refine Delivers.get_bind h (wp_bind.mpr (wp_prim.mpr ?_))
      cases k with
      | zero =>
          -- the last octet of the body: there is no `next()` behind it
          rw [if_neg (by omega)]
          refine wp_continue.mpr (wp_loop.mpr ?_)
          rw [parseContentPass, if_neg (by omega)]
          exact wp_break.mpr ⟨rfl, rfl, h⟩
      | succ k =>
          rw [if_pos (by omega)]
          refine Delivers.next_bind h fun b' h' => ?_
          cases l with
          | nil =>
              simp only [endOr_nil, ite_end D]
              have hnone : content (k + 1 + 1) [c] = none := by simp [content]
              rw [hnone]
              exact wp_break.mpr (not_ok_end D)
          | cons d l =>
              simp only [setSystemError_endOr_cons, ite_default]
              have := ih (i := i + 1) (m := m.append c) (by omega) h' (by simp) (by omega)
              rw [content_succ, map_emit]
              exact wp_continue.mpr this

theorem parseContent_spec {n : Nat} (h : D.At b l) (hl : l ≠ []) :
    wp (parseContent n) (Decodes D ((content n l).map fun r => (m.appendAll r.1, r.2))) (b, m) :=
  parseContent_loop (Nat.zero_le n) h hl

theorem parseUntilClose_spec (h : D.At b l) (hl : l ≠ []) :
    wp HTTPResponse.parseUntilClose (Decodes D (some (m.appendAll l, []))) (b, m) := by
  induction l generalizing b m with
  | nil => exact absurd rfl hl
  | cons c l ih =>
      refine wp_loop.mpr (Delivers.get_bind h (wp_bind.mpr (wp_prim.mpr ?_)))
      refine Delivers.next_bind h fun b' h' => ?_
      cases l with
      | nil =>
          simp only [endOr_nil, not_ok_end D, Bool.false_eq_true, if_false]
          exact wp_break.mpr ⟨rfl, rfl, h'⟩
      | cons d l =>
          simp only [setSystemError_endOr_cons, ParseResult.ok_default, if_true]
          have := ih (m := m.append c) h' (by simp)
          rw [append_appendAll] at this
          exact wp_continue.mpr this

/-- The branch without headers, over an object `ω` that has the message `m` as a part. -/
theorem parseBare_spec {ω : Type} {o : ω} {c : Octet} (put : HTTPMessage → ω)
    {parseBody : Comp (β × ω) Exn ParseResult} {body : HTTPMessage → Str → Option (HTTPMessage × Str)}
    (ho : put m = o) (h : D.At b (c :: l))
    (hbody : ∀ {b' l'}, D.At b' l' → l' ≠ [] →
      wp parseBody (Decodes D ((body m l').map fun r => (put r.1, r.2))) (b', o)) :
    wp (parseBare parseBody) (Decodes D ((bare body m l).map fun r => (put r.1, r.2))) (b, o) := by
  refine Delivers.next_cases h ?_ ?_
  · rintro rfl b₁ h₁
    simp only [not_ok_end D, Bool.false_eq_true, if_false]
    exact wp_pure.mpr ⟨rfl, ho.symm, h₁⟩
  rintro d l b₁ rfl h₁
  simp only [ParseResult.setSystemError_ecOK, ParseResult.ok_default, if_true]
  refine Delivers.get_bind h₁ ?_
  by_cases hd : d = charLF
  case neg =>
    rw [if_neg hd, bare, if_pos hd]
    exact wp_pure.mpr ⟨rfl, ho.symm, h₁⟩
  subst hd
  rw [if_pos rfl, bare, if_neg (by simp)]
  refine Delivers.next_cases h₁ ?_ ?_
  · rintro rfl b₂ -
    simp only [not_ok_end D, Bool.false_eq_true, if_false]
    exact wp_pure.mpr (not_ok_end D)
  · rintro x l b₂ rfl h₂
    simp only [ParseResult.setSystemError_ecOK, ParseResult.ok_default, if_true]
    rw [if_neg (by simp)]
    exact hbody h₂ (by simp)

end HTTPMessage

/-! ## The version -/

namespace HTTPVersion

variable {o : HTTPVersion} {v : Vars}

/-- The loop is left with the error of a failed `next()`; the members are not assigned then. -/
theorem parse_end (D : Delivers β e) (hv : v.parseResult = .setSystemError e) :
    wp (.loop parsePass v) (fun r s => Rejects r ∧ s.2 = o) (b, o) := by
  have herr : (ParseResult.setSystemError e).systemError ≠ .ecOK := by
    simp [ParseResult.setSystemError, D.err_ne]
  refine wp_loop.mpr ?_
  simp only [parsePass, hv, not_ok_end D, Bool.false_and, Bool.false_eq_true, if_false, herr]
  exact wp_break.mpr ⟨not_ok_end D, rfl⟩

theorem parse_step {Q : Except Exn ParseResult → β × HTTPVersion → Prop} {s : β × HTTPVersion}
    (hpr : v.parseResult = {}) (hs : v.state ≠ .ssDone)
    (hstep : wp (step v) (seqPost (loopNext parsePass) Q) s) : wp (.loop parsePass v) Q s := by
  refine wp_loop.mpr ?_
  simp only [parsePass, hpr, ParseResult.ok_default, Bool.true_and, ne_eq, hs, not_false_eq_true,
    decide_true, if_true]
  exact hstep

/-- A state that expects one octet. -/
theorem parse_expect {c : Octet} {s' : State} {k : Str → Option (HTTPVersion × Str)} (h : D.At b l)
    (hstep : step (β := β) (ω := HTTPVersion) v = expect c s' v) (hs : v.state ≠ .ssDone)
    (hpr : v.parseResult = .setSystemError (endOr e l))
    (hnext : ∀ l' b', D.At b' l' →
      wp (.loop parsePass { v with state := s', parseResult := .setSystemError (endOr e l') })
        (Leaves D (k l') o) (b', o)) :
    wp (.loop parsePass v) (Leaves D ((octet c l).bind k) o) (b, o) := by
  cases l with
  | nil => exact parse_end D hpr
  | cons d l =>
      refine parse_step (by rw [hpr, setSystemError_endOr_cons]) hs ?_
      rw [hstep]
      refine Delivers.get_bind h ?_
      simp only [octet]
      split
      · exact Delivers.next_bind h fun b' h' => wp_continue.mpr (hnext l b' h')
      · exact wp_break.mpr ⟨rfl, rfl⟩

/-- A state that reads a run of octets. `f acc` are the variables while the run is read, `g acc` behind
    it; `acc` is what has been collected. -/
theorem parse_run {p : Octet → Bool} {f : Str → ParseResult → Vars} {g : Str → Vars}
    {k : Str → Str → Option (HTTPVersion × Str)}
    (hstep : ∀ acc, step (β := β) (ω := HTTPVersion) (f acc {}) = (do
      let c ← get
      if !p c then pure (.inl (g acc)) else
      let se ← next
      pure (.inl (f (acc ++ [c]) (.setSystemError se)))))
    (hs : ∀ acc pr, (f acc pr).state ≠ .ssDone) (hpr : ∀ acc pr, (f acc pr).parseResult = pr)
    (hnext : ∀ acc l' b', l' ≠ [] → D.At b' l' → wp (.loop parsePass (g acc)) (Leaves D (k acc l') o) (b', o))
    (h : D.At b l) (acc : Str) :
    wp (.loop parsePass (f acc (.setSystemError (endOr e l))))
      (Leaves D ((skip p l).bind (k (acc ++ l.takeWhile p))) o) (b, o) := by
  induction l generalizing b acc with
  | nil => exact parse_end D (hpr _ _)
  | cons c l ih =>
      rw [setSystemError_endOr_cons]
      refine parse_step (hpr _ _) (hs _ _) ?_
      rw [hstep]
      refine Delivers.get_bind h ?_
      by_cases hc : p c = true
      · simp only [hc, Bool.not_true, Bool.false_eq_true, if_false]
        refine Delivers.next_bind h fun b' h' => wp_continue.mpr ?_
        have := ih h' (acc ++ [c])
        simpa only [skip, List.dropWhile_cons_of_pos hc, List.takeWhile_cons_of_pos hc,
          List.append_assoc, List.singleton_append] using this
      · rw [Bool.not_eq_true] at hc
        have hskip : skip p (c :: l) = some (c :: l) := by simp [skip, hc]
        rw [hskip, List.takeWhile_cons_of_neg (by simp [hc]), List.append_nil]
        simp only [hc, Bool.not_false, if_true]
        exact wp_continue.mpr (hnext acc _ b (by simp) h)

/-- The loop is left after a complete version, and the members are assigned. -/
theorem parse_done {major minor : Str} (h : D.At b l) :
    wp (.loop parsePass { state := .ssDone, major, minor }) (Leaves D (some
      ({ major_ := extractUInt major o.major_, minor_ := extractUInt minor o.minor_ }, l)) o) (b, o) := by
  refine wp_loop.mpr ?_
  simp only [parsePass, ne_eq, not_true, decide_false, Bool.and_false, Bool.false_eq_true, if_false,
    if_true]
  exact wp_bind.mpr (wp_prim.mpr (wp_break.mpr ⟨rfl, rfl, h⟩))

theorem setSystemError_of_ne_nil (hl : l ≠ []) :
    ({} : ParseResult) = .setSystemError (endOr e l) := by simp [endOr, hl]

/-- A version that is not read is left as it was. -/
theorem parse_leaves (h : D.At b l) (hl : l ≠ []) : wp parse (Leaves D (version o l) o) (b, o) := by
  -- the states in the order of the text, each handing what is left to the next one
  have hstart := parse_run (D := D) (o := o) (p := isspace)
    (f := fun _ parseResult => { state := .ssStart, parseResult }) (g := fun _ => { state := .ssHttp })
    (k := fun _ l => do
      let l ← octet 72 l
      let l ← octet 84 l
      let l ← octet 84 l
      let l ← octet 80 l
      let l₁ ← octet 47 l
      let l₂ ← skip isdigit l₁
      let l₃ ← octet 46 l₂
      let l₄ ← skip isdigit l₃
      some ({ major_ := extractUInt (l₁.takeWhile isdigit) o.major_,
              minor_ := extractUInt (l₃.takeWhile isdigit) o.minor_ }, l₄))
    (fun _ => rfl) (fun _ _ => State.noConfusion) (fun _ _ => rfl) ?_ h []
  · rwa [← setSystemError_of_ne_nil hl] at hstart
  intro _ l b hne h
  refine parse_expect h rfl (by simp) (setSystemError_of_ne_nil hne) fun l b h => ?_
  refine parse_expect h rfl (by simp) rfl fun l b h => ?_
  refine parse_expect h rfl (by simp) rfl fun l b h => ?_
  refine parse_expect h rfl (by simp) rfl fun l b h => ?_
  refine parse_expect h rfl (by simp) rfl fun l b h => ?_
  refine parse_run (f := fun major parseResult => { state := .ssMajor, major, parseResult })
    (g := fun major => { state := .ssDot, major })
    (k := fun major l₂ => do
      let l₃ ← octet 46 l₂
      let l₄ ← skip isdigit l₃
      some ({ major_ := extractUInt major o.major_,
              minor_ := extractUInt (l₃.takeWhile isdigit) o.minor_ }, l₄))
    (fun _ => rfl) (fun _ _ => State.noConfusion) (fun _ _ => rfl) ?_ h []
  intro major l b hne h
  refine parse_expect h rfl (by simp) (setSystemError_of_ne_nil hne) fun l b h => ?_
  refine parse_run (f := fun minor parseResult => { state := .ssMinor, major, minor, parseResult })
    (g := fun minor => { state := .ssDone, major, minor })
    (k := fun minor l₄ => some ({ major_ := extractUInt major o.major_,
                                  minor_ := extractUInt minor o.minor_ }, l₄))
    (fun _ => rfl) (fun _ _ => State.noConfusion) (fun _ _ => rfl) ?_ h []
  exact fun minor l b _ h => parse_done h

theorem parse_spec (h : D.At b l) (hl : l ≠ []) : wp parse (Decodes D (version o l)) (b, o) :=
  wp_mono (parse_leaves h hl) fun _ _ => Leaves.decodes

end HTTPVersion

/-- A parser that works on a part of the object. -/
theorem part_spec {ω' : Type} {view : ω → ω'} (put : ω' → ω → ω) {p : Comp (β × ω') Exn ParseResult}
    {res : Option (ω' × Str)} (hp : wp p (Decodes D res) (b, view o)) :
    wp (part view put p) (Decodes D (res.map fun r => (put r.1 o, r.2))) (b, o) := by
  refine wp_zoom.mpr (wp_mono hp ?_)
  rintro r ⟨b', o'⟩ hr
  cases res with
  | none => exact hr
  | some v =>
      obtain ⟨rfl, rfl, hat⟩ := hr
      exact ⟨rfl, rfl, hat⟩

/-- Sequencing behind the parser of a part, where the rest of the grammar is `k`. -/
theorem part_seq {ω' : Type} {view : ω → ω'} (put : ω' → ω → ω) {p : Comp (β × ω') Exn ParseResult}
    {f : ParseResult → Comp (β × ω) Exn ParseResult} {res : Option (ω' × Str)} {k : ω' × Str → Option (ω × Str)}
    (hp : wp p (Decodes D res) (b, view o))
    (hok : ∀ x l' b', res = some (x, l') → D.At b' l' → wp (f {}) (Decodes D (k (x, l'))) (b', put x o))
    (hfail : ∀ parseResult s, parseResult.ok = false → wp (f parseResult) (fun r _ => Rejects r) s) :
    wp (part view put p >>= f) (Decodes D (res.bind k)) (b, o) := by
  refine Decodes.bind (part_spec put hp) ?_ ?_ ?_
  · intro o' l' b' hres h'
    obtain ⟨⟨x, rest⟩, rfl, hpair⟩ := Option.map_eq_some_iff.mp hres
    obtain ⟨rfl, rfl⟩ := Prod.mk.inj hpair
    exact hok x rest b' rfl h'
  · intro hnone x s
    obtain rfl := Option.map_eq_none_iff.mp hnone
    exact trivial
  · intro hnone parseResult s hpr
    obtain rfl := Option.map_eq_none_iff.mp hnone
    exact hfail parseResult s hpr

/-! ## The request line -/

namespace HTTPRequestLine

open HTTPMessage

variable {o : HTTPRequestLine} {ms : Str} {state : ParseState} {parseResult : ParseResult}

theorem parse_end {s : β × HTTPRequestLine} (hs : state ≠ .psDone) (hpr : parseResult.ok = false) :
    wp (.loop parsePass (state, ms, parseResult)) (fun r s' => Rejects r ∧ s'.2 = s.2) s := by
  refine wp_loop.mpr ?_
  simp only [parsePass, ne_eq, hs, not_false_eq_true, decide_true, hpr, Bool.and_false,
    Bool.false_eq_true, if_false]
  exact wp_break.mpr ⟨rfl, rfl⟩

theorem parse_step {Q : Except Exn ParseResult → β × HTTPRequestLine → Prop} {s : β × HTTPRequestLine}
    (hs : state ≠ .psDone) (hstep : wp (step state ms) (seqPost (loopNext parsePass) Q) s) :
    wp (.loop parsePass (state, ms, {})) Q s := by
  refine wp_loop.mpr ?_
  simp only [parsePass, ne_eq, hs, not_false_eq_true, decide_true, ParseResult.ok_default, Bool.and_true,
    if_true]
  exact hstep

/-- What is left of the grammar of a request line at its CR LF, behind the request URI and at its start;
    `ms` is the method. -/
def lineEnd (ms : Str) (o : HTTPRequestLine) (l : Str) : Option (HTTPRequestLine × Str) :=
  (crlf l).bind fun rest =>
    if Method.methodFromString ms = .meINVALID then none
    else some ({ o with method_ := .methodFromString ms }, rest)

@[inherit_doc lineEnd]
def lineVersion (ms : Str) (o : HTTPRequestLine) (l : Str) : Option (HTTPRequestLine × Str) :=
  (version o.http_version_ l).bind fun r =>
    (skip isSP r.2).bind fun rest => lineEnd ms { o with http_version_ := r.1 } rest

@[inherit_doc lineEnd]
def lineURI (ms : Str) (o : HTTPRequestLine) (l : Str) : Option (HTTPRequestLine × Str) :=
  (skip nonspace l).bind fun rest =>
    lineVersion ms { o with request_uri_ := o.request_uri_ ++ l.takeWhile nonspace } rest

theorem requestLine_eq : requestLine o l = (skip nonspace l).bind fun l₁ =>
    (skip isSP l₁).bind fun l₂ => lineURI (l.takeWhile nonspace) { o with request_uri_ := [] } l₂ := rfl

/-- The request line that is left where it is not accepted: a method is assigned at the end of the line only, a version
    at its own end. -/
def leftEnd (ms : Str) (o : HTTPRequestLine) (l : Str) : HTTPRequestLine :=
  match crlf l with
  | none => o
  | some _ => { o with method_ := .methodFromString ms }

@[inherit_doc leftEnd]
def leftVersion (ms : Str) (o : HTTPRequestLine) (l : Str) : HTTPRequestLine :=
  match version o.http_version_ l with
  | none => o
  | some (v, rest) =>
    match skip isSP rest with
    | none => { o with http_version_ := v }
    | some rest => leftEnd ms { o with http_version_ := v } rest

@[inherit_doc leftEnd]
def leftURI (ms : Str) (o : HTTPRequestLine) (l : Str) : HTTPRequestLine :=
  match skip nonspace l with
  | none => { o with request_uri_ := o.request_uri_ ++ l.takeWhile nonspace }
  | some rest => leftVersion ms { o with request_uri_ := o.request_uri_ ++ l.takeWhile nonspace } rest

@[inherit_doc leftEnd]
def leftMethod (ms : Str) (o : HTTPRequestLine) (l : Str) : HTTPRequestLine :=
  match (skip nonspace l).bind (skip isSP) with
  | none => o
  | some rest => leftURI (ms ++ l.takeWhile nonspace) o rest

theorem parse_done (h : D.At b l) :
    wp (.loop parsePass (.psDone, ms, {})) (Leaves D
      (if Method.methodFromString ms = .meINVALID then none
       else some ({ o with method_ := .methodFromString ms }, l)) { o with method_ := .methodFromString ms }) (b, o) := by
  refine wp_loop.mpr ?_
  simp only [parsePass, ne_eq, not_true, decide_false, Bool.false_and, Bool.false_eq_true, if_false,
    if_true]
  refine wp_bind.mpr (wp_prim.mpr ?_)
  dsimp only [seqPost_ok]
  split
  · exact wp_break.mpr ⟨rfl, rfl⟩
  · exact wp_break.mpr ⟨rfl, rfl, h⟩

theorem parse_cr (h : D.At b l) (hl : l ≠ []) :
    wp (.loop parsePass (.psHTTPVersionCR, ms, {})) (Leaves D (lineEnd ms o l) (leftEnd ms o l)) (b, o) := by
  obtain ⟨c, l, rfl⟩ := List.exists_cons_of_ne_nil hl
  refine parse_step (by simp) (Delivers.get_bind h ?_)
  split
  case isFalse hc =>
    rw [lineEnd, leftEnd, crlf_of_ne_cr hc]
    exact wp_break.mpr ⟨rfl, rfl⟩
  case isTrue hc =>
    subst hc
    refine Delivers.next_cases h ?_ ?_
    · rintro rfl b₁ -
      simp only [ite_end D]
      exact wp_break.mpr ⟨not_ok_end D, rfl⟩
    rintro d l b₁ rfl h₁
    refine wp_continue.mpr (parse_step (by simp) (Delivers.get_bind h₁ ?_))
    split
    case isFalse hd =>
      rw [lineEnd, leftEnd, crlf_of_ne_lf hd]
      exact wp_break.mpr ⟨rfl, rfl⟩
    case isTrue hd =>
      subst hd
      refine Delivers.next_cases h₁ ?_ ?_
      · rintro rfl b₂ -
        simp only [ite_end D]
        exact wp_break.mpr ⟨not_ok_end D, rfl⟩
      rintro x l b₂ rfl h₂
      exact wp_continue.mpr (parse_done h₂)

theorem parse_version (h : D.At b l) (hl : l ≠ []) :
    wp (.loop parsePass (.psRequestURIEnd, ms, {})) (Leaves D (lineVersion ms o l) (leftVersion ms o l)) (b, o) := by
  have hversion := HTTPVersion.parse_leaves (D := D) (b := b) (o := o.http_version_) h hl
  refine parse_step (by simp) (wp_bind.mpr ?_)
  rw [parseVersion, part]
  refine wp_zoom.mpr (wp_mono hversion ?_)
  rintro r ⟨b₁, v'⟩ hr
  unfold lineVersion leftVersion
  cases hv : version o.http_version_ l with
  | none =>
      rw [hv] at hr
      obtain ⟨hrejects, rfl⟩ := hr
      cases r with
      | error x => exact ⟨trivial, rfl⟩
      | ok parseResult =>
          have hpr : parseResult.ok = false := hrejects
          simp only [seqPost_ok, hpr, Bool.false_eq_true, if_false]
          exact wp_break.mpr ⟨hpr, rfl⟩
  | some v =>
      obtain ⟨v, rest⟩ := v
      rw [hv] at hr
      obtain ⟨rfl, rfl, h₁⟩ := hr
      simp only [seqPost_ok, ParseResult.ok_default, if_true, Option.bind_some]
      refine D.bind (eatSpace_spec h₁ (version_rest hv)) fun b₂ h₂ => wp_continue.mpr ?_
      cases hs : rest.dropWhile isSP with
      | nil =>
          rw [skip_eq_none.mpr hs, endOr_nil]
          exact parse_end (by simp) (not_ok_end D)
      | cons c l' =>
          rw [skip_eq_some.mpr ⟨hs, by simp⟩, setSystemError_endOr_cons]
          exact parse_cr (hs ▸ h₂) (by simp)

theorem parse_uri (h : D.At b l) (hl : l ≠ []) :
    wp (.loop parsePass (.psRequestURIStart, ms, {})) (Leaves D (lineURI ms o l) (leftURI ms o l)) (b, o) := by
  induction l generalizing b o with
  | nil => exact absurd rfl hl
  | cons c l ih =>
      refine parse_step (by simp) (Delivers.get_bind h ?_)
      by_cases hc : isspace c = true
      · have hskip : skip nonspace (c :: l) = some (c :: l) := by simp [skip, nonspace, hc]
        rw [if_pos hc, lineURI, leftURI, hskip, List.takeWhile_cons_of_neg (by simp [nonspace, hc]), List.append_nil]
        exact wp_continue.mpr (parse_version h hl)
      · have hn : nonspace c = true := by simp [nonspace, hc]
        rw [if_neg hc]
        refine wp_bind.mpr (wp_prim.mpr (Delivers.next_cases h ?_ ?_))
        · rintro rfl b₁ -
          simp only [ite_end D, lineURI, leftURI, skip, List.dropWhile_cons_of_pos hn, List.takeWhile_cons_of_pos hn,
            List.dropWhile_nil, if_true]
          exact wp_break.mpr ⟨not_ok_end D, rfl⟩
        · rintro d l' b₁ rfl h₁
          have := ih (o := { o with request_uri_ := o.request_uri_ ++ [c] }) h₁ (by simp)
          simp only [lineURI, leftURI, skip, List.dropWhile_cons_of_pos hn, List.takeWhile_cons_of_pos hn,
            List.append_assoc, List.singleton_append] at this ⊢
          simp only [ParseResult.setSystemError_ecOK, ite_default]
          exact wp_continue.mpr this

theorem parse_method (h : D.At b l) (hl : l ≠ []) (ms : Str) :
    wp (.loop parsePass (.psMethodStart, ms, {})) (Leaves D ((skip nonspace l).bind fun l₁ =>
      (skip isSP l₁).bind fun l₂ => lineURI (ms ++ l.takeWhile nonspace) o l₂) (leftMethod ms o l)) (b, o) := by
  induction l generalizing b ms with
  | nil => exact absurd rfl hl
  | cons c l ih =>
      refine parse_step (by simp) (Delivers.get_bind h ?_)
      by_cases hc : isspace c = true
      · have hskip : skip nonspace (c :: l) = some (c :: l) := by simp [skip, nonspace, hc]
        rw [if_pos hc, leftMethod, hskip, List.takeWhile_cons_of_neg (by simp [nonspace, hc]), List.append_nil]
        refine wp_continue.mpr (parse_step (by simp) (D.bind (eatSpace_spec h hl) fun b₁ h₁ => ?_))
        rw [Option.bind_some, Option.bind_some]
        cases hs : (c :: l).dropWhile isSP with
        | nil =>
            rw [skip_eq_none.mpr hs]
            simp only [endOr_nil, ite_end D]
            exact wp_break.mpr ⟨not_ok_end D, rfl⟩
        | cons d l' =>
            rw [skip_eq_some.mpr ⟨hs, by simp⟩]
            simp only [setSystemError_endOr_cons, ite_default]
            exact wp_continue.mpr (parse_uri (hs ▸ h₁) (by simp))
      · have hn : nonspace c = true := by simp [nonspace, hc]
        rw [if_neg hc]
        refine Delivers.next_cases h ?_ ?_
        · rintro rfl b₁ -
          simp only [ite_end D, leftMethod, skip, List.dropWhile_cons_of_pos hn, List.dropWhile_nil, if_true]
          exact wp_break.mpr ⟨not_ok_end D, rfl⟩
        · rintro d l' b₁ rfl h₁
          have := ih h₁ (by simp) (ms ++ [c])
          simp only [leftMethod, skip, List.dropWhile_cons_of_pos hn, List.takeWhile_cons_of_pos hn,
            List.append_assoc, List.singleton_append] at this ⊢
          simp only [ParseResult.setSystemError_ecOK, ite_default]
          exact wp_continue.mpr this

theorem parse_leaves (h : D.At b l) (hl : l ≠ []) :
    wp parse (Leaves D (requestLine o l) (leftMethod [] { o with request_uri_ := [] } l)) (b, o) := by
  refine wp_bind.mpr (wp_prim.mpr ?_)
  rw [requestLine_eq]
  exact parse_method h hl []

theorem parse_spec (h : D.At b l) (hl : l ≠ []) : wp parse (Decodes D (requestLine o l)) (b, o) :=
  wp_mono (parse_leaves h hl) fun _ _ => Leaves.decodes

end HTTPRequestLine

/-! ## The status line -/

namespace HTTPResponseLine

open HTTPMessage

theorem skipReason_spec (h : D.At b l) (hl : l ≠ []) :
    wp skipReason (Decodes D ((skip notCR l).map fun rest => (o, rest))) (b, o) := by
  induction l generalizing b with
  | nil => exact absurd rfl hl
  | cons c l ih =>
      refine wp_loop.mpr (Delivers.get_bind h ?_)
      by_cases hc : c = charCR
      · have hskip : skip notCR (c :: l) = some (c :: l) := by simp [skip, notCR, hc]
        rw [if_neg (by simpa using hc), hskip]
        exact wp_break.mpr ⟨rfl, rfl, h⟩
      · have hn : notCR c = true := by simp [notCR, hc]
        rw [if_pos hc]
        refine Delivers.next_cases h ?_ ?_
        · rintro rfl b₁ -
          simp only [ite_end D, skip, List.dropWhile_cons_of_pos hn, List.dropWhile_nil, if_true]
          exact wp_break.mpr (not_ok_end D)
        · rintro d l' b₁ rfl h₁
          have := ih h₁ (by simp)
          simp only [skip, List.dropWhile_cons_of_pos hn] at this ⊢
          simp only [ParseResult.setSystemError_ecOK, ite_default]
          exact wp_continue.mpr this

variable {o : HTTPResponseLine}

/-- What is left of the grammar of a status line behind the status code. -/
def lineEnd (o : HTTPResponseLine) (l : Str) : Option (HTTPResponseLine × Str) :=
  (skip notCR l).bind fun l₄ => (crlf l₄).bind fun rest => some (o, rest)

@[inherit_doc lineEnd]
def lineCode (o : HTTPResponseLine) (l : Str) : Option (HTTPResponseLine × Str) :=
  (skip isSP l).bind fun l₂ => (number l₂).bind fun n => lineEnd { o with http_code_ := n.1 } n.2

theorem responseLine_eq : responseLine o l =
    (version o.version_ l).bind fun r => lineCode { o with version_ := r.1 } r.2 := rfl

theorem parse_end (h : D.At b l) (hl : l ≠ []) :
    wp (skipReason >>= fun parseResult => if !parseResult.ok then pure parseResult else parseCRLF)
      (Decodes D (lineEnd o l)) (b, o) := by
  have hline : lineEnd o l = ((skip notCR l).map fun rest => (o, rest)).bind fun r =>
      (crlf r.2).map fun rest => (r.1, rest) := by
    rw [lineEnd, Option.bind_map]
    simp only [Option.map_eq_bind]
    rfl
  rw [hline]
  refine Decodes.seq (skipReason_spec h hl) ?_ ?_
  · intro o' l' b' hres h'
    obtain ⟨rest, hskip, hpair⟩ := Option.map_eq_some_iff.mp hres
    obtain ⟨rfl, rfl⟩ := Prod.mk.inj hpair
    exact parseCRLF_spec h' (skip_eq_some.mp hskip).2
  · intro pr s hpr
    simp only [hpr, Bool.not_false, if_true]
    exact wp_pure.mpr hpr

theorem parse_code (h : D.At b l) (hl : l ≠ []) :
    wp (do
      let parseResult := ParseResult.setSystemError (← eatSpace)
      if !parseResult.ok then pure parseResult else
      let (parseResult, i) ← parseUInt
      if parseResult.ok then
        modifySelf (fun l => { l with http_code_ := i })
        let parseResult ← skipReason
        if !parseResult.ok then pure parseResult else parseCRLF
      else pure parseResult) (Decodes D (lineCode o l)) (b, o) := by
  refine D.bind (eatSpace_spec h hl) fun b₁ h₁ => ?_
  rw [lineCode]
  cases hs : l.dropWhile isSP with
  | nil =>
      rw [skip_eq_none.mpr hs]
      simp only [endOr_nil, ite_end D]
      exact wp_pure.mpr (not_ok_end D)
  | cons c l₂ =>
      rw [hs] at h₁
      rw [skip_eq_some.mpr ⟨hs, by simp⟩]
      simp only [setSystemError_endOr_cons, ite_default, Option.bind_some]
      refine Yields.bind (parseUInt_spec h₁ (by simp)) ?_ ?_ ?_
      · intro n rest b₂ hnum h₂
        simp only [ParseResult.ok_default, if_true, hnum, Option.bind_some]
        exact wp_bind.mpr (wp_prim.mpr (parse_end h₂ (number_rest hnum)))
      · intro hnone x s
        rw [hnone]
        trivial
      · intro hnone pr n s hpr
        simp only [hnone, hpr, Bool.false_eq_true, if_false]
        exact wp_pure.mpr hpr

theorem parse_spec (h : D.At b l) (hl : l ≠ []) : wp parse (Decodes D (responseLine o l)) (b, o) := by
  rw [responseLine_eq]
  refine part_seq _ (HTTPVersion.parse_spec h hl) ?_ ?_
  · intro v rest b₁ hv h₁
    exact parse_code h₁ (version_rest hv)
  · intro pr s hpr
    simp only [hpr, Bool.false_eq_true, if_false]
    exact wp_pure.mpr hpr

end HTTPResponseLine

/-- What follows the start line, behind the headers. The parser of the headers stops at their last LF. -/
theorem messageRest_of_headers {body ending : HTTPMessage → Str → Option (HTTPMessage × Str)} {m : HTTPMessage}
    (hcr : l.head? ≠ some charCR) : messageRest body ending m l =
      ((headerSection l).map fun r => (m.addHeaders r.1, charLF :: r.2)).bind fun x => ending x.1 x.2.tail := by
  rw [messageRest, if_neg hcr, Option.bind_map]
  rfl

/-! ## Requests -/

namespace HTTPRequest

open HTTPMessage

theorem parseBody_spec {m : HTTPMessage} (h : D.At b l) (hl : l ≠ []) :
    wp parseBody (Decodes D (requestBody m l)) (b, m) := by
  refine wp_bind.mpr (wp_prim.mpr (wp_bind.mpr (wp_prim.mpr ?_)))
  rw [requestBody]
  cases hcl : m.getHeaderULong (lit "content-length") with
  | error x => exact trivial
  | ok v =>
      obtain ⟨found, n⟩ := v
      cases found with
      | true => exact parseContent_spec h hl
      | false =>
          refine wp_bind.mpr (wp_prim.mpr ?_)
          dsimp only [seqPost_ok]
          cases hte : m.getHeaderValue (lit "transfer-encoding") with
          | none => exact wp_pure.mpr rfl
          | some te =>
              dsimp only
              simp only [Option.some.injEq]
              split
              · exact parseChunkedBody_spec h hl
              · exact wp_pure.mpr rfl

theorem onMessage_parseBody_spec {r : HTTPRequest} (h : D.At b l) (hl : l ≠ []) :
    wp (onMessage parseBody) (Decodes D ((requestBody r.toHTTPMessage l).map fun x =>
      ({ r with toHTTPMessage := x.1 }, x.2))) (b, r) :=
  part_spec _ (parseBody_spec h hl)

section Ending

-- the stream may end in any error; `ending` says what becomes of a request of which nothing is left behind the headers
variable {ending : HTTPMessage → Str → Option (HTTPMessage × Str)} {r : HTTPRequest}
  (hend : ∀ m, ending m [] = if (ParseResult.setSystemError e).eof then some (m, []) else none)
  (hmore : ∀ m c l, ending m (c :: l) = requestBody m (c :: l))

include hend hmore

theorem parseWithHeaders_ending {c : Octet} (h : D.At b (c :: l)) (hc : c ≠ charCR) :
    wp parseWithHeaders (Decodes D ((messageRest requestBody ending r.toHTTPMessage (c :: l)).map fun x =>
      ({ r with toHTTPMessage := x.1 }, x.2))) (b, r) := by
  rw [messageRest_of_headers (by simpa using hc), Option.map_bind]
  refine part_seq _ (parseHeaders_spec h (by simp)) ?_ ?_
  · intro m l' b₁ hres h₁
    obtain ⟨⟨kvs, rest⟩, -, hpair⟩ := Option.map_eq_some_iff.mp hres
    obtain ⟨rfl, rfl⟩ := Prod.mk.inj hpair
    simp only [Function.comp_apply, List.tail_cons, ite_default]
    refine Delivers.get_bind h₁ ?_
    rw [if_pos rfl]
    refine Delivers.next_cases h₁ ?_ ?_
    · rintro rfl b₂ h₂
      rw [hend]
      simp only [not_ok_end D, Bool.false_eq_true, if_false]
      split
      · exact wp_pure.mpr ⟨rfl, rfl, h₂⟩
      · exact wp_pure.mpr (not_ok_end D)
    · rintro d rest b₂ rfl h₂
      rw [hmore]
      simp only [ParseResult.setSystemError_ecOK, ParseResult.ok_default, if_true]
      exact onMessage_parseBody_spec (r := { r with toHTTPMessage := _ }) h₂ (by simp)
  · intro pr s hpr
    simp only [hpr, Bool.not_false, if_true]
    exact wp_pure.mpr hpr

theorem parse_ending (h : D.At b l) (hl : l ≠ []) :
    wp parse (Decodes D ((requestLine r.request_line_ l).bind fun (line, l₁) =>
      (messageRest requestBody ending r.toHTTPMessage l₁).map fun (m, rest) =>
        ({ toHTTPMessage := m, request_line_ := line }, rest))) (b, r) := by
  refine part_seq _ (HTTPRequestLine.parse_spec h hl) ?_ ?_
  · intro line l' b₁ hline h₁
    obtain ⟨c, l₁, rfl⟩ := List.exists_cons_of_ne_nil (requestLine_rest hline)
    simp only [ParseResult.ok_default, if_true]
    refine Delivers.get_bind h₁ ?_
    split
    case isTrue hc =>
      rw [messageRest, if_pos (by simpa using hc), List.tail_cons]
      exact parseBare_spec (fun m => { r with toHTTPMessage := m, request_line_ := line }) rfl h₁
        onMessage_parseBody_spec
    case isFalse hc => exact parseWithHeaders_ending (r := { r with request_line_ := line }) hend hmore h₁ hc
  · intro pr s hpr
    simp only [hpr, Bool.false_eq_true, if_false]
    exact wp_pure.mpr hpr

end Ending

/-- **The request parser computes the grammar.** -/
theorem parse_spec {D : Delivers β .ecEAGAIN} {r : HTTPRequest} (h : D.At b l) (hl : l ≠ []) :
    wp parse (Decodes D (request r l)) (b, r) :=
  parse_ending (fun _ => rfl) (fun _ _ _ => rfl) h hl

end HTTPRequest

/-! ## Responses -/

namespace HTTPResponse

open HTTPMessage

theorem parseBody_spec {m : HTTPMessage} (h : D.At b l) (hl : l ≠ []) :
    wp parseBody (Decodes D (responseBody m l)) (b, m) := by
  refine wp_bind.mpr (wp_prim.mpr (wp_bind.mpr (wp_prim.mpr ?_)))
  rw [responseBody]
  cases hcl : m.getHeaderULong (lit "content-length") with
  | error x => exact trivial
  | ok v =>
      obtain ⟨found, n⟩ := v
      cases found with
      | true => exact parseContent_spec h hl
      | false =>
          refine wp_bind.mpr (wp_prim.mpr ?_)
          dsimp only [seqPost_ok]
          cases hte : m.getHeaderValue (lit "transfer-encoding") with
          | some te =>
              dsimp only
              split
              · exact parseChunkedBody_spec h hl
              · exact wp_pure.mpr rfl
          | none =>
              refine wp_bind.mpr (wp_prim.mpr ?_)
              dsimp only [seqPost_ok]
              cases hconn : m.getHeaderValue (lit "connection") with
              | none => exact wp_pure.mpr ⟨rfl, rfl, h⟩
              | some conn =>
                  dsimp only
                  split
                  · exact parseUntilClose_spec h hl
                  · exact wp_pure.mpr rfl

theorem onMessage_parseBody_spec {r : HTTPResponse} (h : D.At b l) (hl : l ≠ []) :
    wp (onMessage parseBody) (Decodes D ((responseBody r.toHTTPMessage l).map fun x =>
      ({ r with toHTTPMessage := x.1 }, x.2))) (b, r) :=
  part_spec _ (parseBody_spec h hl)

theorem parseWithHeaders_spec {r : HTTPResponse} {c : Octet} (h : D.At b (c :: l)) (hc : c ≠ charCR) :
    wp parseWithHeaders (Decodes D ((responseRest r.toHTTPMessage (c :: l)).map fun x =>
      ({ r with toHTTPMessage := x.1 }, x.2))) (b, r) := by
  rw [responseRest, messageRest_of_headers (by simpa using hc), Option.map_bind]
  refine part_seq _ (parseHeaders_spec h (by simp)) ?_ ?_
  · intro m l' b₁ hres h₁
    obtain ⟨⟨kvs, rest⟩, -, hpair⟩ := Option.map_eq_some_iff.mp hres
    obtain ⟨rfl, rfl⟩ := Prod.mk.inj hpair
    simp only [Function.comp_apply, List.tail_cons, ite_default]
    rw [responseEnd]
    refine Delivers.get_bind h₁ ?_
    rw [if_pos rfl]
    refine wp_bind.mpr (wp_prim.mpr (wp_bind.mpr (wp_prim.mpr ?_)))
    cases hbody : hasBody (r.toHTTPMessage.addHeaders kvs) with
    | error x => exact trivial
    | ok body =>
        cases body with
        | false => exact wp_pure.mpr ⟨rfl, rfl, h₁⟩
        | true =>
            refine Delivers.next_cases h₁ ?_ ?_
            · rintro rfl b₂ h₂
              simp only [not_ok_end D, Bool.false_eq_true, if_false, ite_self]
              exact wp_pure.mpr ⟨rfl, rfl, h₂⟩
            · rintro d rest b₂ rfl h₂
              simp only [ParseResult.setSystemError_ecOK, ParseResult.ok_default, if_true]
              rw [if_neg (by simp)]
              exact onMessage_parseBody_spec (r := { r with toHTTPMessage := _ }) h₂ (by simp)
  · intro pr s hpr
    simp only [hpr, Bool.not_false, if_true]
    exact wp_pure.mpr hpr

/-- **The response parser computes the grammar.** -/
theorem parse_spec {r : HTTPResponse} (h : D.At b l) (hl : l ≠ []) :
    wp parse (Decodes D (response r l)) (b, r) := by
  rw [response]
  refine part_seq _ (HTTPResponseLine.parse_spec h hl) ?_ ?_
  · intro line l' b₁ hline h₁
    obtain ⟨c, l₁, rfl⟩ := List.exists_cons_of_ne_nil (responseLine_rest hline)
    simp only [ParseResult.ok_default, if_true]
    refine Delivers.get_bind h₁ ?_
    split
    case isTrue hc =>
      rw [responseRest, messageRest, if_pos (by simpa using hc), List.tail_cons]
      exact parseBare_spec (fun m => { r with toHTTPMessage := m, response_line_ := line }) rfl h₁
        onMessage_parseBody_spec
    case isFalse hc => exact parseWithHeaders_spec (r := { r with response_line_ := line }) h₁ hc
  · intro pr s hpr
    simp only [hpr, Bool.false_eq_true, if_false]
    exact wp_pure.mpr hpr

end HTTPResponse
end Dodo.Network.Http
