import Dodo.Network.Http.Frames
import Dodo.Network.Http.Refine.Messages

/-!
# `Http.NumericHeaders` — the `unsigned long` overload of `getHeaderValue`

`std::stoul` has conventions of its own: it throws where a text does not start with a number that fits, and it
lets white space and a sign come before the digits. The overload hands both on. Its callers are `parseBody` and
`HTTPResponse::hasBody`, on the content-length a peer has sent, so that a parser ends with an exception on some
messages. Everything else in the parsers only returns: `get()` and `next()` do not throw on a buffer that
delivers a text, and no other function of the parsers throws on its own.
-/

namespace Dodo.Network.Http

open Common Lib Lib.Comp

variable {β ω : Type} [VirtualReadBuffer β] {e : SystemError} {D : Delivers β e}

/-! ## Scanners do not throw -/

variable (D) in
/-- The buffer is at some place of a text, and the object has the property `P`. -/
def Ready (P : ω → Prop) (s : β × ω) : Prop := (∃ l, D.At s.1 l) ∧ P s.2

/-- Reading from a buffer that delivers a text does not throw. -/
theorem scans_ready {P : ω → Prop} : Scans (Ready D P) False := by
  refine ⟨stays_prim ?_, stays_prim ?_⟩
  · rintro ⟨b, o⟩ ⟨⟨l, hat⟩, ho⟩
    refine ⟨⟨⟨l, hat⟩, ho⟩, fun x hx => ?_⟩
    obtain ⟨c, hc⟩ : ∃ c, VirtualReadBuffer.get b = .ok c := by
      cases l with
      | nil => exact D.get_nil hat
      | cons c l => exact ⟨c, D.get_cons hat⟩
    cases hc.symm.trans hx
  · rintro ⟨b, o⟩ ⟨⟨l, hat⟩, ho⟩
    cases l with
    | nil => exact ⟨⟨⟨[], (D.next_nil hat).2⟩, ho⟩, fun x hx => by cases (D.next_nil hat).1.symm.trans hx⟩
    | cons c l => exact ⟨⟨⟨l, (D.next_cons hat).2⟩, ho⟩, fun x hx => by cases (D.next_cons hat).1.symm.trans hx⟩

namespace HTTPMessage

/-- A content-length, if there is one, starts with a number that fits. -/
def LengthReads (m : HTTPMessage) : Prop :=
  ∀ v, m.getHeaderValue (lit "content-length") = some v → StartsWithNumber v

/-- The call returns exactly if the stored value starts with a number that fits. -/
theorem getHeaderULong_isOk_iff {m : HTTPMessage} {key : Str} : (∃ x, m.getHeaderULong key = .ok x) ↔
    ∀ v, m.getHeaderValue key = some v → StartsWithNumber v := by
  unfold getHeaderULong getHeaderValue
  cases m.headers_[key]? with
  | none => simp
  | some v =>
      simp only [Option.some.injEq, forall_eq', ← stoul_isOk_iff]
      cases stoul v with
      | error x => simp [Except.map]
      | ok x => simp [Except.map]

/-- `getHeaderValue( "content-length", content_length )`, and what follows it. -/
theorem stays_readLength (f : Bool × Nat → Comp (β × HTTPMessage) Exn ParseResult)
    (hf : ∀ x, Stays (Ready D LengthReads) False (f x)) : Stays (Ready D LengthReads) False
      (self >>= fun m => liftExcept (m.getHeaderULong (lit "content-length")) >>= f) := by
  rintro ⟨b, m⟩ r s' hs h
  obtain ⟨x, hx⟩ := getHeaderULong_isOk_iff.mpr hs.2
  obtain ⟨_, _, hself, h⟩ | ⟨_, hself, -⟩ := returns_bind.mp h
  · obtain ⟨hm, rfl⟩ := Prod.mk.inj (returns_prim.mp hself)
    obtain rfl := Except.ok.inj hm
    obtain ⟨_, _, hlift, h⟩ | ⟨_, hlift, -⟩ := returns_bind.mp h
    · obtain ⟨-, rfl⟩ := Prod.mk.inj (returns_prim.mp hlift)
      exact hf _ _ _ _ hs h
    · cases hx.symm.trans (Prod.mk.inj (returns_prim.mp hlift)).1
  · cases (Prod.mk.inj (returns_prim.mp hself)).1

theorem LengthReads.ready_append (c : Octet) (s : β × HTTPMessage) (h : Ready D LengthReads s) :
    Ready D LengthReads (s.1, s.2.append c) := h

end HTTPMessage

/-! ## Headers and start lines do not throw -/

/-- An assignment to the object leaves the buffer where it is. -/
theorem stays_assign {f : ω → ω} : Stays (Ready D fun _ => True) False (modifySelf f : Comp (β × ω) Exn Unit) :=
  stays_modifySelf fun _ h => h

theorem HTTPMessage.stays_parseHeaders :
    Stays (Ready D fun _ => True) False (parseHeaders : Comp (β × HTTPMessage) Exn _) :=
  scans_ready.reading.parseHeaders fun _ _ => stays_assign

theorem HTTPVersion.stays_parse :
    Stays (Ready D fun _ => True) False (HTTPVersion.parse : Comp (β × HTTPVersion) Exn _) :=
  scans_ready.reading.parseVersion fun _ _ => stays_assign

theorem HTTPRequestLine.stays_parse :
    Stays (Ready D fun _ => True) False (HTTPRequestLine.parse : Comp (β × HTTPRequestLine) Exn _) := by
  have hversion : Stays (Ready D fun _ => True) False (parseVersion : Comp (β × HTTPRequestLine) Exn _) :=
    stays_part HTTPVersion.stays_parse (fun _ _ hs => hs) (fun _ _ _ hs => hs)
  refine stays_assign.bind fun _ => scans_ready.reading.requestLine hversion (fun _ => stays_assign) ?_ _
  exact fun _ => stays_assign

theorem HTTPResponseLine.stays_parse :
    Stays (Ready D fun _ => True) False (HTTPResponseLine.parse : Comp (β × HTTPResponseLine) Exn _) := by
  have h : Scans (Ready D fun _ : HTTPResponseLine => True) False := scans_ready
  have hreason : Stays (Ready D fun _ => True) False (skipReason : Comp (β × HTTPResponseLine) Exn _) :=
    stays_loop fun _ => h.get.bind fun _ =>
      (h.next.bind fun _ => stays_pure.ite stays_pure).ite stays_pure
  have hversion : Stays (Ready D fun _ => True) False
      (part (·.version_) (fun v l => { l with version_ := v }) HTTPVersion.parse : Comp (β × HTTPResponseLine) Exn _) :=
    stays_part HTTPVersion.stays_parse (fun _ _ hs => hs) (fun _ _ _ hs => hs)
  refine hversion.bind fun _ => Stays.ite (h.reading.eatSpace.bind fun _ => stays_pure.ite ?_) stays_pure
  refine h.reading.parseUInt.bind fun (pr, i) => Stays.ite ?_ stays_pure
  refine stays_assign.bind fun _ => hreason.bind fun _ => ?_
  exact stays_pure.ite h.reading.parseCRLF

/-! ## Where a parser throws -/

open HTTPMessage

variable {α : Type} {b : β} {o : ω} {l : Str}

/-- Sequencing behind a parser that does not throw. -/
theorem Decodes.bind_stays {γ : Type} {p : Comp (β × ω) Exn ParseResult}
    {f : ParseResult → Comp (β × ω) Exn γ} {res : Option (ω × Str)} {Q : Except Exn γ → β × ω → Prop}
    (hp : wp p (Decodes D res) (b, o)) (hnt : Stays (Ready D fun _ => True) False p) (hat : D.At b l)
    (hok : ∀ o' l' b', res = some (o', l') → D.At b' l' → wp (f {}) Q (b', o'))
    (hfail : res = none → ∀ parseResult s, parseResult.ok = false → wp (f parseResult) Q s) :
    wp (p >>= f) Q (b, o) := by
  refine wp_bind.mpr (wp_mono (hnt.wp_ok ⟨⟨l, hat⟩, trivial⟩ hp) ?_)
  rintro r ⟨b', o'⟩ ⟨hr, pr, rfl⟩
  cases res with
  | some v =>
      obtain ⟨hpr, rfl, hat'⟩ := hr
      obtain rfl := Except.ok.inj hpr
      exact hok _ _ _ rfl hat'
  | none => exact hfail rfl pr _ hr

/-- A message of the peer on which the parser throws: its headers are read, `std::stoul` throws on the
    content-length, and the text behind the headers is as `behind` says. -/
def LengthThrows (startLine : Str → Option (α × Str)) (behind : Str → Prop) (text : Str) : Prop :=
  ∃ m rest, Grammar.messageHead startLine text = some (m, rest) ∧ behind rest ∧ ¬ m.LengthReads

theorem lengthThrows_iff {startLine : Str → Option (α × Str)} {behind : Str → Prop} {text l rest : Str} {x : α}
    {kvs : List (Str × Str)} (hstart : startLine text = some (x, l)) (hcr : l.head? ≠ some charCR)
    (hsec : Grammar.headerSection l = some (kvs, rest)) :
    LengthThrows startLine behind text ↔ behind rest ∧ ¬ (addHeaders {} kvs).LengthReads := by
  have hhead : Grammar.messageHead startLine text = some (addHeaders {} kvs, rest) :=
    Grammar.messageHead_eq_some.mpr ⟨x, l, kvs, hstart, hcr, hsec, rfl⟩
  constructor
  · rintro ⟨m, rest', hhead', hbehind, hreads⟩
    obtain ⟨rfl, rfl⟩ := Prod.mk.inj (Option.some.inj (hhead.symm.trans hhead'))
    exact ⟨hbehind, hreads⟩
  · rintro ⟨hbehind, hreads⟩
    exact ⟨_, _, hhead, hbehind, hreads⟩

/-- The postcondition of a parser that returns a `ParseResult` unless `throws`. -/
def ReturnsUnless (throws : Prop) (r : Except Exn ParseResult) (_ : β × ω) : Prop :=
  (∃ parseResult, r = .ok parseResult) ↔ ¬ throws

omit [VirtualReadBuffer β] in
theorem returnsUnless_ok {throws : Prop} (h : ¬ throws) {pr : ParseResult} {s : β × ω} :
    ReturnsUnless throws (.ok pr) s := iff_of_true ⟨pr, rfl⟩ h

omit [VirtualReadBuffer β] in
theorem returns_iff_of_wp {throws : Prop} {p : Comp (β × ω) Exn ParseResult} {s : β × ω}
    (h : wp p (ReturnsUnless throws) s) : (∃ pr s', Returns p s (.ok pr) s') ↔ ¬ throws := by
  obtain ⟨r, s', hret, hiff⟩ := h
  refine Iff.trans ?_ hiff
  constructor
  · rintro ⟨pr, s₁, hret'⟩
    exact ⟨pr, (hret.unique hret').1⟩
  · rintro ⟨pr, rfl⟩
    exact ⟨pr, s', hret⟩

theorem returnsUnless_of_stays {throws : Prop} {P : ω → Prop} {p : Comp (β × ω) Exn ParseResult}
    {Q : Except Exn ParseResult → β × ω → Prop} (h : Stays (Ready D P) False p) (hat : D.At b l) (ho : P o)
    (hwp : wp p Q (b, o)) (hthrows : ¬ throws) : wp p (ReturnsUnless throws) (b, o) := by
  refine wp_mono (h.wp_ok ⟨⟨l, hat⟩, ho⟩ hwp) ?_
  rintro _ s ⟨-, pr, rfl⟩
  exact returnsUnless_ok hthrows

/-- The common shape of both `parse` functions: a start line, and then a message without or with headers. -/
theorem message_returnsUnless {startLine : Str → Option (α × Str)} {behind : Str → Prop} {text : Str}
    {p bareEnd headersEnd : Comp (β × ω) Exn ParseResult} (put : α → ω) (hat : D.At b text)
    (hp : wp p (Decodes D ((startLine text).map fun r => (put r.1, r.2))) (b, o))
    (hnt : Stays (Ready D fun _ => True) False p)
    (hrest : ∀ {x l}, startLine text = some (x, l) → l ≠ [])
    (hbare : ∀ x l b', D.At b' (charCR :: l) → ¬ LengthThrows startLine behind text →
      wp bareEnd (ReturnsUnless (LengthThrows startLine behind text)) (b', put x))
    (hheaders : ∀ x c l b', D.At b' (c :: l) → c ≠ charCR → startLine text = some (x, c :: l) →
      wp headersEnd (ReturnsUnless (LengthThrows startLine behind text)) (b', put x)) :
    wp (p >>= fun parseResult =>
        if parseResult.ok then get >>= fun c => if c = charCR then bareEnd else headersEnd
        else pure parseResult)
      (ReturnsUnless (LengthThrows startLine behind text)) (b, o) := by
  refine Decodes.bind_stays hp hnt hat ?_ ?_
  · intro o' l' b' hres hat'
    obtain ⟨⟨x, l⟩, hstart, hpair⟩ := Option.map_eq_some_iff.mp hres
    obtain ⟨rfl, rfl⟩ := Prod.mk.inj hpair
    obtain ⟨c, l, rfl⟩ := List.exists_cons_of_ne_nil (hrest hstart)
    simp only [ParseResult.ok_default, if_true]
    refine Delivers.get_bind hat' ?_
    split
    case isTrue hc =>
      subst hc
      refine hbare x l b' hat' ?_
      rintro ⟨m, rest, hhead, -⟩
      obtain ⟨_, _, _, hstart', hcr, -⟩ := Grammar.messageHead_eq_some.mp hhead
      obtain ⟨rfl, rfl⟩ := Prod.mk.inj (Option.some.inj (hstart.symm.trans hstart'))
      exact hcr rfl
    case isFalse hc => exact hheaders x c l b' hat' hc hstart
  · intro hnone pr s hpr
    rw [Option.map_eq_none_iff] at hnone
    simp only [hpr, Bool.false_eq_true, if_false]
    refine wp_pure.mpr (returnsUnless_ok ?_)
    rintro ⟨m, rest, hhead, -⟩
    obtain ⟨_, _, _, hstart, -⟩ := Grammar.messageHead_eq_some.mp hhead
    cases hnone.symm.trans hstart

omit [VirtualReadBuffer β] in
/-- `std::stoul` throws on the content-length, and nothing after it is done. -/
theorem readLength_throws {throws : Prop} {m : HTTPMessage}
    {f : Bool × Nat → Comp (β × HTTPMessage) Exn ParseResult} (h : ¬ m.LengthReads) (hthrows : throws) :
    wp (self >>= fun m => liftExcept (m.getHeaderULong (lit "content-length")) >>= f)
      (ReturnsUnless throws) (b, m) := by
  refine wp_bind.mpr (wp_prim.mpr (wp_bind.mpr (wp_prim.mpr ?_)))
  cases hx : m.getHeaderULong (lit "content-length") with
  | ok x => exact absurd (getHeaderULong_isOk_iff.mp ⟨x, hx⟩) h
  | error x => exact iff_of_false (by rintro ⟨_, hok⟩; cases hok) (fun hnot => hnot hthrows)

theorem lengthReads_empty : ({} : HTTPMessage).LengthReads := fun v hv => by simp [getHeaderValue] at hv

/-- The common shape of both branches with headers. -/
theorem headers_returnsUnless {startLine : Str → Option (α × Str)} {behind : Str → Prop} {text l : Str} {x : α}
    {c : Octet} {p headersEnd : Comp (β × ω) Exn ParseResult} (put : HTTPMessage → ω) (hat : D.At b (c :: l))
    (hc : c ≠ charCR) (hstart : startLine text = some (x, c :: l))
    (hp : wp p (Decodes D ((Grammar.headerSection (c :: l)).map fun r =>
      (put (addHeaders {} r.1), charLF :: r.2))) (b, o))
    (hnt : Stays (Ready D fun _ => True) False p)
    (hend : ∀ kvs rest b', D.At b' (charLF :: rest) →
      (LengthThrows startLine behind text ↔ behind rest ∧ ¬ (addHeaders {} kvs).LengthReads) →
      wp headersEnd (ReturnsUnless (LengthThrows startLine behind text)) (b', put (addHeaders {} kvs))) :
    wp (p >>= fun parseResult =>
        if !parseResult.ok then pure parseResult
        else get >>= fun c => if c = charLF then headersEnd else pure {})
      (ReturnsUnless (LengthThrows startLine behind text)) (b, o) := by
  refine Decodes.bind_stays hp hnt hat ?_ ?_
  · intro o' l₁ b₁ hres hat₁
    obtain ⟨⟨kvs, rest⟩, hsec, hpair⟩ := Option.map_eq_some_iff.mp hres
    obtain ⟨rfl, rfl⟩ := Prod.mk.inj hpair
    rw [ite_default]
    refine Delivers.get_bind hat₁ ?_
    rw [if_pos rfl]
    exact hend kvs rest b₁ hat₁ (lengthThrows_iff hstart (by simpa using hc) hsec)
  · intro hnone pr s hpr
    rw [Option.map_eq_none_iff] at hnone
    simp only [hpr, Bool.not_false, if_true]
    refine wp_pure.mpr (returnsUnless_ok ?_)
    rintro ⟨m, rest, hhead, -⟩
    obtain ⟨_, _, _, hstart', -, hsec, -⟩ := Grammar.messageHead_eq_some.mp hhead
    obtain ⟨rfl, rfl⟩ := Prod.mk.inj (Option.some.inj (hstart.symm.trans hstart'))
    cases hnone.symm.trans hsec

namespace HTTPRequest

theorem stays_body :
    Stays (Ready D fun r => r.LengthReads) False (onMessage parseBody : Comp (β × HTTPRequest) Exn _) :=
  stays_part (scans_ready.requestBody LengthReads.ready_append stays_readLength) (fun _ _ h => h) (fun _ _ _ h => h)

theorem stays_headers :
    Stays (Ready D fun _ => True) False (onMessage parseHeaders : Comp (β × HTTPRequest) Exn _) :=
  stays_part stays_parseHeaders (fun _ _ h => h) (fun _ _ _ h => h)

/-- `parseBody` on a message whose content-length is `LengthReads`, or is not. -/
theorem body_returnsUnless {throws : Prop} {r : HTTPRequest} (hat : D.At b l) (hl : l ≠ [])
    (hthrows : throws ↔ ¬ r.LengthReads) : wp (onMessage parseBody) (ReturnsUnless throws) (b, r) := by
  by_cases hreads : r.LengthReads
  · exact returnsUnless_of_stays stays_body hat hreads (onMessage_parseBody_spec hat hl)
      (fun h => hthrows.mp h hreads)
  · rw [onMessage, part, wp_zoom]
    exact readLength_throws hreads (hthrows.mpr hreads)

/-- A request is parsed without an exception, unless something is left behind the headers and `std::stoul`
    throws on the content-length. -/
theorem parse_returnsUnless (h : D.At b l) (hl : l ≠ []) :
    wp parse (ReturnsUnless (LengthThrows (Grammar.requestLine {}) (· ≠ []) l)) (b, {}) := by
  have hline := fun r : HTTPRequest => part_spec (o := r) (fun l (r : HTTPRequest) => { r with request_line_ := l })
    (HTTPRequestLine.parse_spec (o := r.request_line_) h hl)
  refine message_returnsUnless (fun line => { request_line_ := line }) h (hline {})
    (stays_part HTTPRequestLine.stays_parse (fun _ _ hs => hs) (fun _ _ _ hs => hs))
    Grammar.requestLine_rest ?_ ?_
  · intro line l' b' hat hthrows
    exact returnsUnless_of_stays (scans_ready.reading.parseBare stays_body) hat lengthReads_empty
      (parseBare_spec (fun m => { toHTTPMessage := m, request_line_ := line }) rfl hat onMessage_parseBody_spec)
      hthrows
  · intro line c l' b' hat hc hstart
    have hheaders := fun r : HTTPRequest => part_spec (o := r) (fun m (r : HTTPRequest) => { r with toHTTPMessage := m })
      (parseHeaders_spec (m := r.toHTTPMessage) hat (by simp))
    specialize hheaders { request_line_ := line }
    rw [Option.map_map] at hheaders
    refine headers_returnsUnless (fun m => { toHTTPMessage := m, request_line_ := line })
      hat hc hstart hheaders stays_headers ?_
    intro kvs rest b₁ hat₁ hiff
    refine Delivers.next_cases hat₁ ?_ ?_
    · -- nothing behind the headers: the content-length is not looked at
      rintro rfl b₂ hat₂
      simp only [not_ok_end D, Bool.false_eq_true, if_false]
      split <;> exact wp_pure.mpr (returnsUnless_ok fun hthrows => (hiff.mp hthrows).1 rfl)
    · rintro d rest b₂ rfl hat₂
      simp only [ParseResult.setSystemError_ecOK, ParseResult.ok_default, if_true]
      exact body_returnsUnless hat₂ (by simp) (hiff.trans (and_iff_right (by simp)))

end HTTPRequest

namespace HTTPResponse

theorem stays_body :
    Stays (Ready D fun r => r.LengthReads) False (onMessage parseBody : Comp (β × HTTPResponse) Exn _) :=
  stays_part (scans_ready.responseBody LengthReads.ready_append stays_readLength) (fun _ _ h => h) (fun _ _ _ h => h)

theorem stays_headers :
    Stays (Ready D fun _ => True) False (onMessage parseHeaders : Comp (β × HTTPResponse) Exn _) :=
  stays_part stays_parseHeaders (fun _ _ h => h) (fun _ _ _ h => h)

/-- `hasBody` throws where `std::stoul` does. -/
theorem hasBody_isOk_iff {m : HTTPMessage} : (∃ x, hasBody m = .ok x) ↔ m.LengthReads := by
  rw [LengthReads, ← getHeaderULong_isOk_iff, hasBody]
  cases m.getHeaderULong (lit "content-length") with
  | error x => simp [Bind.bind, Except.bind]
  | ok v =>
      refine iff_of_true ?_ ⟨v, rfl⟩
      simp only [Bind.bind, Except.bind, Pure.pure, Except.pure]
      split
      · exact ⟨true, rfl⟩
      split
      · exact ⟨true, rfl⟩
      split
      · exact ⟨true, rfl⟩
      · exact ⟨false, rfl⟩

/-- A response is parsed without an exception, unless `std::stoul` throws on the content-length. -/
theorem parse_returnsUnless (h : D.At b l) (hl : l ≠ []) :
    wp parse (ReturnsUnless (LengthThrows (Grammar.responseLine {}) (fun _ => True) l)) (b, {}) := by
  have hline := fun r : HTTPResponse => part_spec (o := r) (fun l (r : HTTPResponse) => { r with response_line_ := l })
    (HTTPResponseLine.parse_spec (o := r.response_line_) h hl)
  refine message_returnsUnless (fun line => { response_line_ := line }) h (hline {})
    (stays_part HTTPResponseLine.stays_parse (fun _ _ hs => hs) (fun _ _ _ hs => hs))
    Grammar.responseLine_rest ?_ ?_
  · intro line l' b' hat hthrows
    exact returnsUnless_of_stays (scans_ready.reading.parseBare stays_body) hat lengthReads_empty
      (parseBare_spec (fun m => { toHTTPMessage := m, response_line_ := line }) rfl hat onMessage_parseBody_spec)
      hthrows
  · intro line c l' b' hat hc hstart
    have hheaders := fun r : HTTPResponse => part_spec (o := r) (fun m (r : HTTPResponse) => { r with toHTTPMessage := m })
      (parseHeaders_spec (m := r.toHTTPMessage) hat (by simp))
    specialize hheaders { response_line_ := line }
    rw [Option.map_map] at hheaders
    refine headers_returnsUnless (fun m => { toHTTPMessage := m, response_line_ := line })
      hat hc hstart hheaders stays_headers ?_
    intro kvs rest b₁ hat₁ hiff
    rw [true_and] at hiff
    refine wp_bind.mpr (wp_prim.mpr (wp_bind.mpr (wp_prim.mpr ?_)))
    cases hbody : hasBody (addHeaders {} kvs) with
    | error x =>
        have hreads : ¬ (addHeaders {} kvs).LengthReads := fun hreads => by
          obtain ⟨y, hy⟩ := hasBody_isOk_iff.mpr hreads
          cases hbody.symm.trans hy
        exact iff_of_false (by rintro ⟨_, hok⟩; cases hok) (fun hnot => hnot (hiff.mpr hreads))
    | ok body =>
        have hreads := hasBody_isOk_iff.mp ⟨body, hbody⟩
        cases body with
        | false => exact wp_pure.mpr (returnsUnless_ok fun hthrows => hiff.mp hthrows hreads)
        | true =>
            refine Delivers.next_cases hat₁ ?_ ?_
            · rintro rfl b₂ hat₂
              simp only [not_ok_end D, Bool.false_eq_true, if_false, ite_self]
              exact wp_pure.mpr (returnsUnless_ok fun hthrows => hiff.mp hthrows hreads)
            · rintro d rest b₂ rfl hat₂
              simp only [ParseResult.setSystemError_ecOK, ParseResult.ok_default, if_true]
              exact returnsUnless_of_stays stays_body hat₂ hreads
                (onMessage_parseBody_spec (r := { toHTTPMessage := _, response_line_ := line }) hat₂ (by simp))
                (fun hthrows => hiff.mp hthrows hreads)

end HTTPResponse

/-! ## Numbers -/

/-- A non-empty string of decimal digits for a number below `2^64`. -/
def IsNumber (v : Str) : Prop := v ≠ [] ∧ (∀ c ∈ v, isdigit c = true) ∧ decVal v < 2 ^ 64

/-- `getHeaderValue( key, value )` on the stored value `v` returns, `true` exactly for a number, and then with
    that number. -/
def ReadsNumber (m : HTTPMessage) (key v : Str) : Prop :=
  ∃ found value, m.getHeaderULong key = .ok (found, value) ∧ (found = true ↔ IsNumber v) ∧
    (IsNumber v → value = decVal v)

/-- `v` starts with a number that fits, and if nothing is behind the number, nothing is in front of it. -/
def PlainNumber (v : Str) : Prop :=
  ∃ blanks sign ds rest, Numeral v blanks sign ds rest ∧ decVal ds < 2 ^ 64 ∧
    (rest = [] → blanks = [] ∧ sign = [])

theorem getHeaderULong_numeral {m : HTTPMessage} {key v blanks sign ds rest : Str}
    (hget : m.headers_[key]? = some v) (h : Numeral v blanks sign ds rest) (hlt : decVal ds < 2 ^ 64) :
    m.getHeaderULong key = .ok (decide (rest = []),
      if sign = [45] then (2 ^ 64 - decVal ds) % 2 ^ 64 else decVal ds) := by
  have hlength : v.length = blanks.length + sign.length + ds.length + rest.length := by
    rw [h.eq]
    simp only [List.length_append]
    omega
  have hpos : blanks.length + sign.length + ds.length = v.length ↔ rest = [] := by
    rw [hlength, ← List.length_eq_zero_iff]
    omega
  simp only [getHeaderULong, hget, h.stoul_eq, if_neg (Nat.not_le.mpr hlt), Except.map, hpos]

theorem readsNumber_iff {m : HTTPMessage} {key v : Str} (hget : m.headers_[key]? = some v) :
    ReadsNumber m key v ↔ PlainNumber v := by
  constructor
  · rintro ⟨found, value, hread, hfound, -⟩
    obtain ⟨blanks, sign, ds, rest, h, hlt⟩ := getHeaderULong_isOk_iff.mp ⟨_, hread⟩ v hget
    refine ⟨blanks, sign, ds, rest, h, hlt, ?_⟩
    intro hrest
    -- `std::stoul` has used up the text, so that it is reported as a number
    rw [getHeaderULong_numeral hget h hlt] at hread
    obtain ⟨rfl, -⟩ := Prod.mk.inj (Except.ok.inj hread)
    obtain ⟨-, hdigit, -⟩ := hfound.mp (by simpa using hrest)
    obtain ⟨hblanks, hsign, -⟩ := h.of_all_isdigit hdigit
    exact ⟨hblanks, hsign⟩
  · rintro ⟨blanks, sign, ds, rest, h, hlt, hplain⟩
    refine ⟨_, _, getHeaderULong_numeral hget h hlt, ?_, ?_⟩
    · rw [decide_eq_true_iff]
      constructor
      · intro hrest
        obtain ⟨rfl, rfl⟩ := hplain hrest
        obtain rfl : v = ds := by simpa [hrest] using h.eq
        exact ⟨h.ds_ne_nil, h.ds_isdigit, hlt⟩
      · rintro ⟨-, hdigit, -⟩
        exact (h.of_all_isdigit hdigit).2.2
    · rintro ⟨-, hdigit, -⟩
      obtain ⟨rfl, rfl, rfl⟩ := h.of_all_isdigit hdigit
      obtain rfl : v = ds := by simpa using h.eq
      simp

/-- **Numeric header values.** `getHeaderValue` reads a stored value as a number exactly if it is a
    `PlainNumber`. The parsers, over every buffer that delivers a text, return a `ParseResult` exactly if the
    text has no content-length that `std::stoul` throws on, or, for a request, nothing follows the headers. -/
theorem numeric_headers_iff (D : Delivers β e) (b : β) (text : Str) (hat : D.At b text) (htext : text ≠ []) :
    (∀ m key v, m.headers_[key]? = some v → (ReadsNumber m key v ↔ PlainNumber v)) ∧
    ((∃ parseResult s, Returns HTTPRequest.parse (b, {}) (.ok parseResult) s) ↔
      ¬ LengthThrows (Grammar.requestLine {}) (· ≠ []) text) ∧
    ((∃ parseResult s, Returns HTTPResponse.parse (b, {}) (.ok parseResult) s) ↔
      ¬ LengthThrows (Grammar.responseLine {}) (fun _ => True) text) := by
  refine ⟨fun m key v hget => readsNumber_iff hget, ?_, ?_⟩
  · exact returns_iff_of_wp (HTTPRequest.parse_returnsUnless hat htext)
  · exact returns_iff_of_wp (HTTPResponse.parse_returnsUnless hat htext)

theorem numeric_headers_iff_length :
    (∀ m key v, m.headers_[key]? = some v → (ReadsNumber m key v ↔ PlainNumber v)) ∧
    ((∃ parseResult s, Returns HTTPRequest.parse
        (StringReadBuffer.ofString (lit "POST / HTTP/1.1\r\ncontent-length: 1\r\n\r\nx"), {})
        (.ok parseResult) s) ↔
      ¬ LengthThrows (Grammar.requestLine {}) (· ≠ [])
        (lit "POST / HTTP/1.1\r\ncontent-length: 1\r\n\r\nx")) ∧
    ((∃ parseResult s, Returns HTTPResponse.parse
        (StringReadBuffer.ofString (lit "POST / HTTP/1.1\r\ncontent-length: 1\r\n\r\nx"), {})
        (.ok parseResult) s) ↔
      ¬ LengthThrows (Grammar.responseLine {}) (fun _ => True)
        (lit "POST / HTTP/1.1\r\ncontent-length: 1\r\n\r\nx")) :=
  numeric_headers_iff StringReadBuffer.delivers _ _
    (StringReadBuffer.delivers_ofString _ (by decide)) (by decide)

/-- An empty content-length in a request, and one in a response, and a signed number that is taken as one. -/
theorem length_of_peer_throws :
    wp HTTPRequest.parse (fun x _ => x = .error .invalidArgument)
      (StringReadBuffer.ofString (lit "POST / HTTP/1.1\r\ncontent-length:\r\n\r\nx"), {}) ∧
    wp HTTPResponse.parse (fun x _ => x = .error .invalidArgument)
      (StringReadBuffer.ofString (lit "HTTP/1.1 200 OK\r\ncontent-length:\r\n\r\n"), {}) ∧
    (addHeader {} (lit "content-length") (lit "-1")).getHeaderULong (lit "content-length")
      = .ok (true, 2 ^ 64 - 1) :=
  ⟨wp_of_run 60 (by decide +kernel), wp_of_run 60 (by decide +kernel), by decide +kernel⟩

end Dodo.Network.Http
