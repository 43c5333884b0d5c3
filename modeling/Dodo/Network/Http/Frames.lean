import Dodo.Network.Http.Response

/-!
# `Http.Frames` — what the parsers leave alone, and where they throw

A parser touches its buffer by `get()` and `next()` only, and its object by a few assignments. So a judgment that
goes through the structure of the code holds of a whole parser as soon as it holds of these (`Reading`): that is
derived here once for each function. For `Stays Inv throws` it says that a property of buffer and object is kept by
a parser if these keep it, and that a parser throws only where one of these does.
-/

namespace Dodo.Network.Http

open Common Lib Lib.Comp

variable {β ω : Type} [VirtualReadBuffer β] {Inv : β × ω → Prop} {throws : Prop}

omit [VirtualReadBuffer β] in
theorem stays_self : Stays Inv throws (self : Comp (β × ω) Exn ω) :=
  stays_prim fun _ h => ⟨h, fun e he => by cases he⟩

omit [VirtualReadBuffer β] in
theorem stays_modifySelf {f : ω → ω} (hf : ∀ s, Inv s → Inv (s.1, f s.2)) :
    Stays Inv throws (modifySelf f : Comp (β × ω) Exn Unit) :=
  stays_prim fun s h => ⟨hf s h, fun e he => by cases he⟩

omit [VirtualReadBuffer β] in
theorem stays_part {α ω' : Type} {Inv' : β × ω' → Prop} {view : ω → ω'} {put : ω' → ω → ω}
    {p : Comp (β × ω') Exn α} (hp : Stays Inv' throws p) (hview : ∀ b o, Inv (b, o) → Inv' (b, view o))
    (hput : ∀ b o o', Inv' (b, o') → Inv (b, put o' o)) : Stays Inv throws (part view put p) := by
  intro s r s' hs h
  obtain ⟨t, ht, rfl⟩ := returns_zoom.mp h
  obtain ⟨hinv, hthrows⟩ := hp _ _ _ (hview _ _ hs) ht
  exact ⟨hput _ _ _ hinv, hthrows⟩

/-- Reading from the buffer keeps the property, and throws only if `throws`. -/
structure Scans (Inv : β × ω → Prop) (throws : Prop) : Prop where
  get : Stays Inv throws (get : Comp (β × ω) Exn Octet)
  next : Stays Inv throws (next : Comp (β × ω) Exn SystemError)

/-- A judgment that holds of the two ways to read from the buffer, and goes through the structure of the code. -/
structure Reading (J : ∀ ⦃α : Type⦄, Comp (β × ω) Exn α → Prop) : Prop extends Compositional J where
  get : J (get : Comp (β × ω) Exn Octet)
  next : J (next : Comp (β × ω) Exn SystemError)

theorem Scans.reading (h : Scans Inv throws) : Reading fun _ (p : Comp (β × ω) Exn _) => Stays Inv throws p :=
  ⟨compositional_stays, h.get, h.next⟩

namespace Reading

/-! ## Scanners -/

section Scanners

variable {J : ∀ ⦃α : Type⦄, Comp (β × ω) Exn α → Prop} (h : Reading J)

include h

theorem parseBare {body : Comp (β × ω) Exn ParseResult} (hbody : J body) : J (HTTPMessage.parseBare body) := by
  refine h.bind h.next fun _ => h.ite (h.bind h.get fun _ => ?_) h.pure
  exact h.ite (h.bind h.next fun _ => h.ite hbody h.pure) h.pure

theorem eatSpace : J (HTTPMessage.eatSpace : Comp (β × ω) Exn _) :=
  h.loop fun _ => h.bind h.get fun _ => h.ite (h.bind h.next fun _ => h.pure) h.pure

theorem parseCRLF : J (HTTPMessage.parseCRLF : Comp (β × ω) Exn _) :=
  h.bind h.get fun _ => h.ite h.pure <| h.bind h.next fun _ => h.ite h.pure <|
    h.bind h.get fun _ => h.ite h.pure <| h.bind h.next fun _ => h.pure

theorem parseToken : J (HTTPMessage.parseToken : Comp (β × ω) Exn _) := by
  refine h.loop fun _ => h.bind h.get fun _ => h.ite ?_ (h.ite h.pure h.pure)
  exact h.bind h.next fun _ => h.ite h.pure h.pure

theorem parseChunkHex : J (HTTPMessage.parseChunkHex : Comp (β × ω) Exn _) := by
  refine h.loop fun _ => h.bind h.get fun _ => h.ite ?_ (h.ite h.pure ?_)
  · exact h.bind h.next fun _ => h.ite h.pure h.pure
  · exact h.bind h.parseCRLF fun _ => h.pure

theorem parseUInt : J (HTTPMessage.parseUInt : Comp (β × ω) Exn _) := by
  refine h.loop fun (_, _) => h.ite (h.bind h.get fun _ => ?_) h.pure
  exact h.ite (h.bind h.next fun _ => h.pure) h.pure

theorem fieldValueStep (value : Str) (state : HTTPMessage.FieldState) :
    J (HTTPMessage.fieldValueStep value state : Comp (β × ω) Exn _) := by
  refine h.bind h.get fun c => ?_
  have hnext : ∀ {α : Type} (f : SystemError → α), J (Network.next >>= fun se => Pure.pure (f se) : Comp (β × ω) Exn α) :=
    fun _ => h.bind h.next fun _ => h.pure
  cases state with
  | psStart => exact h.ite h.pure (hnext _)
  | psReadValue => exact h.ite (hnext _) (h.ite (hnext _) (hnext _))
  | psCR =>
      -- a LF has to follow, and a blank after it continues the value
      refine h.ite (h.bind h.next fun _ => h.ite (h.bind h.get fun _ => ?_) h.pure) h.pure
      exact h.ite (hnext _) h.pure
  | psSP => exact h.ite (hnext _) h.pure
  | psDone => exact h.pure

theorem parseFieldValue : J (HTTPMessage.parseFieldValue : Comp (β × ω) Exn _) := by
  refine h.loop fun (value, state, parseResult) => ?_
  refine h.ite (h.bind (h.fieldValueStep value state) fun x => ?_) (h.ite h.pure h.pure)
  cases x <;> exact h.pure

theorem versionStep (v : HTTPVersion.Vars) : J (HTTPVersion.step v : Comp (β × ω) Exn _) := by
  have hexpect : ∀ c state, J (HTTPVersion.expect c state v : Comp (β × ω) Exn _) :=
    fun c state => h.bind h.get fun _ => h.ite (h.bind h.next fun _ => h.pure) h.pure
  obtain ⟨state, major, minor, parseResult⟩ := v
  cases state with
  | ssStart | ssMajor | ssMinor =>
      exact h.bind h.get fun _ => h.ite h.pure (h.bind h.next fun _ => h.pure)
  | ssHttp | sshTtp1 | sshTtp2 | sshttP | ssSlash | ssDot => exact hexpect _ _
  | ssDone => exact h.pure

end Scanners

/-! ## Start lines -/

section StartLines

theorem parseVersion {J : ∀ ⦃α : Type⦄, Comp (β × HTTPVersion) Exn α → Prop} (h : Reading J)
    (hassign : ∀ major minor, J (modifySelf fun v =>
      { major_ := extractUInt major v.major_, minor_ := extractUInt minor v.minor_ })) :
    J (HTTPVersion.parse : Comp (β × HTTPVersion) Exn _) := by
  refine h.loop fun v => h.ite (h.versionStep v) ?_
  exact h.ite (h.bind (hassign _ _) fun _ => h.pure) h.pure

/-- The request line behind its first assignment. -/
theorem requestLine {J : ∀ ⦃α : Type⦄, Comp (β × HTTPRequestLine) Exn α → Prop} (h : Reading J)
    (hversion : J (HTTPRequestLine.parseVersion : Comp (β × HTTPRequestLine) Exn _))
    (huri : ∀ c, J (modifySelf fun l => { l with request_uri_ := l.request_uri_ ++ [c] }))
    (hmethod : ∀ ms, J (modifySelf fun l => { l with method_ := .methodFromString ms }))
    (vars : HTTPRequestLine.ParseState × Str × ParseResult) :
    J (.loop HTTPRequestLine.parsePass vars : Comp (β × HTTPRequestLine) Exn _) := by
  have hstep : ∀ state ms, J (HTTPRequestLine.step state ms : Comp (β × HTTPRequestLine) Exn _) := by
    intro state ms
    cases state with
    | psMethodStart =>
        exact h.bind h.get fun _ => h.ite h.pure (h.bind h.next fun _ => h.ite h.pure h.pure)
    | psMethodEnd => exact h.bind h.eatSpace fun _ => h.ite h.pure h.pure
    | psRequestURIStart =>
        refine h.bind h.get fun c => h.ite h.pure (h.bind (huri c) fun _ => ?_)
        exact h.bind h.next fun _ => h.ite h.pure h.pure
    | psRequestURIEnd =>
        exact h.bind hversion fun _ => h.ite (h.bind h.eatSpace fun _ => h.pure) h.pure
    | psHTTPVersionCR | psHTTPVersionLF =>
        exact h.bind h.get fun _ => h.ite (h.bind h.next fun _ => h.ite h.pure h.pure) h.pure
    | psDone => exact h.pure
  refine h.loop fun (state, ms, pr) => h.ite (hstep state ms) (h.ite ?_ h.pure)
  exact h.bind (hmethod ms) fun _ => h.ite h.pure h.pure

end StartLines

/-! ## Headers and bodies -/

section Messages

variable {J : ∀ ⦃α : Type⦄, Comp (β × HTTPMessage) Exn α → Prop} (h : Reading J)

include h

theorem parseHeaders (hadd : ∀ k v, J (modifySelf fun m => m.addHeader k v)) :
    J (HTTPMessage.parseHeaders : Comp (β × HTTPMessage) Exn _) := by
  have hline : ∀ k v, J (HTTPMessage.parseHeadersAdd k v : Comp (β × HTTPMessage) Exn _) := by
    intro k v
    refine h.bind (hadd k v) fun _ => h.bind h.eatSpace fun _ => h.ite h.pure (h.bind h.get fun _ => h.ite h.pure ?_)
    exact h.bind h.next fun _ => h.ite h.pure (h.bind h.get fun _ => h.ite h.pure h.pure)
  refine h.bind h.eatSpace fun _ => h.loop fun _ => h.bind h.parseToken fun _ => ?_
  refine h.ite (h.bind h.eatSpace fun _ => h.ite h.pure (h.bind h.get fun _ => ?_)) h.pure
  refine h.ite h.pure (h.bind h.eatSpace fun _ => h.ite h.pure (h.bind h.next fun _ => ?_))
  exact h.ite h.pure (h.bind h.parseFieldValue fun _ => h.ite (hline _ _) h.pure)

variable (happend : ∀ c, J (modifySelf fun m => m.append c))

include happend

theorem parseChunkedBody : J (HTTPMessage.parseChunkedBody : Comp (β × HTTPMessage) Exn _) := by
  have hchunk : ∀ n, J (HTTPMessage.parseChunk n : Comp (β × HTTPMessage) Exn _) := by
    intro n
    refine h.loop fun i => h.ite (h.bind h.get fun c => h.bind (happend c) fun _ => ?_) h.pure
    exact h.bind h.next fun _ => h.ite h.pure h.pure
  refine h.loop fun _ => h.bind h.parseChunkHex fun _ => h.ite (h.ite (h.ite h.pure h.pure) ?_) h.pure
  refine h.bind (hchunk _) fun _ => h.ite h.pure ?_
  exact h.bind h.parseCRLF fun _ => h.ite h.pure h.pure

theorem parseContent {n : Nat} : J (HTTPMessage.parseContent n : Comp (β × HTTPMessage) Exn _) := by
  refine h.loop fun (i, parseResult) => h.ite (h.bind h.get fun c => h.bind (happend c) fun _ => ?_) h.pure
  exact h.ite (h.bind h.next fun _ => h.ite h.pure h.pure) h.pure

theorem parseUntilClose : J (HTTPResponse.parseUntilClose : Comp (β × HTTPMessage) Exn _) := by
  refine h.loop fun _ => h.bind h.get fun c => h.bind (happend c) fun _ => ?_
  exact h.bind h.next fun _ => h.ite h.pure h.pure

end Messages

end Reading

/-! ## Bodies

Both bodies start by asking for the content-length, which is the one place where more than the buffer decides on an
exception. -/

namespace Scans

variable {Inv : β × HTTPMessage → Prop} (h : Scans Inv throws) (happend : ∀ c s, Inv s → Inv (s.1, s.2.append c))
  (hlength : ∀ f : Bool × Nat → Comp (β × HTTPMessage) Exn ParseResult, (∀ x, Stays Inv throws (f x)) →
    Stays Inv throws (self >>= fun m => liftExcept (m.getHeaderULong (lit "content-length")) >>= f))

include h happend hlength

theorem requestBody : Stays Inv throws (HTTPRequest.parseBody : Comp (β × HTTPMessage) Exn _) := by
  have hadd : ∀ c, Stays Inv throws (modifySelf fun m => m.append c) := fun c => stays_modifySelf (happend c)
  refine hlength _ fun (found, n) => (h.reading.parseContent hadd).ite (stays_self.bind fun m => ?_)
  cases m.getHeaderValue (lit "transfer-encoding") with
  | some te => exact (h.reading.parseChunkedBody hadd).ite stays_pure
  | none => exact stays_pure

theorem responseBody : Stays Inv throws (HTTPResponse.parseBody : Comp (β × HTTPMessage) Exn _) := by
  have hadd : ∀ c, Stays Inv throws (modifySelf fun m => m.append c) := fun c => stays_modifySelf (happend c)
  refine hlength _ fun (found, n) => (h.reading.parseContent hadd).ite (stays_self.bind fun m => ?_)
  cases m.getHeaderValue (lit "transfer-encoding") with
  | some te => exact (h.reading.parseChunkedBody hadd).ite stays_pure
  | none =>
      refine stays_self.bind fun m => ?_
      cases m.getHeaderValue (lit "connection") with
      | some close => exact (h.reading.parseUntilClose hadd).ite stays_pure
      | none => exact stays_pure

end Scans

end Dodo.Network.Http
