import Mathlib.Data.Set.Operations
import Dodo.Lib.Uniform
import Dodo.Network.Http.HeaderSection
import Dodo.Network.Http.Refine.Messages
import Dodo.Network.Http.Truncation

/-!
# `Http.Reuse` — parsing into an object that was used before

`HTTPRequest::parse` does not begin by clearing the object. The request line and the headers are read by code that does
not look at what the object holds, so that what they do is an update of the object which depends on the buffer only
(`Lib.Uniform`): some members of the request line are assigned and the others are left, and headers are added. Nothing
is assumed about the two buffers. Of a buffer that delivers a text, `Grammar.assigned` says what is assigned.
-/

namespace Dodo.Network.Http

open Common Lib Lib.Comp

variable {β ω : Type} [VirtualReadBuffer β]

theorem reading_uniform (M : Submonoid (Function.End ω)) :
    Reading fun _ (p : Comp (β × ω) Exn _) => Uniform M p where
  toCompositional := compositional_uniform
  get := uniform_input (f := fun b => (VirtualReadBuffer.get b, b))
  next := uniform_input (f := VirtualReadBuffer.next)

omit [VirtualReadBuffer β] in
theorem uniform_modifySelf {M : Submonoid (Function.End ω)} {f : Function.End ω} (hf : f ∈ M) :
    Uniform M (modifySelf f : Comp (β × ω) Exn Unit) := uniform_update hf

omit [VirtualReadBuffer β] in
theorem uniform_part {α ω' : Type} {M : Submonoid (Function.End ω)} {M' : Submonoid (Function.End ω')} {view : ω → ω'}
    {put : ω' → ω → ω} {p : Comp (β × ω') Exn α} (hp : Uniform M' p)
    (hput : ∀ f ∈ M', (fun o => put (f (view o)) o : Function.End ω) ∈ M) : Uniform M (part view put p) := hp.zoom hput

/-! ## The request line -/

/-- What a scan does to a version; `none` is a number that is left as it was. -/
structure AssignedVersion where
  major : Option UInt32 := none
  minor : Option UInt32 := none
deriving DecidableEq

def AssignedVersion.apply (a : AssignedVersion) (v : HTTPVersion) : HTTPVersion where
  major_ := a.major.getD v.major_
  minor_ := a.minor.getD v.minor_

/-- What a parse does to a request line; `none` is a member that is left as it was. -/
structure Assigned where
  method : Option Method := none
  uri : Str := []     -- appended
  version : AssignedVersion := {}
deriving DecidableEq

def Assigned.apply (a : Assigned) (l : HTTPRequestLine) : HTTPRequestLine where
  method_ := a.method.getD l.method_
  request_uri_ := l.request_uri_ ++ a.uri
  http_version_ := a.version.apply l.http_version_

/-- The members that are left alone are those of a new request line. -/
structure Assigned.LeavesDefault (a : Assigned) (l : HTTPRequestLine) : Prop where
  method : a.method = none → l.method_ = .meGET
  major : a.version.major = none → l.http_version_.major_ = 1
  minor : a.version.minor = none → l.http_version_.minor_ = 0

theorem getD_eq_getD_iff {α : Type} {x : Option α} {d d' : α} : x.getD d = x.getD d' ↔ (x = none → d = d') := by
  cases x <;> simp

theorem Assigned.apply_eq_iff {a : Assigned} {l : HTTPRequestLine} :
    a.apply { l with request_uri_ := [] } = a.apply { request_uri_ := [] } ↔ a.LeavesDefault l := by
  simp only [Assigned.apply, AssignedVersion.apply, HTTPRequestLine.mk.injEq, HTTPVersion.mk.injEq, getD_eq_getD_iff,
    true_and]
  constructor
  · rintro ⟨hmethod, hmajor, hminor⟩
    exact ⟨hmethod, hmajor, hminor⟩
  · rintro ⟨hmethod, hmajor, hminor⟩
    exact ⟨hmethod, hmajor, hminor⟩

def versionAssignments : Submonoid (Function.End HTTPVersion) where
  carrier := Set.range AssignedVersion.apply
  one_mem' := ⟨{}, rfl⟩
  mul_mem' := by
    rintro _ _ ⟨a, rfl⟩ ⟨a', rfl⟩
    -- of two assignments, the later one stays
    refine ⟨⟨a.major.or a'.major, a.minor.or a'.minor⟩, funext fun v => ?_⟩
    change _ = a.apply (a'.apply v)
    simp [AssignedVersion.apply]

def lineAssignments : Submonoid (Function.End HTTPRequestLine) where
  carrier := Set.range Assigned.apply
  one_mem' := ⟨{}, funext fun l => by
    change _ = l
    simp [Assigned.apply, AssignedVersion.apply]⟩
  mul_mem' := by
    rintro _ _ ⟨a, rfl⟩ ⟨a', rfl⟩
    refine ⟨⟨a.method.or a'.method, a'.uri ++ a.uri, ⟨a.version.major.or a'.version.major,
      a.version.minor.or a'.version.minor⟩⟩, funext fun l => ?_⟩
    change _ = a.apply (a'.apply l)
    simp [Assigned.apply, AssignedVersion.apply]

theorem mem_versionAssignments {f : Function.End HTTPVersion} :
    f ∈ versionAssignments ↔ ∃ a : AssignedVersion, a.apply = f := Iff.rfl

theorem mem_lineAssignments {f : Function.End HTTPRequestLine} :
    f ∈ lineAssignments ↔ ∃ a : Assigned, a.apply = f := Iff.rfl

/-- No digits leave a number as it was. -/
def digitsRead (ds : Str) : Option UInt32 := if ds = [] then none else some (extractUInt ds 0)

theorem getD_digitsRead {ds : Str} {value : UInt32} : (digitsRead ds).getD value = extractUInt ds value := by
  unfold digitsRead extractUInt
  split <;> rfl

theorem HTTPVersion.uniform_parse : Uniform versionAssignments (HTTPVersion.parse : Comp (β × HTTPVersion) Exn _) := by
  refine (reading_uniform versionAssignments).parseVersion fun major minor => uniform_modifySelf ?_
  refine mem_versionAssignments.mpr ⟨⟨digitsRead major, digitsRead minor⟩, funext fun v => ?_⟩
  simp [AssignedVersion.apply, getD_digitsRead]

namespace HTTPRequestLine

theorem uniform_parseVersion :
    Uniform lineAssignments (parseVersion : Comp (β × HTTPRequestLine) Exn _) := by
  unfold parseVersion
  refine uniform_part HTTPVersion.uniform_parse ?_
  rintro _ ⟨a, rfl⟩
  refine mem_lineAssignments.mpr ⟨{ version := a }, funext fun l => ?_⟩
  simp [Assigned.apply]

theorem uniform_loop (vars : ParseState × Str × ParseResult) :
    Uniform lineAssignments (.loop parsePass vars : Comp (β × HTTPRequestLine) Exn _) := by
  refine (reading_uniform lineAssignments).requestLine uniform_parseVersion ?_ ?_ vars
  · exact fun c => uniform_modifySelf (mem_lineAssignments.mpr ⟨{ uri := [c] }, rfl⟩)
  · refine fun ms => uniform_modifySelf (mem_lineAssignments.mpr ⟨{ method := some (.methodFromString ms) }, ?_⟩)
    exact funext fun l => by simp [Assigned.apply, AssignedVersion.apply]

/-- `request_line_.parse` on the buffer `b` does `a` to every request line, after it has cleared the uri. -/
def Assigns (b : β) (a : Assigned) : Prop :=
  ∀ l, ∃ r b', Returns parse (b, l) r (b', a.apply { l with request_uri_ := [] })

theorem parse_uniform {b b' : β} {l l' : HTTPRequestLine} {r : Except Exn ParseResult}
    (h : Returns parse (b, l) r (b', l')) :
    ∃ a : Assigned, ∀ l₁, Returns parse (b, l₁) r (b', a.apply { l₁ with request_uri_ := [] }) := by
  obtain ⟨u, ⟨b₁, l₁⟩, hclear, hloop⟩ | ⟨e, hclear, rfl⟩ := returns_bind.mp h
  · obtain ⟨-, hs⟩ := Prod.mk.inj (returns_prim.mp hclear)
    obtain ⟨rfl, rfl⟩ := Prod.mk.inj hs
    obtain ⟨_, ⟨a, rfl⟩, -, hall⟩ := uniform_loop _ _ _ _ _ _ hloop
    exact ⟨a, fun l₁ => returns_bind.mpr (.inl ⟨(), _, returns_prim.mpr rfl, hall _⟩)⟩
  · cases returns_prim.mp hclear

theorem uniform_parse : Uniform ⊤ (parse : Comp (β × HTTPRequestLine) Exn _) := by
  intro b l r b' l' h
  obtain ⟨a, hall⟩ := parse_uniform h
  exact ⟨fun l => a.apply { l with request_uri_ := [] }, trivial, (Prod.mk.inj (h.unique (hall l)).2).2, hall⟩

/-- What is assigned does not depend on how it is written. -/
theorem Assigns.leavesDefault_iff {b : β} {a a' : Assigned} (h : Assigns b a) (h' : Assigns b a') {l : HTTPRequestLine} :
    a.LeavesDefault l ↔ a'.LeavesDefault l := by
  have hsame (l : HTTPRequestLine) :
      a.apply { l with request_uri_ := [] } = a'.apply { l with request_uri_ := [] } := by
    obtain ⟨r, b₁, hreturns⟩ := h l
    obtain ⟨r', b₁', hreturns'⟩ := h' l
    exact (Prod.mk.inj (hreturns.unique hreturns').2).2
  rw [← Assigned.apply_eq_iff, ← Assigned.apply_eq_iff, hsame l, hsame {}]

end HTTPRequestLine

/-! ### By the octets of the text -/

namespace Grammar

open HTTPMessage HTTPRequestLine

/-- The digits of the two numbers of a version, and what is behind them. -/
def versionDigits (l : Str) : Option ((Str × Str) × Str) := do
  let l ← skip isspace l
  let l ← octet 72 l    -- H
  let l ← octet 84 l    -- T
  let l ← octet 84 l    -- T
  let l ← octet 80 l    -- P
  let l₁ ← octet 47 l   -- /
  let l₂ ← skip isdigit l₁
  let l₃ ← octet 46 l₂  -- .
  let l₄ ← skip isdigit l₃
  some ((l₁.takeWhile isdigit, l₃.takeWhile isdigit), l₄)

/-- What a text assigns: the numbers of the version that have digits, once the version has been read, and the method,
    once the CR LF has been read. -/
def assigned (text : Str) : Assigned :=
  match (skip nonspace text).bind (skip isSP) with
  | none => {}
  | some target =>
    match (skip nonspace target).bind versionDigits with
    | none => { uri := target.takeWhile nonspace }
    | some ((major, minor), rest) => {
        method := ((skip isSP rest).bind crlf).map fun _ => .methodFromString (text.takeWhile nonspace)
        uri := target.takeWhile nonspace
        version := ⟨digitsRead major, digitsRead minor⟩ }

theorem version_eq (v : HTTPVersion) (l : Str) : version v l = (versionDigits l).map fun x =>
    ({ major_ := extractUInt x.1.1 v.major_, minor_ := extractUInt x.1.2 v.minor_ }, x.2) := by
  simp only [version, versionDigits, Option.bind_eq_bind, Option.map_bind, Function.comp_def, Option.map_some]

theorem leftMethod_eq (o : HTTPRequestLine) (l : Str) :
    leftMethod [] { o with request_uri_ := [] } l = (assigned l).apply { o with request_uri_ := [] } := by
  unfold leftMethod assigned
  cases (skip nonspace l).bind (skip isSP) with
  | none => rfl
  | some target =>
      simp only [leftURI, List.nil_append]
      cases skip nonspace target with
      | none => rfl
      | some rest =>
          simp only [leftVersion, version_eq, Option.bind_some]
          cases versionDigits rest with
          | none => rfl
          | some x =>
              obtain ⟨⟨major, minor⟩, rest⟩ := x
              simp only [Option.map_some, Assigned.apply, AssignedVersion.apply, getD_digitsRead, List.nil_append]
              cases skip isSP rest with
              | none => rfl
              | some rest =>
                  simp only [leftEnd, Option.bind_some]
                  cases crlf rest with
                  | none => rfl
                  | some rest => rfl

/-- A line that is accepted is left like the others. -/
theorem leftMethod_of_some {o o' : HTTPRequestLine} {l rest : Str} (h : requestLine o l = some (o', rest)) :
    leftMethod [] { o with request_uri_ := [] } l = o' := by
  rw [requestLine_eq] at h
  obtain ⟨l₁, hmethod, h⟩ := Option.bind_eq_some_iff.mp h
  obtain ⟨l₂, hblank, h⟩ := Option.bind_eq_some_iff.mp h
  obtain ⟨l₃, huri, h⟩ := Option.bind_eq_some_iff.mp h
  obtain ⟨⟨v, l₄⟩, hversion, h⟩ := Option.bind_eq_some_iff.mp h
  obtain ⟨l₅, hblank', h⟩ := Option.bind_eq_some_iff.mp h
  obtain ⟨l₆, hcrlf, h⟩ := Option.bind_eq_some_iff.mp h
  rw [leftMethod, hmethod, Option.bind_some, hblank]
  simp only [leftURI, huri, leftVersion, hversion, hblank', leftEnd, hcrlf, List.nil_append]
  split at h
  case isTrue => cases h
  case isFalse => exact (Prod.mk.inj (Option.some.inj h)).1

end Grammar

/-- Over a buffer that delivers a text, the octets say what is assigned. -/
theorem HTTPRequestLine.assigns_assigned {e : SystemError} {D : Delivers β e} {b : β} {text : Str} (hat : D.At b text)
    (hne : text ≠ []) : Assigns b (Grammar.assigned text) := by
  intro l
  obtain ⟨r, ⟨b', l'⟩, hreturns, hleaves⟩ := parse_leaves (o := l) hat hne
  refine ⟨r, b', ?_⟩
  rw [← Grammar.leftMethod_eq]
  cases hline : Grammar.requestLine l text with
  | none =>
      rw [hline] at hleaves
      obtain ⟨-, rfl⟩ := hleaves
      exact hreturns
  | some v =>
      obtain ⟨o', rest⟩ := v
      rw [hline] at hleaves
      obtain ⟨-, rfl, -⟩ := hleaves
      rw [Grammar.leftMethod_of_some hline]
      exact hreturns

/-! ## Headers -/

namespace HTTPMessage

theorem addHeaders_append {m : HTTPMessage} {kvs kvs' : List (Str × Str)} :
    m.addHeaders (kvs ++ kvs') = (m.addHeaders kvs).addHeaders kvs' := List.foldl_append

def additions : Submonoid (Function.End HTTPMessage) where
  carrier := Set.range fun kvs m => m.addHeaders kvs
  one_mem' := ⟨[], rfl⟩
  mul_mem' := by
    rintro _ _ ⟨kvs, rfl⟩ ⟨kvs', rfl⟩
    exact ⟨kvs' ++ kvs, funext fun m => addHeaders_append⟩

theorem mem_additions {f : Function.End HTTPMessage} :
    f ∈ additions ↔ ∃ kvs : List (Str × Str), (fun m => m.addHeaders kvs) = f := Iff.rfl

theorem uniform_parseHeaders : Uniform additions (parseHeaders : Comp (β × HTTPMessage) Exn _) :=
  (reading_uniform additions).parseHeaders fun k v => uniform_modifySelf (mem_additions.mpr ⟨[(k, v)], rfl⟩)

theorem headers_addHeaders_congr {m m' : HTTPMessage} {kvs : List (Str × Str)} (h : m.headers_ = m'.headers_) :
    (m.addHeaders kvs).headers_ = (m'.addHeaders kvs).headers_ := by
  induction kvs generalizing m m' with
  | nil => exact h
  | cons kv kvs ih =>
      rw [addHeaders_cons, addHeaders_cons]
      refine ih ?_
      rw [headers_addHeader, headers_addHeader, h]

/-- A value in front makes a difference. -/
theorem joined_cons_ne {v : Str} {vs : List Str} : joined (v :: vs) ≠ joined vs := by
  cases vs with
  | nil => simp [joined]
  | cons w vs =>
      intro h
      have hlength := congrArg List.length (Option.some.inj h)
      simp only [List.intercalate_cons_cons, List.length_append, lit] at hlength
      simp at hlength

/-- Headers that were there before are there afterwards. -/
theorem headers_eq_empty {m : HTTPMessage} {kvs : List (Str × Str)}
    (h : (m.addHeaders kvs).headers_ = (({} : HTTPMessage).addHeaders kvs).headers_) : m.headers_ = ∅ := by
  refine Std.ExtTreeMap.ext_getElem? fun k => ?_
  have hk := congrArg (·[k]?) h
  simp only [getElem?_addHeaders_eq] at hk
  cases hm : m.headers_[k]? with
  | none => simp
  | some v =>
      rw [hm] at hk
      simp only [Option.toList_some, List.singleton_append, Std.ExtTreeMap.getElem?_empty, Option.toList_none,
        List.nil_append] at hk
      exact absurd hk joined_cons_ne

end HTTPMessage

namespace HTTPRequest

open HTTPMessage

/-- On the buffer `b`, `p` adds `kvs` to the headers of every request, whatever else it does. -/
def Adds {α : Type} (p : Comp (β × HTTPRequest) Exn α) (b : β) (kvs : List (Str × Str)) : Prop :=
  ∀ o r b' o', Returns p (b, o) r (b', o') → o'.headers_ = (o.toHTTPMessage.addHeaders kvs).headers_

omit [VirtualReadBuffer β] in
theorem adds_nil {α : Type} {p : Comp (β × HTTPRequest) Exn α} (b : β)
    (hp : ∀ headers, Stays (fun s => s.2.headers_ = headers) True p) : Adds p b [] := by
  intro o r b' o' h
  exact (hp o.headers_ _ _ _ rfl h).1

omit [VirtualReadBuffer β] in
/-- In front, a uniform computation whose update adds headers. -/
theorem exists_adds_bind {α γ : Type} {p : Comp (β × HTTPRequest) Exn α} {f : α → Comp (β × HTTPRequest) Exn γ}
    {M : Submonoid (Function.End HTTPRequest)} (hp : Uniform M p)
    (hM : ∀ g ∈ M, ∃ kvs, ∀ o, (g o).headers_ = (o.toHTTPMessage.addHeaders kvs).headers_)
    (hf : ∀ a b, ∃ kvs, Adds (f a) b kvs) (b : β) : ∃ kvs, Adds (p >>= f) b kvs := by
  by_cases hends : ∃ o r s, Returns p (b, o) r s
  · obtain ⟨o, r, ⟨b₁, o₁⟩, hreturns⟩ := hends
    obtain ⟨g, hg, -, hall⟩ := hp _ _ _ _ _ hreturns
    obtain ⟨kvs, hkvs⟩ := hM g hg
    cases r with
    | ok a =>
        obtain ⟨kvs', hkvs'⟩ := hf a b₁
        refine ⟨kvs ++ kvs', fun o₂ r₂ b₂ o₂' h => ?_⟩
        obtain ⟨a', s, hfirst, hsecond⟩ | ⟨e, hfirst, -⟩ := returns_bind.mp h
        · obtain ⟨ha, rfl⟩ := (hall o₂).unique hfirst
          obtain rfl := Except.ok.inj ha
          rw [hkvs' _ _ _ _ hsecond, addHeaders_append]
          exact headers_addHeaders_congr (hkvs o₂)
        · cases ((hall o₂).unique hfirst).1
    | error e =>
        refine ⟨kvs, fun o₂ r₂ b₂ o₂' h => ?_⟩
        obtain ⟨a', s, hfirst, -⟩ | ⟨e', hfirst, -⟩ := returns_bind.mp h
        · cases ((hall o₂).unique hfirst).1
        · obtain ⟨-, hs⟩ := (hall o₂).unique hfirst
          obtain ⟨-, rfl⟩ := Prod.mk.inj hs
          exact hkvs o₂
  · -- the first half does not end, on any request
    refine ⟨[], fun o₂ r₂ b₂ o₂' h => ?_⟩
    obtain ⟨a', s, hfirst, -⟩ | ⟨e', hfirst, -⟩ := returns_bind.mp h
    · exact absurd ⟨o₂, _, _, hfirst⟩ hends
    · exact absurd ⟨o₂, _, _, hfirst⟩ hends

/-- The updates of a request that add headers to it. -/
def headerUpdates : Submonoid (Function.End HTTPRequest) where
  carrier := { f | ∃ kvs, ∀ o, (f o).toHTTPMessage = o.toHTTPMessage.addHeaders kvs }
  one_mem' := ⟨[], fun _ => rfl⟩
  mul_mem' := by
    rintro f g ⟨kvs, hf⟩ ⟨kvs', hg⟩
    refine ⟨kvs' ++ kvs, fun o => ?_⟩
    change (f (g o)).toHTTPMessage = _
    rw [hf, hg, addHeaders_append]

theorem mem_headerUpdates {f : Function.End HTTPRequest} :
    f ∈ headerUpdates ↔ ∃ kvs, ∀ o, (f o).toHTTPMessage = o.toHTTPMessage.addHeaders kvs := Iff.rfl

theorem uniform_parseRequestLine : Uniform headerUpdates (parseRequestLine : Comp (β × HTTPRequest) Exn _) := by
  unfold parseRequestLine
  exact uniform_part HTTPRequestLine.uniform_parse fun f _ => mem_headerUpdates.mpr ⟨[], fun o => rfl⟩

theorem uniform_onMessage_parseHeaders :
    Uniform headerUpdates (onMessage parseHeaders : Comp (β × HTTPRequest) Exn _) := by
  unfold onMessage
  refine uniform_part uniform_parseHeaders ?_
  rintro _ ⟨kvs, rfl⟩
  exact mem_headerUpdates.mpr ⟨kvs, fun o => rfl⟩

theorem stays_headers_parseBody (headers : Headers) :
    Stays (fun s => s.2.headers_ = headers) True (onMessage parseBody : Comp (β × HTTPRequest) Exn _) :=
  stays_part stays_headers_requestBody (fun _ _ h => h) (fun _ _ _ h => h)

/-- What `parse` does behind the headers. -/
def behindHeaders (parseResult : ParseResult) : Comp (β × HTTPRequest) Exn ParseResult :=
  if !parseResult.ok then pure parseResult else do
  let c ← get
  if c = charLF then parseBehindLF else pure {}

theorem parseWithHeaders_eq :
    (parseWithHeaders : Comp (β × HTTPRequest) Exn _) = onMessage parseHeaders >>= behindHeaders := rfl

/-- What `parse` does behind the request line. -/
def behindLine (parseResult : ParseResult) : Comp (β × HTTPRequest) Exn ParseResult :=
  if parseResult.ok then do
    let c ← get
    if c = charCR then parseBare (onMessage parseBody) else parseWithHeaders
  else pure parseResult

theorem parse_eq : (parse : Comp (β × HTTPRequest) Exn _) = parseRequestLine >>= behindLine := rfl

section Behind

variable {Inv : β × HTTPRequest → Prop} (h : Scans Inv True) (hbody : Stays Inv True (onMessage parseBody))

include h hbody

theorem stays_behindHeaders (parseResult : ParseResult) : Stays Inv True (behindHeaders parseResult) := by
  refine stays_pure.ite (h.get.bind fun _ => Stays.ite (h.next.bind fun _ => ?_) stays_pure)
  exact hbody.ite (stays_pure.ite stays_pure)

theorem stays_behindLine (hheaders : Stays Inv True (onMessage parseHeaders)) (parseResult : ParseResult) :
    Stays Inv True (behindLine parseResult) := by
  refine Stays.ite (h.get.bind fun _ => (h.reading.parseBare hbody).ite ?_) stays_pure
  rw [parseWithHeaders_eq]
  exact hheaders.bind (stays_behindHeaders h hbody)

end Behind

/-- **What a parse does to the headers** does not depend on the request: some headers are added. -/
theorem exists_adds_parse (b : β) : ∃ kvs, Adds parse b kvs := by
  have hM : ∀ g ∈ headerUpdates, ∃ kvs, ∀ o, (g o).headers_ = (o.toHTTPMessage.addHeaders kvs).headers_ := by
    rintro g ⟨kvs, hg⟩
    exact ⟨kvs, fun o => by rw [hg o]⟩
  have hscans : ∀ headers, Scans (fun s : β × HTTPRequest => s.2.headers_ = headers) True :=
    fun headers => scans_object fun r : HTTPRequest => r.headers_ = headers
  rw [parse_eq]
  refine exists_adds_bind uniform_parseRequestLine hM (fun parseResult b₁ => ?_) b
  unfold behindLine
  split
  · refine exists_adds_bind (reading_uniform headerUpdates).get hM (fun c b₂ => ?_) b₁
    split
    · exact ⟨[], adds_nil b₂ fun headers => (hscans headers).reading.parseBare (stays_headers_parseBody headers)⟩
    · rw [parseWithHeaders_eq]
      refine exists_adds_bind uniform_onMessage_parseHeaders hM (fun pr b₃ => ⟨[], adds_nil b₃ fun headers => ?_⟩) b₂
      exact stays_behindHeaders (hscans headers) (stays_headers_parseBody headers) pr
  · exact ⟨[], adds_nil b₁ fun _ => stays_pure⟩

/-- The request line is left alone behind `request_line_.parse`. -/
theorem parse_line {b b' : β} {o o' : HTTPRequest} {r : Except Exn ParseResult} (h : Returns parse (b, o) r (b', o')) :
    ∃ r₀ b₀, Returns HTTPRequestLine.parse (b, o.request_line_) r₀ (b₀, o'.request_line_) := by
  have honMessage : ∀ {α : Type} {p : Comp (β × HTTPMessage) Exn α} {line : HTTPRequestLine},
      Stays (fun s => s.2.request_line_ = line) True (onMessage p) := by
    rintro α p line ⟨b, o⟩ r ⟨b', o'⟩ hs h
    obtain ⟨m, -, rfl⟩ := returns_part.mp h
    exact ⟨hs, fun _ _ => trivial⟩
  rw [parse_eq] at h
  obtain ⟨parseResult, ⟨b₁, o₁⟩, hline, hrest⟩ | ⟨e, hline, -⟩ := returns_bind.mp h
  · obtain ⟨line, hparse, rfl⟩ := returns_part.mp hline
    have hkeeps := stays_behindLine (scans_object fun r : HTTPRequest => r.request_line_ = line) honMessage honMessage
      parseResult _ _ _ rfl hrest
    exact ⟨_, b₁, by rw [hkeeps.1]; exact hparse⟩
  · obtain ⟨line, hparse, rfl⟩ := returns_part.mp hline
    exact ⟨_, b', hparse⟩

/-! ## A parse that has read no headers -/

/-- Without headers there is no body. -/
def NoBody (m : HTTPMessage) : Prop := m.headers_ = ∅ → m.body_ = []

theorem stays_noBody_parseBody : Stays (fun s => NoBody s.2) True (parseBody : Comp (β × HTTPMessage) Exn _) := by
  rintro ⟨b, m⟩ r s' hs h
  refine ⟨fun hempty => ?_, fun _ _ => trivial⟩
  have hkept : s'.2.headers_ = m.headers_ := (stays_headers_requestBody _ _ _ rfl h).1
  have hm : m.headers_ = ∅ := hkept.symm.trans hempty
  have hlength : m.getHeaderULong (lit "content-length") = .ok (false, 0) := by simp [getHeaderULong, hm]
  have hte : m.getHeaderValue (lit "transfer-encoding") = none := by simp [getHeaderValue, hm]
  have hwp : wp (parseBody : Comp (β × HTTPMessage) Exn _) (fun _ s => s = (b, m)) (b, m) := by
    simp [parseBody, self, liftExcept, hlength, hte]
  obtain ⟨r', s'', hret, rfl⟩ := hwp
  obtain ⟨-, rfl⟩ := h.unique hret
  exact hs hm

theorem noBody_addHeader {m : HTTPMessage} {k v : Str} : NoBody (m.addHeader k v) := by
  intro hempty
  rw [headers_addHeader] at hempty
  have hk := congrArg (·[k]?) hempty
  simp at hk

/-- A request that was parsed into a new object and has no headers has no body either. -/
theorem noBody_parse {b b' : β} {o : HTTPRequest} {r : Except Exn ParseResult}
    (h : Returns parse (b, {}) r (b', o)) : NoBody o.toHTTPMessage := by
  have hbody : Stays (fun s => NoBody s.2.toHTTPMessage) True (onMessage parseBody : Comp (β × HTTPRequest) Exn _) :=
    stays_part stays_noBody_parseBody (fun _ _ h => h) (fun _ _ _ h => h)
  have hheaders : Stays (fun s => NoBody s.2.toHTTPMessage) True (onMessage parseHeaders : Comp (β × HTTPRequest) Exn _) :=
    stays_part ((scans_object NoBody).reading.parseHeaders fun k v => stays_modifySelf fun s _ => noBody_addHeader)
      (fun _ _ h => h) (fun _ _ _ h => h)
  rw [parse_eq] at h
  obtain ⟨parseResult, ⟨b₁, o₁⟩, hline, hrest⟩ | ⟨e, hline, -⟩ := returns_bind.mp h
  · obtain ⟨line, -, rfl⟩ := returns_part.mp hline
    exact (stays_behindLine (scans_object fun r : HTTPRequest => NoBody r.toHTTPMessage) hbody hheaders parseResult
      _ _ _ (fun _ => rfl) hrest).1
  · obtain ⟨line, -, rfl⟩ := returns_part.mp hline
    exact fun _ => rfl

end HTTPRequest

open HTTPRequest

/-- Two parses of one buffer, into requests that differ in the request line, where the assignments make up for it. -/
theorem returns_parse_of_line {b b' : β} {o o₁ o' : HTTPRequest} {r : Except Exn ParseResult}
    (hmessage : o.toHTTPMessage = o₁.toHTTPMessage)
    (hline : ∀ a, HTTPRequestLine.Assigns b a →
      a.apply { o.request_line_ with request_uri_ := [] } = a.apply { o₁.request_line_ with request_uri_ := [] })
    (h : Returns parse (b, o) r (b', o')) : Returns parse (b, o₁) r (b', o') := by
  obtain ⟨r₀, b₀, hparse⟩ := parse_line h
  obtain ⟨a, hall⟩ := HTTPRequestLine.parse_uniform hparse
  have hsame := hline a fun l => ⟨r₀, b₀, hall l⟩
  have hfirst : Returns parseRequestLine (b, o) r₀
      (b₀, { o with request_line_ := a.apply { o.request_line_ with request_uri_ := [] } }) :=
    returns_part.mpr ⟨_, hall _, rfl⟩
  have hsecond : Returns parseRequestLine (b, o₁) r₀
      (b₀, { o with request_line_ := a.apply { o.request_line_ with request_uri_ := [] } }) := by
    rw [hsame, hmessage]
    exact returns_part.mpr ⟨_, hall _, rfl⟩
  exact hfirst.bind_congr hsecond h

/-- A parse of the buffer into the request gives what it gives for a new request. -/
def SameAsNew (b : β) (o : HTTPRequest) : Prop :=
  ∀ r o', (∃ b', Returns parse (b, o) r (b', o')) ↔ ∃ b', Returns parse (b, {}) r (b', o')

theorem sameAsNew_iff {β₁ : Type} [VirtualReadBuffer β₁] {b₁ b₁' : β₁} {b : β} {r₁ : Except Exn ParseResult}
    {o₁ : HTTPRequest} (h₁ : Returns parse (b₁, {}) r₁ (b₁', o₁))
    (hends : (∃ r s, Returns parse (b, o₁) r s) ∨ ∃ r s, Returns parse (b, ({} : HTTPRequest)) r s) :
    SameAsNew b o₁ ↔ o₁.headers_ = ∅ ∧ ∀ a, HTTPRequestLine.Assigns b a → a.LeavesDefault o₁.request_line_ := by
  constructor
  · intro hsame
    -- one of the two parses ends, and so does the other
    obtain ⟨r, o', ⟨b', hreused⟩, b'', hnew⟩ :
        ∃ r o', (∃ b', Returns parse (b, o₁) r (b', o')) ∧ ∃ b', Returns parse (b, {}) r (b', o') := by
      obtain ⟨r, ⟨b', o'⟩, h⟩ | ⟨r, ⟨b', o'⟩, h⟩ := hends
      · exact ⟨r, o', ⟨b', h⟩, (hsame r o').mp ⟨b', h⟩⟩
      · exact ⟨r, o', (hsame r o').mpr ⟨b', h⟩, ⟨b', h⟩⟩
    refine ⟨?_, fun a ha => Assigned.apply_eq_iff.mp ?_⟩
    · -- both parses add the same headers and end with the same, so there were none before
      obtain ⟨kvs, hadds⟩ := exists_adds_parse b
      exact HTTPMessage.headers_eq_empty ((hadds _ _ _ _ hreused).symm.trans (hadds _ _ _ _ hnew))
    · obtain ⟨_, _, hline⟩ := parse_line hreused
      obtain ⟨_, _, hline'⟩ := parse_line hnew
      obtain ⟨_, _, ha₁⟩ := ha o₁.request_line_
      obtain ⟨_, _, ha₂⟩ := ha {}
      exact (Prod.mk.inj (ha₁.unique hline).2).2.trans (Prod.mk.inj (ha₂.unique hline').2).2.symm
  · rintro ⟨hempty, hdefault⟩ r o'
    -- only the request line can differ from that of a new request
    have hmessage : o₁.toHTTPMessage = {} := by
      have hbody := noBody_parse h₁ hempty
      obtain ⟨⟨headers, body⟩, line⟩ := o₁
      simp only at hempty hbody
      rw [hempty, hbody]
    constructor
    · rintro ⟨b', h⟩
      exact ⟨b', returns_parse_of_line hmessage (fun a ha => Assigned.apply_eq_iff.mpr (hdefault a ha)) h⟩
    · rintro ⟨b', h⟩
      exact ⟨b', returns_parse_of_line hmessage.symm (fun a ha => (Assigned.apply_eq_iff.mpr (hdefault a ha)).symm) h⟩

/-- **Reuse of a request**: a second parse gives what it gives for a new request exactly if the first one has left no
    headers, and the members of the request line that the second one does not assign are those of a new one. Where the
    second buffer delivers a text, its octets say which these are. -/
theorem parse_reused_iff {β₁ β₂ : Type} [VirtualReadBuffer β₁] [VirtualReadBuffer β₂] (b₁ b₁' : β₁) (b₂ : β₂)
    (r₁ : Except Exn ParseResult) (o₁ : HTTPRequest) (h₁ : Returns parse (b₁, {}) r₁ (b₁', o₁))
    (hends : (∃ r s, Returns parse (b₂, o₁) r s) ∨ ∃ r s, Returns parse (b₂, ({} : HTTPRequest)) r s) :
    (SameAsNew b₂ o₁ ↔
      o₁.headers_ = ∅ ∧ ∀ a, HTTPRequestLine.Assigns b₂ a → a.LeavesDefault o₁.request_line_) ∧
    ∀ (e : SystemError) (D : Delivers β₂ e) (text : Str), D.At b₂ text → text ≠ [] →
      (SameAsNew b₂ o₁ ↔ o₁.headers_ = ∅ ∧ (Grammar.assigned text).LeavesDefault o₁.request_line_) := by
  have hgeneral := sameAsNew_iff (b := b₂) h₁ hends
  refine ⟨hgeneral, fun e D text hat hne => ?_⟩
  have hassigns := HTTPRequestLine.assigns_assigned hat hne
  rw [hgeneral]
  refine and_congr_right fun _ => ⟨fun h => h _ hassigns, fun h a ha => ?_⟩
  exact (ha.leavesDefault_iff hassigns).mpr h

/-- A buffer with one message, which has one header. -/
def oneHeader : StringReadBuffer := .ofString (lit "GET / HTTP/1.1\r\na: b\r\n\r\n")

theorem parse_reused_iff_twice : ∃ r₁ b₁ o₁, Returns parse (oneHeader, {}) r₁ (b₁, o₁) ∧
    (SameAsNew oneHeader o₁ ↔ o₁.headers_ = ∅ ∧
      (Grammar.assigned (lit "GET / HTTP/1.1\r\na: b\r\n\r\n")).LeavesDefault o₁.request_line_) := by
  have hrun : wp parse (fun r _ => r = .ok {}) (oneHeader, ({} : HTTPRequest)) := wp_of_run 60 (by decide +kernel)
  obtain ⟨r₁, ⟨b₁, o₁⟩, h₁, -⟩ := hrun
  refine ⟨r₁, b₁, o₁, h₁, ?_⟩
  exact (parse_reused_iff oneHeader b₁ oneHeader r₁ o₁ h₁ (.inr ⟨r₁, _, h₁⟩)).2 _ StringReadBuffer.delivers _
    (StringReadBuffer.delivers_ofString _ (by decide)) (by decide)

/-- The octets of two lines: all is assigned, or the method is not reached and the major number has no digits. -/
example : Grammar.assigned (lit "PUT /a HTTP/1.1\r\n\r") = ⟨some .mePUT, lit "/a", ⟨some 1, some 1⟩⟩ ∧
    Grammar.assigned (lit "PUT /a HTTP/.2 x") = ⟨none, lit "/a", ⟨none, some 2⟩⟩ := by decide

/-- The header of a message that is parsed twice has its value twice. -/
theorem parse_twice_merges_headers : ∃ b₁ b₂ o₁ o₂, Returns parse (oneHeader, {}) (.ok {}) (b₁, o₁) ∧
    Returns parse (oneHeader, o₁) (.ok {}) (b₂, o₂) ∧ o₁.getHeaderValue (lit "a") = some (lit "b") ∧
      o₂.getHeaderValue (lit "a") = some (lit "b,b") := by
  have hruns : ∃ x ∈ parse.run 60 (oneHeader, ({} : HTTPRequest)), ∃ y ∈ parse.run 60 (oneHeader, x.2.2),
      x.1 = .ok {} ∧ y.1 = .ok {} ∧ x.2.2.getHeaderValue (lit "a") = some (lit "b") ∧
        y.2.2.getHeaderValue (lit "a") = some (lit "b,b") := by decide +kernel
  obtain ⟨⟨_, b₁, o₁⟩, hx, ⟨_, b₂, o₂⟩, hy, rfl, rfl, hvalue₁, hvalue₂⟩ := hruns
  exact ⟨b₁, b₂, o₁, o₂, ⟨60, hx⟩, ⟨60, hy⟩, hvalue₁, hvalue₂⟩

end Dodo.Network.Http
