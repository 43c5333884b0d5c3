import Dodo.Network.Http.HeaderSection
import Dodo.Network.Http.LineGrammar
import Dodo.Network.Http.NumericHeaders

/-!
# `Http.Headerless` — messages without headers

A start line is followed by headers and an empty line, or by the empty line alone. Both `parse` functions have their
own branch for the latter, which is taken as soon as a CR follows the start line: it reports the end of the data behind
the empty line as an error, and takes anything but a LF behind the CR for the end of the message. So a message without
headers is refused where the same message with a header is accepted.
-/

namespace Dodo.Network.Http

open Common Lib Lib.Comp

/-! ## Status lines -/

/-- A status line in pieces. -/
structure StatusText where
  major : Str
  minor : Str
  blanks : Str
  code : Str
  reason : Str    -- with the blank in front of it

namespace StatusText

open HTTPMessage Grammar

def text (t : StatusText) : Str :=
  versionText [] t.major t.minor ++ (t.blanks ++ (t.code ++ (t.reason ++ [charCR, charLF])))

/-- The line that is read. -/
def line (t : StatusText) : HTTPResponseLine where
  version_ := { major_ := extractUInt t.major 1, minor_ := extractUInt t.minor 0 }
  http_code_ := extractUInt t.code 0

structure WellFormed (t : StatusText) : Prop where
  major_ne : t.major ≠ []
  major_digits : ∀ c ∈ t.major, isdigit c = true
  major_lt : decVal t.major < 2 ^ 32
  minor_ne : t.minor ≠ []
  minor_digits : ∀ c ∈ t.minor, isdigit c = true
  minor_lt : decVal t.minor < 2 ^ 32
  blanks_ne : t.blanks ≠ []
  blanks_sp : ∀ c ∈ t.blanks, isSP c = true
  code_length : t.code.length = 3
  code_digits : ∀ c ∈ t.code, isdigit c = true
  reason_head : ∀ c ∈ t.reason.head?, isSP c = true
  reason_line : ∀ c ∈ t.reason, c ≠ charCR ∧ c ≠ charLF

variable {t : StatusText} {l : Str}

theorem responseLine_text (h : t.WellFormed) (hl : l ≠ []) :
    responseLine {} (t.text ++ l) = some (t.line, l) := by
  obtain ⟨c, code, hcode⟩ : ∃ c code, t.code = c :: code :=
    List.exists_cons_of_ne_nil (List.ne_nil_of_length_pos (by rw [h.code_length]; decide))
  have hc : isSP c = false := by
    rw [Bool.eq_false_iff]
    intro hsp
    have hdigit := h.code_digits c (by simp [hcode])
    rw [isdigit_of_isSP hsp] at hdigit
    cases hdigit
  have hreason : Ends isdigit (t.reason ++ charCR :: charLF :: l) := by
    cases hr : t.reason with
    | nil => exact ⟨charCR, _, rfl, by decide⟩
    | cons d reason => exact ⟨d, _, rfl, isdigit_of_isSP (h.reason_head d (by simp [hr]))⟩
  have hblanks : Ends isdigit (t.blanks ++ (t.code ++ (t.reason ++ charCR :: charLF :: l))) := by
    obtain ⟨d, blanks, hcons⟩ := List.exists_cons_of_ne_nil h.blanks_ne
    exact ⟨d, _, by rw [hcons]; rfl, isdigit_of_isSP (h.blanks_sp d (by simp [hcons]))⟩
  have hversion := version_eq_some (v := {}).mpr
    ⟨[], t.major, t.minor, nofun, h.major_digits, h.minor_digits, hblanks, rfl, rfl⟩
  have hnumber : number (t.code ++ (t.reason ++ charCR :: charLF :: l)) =
      some (extractUInt t.code 0, t.reason ++ charCR :: charLF :: l) := by
    rw [number, hreason.takeWhile h.code_digits, hreason.skip h.code_digits, if_neg (by simp [hcode])]
    rfl
  have hskip : skip isSP (t.blanks ++ (t.code ++ (t.reason ++ charCR :: charLF :: l))) =
      some (t.code ++ (t.reason ++ charCR :: charLF :: l)) :=
    Ends.skip ⟨c, _, by rw [hcode]; rfl, hc⟩ h.blanks_sp
  have htext : t.text ++ l = versionText [] t.major t.minor ++
      (t.blanks ++ (t.code ++ (t.reason ++ charCR :: charLF :: l))) := by simp [text]
  rw [htext, responseLine]
  simp only [Option.bind_eq_bind]
  rw [hversion, Option.bind_some, hskip, Option.bind_some, hnumber, Option.bind_some,
    skip_append (fun c hc => by simpa [notCR] using (h.reason_line c hc).1) (by decide), Option.bind_some, crlf_cons hl]
  rfl

end StatusText

/-! ## What follows the start line -/

open HTTPMessage

/-- What is expected of a message whose start line is followed by `tail`: the message without headers and the one with
    one header are read, and a CR that no LF follows is refused. -/
structure ReadsTail (tail : Str) (out : Option HTTPMessage) : Prop where
  bare : tail = [charCR, charLF] → out = some {}
  header : ∀ h : HeaderLine, tail = h.text ++ [charCR, charLF] →
    out = some { headers_ := (∅ : Headers).insert h.key h.content }
  lone : ∀ x rest, tail = charCR :: x :: rest → x ≠ charLF → out = none

/-- The two kinds of tails behind a start line that are read by the branch for messages without headers. -/
def IsBare (tail : Str) : Prop := tail = [charCR, charLF] ∨ ∃ x rest, tail = charCR :: x :: rest ∧ x ≠ charLF

namespace Grammar

variable {body ending : HTTPMessage → Str → Option (HTTPMessage × Str)} {tail : Str}

theorem messageRest_header (h : HeaderLine) : messageRest body ending {} (h.text ++ [charCR, charLF]) =
    ending { headers_ := (∅ : Headers).insert h.key h.content } [] := by
  obtain ⟨d, l', hcons, -, hcr⟩ := text_cons (l := [charCR, charLF]) h
  have hsec := headerSection_text h [] []
  rw [List.flatMap_cons, List.flatMap_nil, List.append_nil, hcons] at hsec
  rw [hcons, messageRest, if_neg (by simpa using hcr), hsec]
  simp [addHeaders, addHeader]

/-- A message without headers is never read as expected; one with headers is if its ending is. -/
theorem readsTail_iff : ReadsTail tail ((messageRest body ending {} tail).map Prod.fst) ↔
    ¬ IsBare tail ∧ ∀ h : HeaderLine, tail = h.text ++ [charCR, charLF] →
      (ending { headers_ := (∅ : Headers).insert h.key h.content } []).map Prod.fst =
        some { headers_ := (∅ : Headers).insert h.key h.content } := by
  constructor
  · intro hreads
    refine ⟨?_, ?_⟩
    · rintro (rfl | ⟨x, rest, rfl, hx⟩)
      · cases hreads.bare rfl
      · have hnone := hreads.lone x rest rfl hx
        simp [messageRest, bare, hx] at hnone
    · rintro h rfl
      have hsome := hreads.header h rfl
      rwa [messageRest_header] at hsome
  · rintro ⟨hbare, hheader⟩
    refine ⟨fun h => absurd (.inl h) hbare, ?_, fun x rest htail hx => absurd (.inr ⟨x, rest, htail, hx⟩) hbare⟩
    rintro h rfl
    rw [messageRest_header]
    exact hheader h rfl

end Grammar

namespace HTTPResponse

variable {m : HTTPMessage}

/-- With nothing behind the headers, a response is its headers, unless `hasBody` throws. -/
theorem responseEnd_nil : (Grammar.responseEnd m []).map Prod.fst = some m ↔ m.LengthReads := by
  rw [← hasBody_isOk_iff, Grammar.responseEnd]
  cases hasBody m with
  | error x => simp
  | ok found => cases found <;> simp

end HTTPResponse

theorem lengthReads_insert {key value : Str} :
    ({ headers_ := (∅ : Headers).insert key value } : HTTPMessage).LengthReads ↔
      (key = lit "content-length" → StartsWithNumber value) := by
  have hget : ({ headers_ := (∅ : Headers).insert key value } : HTTPMessage).getHeaderValue (lit "content-length") =
      if key = lit "content-length" then some value else none := by
    simp [getHeaderValue, Std.ExtTreeMap.getElem?_insert]
  rw [LengthReads, hget]
  split_ifs with hkey
  · simp [hkey]
  · simp [hkey]

theorem readsTail_nil {out : Option HTTPMessage} : ReadsTail [] out := by
  refine ⟨nofun, fun h htail => ?_, nofun⟩
  simp [HeaderLine.text] at htail

theorem not_isBare_nil : ¬ IsBare [] := by
  rintro (h | ⟨x, rest, h, -⟩) <;> cases h

section

variable {β ω : Type} {p : Comp (β × ω) Exn ParseResult} {b : β} {o : ω}

theorem ParsesTo.unique {out out' : Option ω} (h : ParsesTo p b o out) (h' : ParsesTo p b o out') : out = out' := by
  cases out with
  | none =>
      obtain ⟨r, s, hret, hrejects⟩ := h
      cases out' with
      | none => rfl
      | some o' =>
          obtain ⟨b', hret'⟩ := h'
          obtain ⟨rfl, -⟩ := hret.unique hret'
          cases hrejects
  | some o₁ =>
      obtain ⟨b₁, hret⟩ := h
      cases out' with
      | none =>
          obtain ⟨r, s, hret', hrejects⟩ := h'
          obtain ⟨rfl, -⟩ := hret'.unique hret
          cases hrejects
      | some o₂ =>
          obtain ⟨b₂, hret'⟩ := h'
          rw [(Prod.mk.inj (hret.unique hret').2).2]

variable [VirtualReadBuffer β] {D : Delivers β .ecEAGAIN} {res : Option (ω × Str)}

theorem exists_parsesTo_iff {P : Option ω → Prop} (h : wp p (Decodes D res) (b, o)) :
    (∃ out, ParsesTo p b o out ∧ P out) ↔ P (res.map Prod.fst) := by
  have hres := parsesTo_of_decodes h
  constructor
  · rintro ⟨out, hout, hp⟩
    rwa [hres.unique hout]
  · intro hp
    exact ⟨_, hres, hp⟩

end

variable {β : Type} [VirtualReadBuffer β]

/-- **Messages without headers** are not read as they should be: behind a well-formed start line, a tail is read as
    expected exactly if it is not one of them (and, in a response, a content-length in it is a number). -/
theorem readsTail_behind_startLine_iff (D : Delivers β .ecEAGAIN) (tail : Str) :
    (∀ (t : LineText) (b : β), t.WellFormed → D.At b (t.text ++ tail) →
      ((∃ out, ParsesTo HTTPRequest.parse b {} out ∧ ReadsTail tail (out.map (·.toHTTPMessage))) ↔ ¬ IsBare tail)) ∧
    (∀ (t : StatusText) (b : β), t.WellFormed → D.At b (t.text ++ tail) →
      ((∃ out, ParsesTo HTTPResponse.parse b {} out ∧ ReadsTail tail (out.map (·.toHTTPMessage))) ↔
        ¬ IsBare tail ∧ ∀ h : HeaderLine, tail = h.text ++ [charCR, charLF] →
          h.key = lit "content-length" → StartsWithNumber h.content)) := by
  constructor
  · intro t b ht hat
    rw [exists_parsesTo_iff (P := fun out => ReadsTail tail (out.map (·.toHTTPMessage)))
      (HTTPRequest.parse_spec hat (by simp [LineText.text]))]
    by_cases htail : tail = []
    · subst htail
      exact iff_of_true readsTail_nil not_isBare_nil
    have hres : ((Grammar.request {} (t.text ++ tail)).map Prod.fst).map (·.toHTTPMessage) =
        (Grammar.messageRest Grammar.requestBody Grammar.requestEnd {} tail).map Prod.fst := by
      rw [Grammar.request, LineText.requestLine_eq_some.mpr ⟨t, ht.readable, rfl, htail, rfl⟩]
      simp only [Option.bind_some, Option.map_map]
      rfl
    rw [hres, Grammar.readsTail_iff]
    exact and_iff_left fun h _ => rfl
  · intro t b ht hat
    rw [exists_parsesTo_iff (P := fun out => ReadsTail tail (out.map (·.toHTTPMessage)))
      (HTTPResponse.parse_spec hat (by simp [StatusText.text]))]
    by_cases htail : tail = []
    · subst htail
      refine iff_of_true readsTail_nil ⟨not_isBare_nil, fun h hnil => ?_⟩
      simp [HeaderLine.text] at hnil
    have hres : ((Grammar.response {} (t.text ++ tail)).map Prod.fst).map (·.toHTTPMessage) =
        (Grammar.messageRest Grammar.responseBody Grammar.responseEnd {} tail).map Prod.fst := by
      rw [Grammar.response, StatusText.responseLine_text ht htail]
      simp only [Option.bind_some, Option.map_map]
      rfl
    rw [hres, Grammar.readsTail_iff]
    simp only [HTTPResponse.responseEnd_nil, lengthReads_insert]

/-- The pieces of `GET / HTTP/1.1`. -/
def getLine : LineText := ⟨.meGET, lit " ", lit "/", lit " ", lit "1", lit "1", []⟩

/-- The pieces of `HTTP/1.1 200 OK`. -/
def okLine : StatusText := ⟨lit "1", lit "1", lit " ", lit "200", lit " OK"⟩

theorem getLine_wellFormed : getLine.WellFormed where
  method_valid := by decide
  blanks_ne := by decide
  blanks_sp := List.all_eq_true.mp (by decide)
  uri_ne := by decide
  uri_nonspace c hc := by
    obtain rfl : c = 47 := List.mem_singleton.mp hc
    decide
  space_ne := by decide
  space_sp := List.all_eq_true.mp (by decide)
  major_ne := by decide
  major_digits := List.all_eq_true.mp (by decide)
  major_lt := by decide
  minor_ne := by decide
  minor_digits := List.all_eq_true.mp (by decide)
  minor_lt := by decide
  trailing_sp := nofun

theorem okLine_wellFormed : okLine.WellFormed where
  major_ne := by decide
  major_digits := List.all_eq_true.mp (by decide)
  major_lt := by decide
  minor_ne := by decide
  minor_digits := List.all_eq_true.mp (by decide)
  minor_lt := by decide
  blanks_ne := by decide
  blanks_sp := List.all_eq_true.mp (by decide)
  code_length := by decide
  code_digits := List.all_eq_true.mp (by decide)
  reason_head c hc := by
    obtain rfl : 32 = c := Option.some.inj hc
    decide
  reason_line c hc := by
    have hcases : c = 32 ∨ c = 79 ∨ c = 75 := by simpa [okLine, lit] using hc
    rcases hcases with rfl | rfl | rfl <;> decide

theorem readsTail_behind_startLine_iff_bare :
    ((∃ out, ParsesTo HTTPRequest.parse (StringReadBuffer.ofString (getLine.text ++ lit "\r\n")) {} out ∧
      ReadsTail (lit "\r\n") (out.map (·.toHTTPMessage))) ↔ ¬ IsBare (lit "\r\n")) ∧
    ((∃ out, ParsesTo HTTPResponse.parse (StringReadBuffer.ofString (okLine.text ++ lit "\r\n")) {} out ∧
      ReadsTail (lit "\r\n") (out.map (·.toHTTPMessage))) ↔
        ¬ IsBare (lit "\r\n") ∧ ∀ h : HeaderLine, lit "\r\n" = h.text ++ [charCR, charLF] →
          h.key = lit "content-length" → StartsWithNumber h.content) :=
  ⟨(readsTail_behind_startLine_iff StringReadBuffer.delivers (lit "\r\n")).1 getLine _ getLine_wellFormed
      (StringReadBuffer.delivers_ofString _ (by decide)),
    (readsTail_behind_startLine_iff StringReadBuffer.delivers (lit "\r\n")).2 okLine _ okLine_wellFormed
      (StringReadBuffer.delivers_ofString _ (by decide))⟩

/-- A message without headers is refused, and one that ends in a lone CR is accepted. -/
theorem bare_message_refused :
    ParsesTo HTTPRequest.parse (StringReadBuffer.ofString (lit "GET / HTTP/1.1\r\n\r\n")) {} none ∧
    ParsesTo HTTPResponse.parse (StringReadBuffer.ofString (lit "HTTP/1.1 200 OK\r\n\r\n")) {} none ∧
    (∃ r, ParsesTo HTTPRequest.parse (StringReadBuffer.ofString (lit "GET / HTTP/1.1\r\n\rx")) {} (some r)) ∧
    (∃ r, ParsesTo HTTPResponse.parse (StringReadBuffer.ofString (lit "HTTP/1.1 200 OK\r\n\rx")) {} (some r)) := by
  have hrequest : wp HTTPRequest.parse (fun r _ => r = .ok (.setSystemError .ecEAGAIN))
      (StringReadBuffer.ofString (lit "GET / HTTP/1.1\r\n\r\n"), {}) := wp_of_run 60 (by decide +kernel)
  have hresponse : wp HTTPResponse.parse (fun r _ => r = .ok (.setSystemError .ecEAGAIN))
      (StringReadBuffer.ofString (lit "HTTP/1.1 200 OK\r\n\r\n"), {}) := wp_of_run 60 (by decide +kernel)
  have hrequest' : wp HTTPRequest.parse (fun r _ => r = .ok {})
      (StringReadBuffer.ofString (lit "GET / HTTP/1.1\r\n\rx"), {}) := wp_of_run 60 (by decide +kernel)
  have hresponse' : wp HTTPResponse.parse (fun r _ => r = .ok {})
      (StringReadBuffer.ofString (lit "HTTP/1.1 200 OK\r\n\rx"), {}) := wp_of_run 60 (by decide +kernel)
  obtain ⟨_, s₁, hret₁, rfl⟩ := hrequest
  obtain ⟨_, s₂, hret₂, rfl⟩ := hresponse
  obtain ⟨_, s₃, hret₃, rfl⟩ := hrequest'
  obtain ⟨_, s₄, hret₄, rfl⟩ := hresponse'
  exact ⟨⟨_, s₁, hret₁, rfl⟩, ⟨_, s₂, hret₂, rfl⟩, ⟨s₃.2, s₃.1, hret₃⟩, ⟨s₄.2, s₄.1, hret₄⟩⟩

end Dodo.Network.Http
