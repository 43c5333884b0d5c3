import Dodo.Network.Http.Refine.Messages

/-!
# `Http.Buffers` — the parsers over the three read buffers

What a parser makes of a text does not depend on the buffer the text comes from. The three buffers
answer `get()` differently once they are exhausted, and the parsers do call it then; the array contents
below are arbitrary, so whatever is read there makes no difference.
-/

namespace Dodo.Network.Http

open Common Lib Lib.Comp

variable {β ω : Type}

/-- `p` run on the buffer `b` and the object `o` ends: with ok and the object `o'` for `some o'`, not
    with ok for `none`. -/
def ParsesTo (p : Comp (β × ω) Exn ParseResult) (b : β) (o : ω) : Option ω → Prop
  | some o' => ∃ b', Returns p (b, o) (.ok {}) (b', o')
  | none => ∃ r s, Returns p (b, o) r s ∧ Rejects r

variable [VirtualReadBuffer β] {e : SystemError} {D : Delivers β e} {b b' : β} {o o' : ω} {l rest : Str}
  {p : Comp (β × ω) Exn ParseResult} {res : Option (ω × Str)}

theorem parsesTo_of_decodes (h : wp p (Decodes D res) (b, o)) : ParsesTo p b o (res.map Prod.fst) := by
  obtain ⟨r, ⟨b', o'⟩, hret, hdec⟩ := h
  cases res with
  | none => exact ⟨r, _, hret, hdec⟩
  | some v =>
      obtain ⟨rfl, rfl, -⟩ := hdec
      exact ⟨b', hret⟩

/-- A parser that returned ok did what the grammar says. -/
theorem eq_some_of_returns (h : wp p (Decodes D res) (b, o)) (hret : Returns p (b, o) (.ok {}) (b', o')) :
    ∃ rest, res = some (o', rest) ∧ D.At b' rest := by
  obtain ⟨r, s, hret', hdec⟩ := h
  obtain ⟨rfl, rfl⟩ := hret.unique hret'
  cases res with
  | none => cases hdec
  | some v =>
      obtain ⟨-, rfl, hat⟩ := hdec
      exact ⟨v.2, rfl, hat⟩

/-- Where the grammar accepts, the parser returns ok. -/
theorem returns_of_eq_some (h : wp p (Decodes D res) (b, o)) (hres : res = some (o', rest)) :
    ∃ b', Returns p (b, o) (.ok {}) (b', o') ∧ D.At b' rest := by
  obtain ⟨r, ⟨b', o''⟩, hret, hdec⟩ := h
  subst hres
  obtain ⟨rfl, rfl, hat⟩ := hdec
  exact ⟨b', hret, hat⟩

/-- The objects with which a parser returns ok are those of the grammar. -/
theorem exists_returns_iff (h : wp p (Decodes D res) (b, o)) :
    (∃ b', Returns p (b, o) (.ok {}) (b', o')) ↔ ∃ rest, res = some (o', rest) := by
  constructor
  · rintro ⟨b', hret⟩
    obtain ⟨rest, heq, -⟩ := eq_some_of_returns h hret
    exact ⟨rest, heq⟩
  · rintro ⟨rest, heq⟩
    obtain ⟨b', hret, -⟩ := returns_of_eq_some h heq
    exact ⟨b', hret⟩

/-! ## Whole strings -/

/-- `parse` on the string `text` into a new object returns ok and makes it `r`. -/
def HTTPRequest.Accepts (text : Str) (r : HTTPRequest) : Prop :=
  ∃ b', Returns HTTPRequest.parse (StringReadBuffer.ofString text, {}) (.ok {}) (b', r)

def HTTPResponse.Accepts (text : Str) (r : HTTPResponse) : Prop :=
  ∃ b', Returns HTTPResponse.parse (StringReadBuffer.ofString text, {}) (.ok {}) (b', r)

/-- On the empty string `data_.at( 0 )` throws, on any other one the parser does what the grammar says. -/
theorem returns_ofString_iff {p : Comp (StringReadBuffer × ω) Exn ParseResult}
    {g : Str → Option (ω × Str)} {exn : Exn} {s : StringReadBuffer × ω}
    (hspec : ∀ text, text ≠ [] → wp p (Decodes StringReadBuffer.delivers (g text)) (.ofString text, o))
    (hnil : g [] = none) (hthrow : Returns p (.ofString [], o) (.error exn) s) (text : Str) :
    (∃ b', Returns p (.ofString text, o) (.ok {}) (b', o')) ↔ ∃ rest, g text = some (o', rest) := by
  by_cases htext : text = []
  · subst htext
    constructor
    · rintro ⟨b', hret⟩
      cases (hret.unique hthrow).1
    · rintro ⟨rest, hg⟩
      rw [hnil] at hg
      cases hg
  · exact exists_returns_iff (hspec text htext)

theorem HTTPRequest.accepts_iff {text : Str} {r : HTTPRequest} :
    Accepts text r ↔ ∃ rest, Grammar.request {} text = some (r, rest) :=
  returns_ofString_iff
    (fun text htext => HTTPRequest.parse_spec (StringReadBuffer.delivers_ofString text htext) htext)
    rfl ⟨2, rfl⟩ text

theorem HTTPResponse.accepts_iff {text : Str} {r : HTTPResponse} :
    Accepts text r ↔ ∃ rest, Grammar.response {} text = some (r, rest) :=
  returns_ofString_iff
    (fun text htext => HTTPResponse.parse_spec (StringReadBuffer.delivers_ofString text htext) htext)
    rfl ⟨2, rfl⟩ text

/-- At the last character `next()` fails, and stays there. -/
theorem next_at_last {b : StringReadBuffer} (h : b.idx_ + 1 = b.data_.length) : b.next = (.ok .ecEAGAIN, b) := by
  have hne : b.data_ ≠ [] := by
    rw [← List.length_pos_iff]
    omega
  exact if_pos ⟨hne, by omega⟩

/-- **Every parse ends**: on a string that is not empty, whatever is in it and into whatever object, both parsers come to
    a result or to an exception after finitely many iterations of their loops, although `next()` has no other end than
    to fail at the last character again and again. -/
theorem parse_ends (text : Str) (htext : text ≠ []) (request : HTTPRequest) (response : HTTPResponse) :
    (∀ b : StringReadBuffer, b.idx_ + 1 = b.data_.length → b.next = (.ok .ecEAGAIN, b)) ∧
      (∃ n result s, HTTPRequest.parse.run n (StringReadBuffer.ofString text, request) = some (result, s)) ∧
      ∃ n result s, HTTPResponse.parse.run n (StringReadBuffer.ofString text, response) = some (result, s) := by
  have hat := StringReadBuffer.delivers_ofString text htext
  refine ⟨fun b => next_at_last, ?_, ?_⟩
  · obtain ⟨result, s, ⟨n, hrun⟩, _⟩ := HTTPRequest.parse_spec (r := request) hat htext
    exact ⟨n, result, s, hrun⟩
  · obtain ⟨result, s, ⟨n, hrun⟩, _⟩ := HTTPResponse.parse_spec (r := response) hat htext
    exact ⟨n, result, s, hrun⟩

/-- A body that is announced, and does not come. -/
theorem parse_ends_missing_body : ∃ n result s, HTTPRequest.parse.run n
    (StringReadBuffer.ofString (lit "GET / HTTP/1.1\r\ncontent-length: 9999\r\n\r\n"), {}) = some (result, s) :=
  (parse_ends (lit "GET / HTTP/1.1\r\ncontent-length: 9999\r\n\r\n") (by decide) {} {}).2.1

/-! ## The three buffers -/

/-- **The three buffers agree**: for every text, every size of the arrays, every division of the text
    into chunks and every content of the arrays. -/
theorem parse_agrees_over_buffers (data : Str) (bufsize : Nat) (chunks : List Str)
    (fileArray socketArray : Nat → Octet) (hdata : data ≠ []) (hsize : 1 ≤ bufsize)
    (hchunks : chunks.flatten = data) (hfit : ∀ c ∈ chunks, c ≠ [] ∧ c.length ≤ bufsize) :
    ∃ (file : FileReadBuffer) (socket : SocketReadBuffer Socket),
      FileReadBuffer.ofFile data bufsize fileArray = .ok file ∧
      (SocketReadBuffer.ofSocket (Socket.ofChunks chunks (.fail .ecEAGAIN)) bufsize socketArray).underflow
        = (.ok .ecOK, socket) ∧
      (∃ out, ParsesTo HTTPRequest.parse (StringReadBuffer.ofString data) {} out ∧
        ParsesTo HTTPRequest.parse file {} out ∧ ParsesTo HTTPRequest.parse socket {} out) ∧
      (∃ out, ParsesTo HTTPResponse.parse (StringReadBuffer.ofString data) {} out ∧
        ParsesTo HTTPResponse.parse file {} out ∧ ParsesTo HTTPResponse.parse socket {} out) := by
  have hstring := StringReadBuffer.delivers_ofString data hdata
  obtain ⟨file, hfile, hfileAt⟩ := FileReadBuffer.delivers_ofFile fileArray hdata hsize
  subst hchunks
  obtain ⟨socket, hsocket, hsocketAt⟩ := Socket.delivers_ofChunks socketArray hdata hfit
  refine ⟨file, socket, hfile, hsocket, ?_, ?_⟩
  · refine ⟨(Grammar.request {} chunks.flatten).map Prod.fst, ?_, ?_, ?_⟩
    · exact parsesTo_of_decodes (HTTPRequest.parse_spec hstring hdata)
    · exact parsesTo_of_decodes (HTTPRequest.parse_spec hfileAt hdata)
    · exact parsesTo_of_decodes (HTTPRequest.parse_spec hsocketAt hdata)
  · refine ⟨(Grammar.response {} chunks.flatten).map Prod.fst, ?_, ?_, ?_⟩
    · exact parsesTo_of_decodes (HTTPResponse.parse_spec hstring hdata)
    · exact parsesTo_of_decodes (HTTPResponse.parse_spec hfileAt hdata)
    · exact parsesTo_of_decodes (HTTPResponse.parse_spec hsocketAt hdata)

theorem parse_agrees_over_buffers_example :
    ∃ (file : FileReadBuffer) (socket : SocketReadBuffer Socket),
      FileReadBuffer.ofFile (lit "GET / HTTP/1.1\r\nhost: a\r\n\r\n") 14 (fun _ => 0) = .ok file ∧
      (SocketReadBuffer.ofSocket (Socket.ofChunks [lit "GET / HTTP/1.1", lit "\r\nhost: a\r", lit "\n\r\n"]
        (.fail .ecEAGAIN)) 14 (fun _ => 13)).underflow = (.ok .ecOK, socket) ∧
      (∃ out, ParsesTo HTTPRequest.parse
          (StringReadBuffer.ofString (lit "GET / HTTP/1.1\r\nhost: a\r\n\r\n")) {} out ∧
        ParsesTo HTTPRequest.parse file {} out ∧ ParsesTo HTTPRequest.parse socket {} out) ∧
      (∃ out, ParsesTo HTTPResponse.parse
          (StringReadBuffer.ofString (lit "GET / HTTP/1.1\r\nhost: a\r\n\r\n")) {} out ∧
        ParsesTo HTTPResponse.parse file {} out ∧ ParsesTo HTTPResponse.parse socket {} out) :=
  parse_agrees_over_buffers _ 14 _ _ _ (by decide) (by decide) (by decide) (by decide)

end Dodo.Network.Http
