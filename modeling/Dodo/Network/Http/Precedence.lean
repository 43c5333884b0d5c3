import Dodo.Network.Http.Buffers
import Dodo.Network.Http.Locality

/-!
# `Http.Precedence` — `transfer-encoding: chunked` against `content-length`

RFC 2616 section 4.4 lets the chunked encoding decide the length of a body that also has a content-length
header. Both `parseBody` functions ask for the content-length first. Here the message is compared with the
same message without its content-length lines, and the texts are found on which the two orders make no
difference.
-/

namespace Dodo.Network.Http

open Common Lib Lib.Comp

namespace Grammar

open HTTPMessage

/-! ## Leaving a header out -/

/-- The header section `l` without the lines of the field `key`. -/
def dropField (key l : Str) : Str :=
  match _h : fieldLine l with
  | none => l
  | some (kv, rest) =>
    (if kv.1 = key then [] else l.take (l.length - rest.length)) ++
      (if rest.head? = some charCR then rest else dropField key rest)
termination_by l.length
decreasing_by exact fieldLine_length _h

/-- The message `text` without its header lines of the field `key`. -/
def withoutField {α : Type} (startLine : Str → Option (α × Str)) (key text : Str) : Str :=
  match startLine text with
  | none => text
  | some (_, l) => text.take (text.length - l.length) ++ dropField key (l.dropWhile isSP)

variable {key l rest t : Str} {kv : Str × Str} {kvs : List (Str × Str)}

theorem dropField_of_some (h : fieldLine (t ++ rest) = some (kv, rest)) :
    dropField key (t ++ rest) = (if kv.1 = key then [] else t) ++
      (if rest.head? = some charCR then rest else dropField key rest) := by
  rw [dropField]
  split
  · simp_all
  · rename_i kv' rest' heq
    obtain ⟨rfl, rfl⟩ : kv = kv' ∧ rest = rest' := by simpa [h] using heq
    simp

/-- A header line does not start with a CR. -/
theorem fieldLine_cr : fieldLine (charCR :: l) = none := by
  rw [Option.eq_none_iff_forall_ne_some]
  rintro ⟨⟨k, v⟩, rest⟩ h
  obtain ⟨l₃, hcolon, -⟩ := fieldLine_eq_some.mp h
  rw [List.dropWhile_cons_of_neg (by decide), List.dropWhile_cons_of_neg (by decide)] at hcolon
  exact absurd (List.cons.inj hcolon).1 (by decide)

/-- What is left of a header section: its other lines, or the empty line alone. -/
theorem dropField_lines (key : Str) (h : FieldLines rest l kvs) {c : Octet} {k : Str} (hl : l = c :: k)
    (hc : isSP c = false) :
    ∃ d l', dropField key l = d :: l' ∧ isSP d = false ∧
      if kvs.filter (·.1 ≠ key) = [] then d :: l' = charCR :: charLF :: rest
      else d ≠ charCR ∧ FieldLines rest (d :: l') (kvs.filter (·.1 ≠ key)) := by
  induction h generalizing c k with
  | @last l kv hline =>
      obtain ⟨t, rfl, -, -⟩ := fieldLine_local hline
      rw [dropField_of_some hline, List.head?_cons, if_pos rfl]
      by_cases hkey : kv.1 = key
      · exact ⟨charCR, charLF :: rest, by simp [hkey], by decide, by simp [hkey]⟩
      · have hcr : c ≠ charCR := by
          rintro rfl
          rw [hl, fieldLine_cr] at hline
          cases hline
        rw [if_neg hkey, hl]
        refine ⟨c, k, rfl, hc, ?_⟩
        rw [if_neg (by simp [hkey])]
        refine ⟨hcr, ?_⟩
        rw [← hl, List.filter_cons_of_pos (by simpa using hkey), List.filter_nil]
        exact .last hline
  | @cons l l₁ kv kvs d₁ hline hsp hcr₁ hlines ih =>
      obtain ⟨t, rfl, hne, hlocal⟩ := fieldLine_local hline
      obtain ⟨d, l', hdrop, hd, hrest⟩ := ih rfl hsp
      have hcr₁ : some d₁ ≠ some charCR := by simpa using hcr₁
      rw [dropField_of_some hline, List.head?_cons, if_neg hcr₁, hdrop]
      by_cases hkey : kv.1 = key
      · rw [List.filter_cons_of_neg (by simp [hkey]), if_pos hkey]
        exact ⟨d, l', rfl, hd, hrest⟩
      · have hline' := hlocal d l' hd
        obtain ⟨c', t, rfl⟩ := List.exists_cons_of_ne_nil hne
        obtain ⟨rfl, -⟩ := List.cons.inj hl
        have hcr : c' ≠ charCR := by
          rintro rfl
          rw [List.cons_append, fieldLine_cr] at hline
          cases hline
        rw [if_neg hkey, List.filter_cons_of_pos (by simpa using hkey)]
        refine ⟨c', t ++ d :: l', rfl, hc, ?_⟩
        rw [if_neg (List.cons_ne_nil _ _)]
        refine ⟨hcr, ?_⟩
        split at hrest
        · rename_i hnil
          rw [hrest] at hline' ⊢
          rw [hnil]
          exact .last hline'
        · exact .cons hline' hd hrest.1 hrest.2

/-- **A field can be left out of a message**: if other header lines remain, the start line is read as
    before, the header section gives the other lines, and the same text follows it. -/
theorem headerSection_withoutField {α : Type} {startLine : Str → Option (α × Str)} {x : α} {text : Str}
    (hlocal : ∃ t, text = t ++ l ∧ ∀ X, X ≠ [] → startLine (t ++ X) = some (x, X))
    (hstart : startLine text = some (x, l)) (hsec : headerSection l = some (kvs, rest))
    (hne : kvs.filter (·.1 ≠ key) ≠ []) :
    ∃ l', startLine (withoutField startLine key text) = some (x, l') ∧ l'.head? ≠ some charCR ∧
      headerSection l' = some (kvs.filter (·.1 ≠ key), rest) := by
  obtain ⟨t, rfl, hlocal⟩ := hlocal
  have hlines := fields_eq_some.mp hsec
  obtain ⟨u, hu, hu_ne, -⟩ := fields_local hlines
  obtain ⟨c, u, rfl⟩ := List.exists_cons_of_ne_nil hu_ne
  obtain ⟨d, l', hdrop, hd, hrest⟩ := dropField_lines key hlines hu (not_of_dropWhile_eq_cons hu)
  rw [if_neg hne] at hrest
  have htext : withoutField startLine key (t ++ l) = t ++ d :: l' := by
    simp [withoutField, hstart, hdrop]
  refine ⟨d :: l', by rw [htext, hlocal _ (by simp)], by simpa using hrest.1, ?_⟩
  rw [headerSection, List.dropWhile_cons_of_neg (by simp [hd])]
  exact fields_eq_some.mpr hrest.2

end Grammar

namespace HTTPMessage

/-- The headers without the lines of one field are the header map without that key. -/
theorem headers_addHeaders_filter {key : Str} {kvs : List (Str × Str)} {m m' : HTTPMessage}
    (h : m'.headers_ = m.headers_.erase key) :
    (m'.addHeaders (kvs.filter (·.1 ≠ key))).headers_ = (m.addHeaders kvs).headers_.erase key := by
  induction kvs generalizing m m' with
  | nil => exact h
  | cons kv kvs ih =>
      by_cases hkey : kv.1 = key
      · rw [List.filter_cons_of_neg (by simp [hkey]), addHeaders_cons]
        refine ih ?_
        rw [h, headers_addHeader, hkey]
        refine Std.ExtTreeMap.ext_getElem? fun {k} => ?_
        rw [Std.ExtTreeMap.getElem?_erase, Std.ExtTreeMap.getElem?_erase, Std.ExtTreeMap.getElem?_insert]
        split <;> simp_all
      · rw [List.filter_cons_of_pos (by simpa using hkey), addHeaders_cons, addHeaders_cons]
        refine ih ?_
        have hsame : m'.headers_[kv.1]? = m.headers_[kv.1]? := by
          rw [h, Std.ExtTreeMap.getElem?_erase, if_neg (by simpa using Ne.symm hkey)]
        rw [headers_addHeader, headers_addHeader, hsame, h]
        refine Std.ExtTreeMap.ext_getElem? fun {k} => ?_
        simp only [Std.ExtTreeMap.getElem?_insert, Std.ExtTreeMap.getElem?_erase]
        grind

theorem headers_ne_empty {m : HTTPMessage} {k v : Str} (h : m.getHeaderValue k = some v) :
    m.headers_ ≠ ∅ := by
  intro hempty
  rw [getHeaderValue, hempty] at h
  simp at h

end HTTPMessage

namespace Grammar

open HTTPMessage

variable {m m' mr : HTTPMessage} {rest u : Str}

/-- The texts on which a content-length makes no difference to a chunked message: the content-length
    is not read as a number, nothing follows the headers, or the octets it takes are those that the
    chunks decode to. -/
def LengthAgrees {α : Type} (startLine : Str → Option (α × Str)) (text : Str) : Prop :=
  ∀ m rest n, messageHead startLine text = some (m, rest) →
    m.getHeaderULong (lit "content-length") = .ok (true, n) →
    rest = [] ∨ ∃ tail, chunks rest = some (rest.take n, tail)

theorem lengthAgrees_iff {α : Type} {startLine : Str → Option (α × Str)} {text : Str}
    (h : messageHead startLine text = some (m, rest)) :
    LengthAgrees startLine text ↔ ∀ n, m.getHeaderULong (lit "content-length") = .ok (true, n) →
      rest = [] ∨ ∃ tail, chunks rest = some (rest.take n, tail) := by
  constructor
  · intro hagrees n hn
    exact hagrees m rest n h hn
  · intro hall m' rest' n hhead hn
    obtain ⟨rfl, rfl⟩ := Prod.mk.inj (Option.some.inj (h.symm.trans hhead))
    exact hall n hn

theorem content_eq_some {n : Nat} {l t : Str} (h : content n l = some (t, rest)) : t = l.take n := by
  simp only [content] at h
  split at h
  · obtain ⟨rfl, -⟩ := Prod.mk.inj (Option.some.inj h)
    simp_all
  · split at h
    · exact (Prod.mk.inj (Option.some.inj h)).1.symm
    · cases h

/-- Without a content-length, a chunked request ends with its chunks. -/
theorem requestEnd_chunked (hte : m.getHeaderValue (lit "transfer-encoding") = some (lit "chunked"))
    (hcl : m.getHeaderULong (lit "content-length") = .ok (false, 0)) :
    requestEnd m rest =
      if rest = [] then some (m, []) else (chunks rest).map fun r => (m.appendAll r.1, r.2) := by
  simp only [requestEnd, requestBody, hcl, hte, if_true]

/-- A chunked response ends as a request does, but for a content-length that makes `hasBody` throw. -/
theorem responseEnd_chunked (hte : m.getHeaderValue (lit "transfer-encoding") = some (lit "chunked")) :
    responseEnd m rest = match m.getHeaderULong (lit "content-length") with
      | .error _ => none
      | .ok _ => requestEnd m rest := by
  cases hcl : m.getHeaderULong (lit "content-length") with
  | error e => simp [responseEnd, HTTPResponse.hasBody, hcl, Bind.bind, Except.bind]
  | ok x =>
      have hbody : HTTPResponse.hasBody m = .ok true := by
        simp [HTTPResponse.hasBody, hcl, hte, Bind.bind, Except.bind, pure, Except.pure]
      obtain ⟨found, n⟩ := x
      cases found <;> simp [responseEnd, hbody, requestEnd, responseBody, requestBody, hcl, hte]

/-- The same end of the message, read with the headers `m` and with those without the content-length. -/
theorem requestEnd_without_length
    (hte : m.getHeaderValue (lit "transfer-encoding") = some (lit "chunked"))
    (hcl' : m'.getHeaderULong (lit "content-length") = .ok (false, 0))
    (hte' : m'.getHeaderValue (lit "transfer-encoding") = some (lit "chunked"))
    (hheaders : m'.headers_ = m.headers_.erase (lit "content-length")) (hbody : m'.body_ = m.body_)
    (h : requestEnd m rest = some (mr, u)) :
    (∃ u', requestEnd m' rest = some ({ mr with headers_ := mr.headers_.erase (lit "content-length") }, u')) ↔
      ∀ n, m.getHeaderULong (lit "content-length") = .ok (true, n) →
        rest = [] ∨ ∃ tail, chunks rest = some (rest.take n, tail) := by
  rw [requestEnd_chunked hte' hcl']
  by_cases hrest : rest = []
  · rw [requestEnd, if_pos hrest] at h
    obtain ⟨rfl, rfl⟩ := Prod.mk.inj (Option.some.inj h)
    simp only [hrest, true_or, implies_true, iff_true, if_true]
    exact ⟨[], by rw [← hheaders, ← hbody]⟩
  · rw [requestEnd, if_neg hrest, requestBody] at h
    have hmsg : ∀ t t' : Str, m'.appendAll t' =
        { m.appendAll t with headers_ := (m.appendAll t).headers_.erase (lit "content-length") } ↔ t' = t := by
      intro t t'
      simp [appendAll, hheaders, hbody]
    rw [if_neg hrest]
    simp only [Option.map_eq_some_iff, Prod.exists, Prod.mk.injEq]
    cases hcl : m.getHeaderULong (lit "content-length") with
    | error e => rw [hcl] at h; cases h
    | ok x =>
        obtain ⟨found, n⟩ := x
        rw [hcl] at h
        cases found with
        | true =>
            obtain ⟨⟨t, u₀⟩, hcontent, hm⟩ := Option.map_eq_some_iff.mp h
            obtain ⟨rfl, rfl⟩ := Prod.mk.inj hm
            obtain rfl := content_eq_some hcontent
            constructor
            · rintro ⟨u', t', v, hchunks, hm', rfl⟩ _ ⟨⟩
              obtain rfl := (hmsg _ _).mp hm'
              exact Or.inr ⟨v, hchunks⟩
            · intro hall
              rcases hall n rfl with hnil | ⟨tail, hchunks⟩
              · exact absurd hnil hrest
              · exact ⟨tail, _, tail, hchunks, (hmsg _ _).mpr rfl, rfl⟩
        | false =>
            simp only [if_pos hte] at h
            obtain ⟨⟨t, u₀⟩, hchunks, hm⟩ := Option.map_eq_some_iff.mp h
            obtain ⟨rfl, rfl⟩ := Prod.mk.inj hm
            refine iff_of_true ⟨u₀, t, u₀, hchunks, (hmsg _ _).mpr rfl, rfl⟩ ?_
            rintro _ ⟨⟩

/-- **A chunked message without its content-length**: the start line is read as before, and the same text
    is read with the headers that remain. -/
theorem chunked_withoutField {α : Type} {startLine : Str → Option (α × Str)} {x : α} {text l : Str}
    {kvs : List (Str × Str)}
    (hlocal : ∃ t, text = t ++ l ∧ ∀ X, X ≠ [] → startLine (t ++ X) = some (x, X))
    (hstart : startLine text = some (x, l)) (hsec : headerSection l = some (kvs, rest))
    (hte : (addHeaders {} kvs).getHeaderValue (lit "transfer-encoding") = some (lit "chunked")) :
    ∃ l' m', startLine (withoutField startLine (lit "content-length") text) = some (x, l') ∧
      (∀ body ending, messageRest body ending {} l' = ending m' rest) ∧
      m'.headers_ = (addHeaders {} kvs).headers_.erase (lit "content-length") ∧ m'.body_ = [] ∧
      m'.getHeaderValue (lit "transfer-encoding") = some (lit "chunked") ∧
      m'.getHeaderULong (lit "content-length") = .ok (false, 0) := by
  have hheaders : (addHeaders {} (kvs.filter (·.1 ≠ lit "content-length"))).headers_ =
      (addHeaders {} kvs).headers_.erase (lit "content-length") := headers_addHeaders_filter (by simp)
  have hte' : (addHeaders {} (kvs.filter (·.1 ≠ lit "content-length"))).getHeaderValue
      (lit "transfer-encoding") = some (lit "chunked") := by
    rw [getHeaderValue, hheaders, Std.ExtTreeMap.getElem?_erase, if_neg (by decide)]
    exact hte
  have hne : kvs.filter (·.1 ≠ lit "content-length") ≠ [] := by
    intro hnil
    rw [hnil] at hte'
    cases hte'
  obtain ⟨l', hstart', hcr', hsec'⟩ := headerSection_withoutField hlocal hstart hsec hne
  refine ⟨l', _, hstart', ?_, hheaders, body_addHeaders _ _, hte', ?_⟩
  · intro body ending
    rw [messageRest, if_neg hcr', hsec', Option.bind_some]
  · rw [getHeaderULong, hheaders]
    simp

end Grammar

open HTTPMessage

/-- **Chunked against content-length**: a chunked message is read like the same message without its
    content-length exactly where the two agree. -/
theorem chunked_precedence_iff (text : Str) :
    (∀ r, HTTPRequest.Accepts text r →
      r.getHeaderValue (lit "transfer-encoding") = some (lit "chunked") →
      (HTTPRequest.Accepts (Grammar.withoutField (Grammar.requestLine {}) (lit "content-length") text)
          { r with headers_ := r.headers_.erase (lit "content-length") } ↔
        Grammar.LengthAgrees (Grammar.requestLine {}) text)) ∧
    (∀ r, HTTPResponse.Accepts text r →
      r.getHeaderValue (lit "transfer-encoding") = some (lit "chunked") →
      (HTTPResponse.Accepts (Grammar.withoutField (Grammar.responseLine {}) (lit "content-length") text)
          { r with headers_ := r.headers_.erase (lit "content-length") } ↔
        Grammar.LengthAgrees (Grammar.responseLine {}) text)) := by
  constructor
  · intro r haccepts hte
    obtain ⟨u, hrequest⟩ := HTTPRequest.accepts_iff.mp haccepts
    obtain ⟨l, hline, hrest⟩ := Grammar.request_eq_some.mp hrequest
    obtain ⟨hcr, kvs, rest, hsec, hend⟩ :=
      Grammar.messageRest_eq_some Grammar.headers_requestBody hrest (headers_ne_empty hte)
    rw [getHeaderValue, Grammar.headers_requestEnd hend] at hte
    obtain ⟨l', m', hline', hrest', hheaders, hbody, hte', hcl'⟩ :=
      Grammar.chunked_withoutField (Grammar.requestLine_local hline) hline hsec hte
    rw [Grammar.lengthAgrees_iff (Grammar.messageHead_eq_some.mpr ⟨_, l, kvs, hline, hcr, hsec, rfl⟩),
      ← Grammar.requestEnd_without_length hte hcl' hte' hheaders
        (hbody.trans (body_addHeaders {} kvs).symm) hend, HTTPRequest.accepts_iff]
    refine exists_congr fun u' => ?_
    rw [Grammar.request_eq_some, hline']
    simp [Grammar.requestRest, hrest']
  · intro r haccepts hte
    obtain ⟨u, hresponse⟩ := HTTPResponse.accepts_iff.mp haccepts
    obtain ⟨l, hline, hrest⟩ := Grammar.response_eq_some.mp hresponse
    obtain ⟨hcr, kvs, rest, hsec, hend⟩ :=
      Grammar.messageRest_eq_some Grammar.headers_responseBody hrest (headers_ne_empty hte)
    rw [getHeaderValue, Grammar.headers_responseEnd hend] at hte
    obtain ⟨l', m', hline', hrest', hheaders, hbody, hte', hcl'⟩ :=
      Grammar.chunked_withoutField (Grammar.responseLine_local hline) hline hsec hte
    have hend : Grammar.requestEnd (addHeaders {} kvs) rest = some (r.toHTTPMessage, u) := by
      rw [Grammar.responseEnd_chunked hte] at hend
      split at hend
      · cases hend
      · exact hend
    rw [Grammar.lengthAgrees_iff (Grammar.messageHead_eq_some.mpr ⟨_, l, kvs, hline, hcr, hsec, rfl⟩),
      ← Grammar.requestEnd_without_length hte hcl' hte' hheaders
        (hbody.trans (body_addHeaders {} kvs).symm) hend, HTTPResponse.accepts_iff]
    refine exists_congr fun u' => ?_
    rw [Grammar.response_eq_some, hline']
    simp [Grammar.responseRest, hrest', Grammar.responseEnd_chunked hte', hcl']

/-- A message with the one chunk `1`, and a content-length. -/
def oneChunk (startLine length : Str) : Str :=
  startLine ++ (lit "\r\ntransfer-encoding: chunked\r\ncontent-length: " ++
    (length ++ lit "\r\n\r\n1\r\n1\r\n0\r\n\r\n"))

theorem chunked_precedence_iff_one_chunk :
    (∃ r, HTTPRequest.Accepts (oneChunk (lit "POST / HTTP/1.1") (lit "1")) r ∧
      r.getHeaderValue (lit "transfer-encoding") = some (lit "chunked") ∧
      (HTTPRequest.Accepts (Grammar.withoutField (Grammar.requestLine {}) (lit "content-length")
            (oneChunk (lit "POST / HTTP/1.1") (lit "1")))
          { r with headers_ := r.headers_.erase (lit "content-length") } ↔
        Grammar.LengthAgrees (Grammar.requestLine {}) (oneChunk (lit "POST / HTTP/1.1") (lit "1")))) ∧
    (∃ r, HTTPResponse.Accepts (oneChunk (lit "HTTP/1.1 200 OK") (lit "1")) r ∧
      r.getHeaderValue (lit "transfer-encoding") = some (lit "chunked") ∧
      (HTTPResponse.Accepts (Grammar.withoutField (Grammar.responseLine {}) (lit "content-length")
            (oneChunk (lit "HTTP/1.1 200 OK") (lit "1")))
          { r with headers_ := r.headers_.erase (lit "content-length") } ↔
        Grammar.LengthAgrees (Grammar.responseLine {}) (oneChunk (lit "HTTP/1.1 200 OK") (lit "1")))) := by
  have hreq : wp HTTPRequest.parse
      (fun x s => x = .ok {} ∧ s.2.getHeaderValue (lit "transfer-encoding") = some (lit "chunked"))
      (StringReadBuffer.ofString (oneChunk (lit "POST / HTTP/1.1") (lit "1")), {}) :=
    wp_of_run 60 (by decide +kernel)
  have hresp : wp HTTPResponse.parse
      (fun x s => x = .ok {} ∧ s.2.getHeaderValue (lit "transfer-encoding") = some (lit "chunked"))
      (StringReadBuffer.ofString (oneChunk (lit "HTTP/1.1 200 OK") (lit "1")), {}) :=
    wp_of_run 60 (by decide +kernel)
  obtain ⟨_, ⟨b₁, r₁⟩, h₁, rfl, hte₁⟩ := hreq
  obtain ⟨_, ⟨b₂, r₂⟩, h₂, rfl, hte₂⟩ := hresp
  exact ⟨⟨r₁, ⟨b₁, h₁⟩, hte₁, (chunked_precedence_iff _).1 _ ⟨b₁, h₁⟩ hte₁⟩,
    ⟨r₂, ⟨b₂, h₂⟩, hte₂, (chunked_precedence_iff _).2 _ ⟨b₂, h₂⟩ hte₂⟩⟩

/-- With a content-length of 4 the size and the line end of the chunk are read as the body. -/
theorem chunk_read_as_content :
    (wp HTTPRequest.parse (fun x s => x = .ok {} ∧ s.2.body_ = lit "1\r\n1" ∧
        s.2.getHeaderValue (lit "transfer-encoding") = some (lit "chunked"))
      (StringReadBuffer.ofString (oneChunk (lit "POST / HTTP/1.1") (lit "4")), {}) ∧
    wp HTTPRequest.parse (fun x s => x = .ok {} ∧ s.2.body_ = lit "1")
      (StringReadBuffer.ofString (Grammar.withoutField (Grammar.requestLine {}) (lit "content-length")
        (oneChunk (lit "POST / HTTP/1.1") (lit "4"))), {})) ∧
    (wp HTTPResponse.parse (fun x s => x = .ok {} ∧ s.2.body_ = lit "1\r\n1" ∧
        s.2.getHeaderValue (lit "transfer-encoding") = some (lit "chunked"))
      (StringReadBuffer.ofString (oneChunk (lit "HTTP/1.1 200 OK") (lit "4")), {}) ∧
    wp HTTPResponse.parse (fun x s => x = .ok {} ∧ s.2.body_ = lit "1")
      (StringReadBuffer.ofString (Grammar.withoutField (Grammar.responseLine {}) (lit "content-length")
        (oneChunk (lit "HTTP/1.1 200 OK") (lit "4"))), {})) := by
  refine ⟨⟨wp_of_run 60 (by decide +kernel), wp_of_run 60 (by decide +kernel)⟩,
    ⟨wp_of_run 60 (by decide +kernel), wp_of_run 60 (by decide +kernel)⟩⟩

end Dodo.Network.Http
