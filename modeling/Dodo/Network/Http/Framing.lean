import Dodo.Network.Http.Buffers
import Dodo.Network.Http.Locality

/-!
# `Http.Framing` — two requests in one buffer

A request is followed by another one in the same buffer. The second parse starts where the first one has
stopped, so the first has to read exactly its own message. There are two ways in which it does not: where a
message ends with its headers, the octet behind it decides whether there is a body; and a body leaves
octets unread, the last one of a body with a content-length and the last line of a chunked one.

Text that the first request leaves unread is read as the beginning of the second one. It does no harm only where it
starts with the method of the second request; `parse_twice` leaves open when it does not.
-/

namespace Dodo.Network.Http

open Common Lib Lib.Comp

theorem Method.methodAsString_ne_nil {m : Method} : m.methodAsString ≠ [] := by cases m <;> decide

theorem Method.not_isxdigit {m : Method} : ¬ ∀ c ∈ m.methodAsString, isxdigit c = true := by
  cases m <;> decide

namespace Grammar

open HTTPMessage

variable {m m' : HTTPMessage} {l u m₁ m₂ : Str} {r r₁ r₂ : HTTPRequest}

theorem requestBody_append (h : requestBody m l = some (m', u)) (X : Str) :
    requestBody m (l ++ X) = some (m', u ++ X) := by
  simp only [requestBody] at h ⊢
  split at h
  · cases h
  · obtain ⟨⟨t, _⟩, hcontent, hm⟩ := Option.map_eq_some_iff.mp h
    obtain ⟨rfl, rfl⟩ := Prod.mk.inj hm
    rw [content_append hcontent X]
    rfl
  · split at h
    · obtain ⟨⟨t, _⟩, hchunks, hm⟩ := Option.map_eq_some_iff.mp h
      obtain ⟨rfl, rfl⟩ := Prod.mk.inj hm
      rw [if_pos ‹_›, chunks_append hchunks X]
      rfl
    · cases h

/-- The first octet of a request is one of its method. -/
theorem request_method (h : request {} l = some (r, u)) :
    l.takeWhile nonspace = r.request_line_.method_.methodAsString ∧ r.request_line_.method_ ≠ .meINVALID := by
  obtain ⟨l₁, hline, -⟩ := request_eq_some.mp h
  simp only [requestLine, Bind.bind, Option.bind_eq_some_iff] at hline
  obtain ⟨_, -, _, -, _, -, _, -, _, -, _, -, hr⟩ := hline
  split at hr
  · cases hr
  · rename_i hvalid
    obtain ⟨hr, -⟩ := Prod.mk.inj (Option.some.inj hr)
    rw [← hr]
    exact ⟨(Method.methodAsString_methodFromString hvalid).symm, hvalid⟩

theorem nonspace_of_isxdigit {c : Octet} (h : isxdigit c = true) : nonspace c = true := by
  rw [nonspace, Bool.not_eq_true']
  simp only [isxdigit, isdigit, isspace] at *
  grind

/-- A request starts with an octet that is no LF, and not with a chunk. -/
theorem request_head (h : request {} l = some (r, u)) :
    (∃ c k, l = c :: k ∧ c ≠ charLF) ∧ chunkHex l = none := by
  obtain ⟨hmethod, -⟩ := request_method h
  constructor
  · cases l with
    | nil => exact absurd hmethod.symm Method.methodAsString_ne_nil
    | cons c k =>
        refine ⟨c, k, rfl, ?_⟩
        rintro rfl
        rw [List.takeWhile_cons_of_neg (by decide)] at hmethod
        exact Method.methodAsString_ne_nil hmethod.symm
  · rw [Option.eq_none_iff_forall_ne_some]
    rintro ⟨n, rest⟩ hhex
    obtain ⟨-, -, hdrop, -⟩ := chunkHex_eq_some.mp hhex
    have hdigits : ∀ c ∈ l.takeWhile isxdigit, isxdigit c = true := fun c => List.mem_takeWhile_imp
    have hnonspace : ∀ c ∈ l.takeWhile isxdigit, nonspace c = true := fun c hc =>
      nonspace_of_isxdigit (hdigits c hc)
    have hl : l = l.takeWhile isxdigit ++ charCR :: charLF :: rest := by
      rw [← hdrop, List.takeWhile_append_dropWhile]
    rw [hl, takeWhile_append hnonspace (by decide)] at hmethod
    rw [hmethod] at hdigits
    exact Method.not_isxdigit hdigits

theorem bare_append (h : bare requestBody {} l = some (m, u)) {c : Octet} {X : Str} (hc : c ≠ charLF) :
    bare requestBody {} (l ++ c :: X) = some (m, u ++ c :: X) := by
  cases l with
  | nil =>
      obtain ⟨rfl, rfl⟩ := Prod.mk.inj (Option.some.inj h)
      exact if_pos hc
  | cons d l =>
      rw [bare] at h
      rw [List.cons_append, bare]
      split at h
      · obtain ⟨rfl, rfl⟩ := Prod.mk.inj (Option.some.inj h)
        exact if_pos ‹_›
      · -- a body without headers is not accepted
        split at h <;> cases h

/-- **More text behind a request** is left behind it, unless the request ends with its headers. Then it
    is read as a body. -/
theorem request_append (h : request {} m₁ = some (r₁, u)) {c : Octet} {X : Str} (hc : c ≠ charLF) :
    (∃ m, messageHead (requestLine {}) m₁ = some (m, []) ∧ r₁.toHTTPMessage = m ∧ u = [] ∧
        ∀ r rest, request {} (m₁ ++ c :: X) = some (r, rest) ↔
          r.request_line_ = r₁.request_line_ ∧ requestBody m (c :: X) = some (r.toHTTPMessage, rest)) ∨
      ((∀ m, messageHead (requestLine {}) m₁ ≠ some (m, [])) ∧
        request {} (m₁ ++ c :: X) = some (r₁, u ++ c :: X)) := by
  obtain ⟨l, hline, hrest⟩ := request_eq_some.mp h
  have hline' : requestLine {} (m₁ ++ c :: X) = some (r₁.request_line_, l ++ c :: X) := by
    obtain ⟨t, rfl, hlocal⟩ := requestLine_local hline
    rw [List.append_assoc]
    exact hlocal _ (by simp)
  have hrequest : ∀ r rest, request {} (m₁ ++ c :: X) = some (r, rest) ↔
      r.request_line_ = r₁.request_line_ ∧
        requestRest {} (l ++ c :: X) = some (r.toHTTPMessage, rest) := by
    intro r rest
    rw [request_eq_some, hline']
    simp only [Option.some.injEq, Prod.mk.injEq]
    grind
  obtain ⟨d, k, rfl⟩ := List.exists_cons_of_ne_nil (requestLine_rest hline)
  by_cases hcr : d = charCR
  · -- no headers: the second octet decides, and it is no LF
    subst hcr
    refine Or.inr ⟨?_, (hrequest _ _).mpr ⟨rfl, ?_⟩⟩
    · intro m hhead
      obtain ⟨_, l', _, hline', hcr', -⟩ := messageHead_eq_some.mp hhead
      obtain ⟨-, rfl⟩ := Prod.mk.inj (Option.some.inj (hline.symm.trans hline'))
      exact hcr' rfl
    · exact bare_append hrest hc
  · rw [requestRest, messageRest, if_neg (by simpa using hcr)] at hrest
    obtain ⟨⟨kvs, rest⟩, hsec, hend⟩ := Option.bind_eq_some_iff.mp hrest
    have hrest' : requestRest {} (d :: k ++ c :: X) = requestEnd (addHeaders {} kvs) (rest ++ c :: X) := by
      rw [requestRest, messageRest, if_neg (by simpa using hcr), headerSection_append hsec]
      rfl
    have hhead : messageHead (requestLine {}) m₁ = some (addHeaders {} kvs, rest) :=
      messageHead_eq_some.mpr ⟨_, _, kvs, hline, by simpa using hcr, hsec, rfl⟩
    by_cases hnil : rest = []
    · subst hnil
      obtain ⟨hm, rfl⟩ := Prod.mk.inj (Option.some.inj hend)
      refine Or.inl ⟨_, hhead, hm.symm, rfl, ?_⟩
      intro r rest
      rw [hrequest, hrest']
      rfl
    · refine Or.inr ⟨?_, (hrequest _ _).mpr ⟨rfl, ?_⟩⟩
      · rw [hhead]
        simp [hnil]
      · simp only [requestEnd, if_neg hnil] at hend
        rw [hrest', requestEnd, if_neg (by simp)]
        exact requestBody_append hend _

/-- Text that is no chunk is read as an empty body only if it is left alone, and the content-length is 0. -/
theorem requestBody_eq_self_iff (hhex : chunkHex l = none) (hl : l ≠ []) :
    requestBody m l = some (m, u) ↔ m.getHeaderULong (lit "content-length") = .ok (true, 0) ∧ u = l := by
  constructor
  · intro h
    simp only [requestBody] at h
    split at h
    · cases h
    · rename_i n hcl
      obtain ⟨⟨t, _⟩, hcontent, hpair⟩ := Option.map_eq_some_iff.mp h
      obtain ⟨hm, rfl⟩ := Prod.mk.inj hpair
      have ht : t = [] := by
        have hbody := congrArg HTTPMessage.body_ hm
        simpa [appendAll] using hbody
      simp only [content] at hcontent
      split at hcontent
      · rename_i hn
        exact ⟨hn ▸ hcl, (Prod.mk.inj (Option.some.inj hcontent)).2.symm⟩
      · split at hcontent
        · have htake := (Prod.mk.inj (Option.some.inj hcontent)).1.trans ht
          rw [List.take_eq_nil_iff] at htake
          exact absurd htake (by simp_all)
        · cases hcontent
    · split at h
      · rw [chunks_of_none hhex] at h
        cases h
      · cases h
  · rintro ⟨hcl, rfl⟩
    simp [requestBody, hcl, content]

/-- The first of two requests is read as it is alone, and this is what it leaves. -/
theorem request_append_iff (h₁ : request {} m₁ = some (r₁, u)) {u₂ w : Str}
    (h₂ : request {} m₂ = some (r₂, u₂)) :
    request {} (m₁ ++ m₂) = some (r₁, w) ↔
      (∀ m, messageHead (requestLine {}) m₁ = some (m, []) →
        m.getHeaderULong (lit "content-length") = .ok (true, 0)) ∧ w = u ++ m₂ := by
  obtain ⟨⟨c, k, rfl, hc⟩, hhex⟩ := request_head h₂
  rcases request_append h₁ hc with ⟨m, hhead, hm, rfl, hiff⟩ | ⟨hhead, hreq⟩
  · rw [hiff, hm, requestBody_eq_self_iff hhex (by simp), hhead]
    simp
  · rw [hreq]
    simp [hhead, eq_comm]

/-- Text in front of a request that does not change it starts with the same method. -/
theorem method_in_front (h₂ : request {} m₂ = some (r₂, u)) {u' : Str} (hu : l ≠ [])
    (h : request {} (l ++ m₂) = some (r₂, u')) :
    ∃ c v, l = m₂.takeWhile nonspace ++ c :: v ∧ isspace c = true := by
  have hmethod := (request_method h).1.trans (request_method h₂).1.symm
  by_cases hall : ∀ c ∈ l, nonspace c = true
  · rw [List.takeWhile_append_of_pos hall] at hmethod
    exact absurd (List.append_left_eq_self.mp hmethod) hu
  · obtain ⟨c, v, hcv⟩ := List.exists_cons_of_ne_nil
      (show l.dropWhile nonspace ≠ [] by simpa [List.dropWhile_eq_nil_iff] using hall)
    have hc := not_of_dropWhile_eq_cons hcv
    have hl : l = l.takeWhile nonspace ++ c :: v := by rw [← hcv, List.takeWhile_append_dropWhile]
    have htake : ∀ c ∈ l.takeWhile nonspace, nonspace c = true := fun c => List.mem_takeWhile_imp
    rw [hl, List.append_assoc, List.cons_append, takeWhile_append htake hc] at hmethod
    refine ⟨c, v, by rw [← hmethod, ← hl], by simpa [nonspace] using hc⟩

/-! ## What is left unread -/

/-- No body is read to its end. -/
theorem requestBody_rest (h : requestBody m l = some (m', u)) (hl : l ≠ []) : u <:+ l ∧ u ≠ [] := by
  simp only [requestBody] at h
  split at h
  · cases h
  · obtain ⟨⟨t, _⟩, hcontent, hpair⟩ := Option.map_eq_some_iff.mp h
    obtain ⟨-, rfl⟩ := Prod.mk.inj hpair
    simp only [content] at hcontent
    split at hcontent
    · obtain ⟨-, rfl⟩ := Prod.mk.inj (Option.some.inj hcontent)
      exact ⟨List.suffix_rfl, hl⟩
    · split at hcontent
      · obtain ⟨-, rfl⟩ := Prod.mk.inj (Option.some.inj hcontent)
        refine ⟨List.drop_suffix _ _, ?_⟩
        rw [ne_eq, List.drop_eq_nil_iff]
        omega
      · cases hcontent
  · split at h
    · obtain ⟨⟨t, _⟩, hchunks, hpair⟩ := Option.map_eq_some_iff.mp h
      obtain ⟨-, rfl⟩ := Prod.mk.inj hpair
      exact chunks_rest hchunks
    · cases h

/-- The request ends with its headers and has no body, or it is a line and a CR. -/
def ReadToEnd (text : Str) : Prop :=
  (∃ m, messageHead (requestLine {}) text = some (m, []) ∧
    m.getHeaderULong (lit "content-length") = .ok (true, 0)) ∨
  ∃ line, requestLine {} text = some (line, [charCR])

/-- What follows a request line is read to its end, or there is more behind the headers or behind a CR. -/
theorem requestRest_rest (h : requestRest {} l = some (m, u)) :
    u <:+ l ∧ (u = [] ↔ l = [charCR] ∨ l.head? ≠ some charCR ∧ ∃ kvs, headerSection l = some (kvs, [])) := by
  rw [requestRest, messageRest] at h
  split at h
  · rename_i hcr
    obtain ⟨k, rfl⟩ := List.head?_eq_some_iff.mp hcr
    cases k with
    | nil =>
        obtain ⟨-, rfl⟩ := Prod.mk.inj (Option.some.inj h)
        simp
    | cons c k =>
        rw [List.tail_cons, bare] at h
        split at h
        · obtain ⟨-, rfl⟩ := Prod.mk.inj (Option.some.inj h)
          exact ⟨⟨[charCR], rfl⟩, by simp⟩
        · -- there are no headers, so there is no body
          split at h <;> cases h
  · rename_i hcr
    obtain ⟨⟨kvs, rest⟩, hsec, hend⟩ := Option.bind_eq_some_iff.mp h
    have hne : l ≠ [charCR] := by
      rintro rfl
      exact hcr rfl
    have hrest : rest <:+ l := by
      obtain ⟨t, ht, -, -⟩ := fields_local (fields_eq_some.mp hsec)
      exact List.IsSuffix.trans ⟨t, ht.symm⟩ (List.dropWhile_suffix isSP)
    replace hend : requestEnd (addHeaders {} kvs) rest = some (m, u) := hend
    rw [requestEnd] at hend
    split at hend
    · obtain ⟨-, rfl⟩ := Prod.mk.inj (Option.some.inj hend)
      rename_i hnil
      rw [hnil] at hsec
      exact ⟨List.nil_suffix, fun _ => .inr ⟨hcr, kvs, hsec⟩, fun _ => rfl⟩
    · rename_i hnil
      obtain ⟨hsuffix, hu⟩ := requestBody_rest hend hnil
      refine ⟨hsuffix.trans hrest, ?_⟩
      simp [hu, hne, hcr, hsec, hnil]

/-- What is left of a request is behind its first octet. -/
theorem request_rest (h : request {} m₁ = some (r₁, u)) : ∃ p, p ≠ [] ∧ m₁ = p ++ u := by
  obtain ⟨l, hline, hrest⟩ := request_eq_some.mp h
  obtain ⟨t, rfl, hlocal⟩ := requestLine_local hline
  obtain ⟨p, rfl⟩ := (requestRest_rest hrest).1
  refine ⟨t ++ p, ?_, by rw [List.append_assoc]⟩
  intro hnil
  obtain ⟨rfl, rfl⟩ := List.append_eq_nil_iff.mp hnil
  -- a line that takes no text would be read in front of a space
  have hspace := hlocal [charSP] (by simp)
  cases hspace

theorem readToEnd_iff (h : request {} m₁ = some (r₁, u)) :
    ReadToEnd m₁ ↔ u = [] ∧ ∀ m, messageHead (requestLine {}) m₁ = some (m, []) →
      m.getHeaderULong (lit "content-length") = .ok (true, 0) := by
  obtain ⟨l, hline, hrest⟩ := request_eq_some.mp h
  rw [(requestRest_rest hrest).2]
  constructor
  · rintro (⟨m, hhead, hzero⟩ | ⟨line, hcr⟩)
    · obtain ⟨_, l', kvs, hline', hcr, hsec, -⟩ := messageHead_eq_some.mp hhead
      cases hline.symm.trans hline'
      refine ⟨.inr ⟨hcr, kvs, hsec⟩, ?_⟩
      intro m' hhead'
      cases hhead.symm.trans hhead'
      exact hzero
    · cases hline.symm.trans hcr
      refine ⟨.inl rfl, ?_⟩
      intro m hhead
      obtain ⟨_, l', _, hline', hne, -⟩ := messageHead_eq_some.mp hhead
      cases hline.symm.trans hline'
      exact absurd rfl hne
  · rintro ⟨rfl | ⟨hcr, kvs, hsec⟩, hzero⟩
    · exact .inr ⟨_, hline⟩
    · have hhead := messageHead_eq_some.mpr ⟨_, l, kvs, hline, hcr, hsec, rfl⟩
      exact .inl ⟨_, hhead, hzero _ hhead⟩

end Grammar

/-- Both requests are read, one behind the other, from a buffer that holds them. -/
def ParseTwice (m₁ m₂ : Str) (r₁ r₂ : HTTPRequest) : Prop :=
  ∃ b₁ b₂, Returns HTTPRequest.parse (StringReadBuffer.ofString (m₁ ++ m₂), {}) (.ok {}) (b₁, r₁) ∧
    Returns HTTPRequest.parse (b₁, {}) (.ok {}) (b₂, r₂)

/-- **Two requests in one buffer** are both read as they are alone if the first one is read to its end, and only then,
unless the method of the second one stands inside the first. -/
theorem parse_twice (m₁ m₂ : Str) (r₁ r₂ : HTTPRequest) (h₁ : HTTPRequest.Accepts m₁ r₁)
    (h₂ : HTTPRequest.Accepts m₂ r₂) :
    (Grammar.ReadToEnd m₁ → ParseTwice m₁ m₂ r₁ r₂) ∧
      (ParseTwice m₁ m₂ r₁ r₂ → Grammar.ReadToEnd m₁ ∨ ∃ p c v, p ≠ [] ∧
        m₁ = p ++ (m₂.takeWhile Grammar.nonspace ++ c :: v) ∧ isspace c = true) := by
  obtain ⟨u₁, hreq₁⟩ := HTTPRequest.accepts_iff.mp h₁
  obtain ⟨u₂, hreq₂⟩ := HTTPRequest.accepts_iff.mp h₂
  obtain ⟨⟨c, k, hm₂, -⟩, -⟩ := Grammar.request_head hreq₂
  have hne : ∀ t : Str, t ++ m₂ ≠ [] := by simp [hm₂]
  have hspec := HTTPRequest.parse_spec (r := {})
    (StringReadBuffer.delivers_ofString (m₁ ++ m₂) (hne m₁)) (hne m₁)
  constructor
  · intro hend
    obtain ⟨rfl, hzero⟩ := (Grammar.readToEnd_iff hreq₁).mp hend
    have hfirst := (Grammar.request_append_iff hreq₁ hreq₂).mpr ⟨hzero, rfl⟩
    obtain ⟨b₁, hret₁, hat⟩ := returns_of_eq_some hspec hfirst
    obtain ⟨b₂, hret₂, -⟩ := returns_of_eq_some (HTTPRequest.parse_spec (r := {}) hat (hne [])) hreq₂
    exact ⟨b₁, b₂, hret₁, hret₂⟩
  · rintro ⟨b₁, b₂, hret₁, hret₂⟩
    obtain ⟨w, hfirst, hat⟩ := eq_some_of_returns hspec hret₁
    obtain ⟨hzero, rfl⟩ := (Grammar.request_append_iff hreq₁ hreq₂).mp hfirst
    by_cases hu : u₁ = []
    · exact .inl ((Grammar.readToEnd_iff hreq₁).mpr ⟨hu, hzero⟩)
    · -- the second parse starts with what the first has left
      obtain ⟨v, hsecond, -⟩ := eq_some_of_returns (HTTPRequest.parse_spec (r := {}) hat (hne u₁)) hret₂
      obtain ⟨c, v, rfl, hc⟩ := Grammar.method_in_front hreq₂ hu hsecond
      obtain ⟨p, hp, hm₁⟩ := Grammar.request_rest hreq₁
      exact .inr ⟨p, c, v, hp, hm₁, hc⟩

/-- Two requests without a body, where the first one says so. -/
theorem parse_twice_length_zero : ∃ r₁ r₂,
    ParseTwice (lit "POST / HTTP/1.1\r\ncontent-length: 0\r\n\r\n") (lit "GET / HTTP/1.1\r\nhost: a\r\n\r\n")
      r₁ r₂ := by
  have h₁ : wp HTTPRequest.parse (fun x _ => x = .ok {})
      (StringReadBuffer.ofString (lit "POST / HTTP/1.1\r\ncontent-length: 0\r\n\r\n"), {}) :=
    wp_of_run 60 (by decide +kernel)
  have h₂ : wp HTTPRequest.parse (fun x _ => x = .ok {})
      (StringReadBuffer.ofString (lit "GET / HTTP/1.1\r\nhost: a\r\n\r\n"), {}) :=
    wp_of_run 60 (by decide +kernel)
  have hend : Grammar.ReadToEnd (lit "POST / HTTP/1.1\r\ncontent-length: 0\r\n\r\n") := by
    have hline : Grammar.requestLine {} (lit "POST / HTTP/1.1\r\ncontent-length: 0\r\n\r\n") =
        some (⟨.mePOST, lit "/", ⟨1, 1⟩⟩, lit "content-length: 0\r\n\r\n") := by decide +kernel
    have hfield : Grammar.fieldLine (lit "content-length: 0\r\n\r\n") =
        some ((lit "content-length", lit "0"), lit "\r\n") := by decide +kernel
    have hsection : Grammar.headerSection (lit "content-length: 0\r\n\r\n") =
        some ([(lit "content-length", lit "0")], []) := Grammar.fields_eq_some.mpr (.last hfield)
    exact .inl ⟨_, Grammar.messageHead_eq_some.mpr ⟨_, _, _, hline, by decide, hsection, rfl⟩, by decide +kernel⟩
  obtain ⟨_, ⟨b₁, r₁⟩, h₁, rfl⟩ := h₁
  obtain ⟨_, ⟨b₂, r₂⟩, h₂, rfl⟩ := h₂
  exact ⟨r₁, r₂, (parse_twice _ _ r₁ r₂ ⟨b₁, h₁⟩ ⟨b₂, h₂⟩).1 hend⟩

/-- Two requests without a body: the first octet of the second one is taken for a body of the first. -/
theorem second_request_taken_for_body :
    wp HTTPRequest.parse (fun x _ => x = .ok {})
      (StringReadBuffer.ofString (lit "GET / HTTP/1.1\r\nhost: a\r\n\r\n"), {}) ∧
    wp HTTPRequest.parse (fun x _ => x = .ok (.error .peUnexpectedBody))
      (StringReadBuffer.ofString
        (lit "GET / HTTP/1.1\r\nhost: a\r\n\r\n" ++ lit "GET / HTTP/1.1\r\nhost: a\r\n\r\n"), {}) :=
  ⟨wp_of_run 60 (by decide +kernel), wp_of_run 60 (by decide +kernel)⟩

end Dodo.Network.Http
