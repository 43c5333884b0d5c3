import Dodo.Network.Http.Precedence
import Dodo.Network.Http.RoundTrip

/-!
# `Http.Reprint` — printing what `HTTPResponse::parse` has read

`asString` has one way to write a body and one to write a header line; the parser accepts several. Here:
which responses, read from some text, are read again from their own printed form. It fails without
headers, since two line ends are printed and the parser wants a body behind them; for a chunked body, which
is printed without its chunk sizes; and for a header value with spaces that the parser does not keep.
-/

namespace Dodo.Network.Http

open Common Lib Lib.Comp

namespace Grammar

open HTTPMessage

variable {l rest k v t u : Str} {kvs : List (Str × Str)}

/-! ## Parsed headers are plain -/

theorem fieldValue_plain {s : FieldState} (h : fieldValue s l = some (v, rest)) :
    charCR ∉ v ∧ charHT ∉ v := by
  fun_induction fieldValue s l generalizing v <;> grind [emit_eq_some, isSP, charCR, charHT, charSP]

theorem plainKey_token {c : Octet} (h : isToken c = true) :
    isToken (tolower c) = true ∧ tolower (tolower c) = tolower c := by
  have hall : ∀ n < 256, isToken (UInt8.ofNat n) = true → isToken (tolower (UInt8.ofNat n)) = true ∧
      tolower (tolower (UInt8.ofNat n)) = tolower (UInt8.ofNat n) := by decide +kernel
  have hc := hall c.toNat c.toNat_lt
  rw [UInt8.ofNat_toNat] at hc
  exact hc h

theorem fieldLine_plain {kv : Str × Str} (h : fieldLine l = some (kv, rest)) : PlainLine kv := by
  obtain ⟨l₃, -, hk, hv⟩ := fieldLine_eq_some.mp h
  obtain ⟨hcr, hht⟩ := fieldValue_plain hv
  refine ⟨?_, hcr, hht⟩
  rw [hk]
  intro c hc
  obtain ⟨c, hmem, rfl⟩ := List.mem_map.mp hc
  exact plainKey_token (List.mem_takeWhile_imp hmem)

theorem FieldLines.plain (h : FieldLines rest l kvs) : kvs ≠ [] ∧ ∀ kv ∈ kvs, PlainLine kv := by
  induction h with
  | last hline => exact ⟨by simp, by simpa using fieldLine_plain hline⟩
  | cons hline _ _ _ ih => exact ⟨by simp, List.forall_mem_cons.mpr ⟨fieldLine_plain hline, ih.2⟩⟩

end Grammar

namespace HTTPMessage

open Grammar

/-- Header lines with one name are joined by commas, which keeps them plain. -/
theorem plainLine_addHeaders {kvs : List (Str × Str)} {m : HTTPMessage}
    (hplain : ∀ kv ∈ kvs, PlainLine kv) (hm : ∀ k v : Str, m.headers_[k]? = some v → PlainLine (k, v)) :
    ∀ k v : Str, (m.addHeaders kvs).headers_[k]? = some v → PlainLine (k, v) := by
  induction kvs generalizing m with
  | nil => exact hm
  | cons kv kvs ih =>
      obtain ⟨hkv, hkvs⟩ := List.forall_mem_cons.mp hplain
      refine ih hkvs ?_
      intro k v hget
      rw [headers_addHeader, Std.ExtTreeMap.getElem?_insert] at hget
      split at hget
      · rename_i hk
        obtain rfl : kv.1 = k := by simpa using hk
        split at hget
        · obtain rfl := Option.some.inj hget
          exact hkv
        · rename_i w hw
          obtain rfl := Option.some.inj hget
          have hold := hm _ _ hw
          refine ⟨hkv.plain_key, ?_, ?_⟩
          · rw [List.mem_append, List.mem_append, not_or, not_or]
            exact ⟨hold.no_cr, by decide, hkv.no_cr⟩
          · rw [List.mem_append, List.mem_append, not_or, not_or]
            exact ⟨hold.no_ht, by decide, hkv.no_ht⟩
      · exact hm k v hget

theorem mem_addHeaders {k : Str} {kvs : List (Str × Str)} {m : HTTPMessage} (h : k ∈ m.headers_) :
    k ∈ (m.addHeaders kvs).headers_ := by
  induction kvs generalizing m with
  | nil => exact h
  | cons kv kvs ih =>
      refine ih ?_
      rw [headers_addHeader, Std.ExtTreeMap.mem_insert]
      exact Or.inr h

theorem addHeaders_ne_empty {kvs : List (Str × Str)} {m : HTTPMessage} (hne : kvs ≠ []) :
    (m.addHeaders kvs).headers_ ≠ ∅ := by
  obtain ⟨kv, kvs, rfl⟩ := List.exists_cons_of_ne_nil hne
  intro hempty
  have hmem : kv.1 ∈ (m.addHeaders (kv :: kvs)).headers_ := by
    rw [addHeaders_cons]
    exact mem_addHeaders (by rw [headers_addHeader, Std.ExtTreeMap.mem_insert]; simp)
  rw [hempty] at hmem
  simp at hmem

end HTTPMessage

namespace Grammar

open HTTPMessage

variable {l rest t u : Str} {m mr : HTTPMessage}

/-! ## Reading a body again -/

/-- The text of the chunks is longer than what they decode to. -/
theorem chunks_length (h : chunks l = some (t, rest)) : t.length < l.length := by
  fun_induction chunks l generalizing t with
  | case1 => cases h
  | case2 l rest₁ hhex =>
      obtain ⟨rfl, rfl⟩ := Prod.mk.inj (Option.some.inj h)
      exact Nat.lt_of_le_of_lt (Nat.zero_le _) (chunkHex_length hhex)
  | case3 => cases h
  | case4 l n rest₁ hhex hn rest₂ hcrlf ih =>
      obtain ⟨w, hw, rfl⟩ := emit_eq_some.mp h
      have h₁ := chunkHex_length hhex
      have h₂ := crlf_length hcrlf
      have h₃ := ih hw
      rw [List.length_drop] at h₂
      rw [List.length_append, List.length_take]
      omega

/-- Chunks decode to nothing if the first one is the last. -/
theorem chunks_eq_nil_iff (h : chunks l = some (t, rest)) :
    t = [] ↔ ∃ tail, chunkHex l = some (0, tail) := by
  constructor
  · rintro rfl
    cases hhex : chunkHex l with
    | none => rw [chunks_of_none hhex] at h; cases h
    | some x =>
        obtain ⟨n, rest₁⟩ := x
        by_cases hn : n = 0
        · exact ⟨rest₁, by rw [hn]⟩
        · rw [chunks_of_pos hhex hn] at h
          obtain ⟨rest₂, -, hemit⟩ := Option.bind_eq_some_iff.mp h
          obtain ⟨w, -, hnil⟩ := emit_eq_some.mp hemit
          obtain ⟨-, -, -, hne⟩ := chunkHex_eq_some.mp hhex
          have htake := (List.append_eq_nil_iff.mp hnil.symm).1
          rw [List.take_eq_nil_iff] at htake
          exact absurd htake (by simp [hn, hne])
  · rintro ⟨tail, hhex⟩
    rw [chunks_of_zero hhex] at h
    exact (Prod.mk.inj (Option.some.inj h)).1.symm

theorem content_again {n : Nat} (h : content n l = some (t, u)) (hne : t ≠ []) :
    ∃ u', content n t = some (t, u') := by
  obtain rfl := content_eq_some h
  simp only [content] at h
  split at h
  · simp_all
  · split at h
    · refine ⟨(l.take n).drop (n - 1), ?_⟩
      rw [content, if_neg ‹_›, if_pos (by simp; omega), List.take_take, Nat.min_self]
    · cases h

/-- A response whose body is chunked, and not empty. -/
def ChunkedBody (m : HTTPMessage) (rest : Str) : Prop :=
  m.getHeaderValue (lit "transfer-encoding") = some (lit "chunked") ∧
    (∀ n, m.getHeaderULong (lit "content-length") ≠ .ok (true, n)) ∧
    rest ≠ [] ∧ ∀ tail, chunkHex rest ≠ some (0, tail)

/-- The ways in which a response body is read. -/
theorem responseBody_cases (h : responseBody m rest = some (mr, u)) :
    (∃ n t, m.getHeaderULong (lit "content-length") = .ok (true, n) ∧ content n rest = some (t, u) ∧
      mr = m.appendAll t) ∨
    (∃ n, m.getHeaderULong (lit "content-length") = .ok (false, n)) ∧
      ((∃ t, m.getHeaderValue (lit "transfer-encoding") = some (lit "chunked") ∧
          chunks rest = some (t, u) ∧ mr = m.appendAll t) ∨
        m.getHeaderValue (lit "transfer-encoding") = none ∧
          (m.getHeaderValue (lit "connection") = some (lit "close") ∧ mr = m.appendAll rest ∨ mr = m)) := by
  simp only [responseBody] at h
  split at h
  · cases h
  · rename_i n hcl
    obtain ⟨⟨t, _⟩, hcontent, hm⟩ := Option.map_eq_some_iff.mp h
    obtain ⟨rfl, rfl⟩ := Prod.mk.inj hm
    exact Or.inl ⟨n, t, hcl, hcontent, rfl⟩
  · rename_i n hcl
    refine Or.inr ⟨⟨n, hcl⟩, ?_⟩
    split at h
    · rename_i te hte
      split at h
      · obtain ⟨⟨t, _⟩, hchunks, hm⟩ := Option.map_eq_some_iff.mp h
        obtain ⟨rfl, rfl⟩ := Prod.mk.inj hm
        exact Or.inl ⟨t, by simp_all, hchunks, rfl⟩
      · cases h
    · rename_i hte
      refine Or.inr ⟨hte, ?_⟩
      split at h
      · rename_i conn hconn
        split at h
        · obtain ⟨rfl, -⟩ := Prod.mk.inj (Option.some.inj h)
          exact Or.inl ⟨by simp_all, rfl⟩
        · cases h
      · exact Or.inr (Prod.mk.inj (Option.some.inj h)).1.symm

theorem responseEnd_of_body_ne (hm : m.body_ = []) (hne : mr.body_ ≠ [])
    (h : responseEnd m rest = some (mr, u)) :
    HTTPResponse.hasBody m = .ok true ∧ rest ≠ [] ∧ responseBody m rest = some (mr, u) := by
  simp only [responseEnd] at h
  split at h
  · cases h
  · obtain ⟨rfl, -⟩ := Prod.mk.inj (Option.some.inj h)
    exact absurd hm hne
  · split at h
    · obtain ⟨rfl, -⟩ := Prod.mk.inj (Option.some.inj h)
      exact absurd hm hne
    · exact ⟨‹_›, ‹_›, h⟩

/-- A message without a body ends as well where nothing follows. -/
theorem responseEnd_nil (h : responseEnd m rest = some (mr, u)) : ∃ u', responseEnd m [] = some (m, u') := by
  simp only [responseEnd] at h ⊢
  split at h
  · cases h
  · exact ⟨_, rfl⟩
  · exact ⟨[], if_pos trivial⟩

/-- **The body that was read is read again** behind the same headers, unless it was chunked. -/
theorem responseEnd_again (hm : m.body_ = []) (h : responseEnd m rest = some (mr, u)) :
    (∃ u', responseEnd m mr.body_ = some (mr, u')) ↔ ¬ ChunkedBody m rest := by
  by_cases hne : mr.body_ = []
  · have hmr : mr = m := by
      have hheaders := headers_responseEnd h
      cases m
      cases mr
      simp_all
    refine iff_of_true ?_ ?_
    · rw [hne, hmr]
      exact responseEnd_nil h
    · rintro ⟨hte, hcl, hrest, hhex⟩
      rw [responseEnd_chunked hte] at h
      split at h
      · cases h
      · rw [requestEnd, if_neg hrest, requestBody] at h
        split at h
        · cases h
        · exact hcl _ ‹_›
        · rw [if_pos hte] at h
          obtain ⟨⟨t, _⟩, hchunks, hpair⟩ := Option.map_eq_some_iff.mp h
          obtain ⟨rfl, rfl⟩ := Prod.mk.inj hpair
          have ht : t = [] := by simpa [appendAll, hm] using hne
          obtain ⟨tail, hhex'⟩ := (chunks_eq_nil_iff hchunks).mp ht
          exact hhex tail hhex'
  · obtain ⟨hbody, hrest, hread⟩ := responseEnd_of_body_ne hm hne h
    have hiff : ∀ u', responseEnd m mr.body_ = some (mr, u') ↔ responseBody m mr.body_ = some (mr, u') := by
      intro u'
      simp only [responseEnd, hbody, if_neg hne]
    simp only [hiff]
    rcases responseBody_cases hread with ⟨n, t, hcl, hcontent, rfl⟩ | ⟨⟨n, hcl⟩, hcases⟩
    · have ht : (m.appendAll t).body_ = t := by simp [appendAll, hm]
      rw [ht] at hne ⊢
      obtain ⟨u', hagain⟩ := content_again hcontent hne
      refine iff_of_true ⟨u', by simp [responseBody, hcl, hagain]⟩ ?_
      rintro ⟨-, hno, -⟩
      exact hno n hcl
    · rcases hcases with ⟨t, hte, hchunks, rfl⟩ | ⟨hte, ⟨hconn, rfl⟩ | rfl⟩
      · have ht : (m.appendAll t).body_ = t := by simp [appendAll, hm]
        rw [ht] at hne ⊢
        refine iff_of_false ?_ ?_
        · -- reading the decoded octets as chunks again would give fewer of them
          rintro ⟨u', hagain⟩
          simp only [responseBody, hcl, hte, if_true] at hagain
          obtain ⟨⟨t', _⟩, hchunks', hm'⟩ := Option.map_eq_some_iff.mp hagain
          have hlen := chunks_length hchunks'
          have heq : (m.appendAll t').body_ = (m.appendAll t).body_ := congrArg _ (Prod.mk.inj hm').1
          simp only [appendAll, hm, List.nil_append] at heq
          rw [heq] at hlen
          exact Nat.lt_irrefl _ hlen
        · rw [not_not]
          refine ⟨hte, by simp [hcl], hrest, fun tail hhex => hne ?_⟩
          exact (chunks_eq_nil_iff hchunks).mpr ⟨tail, hhex⟩
      · have ht : (m.appendAll rest).body_ = rest := by simp [appendAll, hm]
        rw [ht]
        refine iff_of_true ⟨[], by simp [responseBody, hcl, hte, hconn]⟩ ?_
        rintro ⟨hte', -⟩
        rw [hte] at hte'
        cases hte'
      · exact absurd hm hne

end Grammar

open HTTPMessage

/-- The texts whose response can be printed and read again: there are headers, none of their values
    starts with a space or has two spaces in a row, and the body is not chunked. -/
def Reprintable (text : Str) : Prop :=
  ∃ m rest, Grammar.messageHead (Grammar.responseLine {}) text = some (m, rest) ∧
    (∀ k v : Str, m.headers_[k]? = some v → v.head? ≠ some charSP ∧ Grammar.NoDoubleSpace v) ∧
    ¬ Grammar.ChunkedBody m rest

/-- A response without headers has no body either. -/
theorem responseRest_bare {l u : Str} {m : HTTPMessage} (h : Grammar.responseRest {} l = some (m, u))
    (hempty : m.headers_ = ∅) : l.head? = some charCR ∧ m = {} := by
  rw [Grammar.responseRest, Grammar.messageRest] at h
  split at h
  · refine ⟨‹_›, ?_⟩
    cases hl : l.tail with
    | nil => rw [hl] at h; exact (Prod.mk.inj (Option.some.inj h)).1.symm
    | cons c l' =>
        rw [hl, Grammar.bare] at h
        split at h
        · exact (Prod.mk.inj (Option.some.inj h)).1.symm
        · split at h
          · cases h
          · exact (Prod.mk.inj (Option.some.inj h)).1.symm
  · obtain ⟨⟨kvs, rest⟩, hsec, hend⟩ := Option.bind_eq_some_iff.mp h
    refine absurd ?_ (addHeaders_ne_empty (m := {}) (Grammar.fields_eq_some.mp hsec).plain.1)
    rw [← Grammar.headers_responseEnd hend]
    exact hempty

/-- What it takes that the printed form of `r` is read as `r`. -/
theorem HTTPResponse.accepts_printed_iff {r : HTTPResponse} :
    Accepts (r.response_line_.asString ++ (headerLines r.headers_ ++ charCR :: charLF :: r.body_)) r ↔
      ∃ u, Grammar.responseRest {} (headerLines r.headers_ ++ charCR :: charLF :: r.body_) =
        some (r.toHTTPMessage, u) := by
  rw [accepts_iff]
  refine exists_congr fun u => ?_
  rw [Grammar.response_eq_some, Grammar.responseLine_asString (by simp)]
  simp

/-- **Encode undoes decode** exactly on the reprintable texts. -/
theorem accepts_asString_iff (text : Str) (r : HTTPResponse) (haccepts : HTTPResponse.Accepts text r)
    (hzero : 0 ∉ r.body_) :
    (∃ text', r.asString = .ok text' ∧ HTTPResponse.Accepts text' r) ↔ Reprintable text := by
  rw [HTTPResponse.asString_eq hzero]
  simp only [Except.ok.injEq, exists_eq_left', HTTPResponse.accepts_printed_iff]
  obtain ⟨u, hresponse⟩ := HTTPResponse.accepts_iff.mp haccepts
  obtain ⟨l, hline, hrest⟩ := Grammar.response_eq_some.mp hresponse
  by_cases hne : r.headers_ = ∅
  · obtain ⟨hcr, hr⟩ := responseRest_bare hrest hne
    refine iff_of_false ?_ ?_
    · -- CR LF and nothing else: a body is expected behind it
      rw [hr]
      rintro ⟨u', hprinted⟩
      cases hprinted
    · rintro ⟨m, rest, hhead, -⟩
      obtain ⟨_, l', _, hline', hcr', -⟩ := Grammar.messageHead_eq_some.mp hhead
      obtain ⟨-, rfl⟩ := Prod.mk.inj (Option.some.inj (hline.symm.trans hline'))
      exact hcr' hcr
  · obtain ⟨hcr, kvs, rest, hsec, hend⟩ :=
      Grammar.messageRest_eq_some Grammar.headers_responseBody hrest hne
    have hhead := Grammar.messageHead_eq_some.mpr ⟨_, l, kvs, hline, hcr, hsec, rfl⟩
    have hheaders := Grammar.headers_responseEnd hend
    have hplain : PlainHeaders r.headers_ := by
      refine ⟨hne, fun {k v} hkv => ?_⟩
      rw [hheaders] at hkv
      exact plainLine_addHeaders (Grammar.fields_eq_some.mp hsec).plain.2 (by simp) k v hkv
    have hmsg : ({ headers_ := r.headers_ } : HTTPMessage) = addHeaders {} kvs := by
      rw [hheaders]
      exact congrArg (HTTPMessage.mk _) (body_addHeaders {} kvs).symm
    have hagain := Grammar.responseEnd_again (body_addHeaders {} kvs) hend
    rw [← hmsg] at hagain hhead
    simp only [Grammar.responseRest, Grammar.messageRest_printed hplain]
    constructor
    · rintro ⟨u', hprinted⟩
      have hread : readHeaders r.headers_ = r.headers_ := (Grammar.headers_responseEnd hprinted).symm
      rw [hread] at hprinted
      refine ⟨_, rest, hhead, ?_, hagain.mp ⟨u', hprinted⟩⟩
      intro k v hkv
      exact Grammar.readBack_eq_self_iff.mp (readHeaders_eq_self_iff.mp hread k v hkv)
    · rintro ⟨m, rest', hhead', hvalues, hchunked⟩
      obtain ⟨rfl, rfl⟩ := Prod.mk.inj (Option.some.inj (hhead.symm.trans hhead'))
      have hread : readHeaders r.headers_ = r.headers_ := readHeaders_eq_self_iff.mpr fun k v hkv =>
        Grammar.readBack_eq_self_iff.mpr (hvalues k v hkv)
      rw [hread]
      exact hagain.mpr hchunked

theorem accepts_asString_iff_length_two : ∃ r,
    HTTPResponse.Accepts (lit "HTTP/1.0 404 -\r\nContent-Length: 2\r\n\r\nab") r ∧ 0 ∉ r.body_ ∧
      ((∃ text', r.asString = .ok text' ∧ HTTPResponse.Accepts text' r) ↔
        Reprintable (lit "HTTP/1.0 404 -\r\nContent-Length: 2\r\n\r\nab")) := by
  have hrun : wp HTTPResponse.parse (fun x s => x = .ok {} ∧ 0 ∉ s.2.body_)
      (StringReadBuffer.ofString (lit "HTTP/1.0 404 -\r\nContent-Length: 2\r\n\r\nab"), {}) :=
    wp_of_run 60 (by decide +kernel)
  obtain ⟨_, ⟨b, r⟩, h, rfl, hzero⟩ := hrun
  exact ⟨r, ⟨b, h⟩, hzero, accepts_asString_iff _ r ⟨b, h⟩ hzero⟩

/-- The chunk sizes are missing in the printed form of a chunked response. -/
theorem chunked_response_not_reprinted : ∃ r,
    HTTPResponse.Accepts (lit "HTTP/1.1 200 OK\r\ntransfer-encoding: chunked\r\n\r\n1\r\na\r\n0\r\n\r\n") r ∧
      0 ∉ r.body_ ∧
      r.asString = .ok (lit "HTTP/1.1 200 OK\r\ntransfer-encoding: chunked\r\n\r\na") ∧
      ∀ r', ¬ HTTPResponse.Accepts (lit "HTTP/1.1 200 OK\r\ntransfer-encoding: chunked\r\n\r\na") r' := by
  have hrun : wp HTTPResponse.parse (fun x s => x = .ok {} ∧ 0 ∉ s.2.body_ ∧
        s.2.asString = .ok (lit "HTTP/1.1 200 OK\r\ntransfer-encoding: chunked\r\n\r\na"))
      (StringReadBuffer.ofString
        (lit "HTTP/1.1 200 OK\r\ntransfer-encoding: chunked\r\n\r\n1\r\na\r\n0\r\n\r\n"), {}) :=
    wp_of_run 60 (by decide +kernel)
  have hagain : wp HTTPResponse.parse (fun x _ => x ≠ .ok {})
      (StringReadBuffer.ofString (lit "HTTP/1.1 200 OK\r\ntransfer-encoding: chunked\r\n\r\na"), {}) :=
    wp_of_run 60 (by decide +kernel)
  obtain ⟨_, ⟨b, r⟩, h, rfl, hzero, hprint⟩ := hrun
  obtain ⟨x, s, hx, hne⟩ := hagain
  refine ⟨r, ⟨b, h⟩, hzero, hprint, ?_⟩
  rintro r' ⟨b', hr'⟩
  exact hne (hx.unique hr').1

end Dodo.Network.Http
