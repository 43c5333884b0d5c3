import Mathlib.Data.List.Chain
import Dodo.Network.Http.Buffers

/-!
# `Http.RoundTrip` — parsing what `asString` prints

The printed form of a well-formed message is read back as the same message. The grammar is evaluated on
the printed text piece by piece: version, start line, header lines, body. What is left behind each piece
is a parameter of its lemma, so that the pieces compose.
-/

namespace Dodo.Network.Http

open Common Lib Lib.Comp

namespace Grammar

open HTTPMessage

variable {l rest : Str} {d : Octet}

/-! ## Start lines -/

theorem isdigit_of_mem_decimal {n : Nat} : ∀ c ∈ decimal n, isdigit c = true := fun _ => mem_decimal

/-- A printed version, followed by an octet that is no digit. -/
theorem version_asString {v v₀ : HTTPVersion} (hd : isdigit d = false) :
    version v₀ (v.asString ++ d :: l) = some (v, d :: l) := by
  have hhead : v.asString ++ d :: l =
      72 :: 84 :: 84 :: 80 :: 47 :: (decimal v.major_.toNat ++ 46 :: (decimal v.minor_.toNat ++ d :: l)) := by
    simp [HTTPVersion.asString, lit]
  rw [hhead, version, skip_cons (by decide)]
  simp only [Option.bind_eq_bind, Option.bind_some, octet_cons]
  rw [skip_append isdigit_of_mem_decimal (by decide)]
  simp only [Option.bind_some, octet_cons]
  rw [skip_append isdigit_of_mem_decimal hd, takeWhile_append isdigit_of_mem_decimal (by decide),
    takeWhile_append isdigit_of_mem_decimal hd, extractUInt_decimal, extractUInt_decimal]
  rfl

/-- Space in front of a version makes no difference. -/
theorem version_space {v₀ : HTTPVersion} (hd : isspace d = true) : version v₀ (d :: l) = version v₀ l := by
  simp [version, skip, hd]

end Grammar

theorem Method.methodFromString_methodAsString {m : Method} :
    methodFromString m.methodAsString = m := by
  cases m <;> decide

theorem Method.nonspace_methodAsString {m : Method} :
    ∀ c ∈ m.methodAsString, Grammar.nonspace c = true := by
  apply List.all_eq_true.mp
  cases m <;> decide

/-- A request line that `asString` prints in a readable way. -/
structure HTTPRequestLine.WellFormed (line : HTTPRequestLine) : Prop where
  method_valid : line.method_ ≠ .meINVALID
  uri_ne_nil : line.request_uri_ ≠ []
  uri_nonspace : ∀ c ∈ line.request_uri_, isspace c = false

namespace Grammar

open HTTPMessage

variable {l : Str}

theorem requestLine_asString {line line₀ : HTTPRequestLine} (h : line.WellFormed) (hl : l ≠ []) :
    requestLine line₀ (line.asString ++ l) = some (line, l) := by
  have huri : ∀ c ∈ line.request_uri_, nonspace c = true := by
    intro c hc
    simp [nonspace, h.uri_nonspace c hc]
  obtain ⟨c, uri, hcons⟩ := List.exists_cons_of_ne_nil h.uri_ne_nil
  have hcsp : isSP c = false := by
    have := h.uri_nonspace c (by simp [hcons])
    simp only [isspace, isSP, charSP, charHT] at this ⊢
    grind
  have htext : line.asString ++ l = line.method_.methodAsString ++ charSP ::
      (line.request_uri_ ++ charSP :: (line.http_version_.asString ++ charCR :: charLF :: l)) := by
    simp [HTTPRequestLine.asString]
  have hskip : skip isSP (charSP ::
      (line.request_uri_ ++ charSP :: (line.http_version_.asString ++ charCR :: charLF :: l))) =
      some (line.request_uri_ ++ charSP :: (line.http_version_.asString ++ charCR :: charLF :: l)) := by
    rw [hcons]
    exact skip_append (t := [charSP]) (by simp [isSP]) hcsp
  rw [htext, requestLine]
  simp only [Option.bind_eq_bind]
  rw [skip_append Method.nonspace_methodAsString (by decide)]
  simp only [Option.bind_some, hskip]
  rw [skip_append huri (by decide)]
  simp only [Option.bind_some]
  rw [version_space (by decide), version_asString (by decide)]
  simp only [Option.bind_some]
  rw [skip_cons (by decide)]
  simp only [Option.bind_some]
  rw [crlf_cons hl, takeWhile_append Method.nonspace_methodAsString (by decide),
    takeWhile_append huri (by decide), Method.methodFromString_methodAsString]
  simp only [Option.bind_some, if_neg h.method_valid]

theorem notCR_HTTPCodeAsString {code : UInt32} : ∀ c ∈ HTTPCodeAsString code, notCR c = true := by
  apply List.all_eq_true.mp
  unfold HTTPCodeAsString
  split <;> exact all_lit _ (by decide)

theorem responseLine_asString {line line₀ : HTTPResponseLine} (hl : l ≠ []) :
    responseLine line₀ (line.asString ++ l) = some (line, l) := by
  obtain ⟨c, ds, hds⟩ := List.exists_cons_of_ne_nil (decimal_ne_nil line.http_code_.toNat)
  have hc : isSP c = false := by
    have := mem_decimal (n := line.http_code_.toNat) (c := c) (by simp [hds])
    simp only [isdigit, isSP, charSP, charHT] at this ⊢
    grind
  have htext : line.asString ++ l = line.version_.asString ++ charSP ::
      (decimal line.http_code_.toNat ++ charSP ::
        (HTTPCodeAsString line.http_code_ ++ charCR :: charLF :: l)) := by
    simp [HTTPResponseLine.asString]
  have hskip : skip isSP (charSP :: (decimal line.http_code_.toNat ++ charSP ::
      (HTTPCodeAsString line.http_code_ ++ charCR :: charLF :: l))) =
      some (decimal line.http_code_.toNat ++ charSP ::
        (HTTPCodeAsString line.http_code_ ++ charCR :: charLF :: l)) := by
    rw [hds]
    exact skip_append (t := [charSP]) (by simp [isSP]) hc
  have hnum : number (decimal line.http_code_.toNat ++ charSP ::
      (HTTPCodeAsString line.http_code_ ++ charCR :: charLF :: l)) =
      some (line.http_code_, charSP :: (HTTPCodeAsString line.http_code_ ++ charCR :: charLF :: l)) := by
    rw [number, takeWhile_append isdigit_of_mem_decimal (by decide), if_neg (decimal_ne_nil _),
      skip_append isdigit_of_mem_decimal (by decide), extractUInt_decimal]
    rfl
  rw [htext, responseLine]
  simp only [Option.bind_eq_bind]
  rw [version_asString (by decide)]
  simp only [Option.bind_some, hskip, hnum]
  rw [← List.cons_append, skip_append (List.forall_mem_cons.mpr ⟨by decide, notCR_HTTPCodeAsString⟩)
    (by decide)]
  simp only [Option.bind_some]
  rw [crlf_cons hl]
  rfl

/-! ## Headers -/

/-- No two spaces in a row. -/
def NoDoubleSpace (v : Str) : Prop := v.IsChain fun a b => ¬ (a = charSP ∧ b = charSP)

instance {v : Str} : Decidable (NoDoubleSpace v) := inferInstanceAs (Decidable (List.IsChain _ v))

/-- Every run of spaces as one space. -/
def squeeze : Str → Str
  | [] => []
  | c :: l => if c = charSP ∧ l.head? = some charSP then squeeze l else c :: squeeze l

/-- What the parser makes of a printed value: it drops the leading spaces and reads a run of spaces as
    one. -/
def readBack (v : Str) : Str := squeeze (v.dropWhile (· = charSP))

/-- A name the parser gives back as it is: it is a token, in lower case. -/
def PlainKey (k : Str) : Prop := ∀ c ∈ k, isToken c = true ∧ tolower c = c

variable {d : Octet} {v k : Str}

theorem length_squeeze_le : (squeeze v).length ≤ v.length := by
  induction v with
  | nil => simp [squeeze]
  | cons c v ih =>
      rw [squeeze]
      split <;> simp only [List.length_cons] <;> omega

theorem squeeze_eq_self_iff : squeeze v = v ↔ NoDoubleSpace v := by
  induction v with
  | nil => simp [squeeze, NoDoubleSpace]
  | cons c v ih =>
      have hchain : NoDoubleSpace (c :: v) ↔ ¬ (c = charSP ∧ v.head? = some charSP) ∧ NoDoubleSpace v := by
        cases v with
        | nil => simp [NoDoubleSpace]
        | cons c' v => simp [NoDoubleSpace, List.isChain_cons_cons]
      rw [hchain, squeeze]
      by_cases hsp : c = charSP ∧ v.head? = some charSP
      · rw [if_pos hsp]
        have hlen := length_squeeze_le (v := v)
        refine iff_of_false (fun heq => ?_) fun h => h.1 hsp
        rw [heq, List.length_cons] at hlen
        omega
      · rw [if_neg hsp, List.cons.injEq, ih]
        exact ⟨fun h => ⟨hsp, h.2⟩, fun h => ⟨rfl, h.2⟩⟩

theorem readBack_eq_self_iff : readBack v = v ↔ v.head? ≠ some charSP ∧ NoDoubleSpace v := by
  cases v with
  | nil => simp [readBack, squeeze, NoDoubleSpace]
  | cons c v =>
      by_cases hc : c = charSP
      · refine iff_of_false (fun heq => ?_) fun h => h.1 (by simp [hc])
        have hlen : (readBack v).length ≤ v.length := Nat.le_trans length_squeeze_le dropWhile_length_le
        rw [readBack, List.dropWhile_cons_of_pos (by simpa using hc)] at heq
        rw [readBack, heq, List.length_cons] at hlen
        omega
      · rw [readBack, List.dropWhile_cons_of_neg (by simpa using hc), squeeze_eq_self_iff]
        simp [hc]

theorem squeeze_space : squeeze (charSP :: v) = charSP :: squeeze (v.dropWhile (· = charSP)) := by
  induction v with
  | nil => rfl
  | cons c v ih =>
      rw [squeeze]
      by_cases hc : c = charSP
      · rw [if_pos ⟨rfl, by simp [hc]⟩, List.dropWhile_cons_of_pos (by simpa using hc), hc, ih]
      · rw [if_neg (by simp [hc]), List.dropWhile_cons_of_neg (by simpa using hc)]

theorem isSP_eq_false {c : Octet} (h₁ : c ≠ charSP) (h₂ : c ≠ charHT) : isSP c = false := by
  simp [isSP, h₁, h₂]

/-- A value is read up to its CR LF, in the state behind an octet and in the state behind a space. -/
theorem fieldValue_read (hcr : charCR ∉ v) (hht : charHT ∉ v) (hd : isSP d = false) :
    fieldValue .psReadValue (v ++ charCR :: charLF :: d :: l) = some (squeeze v, d :: l) ∧
      fieldValue .psSP (v ++ charCR :: charLF :: d :: l) =
        some (charSP :: squeeze (v.dropWhile (· = charSP)), d :: l) := by
  induction v with
  | nil =>
      refine ⟨fieldValue_cr hd, ?_⟩
      rw [List.nil_append, fieldValue_sp (by decide), fieldValue_cr hd]
      rfl
  | cons c v ih =>
      simp only [List.mem_cons, not_or] at hcr hht
      obtain ⟨hread, hsp⟩ := ih hcr.2 hht.2
      by_cases hc : c = charSP
      · subst hc
        refine ⟨?_, ?_⟩
        · rw [List.cons_append, fieldValue, if_neg (by decide), if_pos (by decide), hsp, squeeze_space]
        · rw [List.cons_append, fieldValue, if_pos (by decide), hsp,
            List.dropWhile_cons_of_pos (by simp)]
      · have hcsp : isSP c = false := isSP_eq_false hc (Ne.symm hht.1)
        have hread' : fieldValue .psReadValue (c :: v ++ charCR :: charLF :: d :: l) =
            some (squeeze (c :: v), d :: l) := by
          rw [List.cons_append, fieldValue, if_neg (Ne.symm hcr.1), if_neg (by simp [hcsp]), hread, squeeze,
            if_neg (by simp [hc])]
          rfl
        refine ⟨hread', ?_⟩
        rw [List.cons_append, fieldValue_sp hcsp, ← List.cons_append, hread',
          List.dropWhile_cons_of_neg (by simpa using hc)]
        rfl

/-- Leading spaces are dropped. -/
theorem fieldValue_readBack (hcr : charCR ∉ v) (hht : charHT ∉ v) (hd : isSP d = false) :
    fieldValue .psStart (v ++ charCR :: charLF :: d :: l) = some (readBack v, d :: l) := by
  induction v with
  | nil =>
      rw [List.nil_append, fieldValue_start (by decide), fieldValue_cr hd]
      rfl
  | cons c v ih =>
      have hread := (fieldValue_read (l := l) hcr hht hd).1
      simp only [List.mem_cons, not_or] at hcr hht
      by_cases hc : c = charSP
      · rw [List.cons_append, fieldValue, if_pos (by simp [hc, isSP]), ih hcr.2 hht.2, readBack, readBack,
          List.dropWhile_cons_of_pos (by simpa using hc)]
      · rw [List.cons_append, fieldValue_start (isSP_eq_false hc (Ne.symm hht.1)), ← List.cons_append, hread,
          readBack, List.dropWhile_cons_of_neg (by simpa using hc)]

/-- The line `asString` prints for a header. -/
def fieldText (kv : Str × Str) : Str := kv.1 ++ (lit ": " ++ (kv.2 ++ [charCR, charLF]))

theorem fieldText_append {kv : Str × Str} :
    fieldText kv ++ l = kv.1 ++ 58 :: charSP :: (kv.2 ++ charCR :: charLF :: l) := by
  simp [fieldText, lit, charSP]

theorem fieldLine_fieldText (hk : PlainKey k) (hcr : charCR ∉ v) (hht : charHT ∉ v)
    (hd : isSP d = false) : fieldLine (fieldText (k, v) ++ d :: l) = some ((k, readBack v), d :: l) := by
  have htoken : ∀ c ∈ k, isToken c = true := fun c hc => (hk c hc).1
  have hlower : k.map tolower = k := by
    conv_rhs => rw [← List.map_id k]
    exact List.map_congr_left fun c hc => (hk c hc).2
  rw [fieldText_append]
  refine fieldLine_eq_some.mpr ⟨charSP :: (v ++ charCR :: charLF :: d :: l), ?_, ?_, ?_⟩
  · rw [dropWhile_append htoken (by decide), List.dropWhile_cons_of_neg (by decide)]
  · rw [takeWhile_append htoken (by decide), hlower]
  · rw [fieldValue, if_pos (by decide)]
    exact fieldValue_readBack hcr hht hd

/-- Neither a header line nor the empty line starts with a blank, and a header line not with a CR. -/
theorem fieldText_cons {kv : Str × Str} (hk : PlainKey kv.1) :
    ∃ d l', fieldText kv ++ l = d :: l' ∧ isSP d = false ∧ d ≠ charCR := by
  rw [fieldText_append]
  cases hkey : kv.1 with
  | nil => exact ⟨58, _, rfl, by decide, by decide⟩
  | cons c k =>
      have hc := (hk c (by simp [hkey])).1
      refine ⟨c, _, rfl, ?_, ?_⟩
      · cases hsp : isSP c with
        | false => rfl
        | true =>
            have hsp : c = charSP ∨ c = charHT := by simpa [isSP] using hsp
            rcases hsp with rfl | rfl <;> exact absurd hc (by decide)
      · rintro rfl
        exact absurd hc (by decide)

/-- A header line that is read as one header. -/
structure PlainLine (kv : Str × Str) : Prop where
  plain_key : PlainKey kv.1
  no_cr : charCR ∉ kv.2
  no_ht : charHT ∉ kv.2

/-- **The header lines are read back**, in their order. -/
theorem fieldLines_fieldText {kvs : List (Str × Str)} (hne : kvs ≠ [])
    (hplain : ∀ kv ∈ kvs, PlainLine kv) (rest : Str) :
    FieldLines rest (kvs.flatMap fieldText ++ charCR :: charLF :: rest)
      (kvs.map fun kv => (kv.1, readBack kv.2)) := by
  induction kvs with
  | nil => exact absurd rfl hne
  | cons kv kvs ih =>
      obtain ⟨hk, hcr, hht⟩ := hplain kv (by simp)
      rw [List.flatMap_cons, List.append_assoc]
      cases kvs with
      | nil => exact .last (fieldLine_fieldText hk hcr hht (by decide))
      | cons kv' kvs =>
          obtain ⟨d, l', hl', hd, hcr'⟩ := fieldText_cons
            (l := kvs.flatMap fieldText ++ charCR :: charLF :: rest) (hplain kv' (by simp)).plain_key
          have ih := ih (by simp) fun kv hkv => hplain kv (by simp [hkv])
          rw [List.flatMap_cons, List.append_assoc, hl'] at ih ⊢
          exact .cons (fieldLine_fieldText hk hcr hht hd) hd hcr' ih

theorem headerSection_fieldText {kvs : List (Str × Str)} (hne : kvs ≠ [])
    (hplain : ∀ kv ∈ kvs, PlainLine kv) :
    headerSection (kvs.flatMap fieldText ++ charCR :: charLF :: rest) =
      some (kvs.map fun kv => (kv.1, readBack kv.2), rest) := by
  have hfields := fields_eq_some.mpr (fieldLines_fieldText hne hplain rest)
  obtain ⟨kv, kvs, rfl⟩ := List.exists_cons_of_ne_nil hne
  obtain ⟨d, l', hl', hd, -⟩ := fieldText_cons
    (l := kvs.flatMap fieldText ++ charCR :: charLF :: rest) (hplain kv (by simp)).plain_key
  rw [List.flatMap_cons, List.append_assoc, hl'] at hfields ⊢
  rw [headerSection, List.dropWhile_cons_of_neg (by simp [hd]), hfields]

end Grammar

namespace HTTPMessage

/-- Header lines with different names are all added as they are. -/
theorem getElem?_addHeaders {kvs : List (Str × Str)} {m : HTTPMessage}
    (hnodup : (kvs.map Prod.fst).Nodup) (hnew : ∀ kv ∈ kvs, m.headers_[kv.1]? = none) (k v : Str) :
    (m.addHeaders kvs).headers_[k]? = some v ↔ (k, v) ∈ kvs ∨ m.headers_[k]? = some v := by
  induction kvs generalizing m with
  | nil => simp
  | cons kv kvs ih =>
      obtain ⟨k₁, v₁⟩ := kv
      rw [List.map_cons, List.nodup_cons] at hnodup
      have hadd : m.addHeader k₁ v₁ = { m with headers_ := m.headers_.insert k₁ v₁ } := by
        simp [addHeader, hnew (k₁, v₁) (by simp)]
      have hnew' : ∀ kv ∈ kvs, (m.addHeader k₁ v₁).headers_[kv.1]? = none := by
        intro kv hkv
        have hne : k₁ ≠ kv.1 := fun heq => hnodup.1 (List.mem_map.mpr ⟨kv, hkv, heq.symm⟩)
        rw [hadd, Std.ExtTreeMap.getElem?_insert]
        simp [hne, hnew kv (by simp [hkv])]
      rw [addHeaders_cons, ih hnodup.2 hnew', hadd, Std.ExtTreeMap.getElem?_insert]
      by_cases hk : k₁ = k
      · subst hk
        have hmem : (k₁, v) ∉ kvs := fun h => hnodup.1 (List.mem_map.mpr ⟨_, h, rfl⟩)
        simp [hmem, hnew (k₁, v₁) (by simp), eq_comm]
      · simp [hk, Ne.symm hk]

/-- The header map that the parser makes of the printed one. -/
def readHeaders (headers : Headers) : Headers := headers.map fun _ v => Grammar.readBack v

theorem getElem?_readHeaders (headers : Headers) (k : Str) :
    (readHeaders headers)[k]? = headers[k]?.map Grammar.readBack := by
  simp [readHeaders]

theorem readHeaders_eq_self_iff {headers : Headers} :
    readHeaders headers = headers ↔ ∀ k v : Str, headers[k]? = some v → Grammar.readBack v = v := by
  constructor
  · intro h k v hkv
    have hread := getElem?_readHeaders headers k
    rw [h, hkv] at hread
    exact (Option.some.inj hread).symm
  · intro h
    refine Std.ExtTreeMap.ext_getElem? fun {k} => ?_
    rw [getElem?_readHeaders]
    cases hk : headers[k]? with
    | none => rfl
    | some v => rw [Option.map_some, h k v hk]

/-- **The lines of a header map are read back into one map.** -/
theorem addHeaders_toList (headers : Headers) :
    addHeaders {} (headers.toList.map fun kv => (kv.1, Grammar.readBack kv.2)) =
      { headers_ := readHeaders headers } := by
  have hnodup : ((headers.toList.map fun kv => (kv.1, Grammar.readBack kv.2)).map Prod.fst).Nodup := by
    rw [List.Nodup, List.map_map, List.pairwise_map]
    exact Std.ExtTreeMap.distinct_keys_toList.imp fun h heq => h (by simpa using heq)
  have hheaders : (addHeaders {} (headers.toList.map fun kv => (kv.1, Grammar.readBack kv.2))).headers_ =
      readHeaders headers := by
    refine Std.ExtTreeMap.ext_getElem? fun {k} => Option.ext fun v => ?_
    rw [getElem?_addHeaders hnodup (by simp), getElem?_readHeaders]
    simp [Std.ExtTreeMap.mem_toList_iff_getElem?_eq_some]
  have hbody := body_addHeaders {} (headers.toList.map fun kv => (kv.1, Grammar.readBack kv.2))
  rw [← hheaders]
  exact congrArg (HTTPMessage.mk _) hbody

theorem getHeaderULong_decimal {m : HTTPMessage} {key : Str} {n : Nat}
    (h : m.headers_[key]? = some (decimal n)) (hn : n < 2 ^ 64) : m.getHeaderULong key = .ok (true, n) := by
  simp [getHeaderULong, h, stoul_decimal hn, Except.map]

theorem bytesAsString_of_no_zero {body : Str} (h : 0 ∉ body) : bytesAsString body = .ok body := by
  rw [bytesAsString, if_neg fun hmem => h (List.dropLast_subset body hmem)]
  congr 1
  exact List.filter_eq_self.mpr fun c hc => by
    simp only [decide_eq_true_eq]
    rintro rfl
    exact h hc

/-- Headers whose printed lines are read as one header each; there is at least one. -/
structure PlainHeaders (headers : Headers) : Prop where
  ne_empty : headers ≠ ∅
  plain_line : ∀ {k v : Str}, headers[k]? = some v → Grammar.PlainLine (k, v)

end HTTPMessage

namespace Grammar

open HTTPMessage

variable {headers : Headers} {body : Str}

/-- Behind the start line, a printed message ends as its header map says. -/
theorem messageRest_printed (h : PlainHeaders headers)
    (parseBody ending : HTTPMessage → Str → Option (HTTPMessage × Str)) :
    messageRest parseBody ending {} (headerLines headers ++ charCR :: charLF :: body) =
      ending { headers_ := readHeaders headers } body := by
  have hne : headers.toList ≠ [] := fun hnil => h.ne_empty (Std.ExtTreeMap.toList_eq_nil_iff.mp hnil)
  have hplain : ∀ kv ∈ headers.toList, PlainLine kv := by
    intro kv hkv
    exact h.plain_line (Std.ExtTreeMap.mem_toList_iff_getElem?_eq_some.mp hkv)
  have hlines : headerLines headers = headers.toList.flatMap fieldText := rfl
  have hcr : (headerLines headers ++ charCR :: charLF :: body).head? ≠ some charCR := by
    obtain ⟨kv, kvs, hcons⟩ := List.exists_cons_of_ne_nil hne
    obtain ⟨d, l', hl', -, hcr⟩ := fieldText_cons
      (l := kvs.flatMap fieldText ++ charCR :: charLF :: body) (hplain kv (by simp [hcons])).plain_key
    rw [hlines, hcons, List.flatMap_cons, List.append_assoc, hl']
    simpa using hcr
  rw [messageRest, if_neg hcr, hlines, headerSection_fieldText hne hplain, ← addHeaders_toList]
  rfl

/-- A body of the length that the content-length header gives is read completely. -/
theorem content_self {body : Str} (hne : body ≠ []) :
    content body.length body = some (body, body.drop (body.length - 1)) := by
  simp [content, hne]

end Grammar
/-! ## Whole messages -/

namespace HTTPMessage

/-- A message that `asString` prints in a readable way. -/
structure Encodable (m : HTTPMessage) : Prop where
  /-- At least one header. -/
  ne_empty : m.headers_ ≠ ∅
  /-- Names are tokens in lower case. -/
  key : ∀ k v : Str, m.headers_[k]? = some v →
    k ≠ [] ∧ ∀ c ∈ k, isSeparator c = false ∧ isCTL c = false ∧ tolower c = c
  value : ∀ k v : Str, m.headers_[k]? = some v → charCR ∉ v ∧ charLF ∉ v ∧ charHT ∉ v ∧
    v.head? ≠ some charSP ∧ v.getLast? ≠ some charSP ∧ Grammar.NoDoubleSpace v
  /-- Body and content length were set by `setBody`, or not at all. -/
  body : (m.headers_[lit "content-length"]? = none ∧ m.body_ = []) ∨ ∃ m₀ : HTTPMessage, m = m₀.setBody m.body_
  no_zero : 0 ∉ m.body_
  /-- The size of the body is a `size_t`. -/
  size : m.body_.length < 2 ^ 64

namespace Encodable

variable {m : HTTPMessage}

theorem plainHeaders (h : Encodable m) : PlainHeaders m.headers_ where
  ne_empty := h.ne_empty
  plain_line := by
    intro k v hkv
    obtain ⟨-, hk⟩ := h.key k v hkv
    obtain ⟨hcr, -, hht, -⟩ := h.value k v hkv
    refine ⟨fun c hc => ?_, hcr, hht⟩
    obtain ⟨h₁, h₂, h₃⟩ := hk c hc
    exact ⟨by simp [isToken, h₁, h₂], h₃⟩

theorem readHeaders_eq (h : Encodable m) : readHeaders m.headers_ = m.headers_ := by
  refine readHeaders_eq_self_iff.mpr fun k v hkv => Grammar.readBack_eq_self_iff.mpr ?_
  obtain ⟨-, -, -, hhead, -, hsp⟩ := h.value k v hkv
  exact ⟨hhead, hsp⟩

/-- The content length, where there is a body. -/
theorem content_length (h : Encodable m) (hne : m.body_ ≠ []) :
    getHeaderULong { headers_ := m.headers_ } (lit "content-length") = .ok (true, m.body_.length) := by
  rcases h.body with ⟨-, hnil⟩ | ⟨m₀, hm⟩
  · exact absurd hnil hne
  · refine getHeaderULong_decimal ?_ h.size
    rw [hm, setBody, replaceHeader]
    simp

/-- The content length, if there is one, can be read. -/
theorem content_length_ok (h : Encodable m) :
    ∃ x, getHeaderULong { headers_ := m.headers_ } (lit "content-length") = .ok x := by
  by_cases hne : m.body_ = []
  · rcases h.body with ⟨hnone, -⟩ | ⟨m₀, hm⟩
    · exact ⟨(false, 0), by simp only [getHeaderULong, hnone]⟩
    · refine ⟨(true, 0), getHeaderULong_decimal (n := 0) ?_ (by decide)⟩
      rw [hm, setBody, replaceHeader, hne]
      simp
  · exact ⟨_, h.content_length hne⟩

end Encodable
end HTTPMessage

open HTTPMessage

theorem HTTPRequest.asString_eq {r : HTTPRequest} (hzero : 0 ∉ r.body_)
    (hbody : r.body_ ≠ [] → r.request_line_.method_.methodAllowsBody = true) :
    r.asString = .ok (r.request_line_.asString ++
      (headerLines r.headers_ ++ charCR :: charLF :: r.body_)) := by
  rw [asString]
  by_cases hne : r.body_ = []
  · simp [hne]
  · simp [hbody hne, List.length_pos_of_ne_nil hne, bytesAsString_of_no_zero hzero, Except.map]

theorem HTTPResponse.asString_eq {r : HTTPResponse} (hzero : 0 ∉ r.body_) :
    r.asString = .ok (r.response_line_.asString ++
      (headerLines r.headers_ ++ charCR :: charLF :: r.body_)) := by
  rw [asString]
  by_cases hne : r.body_ = []
  · simp [hne]
  · simp [List.length_pos_of_ne_nil hne, bytesAsString_of_no_zero hzero, Except.map]

theorem HTTPRequest.request_printed {r : HTTPRequest} (hline : r.request_line_.WellFormed)
    (h : Encodable r.toHTTPMessage) :
    ∃ rest, Grammar.request {} (r.request_line_.asString ++
      (headerLines r.headers_ ++ charCR :: charLF :: r.body_)) = some (r, rest) := by
  suffices hrest : ∃ rest, Grammar.requestRest {} (headerLines r.headers_ ++ charCR :: charLF :: r.body_)
      = some (r.toHTTPMessage, rest) by
    obtain ⟨rest, hrest⟩ := hrest
    exact ⟨rest, Grammar.request_eq_some.mpr ⟨_, Grammar.requestLine_asString hline (by simp), hrest⟩⟩
  rw [Grammar.requestRest, Grammar.messageRest_printed h.plainHeaders, h.readHeaders_eq,
    Grammar.requestEnd]
  by_cases hne : r.body_ = []
  · exact ⟨[], by rw [if_pos hne, ← hne]⟩
  · refine ⟨r.body_.drop (r.body_.length - 1), ?_⟩
    rw [if_neg hne, Grammar.requestBody, h.content_length hne]
    simp only [Grammar.content_self hne]
    rfl

theorem HTTPResponse.hasBody_ok {m : HTTPMessage} {x : Bool × Nat}
    (h : m.getHeaderULong (lit "content-length") = .ok x) : ∃ body, hasBody m = .ok body := by
  obtain ⟨found, n⟩ := x
  rw [hasBody, h]
  show ∃ body, (if (found && decide (0 < n)) = true then Except.ok true
    else if m.getHeaderValue (lit "transfer-encoding") = some (lit "chunked") then .ok true
    else if m.getHeaderValue (lit "connection") = some (lit "close") then .ok true
    else .ok false) = Except.ok body
  by_cases hlength : (found && decide (0 < n)) = true
  · exact ⟨true, if_pos hlength⟩
  · rw [if_neg hlength]
    by_cases hchunked : m.getHeaderValue (lit "transfer-encoding") = some (lit "chunked")
    · exact ⟨true, if_pos hchunked⟩
    · rw [if_neg hchunked]
      by_cases hclose : m.getHeaderValue (lit "connection") = some (lit "close")
      · exact ⟨true, if_pos hclose⟩
      · exact ⟨false, if_neg hclose⟩

theorem HTTPResponse.hasBody_of_length {m : HTTPMessage} {n : Nat}
    (h : m.getHeaderULong (lit "content-length") = .ok (true, n)) (hn : 0 < n) : hasBody m = .ok true := by
  simp [hasBody, h, hn, Bind.bind, Except.bind, pure, Except.pure]

theorem HTTPResponse.response_printed {r : HTTPResponse} (h : Encodable r.toHTTPMessage) :
    ∃ rest, Grammar.response {} (r.response_line_.asString ++
      (headerLines r.headers_ ++ charCR :: charLF :: r.body_)) = some (r, rest) := by
  suffices hrest : ∃ rest, Grammar.responseRest {} (headerLines r.headers_ ++ charCR :: charLF :: r.body_)
      = some (r.toHTTPMessage, rest) by
    obtain ⟨rest, hrest⟩ := hrest
    exact ⟨rest, Grammar.response_eq_some.mpr ⟨_, Grammar.responseLine_asString (by simp), hrest⟩⟩
  rw [Grammar.responseRest, Grammar.messageRest_printed h.plainHeaders, h.readHeaders_eq,
    Grammar.responseEnd]
  by_cases hne : r.body_ = []
  · obtain ⟨x, hx⟩ := h.content_length_ok
    obtain ⟨body, hbody⟩ := hasBody_ok hx
    have hmsg : ({ headers_ := r.headers_ } : HTTPMessage) = r.toHTTPMessage := by rw [← hne]
    rw [hbody]
    cases body with
    | false => exact ⟨charLF :: r.body_, by dsimp only; rw [hmsg]⟩
    | true => exact ⟨[], by dsimp only; rw [if_pos hne, hmsg]⟩
  · refine ⟨r.body_.drop (r.body_.length - 1), ?_⟩
    rw [hasBody_of_length (h.content_length hne) (List.length_pos_of_ne_nil hne)]
    simp only [if_neg hne, Grammar.responseBody, h.content_length hne, Grammar.content_self hne]
    rfl

/-- **Decode undoes encode**, for requests and responses: parsing the printed message into a new object
    succeeds and gives the message. -/
theorem parse_asString :
    (∀ r : HTTPRequest, r.request_line_.WellFormed → Encodable r.toHTTPMessage →
      (r.body_ ≠ [] → r.request_line_.method_.methodAllowsBody = true) →
      ∃ text b', r.asString = .ok text ∧
        Returns HTTPRequest.parse (StringReadBuffer.ofString text, {}) (.ok {}) (b', r)) ∧
    (∀ r : HTTPResponse, Encodable r.toHTTPMessage →
      ∃ text b', r.asString = .ok text ∧
        Returns HTTPResponse.parse (StringReadBuffer.ofString text, {}) (.ok {}) (b', r)) := by
  constructor
  · intro r hline h hbody
    obtain ⟨rest, hres⟩ := HTTPRequest.request_printed hline h
    have hat := StringReadBuffer.delivers_ofString (r.request_line_.asString ++
      (headerLines r.headers_ ++ charCR :: charLF :: r.body_)) (by simp)
    obtain ⟨b', hret, -⟩ := returns_of_eq_some (HTTPRequest.parse_spec hat (by simp)) hres
    exact ⟨_, b', HTTPRequest.asString_eq h.no_zero hbody, hret⟩
  · intro r h
    obtain ⟨rest, hres⟩ := HTTPResponse.response_printed h
    have hat := StringReadBuffer.delivers_ofString (r.response_line_.asString ++
      (headerLines r.headers_ ++ charCR :: charLF :: r.body_)) (by simp)
    obtain ⟨b', hret, -⟩ := returns_of_eq_some (HTTPResponse.parse_spec hat (by simp)) hres
    exact ⟨_, b', HTTPResponse.asString_eq h.no_zero, hret⟩

/-- A message with a header and a body, built as client code builds it. -/
def sampleMessage : HTTPMessage := setBody (addHeader {} (lit "accept") (lit "text/html, */*")) (lit "x=1")

theorem sampleMessage_encodable : Encodable sampleMessage := by
  have hmap : sampleMessage.headers_ = ((∅ : Headers).insert (lit "accept") (lit "text/html, */*")).insert
      (lit "content-length") (lit "3") := by decide
  have hget : ∀ k v : Str, sampleMessage.headers_[k]? = some v →
      (k = lit "accept" ∧ v = lit "text/html, */*") ∨ (k = lit "content-length" ∧ v = lit "3") := by
    intro k v hkv
    rw [hmap, Std.ExtTreeMap.getElem?_insert, Std.ExtTreeMap.getElem?_insert] at hkv
    grind
  refine ⟨by decide, ?_, ?_, Or.inr ⟨_, rfl⟩, by decide, by decide⟩
  · intro k v hkv
    have hkey : k ≠ [] ∧ k.all (fun c => !isSeparator c && !isCTL c && tolower c == c) = true := by
      rcases hget k v hkv with ⟨rfl, -⟩ | ⟨rfl, -⟩ <;> decide
    refine ⟨hkey.1, fun c hc => ?_⟩
    simpa [and_assoc] using List.all_eq_true.mp hkey.2 c hc
  · intro k v hkv
    rcases hget k v hkv with ⟨-, rfl⟩ | ⟨-, rfl⟩ <;> decide

theorem sampleLine_wellFormed :
    HTTPRequestLine.WellFormed { method_ := .mePOST, request_uri_ := lit "/a?b" } := by
  have hall : (lit "/a?b").all (fun c => !isspace c) = true := by decide
  refine ⟨by decide, by decide, ?_⟩
  simpa only [List.all_eq_true, Bool.not_eq_true'] using hall

theorem parse_asString_sample :
    (∃ text b', HTTPRequest.asString { sampleMessage with
        request_line_ := { method_ := .mePOST, request_uri_ := lit "/a?b" } } = .ok text ∧
      Returns HTTPRequest.parse (StringReadBuffer.ofString text, {}) (.ok {})
        (b', { sampleMessage with
          request_line_ := { method_ := .mePOST, request_uri_ := lit "/a?b" } })) ∧
    (∃ text b', HTTPResponse.asString { sampleMessage with
        response_line_ := { http_code_ := 404 } } = .ok text ∧
      Returns HTTPResponse.parse (StringReadBuffer.ofString text, {}) (.ok {})
        (b', { sampleMessage with response_line_ := { http_code_ := 404 } })) :=
  ⟨parse_asString.1 _ sampleLine_wellFormed sampleMessage_encodable (fun _ => rfl),
    parse_asString.2 _ sampleMessage_encodable⟩

end Dodo.Network.Http
