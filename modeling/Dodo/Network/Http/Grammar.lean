import Dodo.Network.Http.Response

/-!
# `Http.Grammar` — what the parsers accept, as functions on the whole text

The abstract layer over the scanners: each function takes the octets that are left and gives what was
read and what is left behind it, or `none` where the text is not accepted. There is no buffer, no loop
and no error code here. `Http.Refine` shows that the scanners compute these functions, over every buffer
that delivers its octets in order.

A scanner that has used up the whole text has met an error of `next()`, so in most places the rest must
not be empty: that is the `skip` below, and the third octet in `crlf`.
-/

namespace Dodo.Network.Http

open Common Lib

namespace HTTPMessage

/-- The header lines `kvs`, added in their order. -/
def addHeaders (m : HTTPMessage) (kvs : List (Str × Str)) : HTTPMessage :=
  kvs.foldl (fun m kv => m.addHeader kv.1 kv.2) m

/-- The octets `t`, appended to the body. -/
def appendAll (m : HTTPMessage) (t : Str) : HTTPMessage := { m with body_ := m.body_ ++ t }

@[simp] theorem addHeaders_nil {m : HTTPMessage} : m.addHeaders [] = m := rfl

@[simp] theorem addHeaders_cons {m : HTTPMessage} {kv : Str × Str} {kvs : List (Str × Str)} :
    m.addHeaders (kv :: kvs) = (m.addHeader kv.1 kv.2).addHeaders kvs := rfl

@[simp] theorem appendAll_nil {m : HTTPMessage} : m.appendAll [] = m := by simp [appendAll]

@[simp] theorem append_appendAll {m : HTTPMessage} {c : Octet} {t : Str} :
    (m.append c).appendAll t = m.appendAll (c :: t) := by simp [append, appendAll]

@[simp] theorem appendAll_appendAll {m : HTTPMessage} {t u : Str} :
    (m.appendAll t).appendAll u = m.appendAll (t ++ u) := by simp [appendAll]

@[simp] theorem headers_appendAll {m : HTTPMessage} {t : Str} :
    (m.appendAll t).headers_ = m.headers_ := rfl

theorem headers_addHeader {m : HTTPMessage} {k v : Str} : (m.addHeader k v).headers_ = m.headers_.insert k
    (match m.headers_[k]? with | none => v | some w => w ++ (lit "," ++ v)) := by
  rw [addHeader]
  split <;> simp_all

theorem body_addHeaders (m : HTTPMessage) (kvs : List (Str × Str)) :
    (m.addHeaders kvs).body_ = m.body_ := by
  induction kvs generalizing m with
  | nil => rfl
  | cons kv kvs ih =>
      rw [addHeaders_cons, ih, addHeader]
      split <;> rfl

/-- The octets of a header name. -/
def isToken (c : Octet) : Bool := !isSeparator c && !isCTL c

end HTTPMessage

namespace Grammar

open HTTPMessage

/-- Leave out the octets that satisfy `p`; there has to be another one. -/
def skip (p : Octet → Bool) (l : Str) : Option Str :=
  if l.dropWhile p = [] then none else some (l.dropWhile p)

/-- The octet `c`. -/
def octet (c : Octet) : Str → Option Str
  | d :: l => if d = c then some l else none
  | [] => none

/-- CR LF, with more behind it. -/
def crlf : Str → Option Str
  | 13 :: 10 :: c :: l => some (c :: l)
  | _ => none

theorem skip_eq_some {p : Octet → Bool} {l l' : Str} :
    skip p l = some l' ↔ l.dropWhile p = l' ∧ l' ≠ [] := by
  simp only [skip]
  split <;> grind

theorem skip_eq_none {p : Octet → Bool} {l : Str} : skip p l = none ↔ l.dropWhile p = [] := by
  simp only [skip]
  split <;> simp_all

theorem crlf_eq_some {l l' : Str} : crlf l = some l' ↔ l = charCR :: charLF :: l' ∧ l' ≠ [] := by
  constructor
  · unfold crlf
    split
    · rintro ⟨⟩; exact ⟨rfl, by simp⟩
    · rintro ⟨⟩
  · rintro ⟨rfl, hne⟩
    obtain ⟨c, l, rfl⟩ := List.exists_cons_of_ne_nil hne
    rfl

theorem crlf_of_ne_cr {c : Octet} {l : Str} (h : c ≠ charCR) : crlf (c :: l) = none := by
  rw [Option.eq_none_iff_forall_ne_some]
  intro l' hl'
  exact h (List.cons.inj (crlf_eq_some.mp hl').1).1

theorem crlf_of_ne_lf {c d : Octet} {l : Str} (h : d ≠ charLF) : crlf (c :: d :: l) = none := by
  rw [Option.eq_none_iff_forall_ne_some]
  intro l' hl'
  exact h (List.cons.inj (List.cons.inj (crlf_eq_some.mp hl').1).2).1

theorem octet_eq_some {c : Octet} {l l' : Str} : octet c l = some l' ↔ l = c :: l' := by
  cases l with
  | nil => simp [octet]
  | cons d l => simp only [octet]; split <;> simp_all

theorem dropWhile_length_le {p : Octet → Bool} {l : Str} : (l.dropWhile p).length ≤ l.length :=
  (List.dropWhile_suffix p).length_le

theorem crlf_length {l rest : Str} (h : crlf l = some rest) : rest.length < l.length := by
  rw [(crlf_eq_some.mp h).1]
  simp only [List.length_cons]
  omega

section Runs

variable {p : Octet → Bool} {t l : Str} {d : Octet}

theorem takeWhile_append (ht : ∀ c ∈ t, p c = true) (hd : p d = false) :
    (t ++ d :: l).takeWhile p = t := by
  rw [List.takeWhile_append_of_pos ht, List.takeWhile_cons_of_neg (by simp [hd]), List.append_nil]

theorem dropWhile_append (ht : ∀ c ∈ t, p c = true) (hd : p d = false) :
    (t ++ d :: l).dropWhile p = d :: l := by
  rw [List.dropWhile_append_of_pos ht, List.dropWhile_cons_of_neg (by simp [hd])]

theorem skip_append (ht : ∀ c ∈ t, p c = true) (hd : p d = false) :
    skip p (t ++ d :: l) = some (d :: l) :=
  skip_eq_some.mpr ⟨dropWhile_append ht hd, by simp⟩

theorem skip_cons (hd : p d = false) : skip p (d :: l) = some (d :: l) :=
  skip_append (t := []) (by simp) hd

@[simp] theorem octet_cons : octet d (d :: l) = some l := by simp [octet]

theorem crlf_cons (hl : l ≠ []) : crlf (charCR :: charLF :: l) = some l := crlf_eq_some.mpr ⟨rfl, hl⟩

end Runs

/-! ## Start lines -/

/-- `HTTP/<digits>.<digits>` behind white space; no digits leave a number as it was in `v`. -/
def version (v : HTTPVersion) (l : Str) : Option (HTTPVersion × Str) := do
  let l ← skip isspace l
  let l ← octet 72 l    -- H
  let l ← octet 84 l    -- T
  let l ← octet 84 l    -- T
  let l ← octet 80 l    -- P
  let l₁ ← octet 47 l   -- /
  let l₂ ← skip isdigit l₁
  let l₃ ← octet 46 l₂  -- .
  let l₄ ← skip isdigit l₃
  some ({ major_ := extractUInt (l₁.takeWhile isdigit) v.major_,
          minor_ := extractUInt (l₃.takeWhile isdigit) v.minor_ }, l₄)

def nonspace (c : Octet) : Bool := !isspace c

def requestLine (r : HTTPRequestLine) (l : Str) : Option (HTTPRequestLine × Str) := do
  let l₁ ← skip nonspace l
  let l₂ ← skip isSP l₁
  let l₃ ← skip nonspace l₂
  let (v, l₄) ← version r.http_version_ l₃
  let l₅ ← skip isSP l₄
  let l₆ ← crlf l₅
  if Method.methodFromString (l.takeWhile nonspace) = .meINVALID then none
  else some ({ method_ := .methodFromString (l.takeWhile nonspace),
               request_uri_ := l₂.takeWhile nonspace, http_version_ := v }, l₆)

def notCR (c : Octet) : Bool := c ≠ charCR

/-- One or more digits. -/
def number (l : Str) : Option (UInt32 × Str) :=
  if l.takeWhile isdigit = [] then none
  else (skip isdigit l).map fun rest => (extractUInt (l.takeWhile isdigit) 0, rest)

def responseLine (r : HTTPResponseLine) (l : Str) : Option (HTTPResponseLine × Str) := do
  let (v, l₁) ← version r.version_ l
  let l₂ ← skip isSP l₁
  let (code, l₃) ← number l₂
  let l₄ ← skip notCR l₃
  let l₅ ← crlf l₄
  some ({ version_ := v, http_code_ := code }, l₅)

/-! ## Headers -/

/-- Put `t` in front of what was read. -/
def emit {α : Type} (t : Str) (r : Option (Str × α)) : Option (Str × α) := r.map fun r => (t ++ r.1, r.2)

@[simp] theorem emit_eq_some {α : Type} {t v : Str} {r : Option (Str × α)} {rest : α} :
    emit t r = some (v, rest) ↔ ∃ w, r = some (w, rest) ∧ v = t ++ w := by
  rcases r with _ | ⟨w, r⟩
  · simp [emit]
  · simp only [emit, Option.map_some, Option.some.injEq, Prod.mk.injEq]
    grind

theorem emit_emit {α : Type} {t u : Str} {r : Option (Str × α)} : emit t (emit u r) = emit (t ++ u) r := by
  cases r <;> simp [emit]

/-- A field value up to its CR LF: leading blanks are dropped, other runs of blanks and every folding
    become one space. The octet behind the CR LF is looked at, so it has to be there. -/
def fieldValue : FieldState → Str → Option (Str × Str)
  | _, [] => none
  | .psStart, c :: l =>
    if isSP c then fieldValue .psStart l
    else if c = charCR then fieldValue .psCR l
    else emit [c] (fieldValue .psReadValue l)
  | .psReadValue, c :: l =>
    if c = charCR then fieldValue .psCR l
    else if isSP c then fieldValue .psSP l
    else emit [c] (fieldValue .psReadValue l)
  | .psCR, [_] => none
  | .psCR, c :: d :: l =>
    if c ≠ charLF then none
    else if isSP d then fieldValue .psSP l
    else some ([], d :: l)
  | .psSP, c :: l =>
    if isSP c then fieldValue .psSP l
    else if c = charCR then emit [charSP] (fieldValue .psCR l)
    else emit [charSP, c] (fieldValue .psReadValue l)
  | .psDone, _ :: _ => none

/-- The two states that only drop blanks hand the first other octet to the state that reads. -/
theorem fieldValue_start {c : Octet} {l : Str} (hc : isSP c = false) :
    fieldValue .psStart (c :: l) = fieldValue .psReadValue (c :: l) := by
  simp [fieldValue, hc]

theorem fieldValue_sp {c : Octet} {l : Str} (hc : isSP c = false) :
    fieldValue .psSP (c :: l) = emit [charSP] (fieldValue .psReadValue (c :: l)) := by
  simp only [fieldValue, hc, Bool.false_eq_true, if_false]
  split
  · rfl
  · rw [emit_emit]; rfl

theorem fieldValue_cr {d : Octet} {l : Str} (hd : isSP d = false) :
    fieldValue .psReadValue (charCR :: charLF :: d :: l) = some ([], d :: l) := by simp [fieldValue, hd]

/-- One header line: the name in lower case, the value, and what is left. -/
def fieldLine (l : Str) : Option ((Str × Str) × Str) := do
  let l₁ ← skip isToken l
  let l₂ ← skip isSP l₁
  let l₃ ← octet 58 l₂    -- :
  let (value, rest) ← fieldValue .psStart l₃
  some (((l.takeWhile isToken).map tolower, value), rest)

theorem version_rest {v v' : HTTPVersion} {l rest : Str} (h : version v l = some (v', rest)) :
    rest ≠ [] := by
  simp only [version, bind, Option.bind_eq_some_iff] at h
  obtain ⟨_, -, _, -, _, -, _, -, _, -, _, -, _, -, _, -, _, hskip, hrest⟩ := h
  simp only [Option.some.injEq, Prod.mk.injEq] at hrest
  exact hrest.2 ▸ (skip_eq_some.mp hskip).2

theorem requestLine_rest {r r' : HTTPRequestLine} {l rest : Str}
    (h : requestLine r l = some (r', rest)) : rest ≠ [] := by
  simp only [requestLine, bind, Option.bind_eq_some_iff] at h
  obtain ⟨_, -, _, -, _, -, _, -, _, -, _, hcrlf, hrest⟩ := h
  split at hrest
  · cases hrest
  · exact (Prod.mk.inj (Option.some.inj hrest)).2 ▸ (crlf_eq_some.mp hcrlf).2

theorem responseLine_rest {r r' : HTTPResponseLine} {l rest : Str}
    (h : responseLine r l = some (r', rest)) : rest ≠ [] := by
  simp only [responseLine, bind, Option.bind_eq_some_iff] at h
  obtain ⟨_, -, _, -, _, -, _, -, _, hcrlf, hrest⟩ := h
  exact (Prod.mk.inj (Option.some.inj hrest)).2 ▸ (crlf_eq_some.mp hcrlf).2

theorem number_rest {l rest : Str} {n : UInt32} (h : number l = some (n, rest)) : rest ≠ [] := by
  simp only [number] at h
  split at h
  · cases h
  · obtain ⟨l', hskip, hpair⟩ := Option.map_eq_some_iff.mp h
    exact (Prod.mk.inj hpair).2 ▸ (skip_eq_some.mp hskip).2

theorem fieldValue_length {s : FieldState} {l v rest : Str} (h : fieldValue s l = some (v, rest)) :
    rest.length < l.length := by
  fun_induction fieldValue s l generalizing v <;> grind [emit_eq_some]

theorem fieldLine_eq_some {l rest k v : Str} : fieldLine l = some ((k, v), rest) ↔
    ∃ l₃, (l.dropWhile isToken).dropWhile isSP = 58 :: l₃ ∧
      k = (l.takeWhile isToken).map tolower ∧ fieldValue .psStart l₃ = some (v, rest) := by
  simp only [fieldLine, bind, Option.bind_eq_some_iff, skip_eq_some, octet_eq_some]
  constructor
  · rintro ⟨l₁, ⟨rfl, -⟩, l₂, ⟨rfl, -⟩, l₃, hcolon, ⟨w, r⟩, hv, hr⟩
    simp only [Option.some.injEq, Prod.mk.injEq] at hr
    obtain ⟨⟨rfl, rfl⟩, rfl⟩ := hr
    exact ⟨l₃, hcolon, rfl, hv⟩
  · rintro ⟨l₃, hcolon, rfl, hv⟩
    refine ⟨_, ⟨rfl, ?_⟩, _, ⟨rfl, ?_⟩, l₃, hcolon, _, hv, rfl⟩
    · intro hnil; rw [hnil] at hcolon; exact absurd hcolon (by simp)
    · rw [hcolon]; simp

/-- A field value ends before an octet that is no blank. -/
theorem fieldValue_rest {s : FieldState} {l v rest : Str} (h : fieldValue s l = some (v, rest)) :
    ∃ d l', rest = d :: l' ∧ isSP d = false := by
  fun_induction fieldValue s l generalizing v <;> grind [emit_eq_some]

theorem fieldLine_length {l rest : Str} {kv : Str × Str} (h : fieldLine l = some (kv, rest)) :
    rest.length < l.length := by
  obtain ⟨l₂, hcolon, -, hv⟩ := fieldLine_eq_some.mp h
  have h₁ := fieldValue_length hv
  have h₂ : (58 :: l₂).length ≤ l.length :=
    hcolon ▸ Nat.le_trans dropWhile_length_le dropWhile_length_le
  rw [List.length_cons] at h₂
  omega

theorem fieldLine_rest {l rest : Str} {kv : Str × Str} (h : fieldLine l = some (kv, rest)) :
    ∃ d l', rest = d :: l' ∧ isSP d = false := by
  obtain ⟨_, -, -, hv⟩ := fieldLine_eq_some.mp h
  exact fieldValue_rest hv

/-- Header lines up to the empty line; what is left is behind its CR LF. -/
def fields (l : Str) : Option (List (Str × Str) × Str) :=
  match _h : fieldLine l with
  | none => none
  | some (kv, rest) =>
    if rest.head? ≠ some charCR then (fields rest).map fun r => (kv :: r.1, r.2)
    else if rest.tail.head? ≠ some charLF then none
    else some ([kv], rest.drop 2)
termination_by l.length
decreasing_by exact fieldLine_length _h

theorem fields_of_none {l : Str} (h : fieldLine l = none) : fields l = none := by
  rw [fields]
  split
  · rfl
  · simp_all

theorem fields_of_some {l rest : Str} {kv : Str × Str} (h : fieldLine l = some (kv, rest)) :
    fields l = if rest.head? ≠ some charCR then (fields rest).map fun r => (kv :: r.1, r.2)
      else if rest.tail.head? ≠ some charLF then none else some ([kv], rest.drop 2) := by
  rw [fields]
  split
  · simp_all
  · simp_all

/-- The lines of a header section that ends before `rest`. -/
inductive FieldLines (rest : Str) : Str → List (Str × Str) → Prop where
  | last {l : Str} {kv : Str × Str} (hline : fieldLine l = some (kv, charCR :: charLF :: rest)) :
      FieldLines rest l [kv]
  | cons {l l₁ : Str} {kv : Str × Str} {kvs : List (Str × Str)} {d : Octet}
      (hline : fieldLine l = some (kv, d :: l₁)) (hsp : isSP d = false) (hcr : d ≠ charCR)
      (hlines : FieldLines rest (d :: l₁) kvs) : FieldLines rest l (kv :: kvs)

theorem fields_eq_some {l rest : Str} {kvs : List (Str × Str)} :
    fields l = some (kvs, rest) ↔ FieldLines rest l kvs := by
  constructor
  · intro h
    fun_induction fields l generalizing kvs with
    | case1 => cases h
    | case2 l kv l₁ hline hcr ih =>
        obtain ⟨⟨kvs, _⟩, hfields, hpair⟩ := Option.map_eq_some_iff.mp h
        obtain ⟨rfl, rfl⟩ := Prod.mk.inj hpair
        obtain ⟨d, l₂, rfl, hsp⟩ := fieldLine_rest hline
        exact .cons hline hsp (by simpa using hcr) (ih hfields)
    | case3 => cases h
    | case4 l kv l₁ hline hcr hlf =>
        obtain ⟨rfl, rfl⟩ := Prod.mk.inj (Option.some.inj h)
        match l₁, hcr, hlf with
        | [], hcr, _ => simp at hcr
        | [_], _, hlf => simp at hlf
        | _ :: _ :: _, hcr, hlf =>
            simp only [List.head?_cons, List.tail_cons, ne_eq, Option.some.injEq, not_not] at hcr hlf
            subst hcr hlf
            exact .last hline
  · intro h
    induction h with
    | last hline => simp [fields_of_some hline]
    | cons hline hsp hcr hlines ih =>
        rw [fields_of_some hline, if_pos (by simpa using hcr), ih]
        rfl

/-- The header section: blanks in front of its first line are dropped. -/
def headerSection (l : Str) : Option (List (Str × Str) × Str) := fields (l.dropWhile isSP)

/-- The headers of a message and the text behind them; `none` if no header follows the start line. -/
def messageHead {α : Type} (startLine : Str → Option (α × Str)) (text : Str) : Option (HTTPMessage × Str) :=
  (startLine text).bind fun (_, l) =>
    if l.head? = some charCR then none else (headerSection l).map fun (kvs, rest) => (addHeaders {} kvs, rest)

theorem messageHead_eq_some {α : Type} {startLine : Str → Option (α × Str)} {text rest : Str}
    {m : HTTPMessage} : messageHead startLine text = some (m, rest) ↔
      ∃ x l kvs, startLine text = some (x, l) ∧ l.head? ≠ some charCR ∧
        headerSection l = some (kvs, rest) ∧ m = addHeaders {} kvs := by
  simp only [messageHead, Option.bind_eq_some_iff, Prod.exists]
  constructor
  · rintro ⟨x, l, hstart, hif⟩
    split at hif
    · cases hif
    · obtain ⟨⟨kvs, _⟩, hsec, hm⟩ := Option.map_eq_some_iff.mp hif
      obtain ⟨rfl, rfl⟩ := Prod.mk.inj hm
      exact ⟨x, l, kvs, hstart, ‹_›, hsec, rfl⟩
  · rintro ⟨x, l, kvs, hstart, hcr, hsec, rfl⟩
    exact ⟨x, l, hstart, by rw [if_neg hcr, hsec]; rfl⟩

/-! ## Bodies -/

/-- A chunk size and the CR LF behind it. -/
def chunkHex (l : Str) : Option (Nat × Str) := do
  if l.takeWhile isxdigit = [] then none
  let l₁ ← crlf (l.dropWhile isxdigit)
  some (extractHex (l.takeWhile isxdigit), l₁)

theorem chunkHex_eq_some {l rest : Str} {n : Nat} : chunkHex l = some (n, rest) ↔
    l.takeWhile isxdigit ≠ [] ∧ n = extractHex (l.takeWhile isxdigit) ∧
      l.dropWhile isxdigit = charCR :: charLF :: rest ∧ rest ≠ [] := by
  by_cases hds : l.takeWhile isxdigit = []
  · simp [chunkHex, hds]
  · simp only [chunkHex, hds, if_false, bind, Option.bind_eq_some_iff, crlf_eq_some]
    grind

theorem chunkHex_length {l rest : Str} {n : Nat} (h : chunkHex l = some (n, rest)) :
    rest.length < l.length := by
  obtain ⟨-, -, hrest, -⟩ := chunkHex_eq_some.mp h
  have : (charCR :: charLF :: rest).length ≤ l.length := hrest ▸ dropWhile_length_le
  simp only [List.length_cons] at this
  omega

/-- Chunks up to the one of size 0. Neither a trailer nor the last CR LF is read. -/
def chunks (l : Str) : Option (Str × Str) :=
  match _h : chunkHex l with
  | none => none
  | some (n, rest) =>
    if n = 0 then some ([], rest)
    else
      match _h' : crlf (rest.drop n) with
      | none => none
      | some rest' => emit (rest.take n) (chunks rest')
termination_by l.length
decreasing_by
  have h₁ := chunkHex_length _h
  have h₂ := crlf_length _h'
  rw [List.length_drop] at h₂
  omega

theorem chunks_of_none {l : Str} (h : chunkHex l = none) : chunks l = none := by
  rw [chunks]
  split <;> simp_all

theorem chunks_of_zero {l rest : Str} (h : chunkHex l = some (0, rest)) :
    chunks l = some ([], rest) := by
  rw [chunks]
  split <;> simp_all

theorem chunks_of_pos {l rest : Str} {n : Nat} (h : chunkHex l = some (n, rest)) (hn : n ≠ 0) :
    chunks l = (crlf (rest.drop n)).bind fun rest' => emit (rest.take n) (chunks rest') := by
  rw [chunks]
  split
  · simp_all
  · rename_i n' rest' heq
    obtain ⟨rfl, rfl⟩ : n = n' ∧ rest = rest' := by simpa [h] using heq
    rw [if_neg hn]
    split <;> simp_all

/-- A body of `n` octets. The last one of them is left as the current octet. -/
def content (n : Nat) (l : Str) : Option (Str × Str) :=
  if n = 0 then some ([], l) else if n ≤ l.length then some (l.take n, l.drop (n - 1)) else none

theorem content_succ {k : Nat} {c : Octet} {l : Str} :
    content (k + 2) (c :: l) = emit [c] (content (k + 1) l) := by
  simp only [content, emit]
  split <;> simp_all

/-- The body of a request with the headers of `m`. -/
def requestBody (m : HTTPMessage) (l : Str) : Option (HTTPMessage × Str) :=
  match m.getHeaderULong (lit "content-length") with
  | .error _ => none
  | .ok (true, n) => (content n l).map fun r => (m.appendAll r.1, r.2)
  | .ok (false, _) =>
    if m.getHeaderValue (lit "transfer-encoding") = some (lit "chunked") then
      (chunks l).map fun r => (m.appendAll r.1, r.2)
    else none

/-- The body of a response with the headers of `m`. With `connection: close` it is all the rest. -/
def responseBody (m : HTTPMessage) (l : Str) : Option (HTTPMessage × Str) :=
  match m.getHeaderULong (lit "content-length") with
  | .error _ => none
  | .ok (true, n) => (content n l).map fun r => (m.appendAll r.1, r.2)
  | .ok (false, _) =>
    match m.getHeaderValue (lit "transfer-encoding") with
    | some transfer_encoding =>
      if transfer_encoding = lit "chunked" then (chunks l).map fun r => (m.appendAll r.1, r.2) else none
    | none =>
      match m.getHeaderValue (lit "connection") with
      | some connection_close => if connection_close = lit "close" then some (m.appendAll l, []) else none
      | none => some (m, l)

/-! ## Messages -/

/-- What follows a start line that is not followed by headers: a CR, or a CR LF and a body. -/
def bare (body : HTTPMessage → Str → Option (HTTPMessage × Str)) (m : HTTPMessage) :
    Str → Option (HTTPMessage × Str)
  | [] => some (m, [])
  | c :: l => if c ≠ charLF then some (m, c :: l) else if l = [] then none else body m l

/-- What follows a start line, where `body` is how a body is read and `ending` what follows the headers. -/
def messageRest (body ending : HTTPMessage → Str → Option (HTTPMessage × Str)) (m : HTTPMessage) (l : Str) :
    Option (HTTPMessage × Str) :=
  if l.head? = some charCR then bare body m l.tail
  else (headerSection l).bind fun (kvs, rest) => ending (m.addHeaders kvs) rest

/-- The part of a request behind its headers. -/
def requestEnd (m : HTTPMessage) (rest : Str) : Option (HTTPMessage × Str) :=
  if rest = [] then some (m, []) else requestBody m rest

/-- The part of a response behind its headers. The LF that ends the headers is left where no body is
    expected. -/
def responseEnd (m : HTTPMessage) (rest : Str) : Option (HTTPMessage × Str) :=
  match HTTPResponse.hasBody m with
  | .error _ => none
  | .ok false => some (m, charLF :: rest)
  | .ok true => if rest = [] then some (m, []) else responseBody m rest

def requestRest : HTTPMessage → Str → Option (HTTPMessage × Str) := messageRest requestBody requestEnd

def responseRest : HTTPMessage → Str → Option (HTTPMessage × Str) := messageRest responseBody responseEnd

theorem headers_requestBody {m m' : HTTPMessage} {l rest : Str} (h : requestBody m l = some (m', rest)) :
    m'.headers_ = m.headers_ := by
  simp only [requestBody] at h
  split at h
  · cases h
  · obtain ⟨_, -, hm⟩ := Option.map_eq_some_iff.mp h
    rw [← (Prod.mk.inj hm).1, headers_appendAll]
  · split at h
    · obtain ⟨_, -, hm⟩ := Option.map_eq_some_iff.mp h
      rw [← (Prod.mk.inj hm).1, headers_appendAll]
    · cases h

theorem headers_responseBody {m m' : HTTPMessage} {l rest : Str} (h : responseBody m l = some (m', rest)) :
    m'.headers_ = m.headers_ := by
  simp only [responseBody] at h
  split at h
  · cases h
  · obtain ⟨_, -, hm⟩ := Option.map_eq_some_iff.mp h
    rw [← (Prod.mk.inj hm).1, headers_appendAll]
  · split at h
    · split at h
      · obtain ⟨_, -, hm⟩ := Option.map_eq_some_iff.mp h
        rw [← (Prod.mk.inj hm).1, headers_appendAll]
      · cases h
    · split at h
      · split at h
        · rw [← (Prod.mk.inj (Option.some.inj h)).1, headers_appendAll]
        · cases h
      · rw [(Prod.mk.inj (Option.some.inj h)).1]

theorem headers_requestEnd {m m' : HTTPMessage} {l rest : Str} (h : requestEnd m l = some (m', rest)) :
    m'.headers_ = m.headers_ := by
  rw [requestEnd] at h
  split at h
  · rw [(Prod.mk.inj (Option.some.inj h)).1]
  · exact headers_requestBody h

theorem headers_responseEnd {m m' : HTTPMessage} {l rest : Str} (h : responseEnd m l = some (m', rest)) :
    m'.headers_ = m.headers_ := by
  rw [responseEnd] at h
  split at h
  · cases h
  · rw [(Prod.mk.inj (Option.some.inj h)).1]
  · split at h
    · rw [(Prod.mk.inj (Option.some.inj h)).1]
    · exact headers_responseBody h

/-- A message with headers was read by way of `headerSection`. -/
theorem messageRest_eq_some {body ending : HTTPMessage → Str → Option (HTTPMessage × Str)}
    {m : HTTPMessage} {l rest : Str}
    (hbody : ∀ {m m' : HTTPMessage} {l rest : Str}, body m l = some (m', rest) → m'.headers_ = m.headers_)
    (h : messageRest body ending {} l = some (m, rest)) (hne : m.headers_ ≠ ∅) :
    l.head? ≠ some charCR ∧ ∃ kvs l₁, headerSection l = some (kvs, l₁) ∧
      ending (addHeaders {} kvs) l₁ = some (m, rest) := by
  rw [messageRest] at h
  split at h
  · refine absurd ?_ hne
    revert h
    cases l.tail with
    | nil => rintro ⟨⟩; rfl
    | cons c l =>
        rw [bare]
        split
        · rintro ⟨⟩; rfl
        · split
          · rintro ⟨⟩
          · intro h; exact hbody h
  · obtain ⟨⟨kvs, l₁⟩, hsec, hend⟩ := Option.bind_eq_some_iff.mp h
    exact ⟨‹_›, kvs, l₁, hsec, hend⟩

def request (r : HTTPRequest) (l : Str) : Option (HTTPRequest × Str) :=
  (requestLine r.request_line_ l).bind fun (line, l₁) =>
    (requestRest r.toHTTPMessage l₁).map fun (m, rest) =>
      ({ toHTTPMessage := m, request_line_ := line }, rest)

def response (r : HTTPResponse) (l : Str) : Option (HTTPResponse × Str) :=
  (responseLine r.response_line_ l).bind fun (line, l₁) =>
    (responseRest r.toHTTPMessage l₁).map fun (m, rest) =>
      ({ toHTTPMessage := m, response_line_ := line }, rest)

theorem request_eq_some {r r' : HTTPRequest} {l rest : Str} : request r l = some (r', rest) ↔
    ∃ l₁, requestLine r.request_line_ l = some (r'.request_line_, l₁) ∧
      requestRest r.toHTTPMessage l₁ = some (r'.toHTTPMessage, rest) := by
  simp only [request, Option.bind_eq_some_iff, Option.map_eq_some_iff, Prod.exists, Prod.mk.injEq]
  constructor
  · rintro ⟨line, l₁, hline, m, rest', hrest, rfl, rfl⟩
    exact ⟨l₁, hline, hrest⟩
  · rintro ⟨l₁, hline, hrest⟩
    exact ⟨_, l₁, hline, _, rest, hrest, rfl, rfl⟩

theorem response_eq_some {r r' : HTTPResponse} {l rest : Str} : response r l = some (r', rest) ↔
    ∃ l₁, responseLine r.response_line_ l = some (r'.response_line_, l₁) ∧
      responseRest r.toHTTPMessage l₁ = some (r'.toHTTPMessage, rest) := by
  simp only [response, Option.bind_eq_some_iff, Option.map_eq_some_iff, Prod.exists, Prod.mk.injEq]
  constructor
  · rintro ⟨line, l₁, hline, m, rest', hrest, rfl, rfl⟩
    exact ⟨l₁, hline, hrest⟩
  · rintro ⟨l₁, hline, hrest⟩
    exact ⟨_, l₁, hline, _, rest, hrest, rfl, rfl⟩

end Grammar
end Dodo.Network.Http
