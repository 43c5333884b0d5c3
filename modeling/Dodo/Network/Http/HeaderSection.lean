import Dodo.Network.Http.Buffers

/-!
# `Http.HeaderSection` — header lines as a peer sends them

Four scanners take turns on a header section: one for the name, one for blanks, one for the value, and the
loop over the lines. Here they run over lines that were put together from their parts: a name in any letter
case, blanks around the colon, and a value of words between runs of blanks.

## Contents
- `Words`, `HeaderLine`: the lines, with what makes them well formed.
- `joined`: what repeated headers are merged into.
- `parseHeaders_lines`: the header map after `parseHeaders`, and where the buffer stands.
-/

namespace Dodo.Network.Http

open Common Lib Lib.Comp

open HTTPMessage in
/-- The words `ws` in a row, with a run of blanks between each and the next. -/
inductive Words : List Str → Str → Prop where
  | nil : Words [] []
  | last {w : Str} (hne : w ≠ []) (hw : ∀ c ∈ w, c ≠ charCR ∧ isSP c = false) : Words [w] w
  | cons {w blanks w' v : Str} {ws : List Str} (hne : w ≠ []) (hw : ∀ c ∈ w, c ≠ charCR ∧ isSP c = false)
      (hblanks : blanks ≠ []) (hsp : ∀ c ∈ blanks, isSP c = true) (hv : Words (w' :: ws) v) :
      Words (w :: w' :: ws) (w ++ (blanks ++ v))

/-- A header line in its parts. The name is a token of RFC 2616. -/
structure HeaderLine where
  name : Str
  beforeColon : Str
  behindColon : Str
  words : List Str
  value : Str
  name_ne_nil : name ≠ []
  token : ∀ c ∈ name, HTTPMessage.isToken c = true
  blanks_before : ∀ c ∈ beforeColon, HTTPMessage.isSP c = true
  blanks_behind : ∀ c ∈ behindColon, HTTPMessage.isSP c = true
  spaced : Words words value

namespace HeaderLine

def text (h : HeaderLine) : Str :=
  h.name ++ (h.beforeColon ++ 58 :: (h.behindColon ++ (h.value ++ [charCR, charLF])))

/-- The name in lower case. -/
def key (h : HeaderLine) : Str := h.name.map tolower

/-- The words with a single space between them. -/
def content (h : HeaderLine) : Str := [charSP].intercalate h.words

end HeaderLine

namespace Grammar

open HTTPMessage

variable {l v w blanks : Str} {ws : List Str} {c d : Octet}

/-! ## Field values -/

/-- Blanks are dropped all at once by a state that drops them one by one. -/
theorem fieldValue_dropped {X : FieldState}
    (hdrop : ∀ (c : Octet) (l : Str), isSP c = true → fieldValue X (c :: l) = fieldValue X l)
    (h : ∀ c ∈ blanks, isSP c = true) : fieldValue X (blanks ++ l) = fieldValue X l := by
  induction blanks with
  | nil => rfl
  | cons c blanks ih =>
      obtain ⟨hc, hblanks⟩ := List.forall_mem_cons.mp h
      rw [List.cons_append, hdrop c _ hc]
      exact ih hblanks

theorem fieldValue_lead (h : ∀ c ∈ blanks, isSP c = true) :
    fieldValue .psStart (blanks ++ l) = fieldValue .psStart l :=
  fieldValue_dropped (fun c l hc => by rw [fieldValue, if_pos hc]) h

theorem fieldValue_run (h : ∀ c ∈ blanks, isSP c = true) :
    fieldValue .psSP (blanks ++ l) = fieldValue .psSP l :=
  fieldValue_dropped (fun c l hc => by rw [fieldValue, if_pos hc]) h

theorem ne_cr_of_isSP (h : isSP c = true) : c ≠ charCR := by
  rintro rfl
  exact absurd h (by decide)

/-- Blanks behind a word, whatever follows them. -/
theorem fieldValue_blanks (hne : blanks ≠ []) (h : ∀ c ∈ blanks, isSP c = true) :
    fieldValue .psReadValue (blanks ++ l) = fieldValue .psSP l := by
  obtain ⟨c, blanks, rfl⟩ := List.exists_cons_of_ne_nil hne
  obtain ⟨hc, hblanks⟩ := List.forall_mem_cons.mp h
  rw [List.cons_append, fieldValue, if_neg (ne_cr_of_isSP hc), if_pos hc, fieldValue_run hblanks]

theorem fieldValue_word (h : ∀ c ∈ w, c ≠ charCR ∧ isSP c = false) :
    fieldValue .psReadValue (w ++ l) = emit w (fieldValue .psReadValue l) := by
  induction w with
  | nil => simp [emit]
  | cons c w ih =>
      obtain ⟨⟨hcr, hsp⟩, hw⟩ := List.forall_mem_cons.mp h
      rw [List.cons_append, fieldValue, if_neg hcr, if_neg (by simp [hsp]), ih hw, emit_emit]
      rfl

/-- A value that is not empty starts with the octet of a word. -/
theorem words_head (h : Words ws v) (hne : ws ≠ []) : ∃ c v', v = c :: v' ∧ isSP c = false := by
  cases h with
  | nil => exact absurd rfl hne
  | last hw hall =>
      obtain ⟨c, w, rfl⟩ := List.exists_cons_of_ne_nil hw
      exact ⟨c, w, rfl, (hall c (by simp)).2⟩
  | cons hw hall _ _ _ =>
      obtain ⟨c, w, rfl⟩ := List.exists_cons_of_ne_nil hw
      exact ⟨c, _, rfl, (hall c (by simp)).2⟩

theorem fieldValue_words (h : Words ws v) (hd : isSP d = false) :
    fieldValue .psReadValue (v ++ charCR :: charLF :: d :: l) =
      some ([charSP].intercalate ws, d :: l) := by
  induction h with
  | nil => exact fieldValue_cr hd
  | last _ hw =>
      rw [fieldValue_word hw, fieldValue_cr hd, List.intercalate_singleton]
      simp [emit]
  | cons _ hw hblanks hsp hv ih =>
      obtain ⟨c, v', rfl, hc⟩ := words_head hv (by simp)
      rw [List.append_assoc, List.append_assoc, fieldValue_word hw, fieldValue_blanks hblanks hsp,
        List.cons_append, fieldValue_sp hc, ← List.cons_append, ih, List.intercalate_cons_cons]
      simp [emit]

/-- Blanks in front of a value are dropped; where there is no word they are all there is. -/
theorem fieldValue_line (hblanks : ∀ c ∈ blanks, isSP c = true) (hv : Words ws v) (hd : isSP d = false) :
    fieldValue .psStart (blanks ++ (v ++ charCR :: charLF :: d :: l)) =
      some ([charSP].intercalate ws, d :: l) := by
  rw [fieldValue_lead hblanks, ← fieldValue_words hv hd]
  cases ws with
  | nil =>
      cases hv
      exact fieldValue_start (by decide)
  | cons w ws =>
      obtain ⟨c, v', rfl, hc⟩ := words_head hv (by simp)
      exact fieldValue_start hc

/-! ## Lines -/

theorem isToken_of_isSP (h : isSP c = true) : isToken c = false := by
  have hc : c = charSP ∨ c = charHT := by simpa [isSP] using h
  rcases hc with rfl | rfl <;> decide

theorem isSP_of_isToken (h : isToken c = true) : isSP c = false := by
  cases hc : isSP c with
  | false => rfl
  | true => exact absurd (isToken_of_isSP hc) (by simp [h])

/-- A header line from its parts. -/
theorem fieldLine_parts (hw : ∀ c ∈ w, isToken c = true) (hblanks : ∀ c ∈ blanks, isSP c = true) :
    fieldLine (w ++ (blanks ++ 58 :: l)) =
      (fieldValue .psStart l).map fun r => ((w.map tolower, r.1), r.2) := by
  -- the octet behind the name is a blank or the colon
  have hnext : ∃ c l', blanks ++ 58 :: l = c :: l' ∧ isToken c = false := by
    cases blanks with
    | nil => exact ⟨58, l, rfl, by decide⟩
    | cons c blanks => exact ⟨c, _, rfl, isToken_of_isSP (hblanks c (by simp))⟩
  obtain ⟨c, l', hl', hc⟩ := hnext
  have hdrop : ((w ++ (blanks ++ 58 :: l)).dropWhile isToken).dropWhile isSP = 58 :: l := by
    rw [hl', dropWhile_append hw hc, ← hl']
    exact dropWhile_append hblanks (by decide)
  have htake : (w ++ (blanks ++ 58 :: l)).takeWhile isToken = w := by
    rw [hl']
    exact takeWhile_append hw hc
  apply Option.ext
  rintro ⟨⟨k, v⟩, rest⟩
  rw [fieldLine_eq_some, hdrop, htake, Option.map_eq_some_iff]
  constructor
  · rintro ⟨l₃, hl₃, rfl, hv⟩
    obtain ⟨-, rfl⟩ := List.cons.inj hl₃
    exact ⟨_, hv, rfl⟩
  · rintro ⟨⟨v, rest⟩, hv, hkv⟩
    cases hkv
    exact ⟨l, rfl, rfl, hv⟩

theorem fieldLine_text (h : HeaderLine) (hd : isSP d = false) :
    fieldLine (h.text ++ d :: l) = some ((h.key, h.content), d :: l) := by
  have htext : h.text ++ d :: l = h.name ++ (h.beforeColon ++
      58 :: (h.behindColon ++ (h.value ++ charCR :: charLF :: d :: l))) := by simp [HeaderLine.text]
  rw [htext, fieldLine_parts h.token h.blanks_before, fieldValue_line h.blanks_behind h.spaced hd]
  rfl

/-- A header line starts with its name. -/
theorem text_cons (h : HeaderLine) : ∃ d l', h.text ++ l = d :: l' ∧ isSP d = false ∧ d ≠ charCR := by
  obtain ⟨c, name, hname⟩ := List.exists_cons_of_ne_nil h.name_ne_nil
  have hc := h.token c (by simp [hname])
  refine ⟨c, _, by rw [HeaderLine.text, hname]; rfl, isSP_of_isToken hc, ?_⟩
  rintro rfl
  exact absurd hc (by decide)

theorem fieldLines_text (h : HeaderLine) (hs : List HeaderLine) (rest : Str) :
    FieldLines rest ((h :: hs).flatMap HeaderLine.text ++ charCR :: charLF :: rest)
      ((h :: hs).map fun h => (h.key, h.content)) := by
  induction hs generalizing h with
  | nil =>
      rw [List.flatMap_cons, List.flatMap_nil, List.append_nil]
      exact .last (fieldLine_text h (by decide))
  | cons h' hs ih =>
      obtain ⟨d, l', hl', hd, hcr⟩ := text_cons (l := hs.flatMap HeaderLine.text ++ charCR :: charLF :: rest) h'
      have ih := ih h'
      rw [List.flatMap_cons, List.append_assoc, hl'] at ih
      rw [List.flatMap_cons, List.flatMap_cons, List.append_assoc, List.append_assoc, hl']
      exact .cons (fieldLine_text h hd) hd hcr ih

theorem headerSection_text (h : HeaderLine) (hs : List HeaderLine) (rest : Str) :
    headerSection ((h :: hs).flatMap HeaderLine.text ++ charCR :: charLF :: rest) =
      some ((h :: hs).map (fun h => (h.key, h.content)), rest) := by
  have hfields := fields_eq_some.mpr (fieldLines_text h hs rest)
  obtain ⟨d, l', hl', hd, -⟩ := text_cons (l := hs.flatMap HeaderLine.text ++ charCR :: charLF :: rest) h
  rw [List.flatMap_cons, List.append_assoc, hl'] at hfields ⊢
  rw [headerSection, List.dropWhile_cons_of_neg (by simp [hd]), hfields]

end Grammar

/-! ## The header map -/

namespace HTTPMessage

/-- The values of the lines with one name, merged into the value of a header. -/
def joined : List Str → Option Str
  | [] => none
  | v :: vs => some ((lit ",").intercalate (v :: vs))

theorem joined_append {v w : Str} {vs : List Str} :
    joined ((v ++ (lit "," ++ w)) :: vs) = joined (v :: w :: vs) := by
  cases vs with
  | nil => simp [joined, List.intercalate_cons_cons]
  | cons u vs => simp [joined, List.intercalate_cons_cons]

/-- **Repeated headers are merged** in the order of their lines. -/
theorem getElem?_addHeaders_eq (m : HTTPMessage) (kvs : List (Str × Str)) (key : Str) :
    (m.addHeaders kvs).headers_[key]? =
      joined (m.headers_[key]?.toList ++ (kvs.filter (·.1 = key)).map Prod.snd) := by
  induction kvs generalizing m with
  | nil =>
      rw [addHeaders_nil]
      cases m.headers_[key]? <;> simp [joined]
  | cons kv kvs ih =>
      rw [addHeaders_cons, ih, headers_addHeader, Std.ExtTreeMap.getElem?_insert]
      by_cases hkey : kv.1 = key
      · subst hkey
        rw [if_pos (by simp), List.filter_cons_of_pos (by simp), List.map_cons]
        cases m.headers_[kv.1]? with
        | none => rfl
        | some w => exact joined_append
      · rw [if_neg (by simpa using hkey), List.filter_cons_of_neg (by simpa using hkey)]

end HTTPMessage

/-- **Header sections.** One or more header lines and an empty line, read into a message without headers,
    whatever is in front of them in the buffer and behind them: `parseHeaders` returns ok and stands on the
    last LF, and every key has the values of its lines, each with single spaces, joined by commas. -/
theorem parseHeaders_lines (body front rest : Str) (h : HeaderLine) (hs : List HeaderLine) :
    ∃ m, Returns HTTPMessage.parseHeaders
        ((⟨front ++ ((h :: hs).flatMap HeaderLine.text ++ charCR :: charLF :: rest), front.length⟩ :
          StringReadBuffer), { body_ := body })
        (.ok {})
        (⟨front ++ ((h :: hs).flatMap HeaderLine.text ++ charCR :: charLF :: rest),
          front.length + ((h :: hs).flatMap HeaderLine.text).length + 1⟩, m) ∧
      m.body_ = body ∧
      ∀ key : Str, m.headers_[key]? =
        HTTPMessage.joined (((h :: hs).filter (·.key = key)).map HeaderLine.content) := by
  have hne : (h :: hs).flatMap HeaderLine.text ++ charCR :: charLF :: rest ≠ [] := by simp
  have hat : (StringReadBuffer.deliversOf (front ++ ((h :: hs).flatMap HeaderLine.text ++
      charCR :: charLF :: rest))).At ⟨_, front.length⟩ _ := ⟨rfl, StringReadBuffer.delivers_behind front hne⟩
  have hspec := HTTPMessage.parseHeaders_spec (m := { body_ := body }) hat hne
  rw [Grammar.headerSection_text] at hspec
  obtain ⟨b', hret, hat'⟩ := returns_of_eq_some hspec rfl
  have hdata : front ++ ((h :: hs).flatMap HeaderLine.text ++ charCR :: charLF :: rest) =
      (front ++ ((h :: hs).flatMap HeaderLine.text ++ [charCR])) ++ charLF :: rest := by simp
  have hb' : b' = ⟨front ++ ((h :: hs).flatMap HeaderLine.text ++ charCR :: charLF :: rest),
      front.length + ((h :: hs).flatMap HeaderLine.text).length + 1⟩ := by
    rw [hdata] at hat' ⊢
    rw [StringReadBuffer.eq_of_deliversOf (by simp) hat']
    simp [Nat.add_assoc]
  rw [hb'] at hret
  refine ⟨_, hret, HTTPMessage.body_addHeaders _ _, ?_⟩
  intro key
  rw [HTTPMessage.getElem?_addHeaders_eq, List.filter_map, List.map_map]
  simp [Function.comp_def]

end Dodo.Network.Http
