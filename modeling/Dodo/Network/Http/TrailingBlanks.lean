import Dodo.Network.Http.Locality
import Dodo.Network.Http.Precedence
import Dodo.Network.Http.HeaderSection

/-!
# `Http.TrailingBlanks` — blanks behind a field value

RFC 2616 section 4.2 lets a recipient drop the blanks behind a field value. `parseFieldValue` drops those in
front of a value and reads each later run of blanks as one space, the last run as well: the space is added
when the octet behind the run is seen, and that may be the CR. Here a run of blanks is put behind one field
value of a message that is accepted. The value gets a space at its end, and nothing else changes in the list
of headers; so the message stays the same exactly where that space was there before, or the value is empty.
-/

namespace Dodo.Network.Http

open Common Lib Lib.Comp

namespace Grammar

open HTTPMessage

variable {s s' : FieldState} {l t u v w rest blanks text : Str} {c d : Octet} {kvs : List (Str × Str)}

/-! ## One value -/

/-- The value with a space at its end. -/
def trailing (v : Str) : Str := if v.getLast? = some charSP then v else v ++ [charSP]

theorem trailing_cons (h : v ≠ [] ∨ c ≠ charSP) : trailing (c :: v) = c :: trailing v := by
  unfold trailing
  cases v with
  | nil => simp_all
  | cons d v =>
      rw [List.getLast?_cons_cons]
      split <;> rfl

/-- What blanks behind the value `v` make of it. -/
def padded (v : Str) : Str := if v = [] then [] else trailing v

theorem padded_eq_self_iff : padded v = v ↔ v = [] ∨ v.getLast? = some charSP := by
  unfold padded trailing
  split
  · simp [*]
  · split <;> simp [*]

theorem length_padded_ne (h : padded v ≠ v) : v.length ≠ (padded v).length := by
  obtain ⟨hnil, hlast⟩ := not_or.mp (mt padded_eq_self_iff.mpr h)
  simp [padded, trailing, hnil, hlast]

/-- Behind a CR the value ends, or it goes on in the next line. -/
theorem fieldValue_cr_cases (h : fieldValue .psCR l = some (v, rest)) :
    (v = [] ∧ l = charLF :: rest) ∨
      ∃ d l', l = charLF :: d :: l' ∧ isSP d = true ∧ fieldValue .psSP l' = some (v, rest) := by
  match l, h with
  | [], h => cases h
  | [_], h => cases h
  | c :: d :: l', h =>
      rw [fieldValue] at h
      split at h
      case isTrue => cases h
      case isFalse hc =>
        obtain rfl := not_not.mp hc
        split at h
        case isTrue hd => exact .inr ⟨d, l', rfl, hd, h⟩
        case isFalse =>
          obtain ⟨rfl, rfl⟩ := Prod.mk.inj (Option.some.inj h)
          exact .inl ⟨rfl, rfl⟩

theorem fieldValue_sp_cons (h : fieldValue .psSP l = some (v, rest)) : v ≠ [] := by
  induction l with
  | nil => cases h
  | cons c l ih =>
      by_cases hc : isSP c = true
      · rw [fieldValue, if_pos hc] at h
        exact ih h
      · rw [fieldValue_sp (by simpa using hc)] at h
        obtain ⟨w, -, rfl⟩ := emit_eq_some.mp h
        simp

/-- `l` is read as the value `v`, and with blanks before its CR LF as `v` and a space. -/
def Pads (s : FieldState) (l v rest : Str) : Prop :=
  ∃ w, l = w ++ charCR :: charLF :: rest ∧ (v = [] → w = []) ∧
    ∀ blanks, blanks ≠ [] → (∀ c ∈ blanks, isSP c = true) →
      fieldValue s (w ++ (blanks ++ charCR :: charLF :: rest)) = some (trailing v, rest)

/-- A step of the reader in front of a value that is read with blanks behind it. -/
theorem Pads.append (h : Pads s' l v rest)
    (hstep : ∀ X, X ≠ [] → fieldValue s (t ++ X) = emit u (fieldValue s' X)) (hne : u ++ v ≠ [])
    (hu : trailing (u ++ v) = u ++ trailing v) : Pads s (t ++ l) (u ++ v) rest := by
  obtain ⟨w, rfl, -, hpads⟩ := h
  refine ⟨t ++ w, by simp, fun hnil => absurd hnil hne, ?_⟩
  intro blanks hblanks hsp
  rw [List.append_assoc, hstep _ (by simp), hpads blanks hblanks hsp, hu]
  rfl

theorem fieldValue_sp_cr (hd : isSP d = false) :
    fieldValue .psSP (charCR :: charLF :: d :: l) = some ([charSP], d :: l) := by
  rw [fieldValue_sp (by decide), fieldValue_cr hd]
  rfl

theorem pads_cr (hd : isSP d = false) : Pads .psReadValue (charCR :: charLF :: d :: l) [] (d :: l) := by
  refine ⟨[], rfl, fun _ => rfl, ?_⟩
  intro blanks hblanks hsp
  rw [List.nil_append, fieldValue_blanks hblanks hsp, fieldValue_sp_cr hd]
  rfl

/-- The state behind a space hands the first other octet to the state that reads. -/
theorem Pads.sp (hc : isSP c = false) (hv : fieldValue .psReadValue (c :: l) = some (v, rest))
    (h : Pads .psReadValue (c :: l) v rest) : Pads .psSP (c :: l) (charSP :: v) rest := by
  obtain ⟨w, hl, hnil, hpads⟩ := h
  obtain ⟨d, l', rfl, hd⟩ := fieldValue_rest hv
  cases w with
  | nil =>
      rw [hl, List.nil_append, fieldValue_cr hd] at hv
      obtain ⟨rfl, -⟩ := Prod.mk.inj (Option.some.inj hv)
      refine ⟨[], hl, by simp, ?_⟩
      intro blanks hblanks hsp
      rw [List.nil_append, fieldValue_run hsp, fieldValue_sp_cr hd]
      rfl
  | cons c' w =>
      obtain ⟨rfl, rfl⟩ := List.cons.inj hl
      have hne : v ≠ [] := fun hv => absurd (hnil hv) (by simp)
      refine ⟨c :: w, rfl, by simp, ?_⟩
      intro blanks hblanks hsp
      rw [List.cons_append, fieldValue_sp hc, ← List.cons_append, hpads blanks hblanks hsp,
        trailing_cons (.inl hne)]
      rfl

/-- The value of a line that is read from the first octet of a word on. -/
theorem pads_read (hc : isSP c = false) (hv : fieldValue .psReadValue (c :: l) = some (v, rest))
    (ih : ∀ {s l' v'}, l'.length ≤ l.length → s = .psReadValue ∨ s = .psSP →
      fieldValue s l' = some (v', rest) → Pads s l' v' rest) : Pads .psReadValue (c :: l) v rest := by
  by_cases hcr : c = charCR
  · subst hcr
    have hcr : fieldValue .psCR l = some (v, rest) := by simpa [fieldValue] using hv
    rcases fieldValue_cr_cases hcr with ⟨rfl, rfl⟩ | ⟨d, l', rfl, hd, hsp⟩
    · obtain ⟨d, l', rfl, hd⟩ := fieldValue_rest hv
      exact pads_cr hd
    · -- the value is folded, and goes on behind a space
      have hpads := ih (by simp only [List.length_cons]; omega) (.inr rfl) hsp
      exact hpads.append (t := [charCR, charLF, d]) (u := []) (fun X _ => by simp [fieldValue, hd, emit])
        (fieldValue_sp_cons hsp) rfl
  · rw [fieldValue, if_neg hcr, if_neg (by simp [hc])] at hv
    obtain ⟨v₁, hv₁, rfl⟩ := emit_eq_some.mp hv
    have hne : c ≠ charSP := by
      rintro rfl
      exact absurd hc (by decide)
    exact (ih (Nat.le_refl _) (.inl rfl) hv₁).append (t := [c]) (fun X _ => by simp [fieldValue, hcr, hc])
      (by simp) (trailing_cons (.inr hne))

theorem fieldValue_pads (hs : s = .psReadValue ∨ s = .psSP) (h : fieldValue s l = some (v, rest)) :
    Pads s l v rest := by
  -- behind a folding three octets have been read, so the induction is on the length
  induction hn : l.length using Nat.strong_induction_on generalizing l v s with
  | _ n ih =>
    subst hn
    cases l with
    | nil => rcases hs with rfl | rfl <;> cases h
    | cons c l =>
        have ih : ∀ {s l' v'}, l'.length ≤ l.length → s = .psReadValue ∨ s = .psSP →
            fieldValue s l' = some (v', rest) → Pads s l' v' rest := by
          intro s l' v' hlength hs h
          exact ih l'.length (Nat.lt_succ_of_le hlength) hs h rfl
        by_cases hc : isSP c = true
        · have hsp : fieldValue .psSP l = some (v, rest) := by
            rcases hs with rfl | rfl <;> simpa [fieldValue, hc, ne_cr_of_isSP hc] using h
          refine (ih (Nat.le_refl _) (.inr rfl) hsp).append (t := [c]) (u := []) ?_ (fieldValue_sp_cons hsp) rfl
          intro X _
          rcases hs with rfl | rfl <;> simp [fieldValue, hc, ne_cr_of_isSP hc, emit]
        · rw [Bool.not_eq_true] at hc
          rcases hs with rfl | rfl
          · exact pads_read hc h ih
          · rw [fieldValue_sp hc] at h
            obtain ⟨v, hv, rfl⟩ := emit_eq_some.mp h
            exact (pads_read hc hv ih).sp hc hv

/-- Blanks before the CR LF of a value, from the colon on. -/
theorem fieldValue_padded (h : fieldValue .psStart l = some (v, rest)) :
    ∃ w, l = w ++ charCR :: charLF :: rest ∧ ∀ blanks, blanks ≠ [] → (∀ c ∈ blanks, isSP c = true) →
      fieldValue .psStart (w ++ (blanks ++ charCR :: charLF :: rest)) = some (padded v, rest) := by
  induction l with
  | nil => cases h
  | cons c l ih =>
      by_cases hc : isSP c = true
      · rw [fieldValue, if_pos hc] at h
        obtain ⟨w, rfl, hpadded⟩ := ih h
        refine ⟨c :: w, rfl, ?_⟩
        intro blanks hblanks hsp
        rw [List.cons_append, fieldValue, if_pos hc, hpadded blanks hblanks hsp]
      · rw [Bool.not_eq_true] at hc
        rw [fieldValue_start hc] at h
        obtain ⟨d, l', rfl, hd⟩ := fieldValue_rest h
        obtain ⟨w, hl, hnil, hpads⟩ := fieldValue_pads (.inl rfl) h
        refine ⟨w, hl, ?_⟩
        intro blanks hblanks hsp
        cases w with
        | nil =>
            -- in an empty value the blanks are not behind anything: they are skipped
            rw [hl, List.nil_append, fieldValue_cr hd] at h
            obtain ⟨rfl, -⟩ := Prod.mk.inj (Option.some.inj h)
            rw [List.nil_append, fieldValue_lead hsp, fieldValue_start (by decide), fieldValue_cr hd]
            rfl
        | cons c' w =>
            obtain ⟨rfl, rfl⟩ := List.cons.inj hl
            have hne : v ≠ [] := fun hv => absurd (hnil hv) (by simp)
            rw [List.cons_append, fieldValue_start hc, ← List.cons_append, hpads blanks hblanks hsp, padded,
              if_neg hne]

/-! ## One line -/

theorem fieldLine_padded {k : Str} (h : fieldLine (w ++ charCR :: charLF :: rest) = some ((k, v), rest))
    (hne : blanks ≠ []) (hsp : ∀ c ∈ blanks, isSP c = true) :
    fieldLine (w ++ (blanks ++ charCR :: charLF :: rest)) = some ((k, padded v), rest) := by
  obtain ⟨l₃, hdrop, hk, hv⟩ := fieldLine_eq_some.mp h
  obtain ⟨w₃, rfl, hpadded⟩ := fieldValue_padded hv
  -- the line is its name, blanks, the colon and the value
  have hsplit : ∀ {p : Octet → Bool} {l : Str}, ∃ t, l = t ++ l.dropWhile p ∧ l.takeWhile p = t ∧
      ∀ c ∈ t, p c = true :=
    fun {p l} => ⟨l.takeWhile p, List.takeWhile_append_dropWhile.symm, rfl, fun c => List.mem_takeWhile_imp⟩
  obtain ⟨name, hname, htake, htoken⟩ := hsplit (p := isToken) (l := w ++ charCR :: charLF :: rest)
  obtain ⟨sp, hsp₁, -, hblank⟩ := hsplit (p := isSP) (l := (w ++ charCR :: charLF :: rest).dropWhile isToken)
  have hw : w = name ++ (sp ++ 58 :: w₃) := by
    rw [hsp₁, hdrop] at hname
    have hcancel : w ++ charCR :: charLF :: rest =
        (name ++ (sp ++ 58 :: w₃)) ++ charCR :: charLF :: rest := by simpa using hname
    exact List.append_cancel_right hcancel
  have hnew : w ++ (blanks ++ charCR :: charLF :: rest) =
      name ++ (sp ++ 58 :: (w₃ ++ (blanks ++ charCR :: charLF :: rest))) := by rw [hw]; simp
  rw [hnew, fieldLine_parts htoken hblank, hpadded blanks hne hsp, hk, htake]
  rfl

/-! ## One message -/

/-- A header line of the request `text` starts at `l`. -/
inductive LineAt (text : Str) : Str → Prop where
  | first {line : HTTPRequestLine} {l : Str} (hstart : requestLine {} text = some (line, l))
      (hcr : l.head? ≠ some charCR) : LineAt text (l.dropWhile isSP)
  | next {kv : Str × Str} {d : Octet} {l l₁ : Str} (h : LineAt text l)
      (hline : fieldLine l = some (kv, d :: l₁)) (hcr : d ≠ charCR) : LineAt text (d :: l₁)

namespace LineAt

theorem head (h : LineAt text (c :: l)) : isSP c = false := by
  generalize hl : c :: l = l' at h
  cases h with
  | first hstart hcr => exact not_of_dropWhile_eq_cons hl.symm
  | next h hline hcr =>
      obtain ⟨d, l', hrest, hd⟩ := fieldLine_rest hline
      obtain ⟨rfl, -⟩ := List.cons.inj (hl.trans hrest)
      exact hd

/-- **The text from a header line on can be exchanged**: the request line and the header lines in front of it
    are read as before. -/
theorem exchange (h : LineAt text l) : ∃ front line kvs, text = front ++ l ∧
    ∀ d X, isSP d = false → d ≠ charCR → ∃ l₀, requestLine {} (front ++ d :: X) = some (line, l₀) ∧
      l₀.head? ≠ some charCR ∧ ∀ body kvs', FieldLines body (d :: X) kvs' →
        headerSection l₀ = some (kvs ++ kvs', body) := by
  induction h with
  | @first line l hstart hcr =>
      -- `parseHeaders` skips blanks behind the request line, which so belong to what is in front
      obtain ⟨t, rfl, hlocal⟩ := requestLine_local hstart
      refine ⟨t ++ l.takeWhile isSP, line, [], ?_, ?_⟩
      · rw [List.append_assoc, List.takeWhile_append_dropWhile]
      intro d X hd hne
      refine ⟨l.takeWhile isSP ++ d :: X, ?_, ?_, ?_⟩
      · rw [List.append_assoc]
        exact hlocal _ (by simp)
      · cases hsp : l.takeWhile isSP with
        | nil => simpa using hne
        | cons c sp =>
            have hc : isSP c = true := List.mem_takeWhile_imp (l := l) (by rw [hsp]; exact List.mem_cons_self)
            simpa using ne_cr_of_isSP hc
      · intro body kvs' hlines
        rw [headerSection, dropWhile_append (fun c => List.mem_takeWhile_imp) hd]
        exact fields_eq_some.mpr hlines
  | @next kv d₁ l l₁ h hline hcr ih =>
      obtain ⟨front, line, kvs, rfl, hfront⟩ := ih
      obtain ⟨t, rfl, hne, hlocal⟩ := fieldLine_local hline
      obtain ⟨c, t, rfl⟩ := List.exists_cons_of_ne_nil hne
      have hc : c ≠ charCR := by
        rintro rfl
        rw [List.cons_append, fieldLine_cr] at hline
        cases hline
      refine ⟨front ++ c :: t, line, kvs ++ [kv], by simp, ?_⟩
      intro d X hd hne
      obtain ⟨l₀, hline₀, hcr₀, hsec⟩ := hfront c (t ++ d :: X) h.head hc
      refine ⟨l₀, by simpa using hline₀, hcr₀, ?_⟩
      intro body kvs' hlines
      rw [hsec body (kv :: kvs') (.cons (hlocal d X hd) hd hne hlines)]
      simp

/-- In a message with a header section, the lines from each header line on are lines of it. -/
theorem lines (h : LineAt text l) {line : HTTPRequestLine} {l₀ body : Str}
    (hstart : requestLine {} text = some (line, l₀)) (hsec : headerSection l₀ = some (kvs, body)) :
    ∃ kvs', FieldLines body l kvs' := by
  induction h with
  | first hstart' hcr =>
      obtain ⟨-, rfl⟩ := Prod.mk.inj (Option.some.inj (hstart.symm.trans hstart'))
      exact ⟨kvs, fields_eq_some.mp hsec⟩
  | next h hline hcr ih =>
      obtain ⟨kvs', hlines⟩ := ih
      cases hlines with
      | last hline' =>
          have hrest := (Prod.mk.inj (Option.some.inj (hline.symm.trans hline'))).2
          exact absurd (List.cons.inj hrest).1 hcr
      | cons hline' hsp hcr' hlines =>
          have hrest := (Prod.mk.inj (Option.some.inj (hline.symm.trans hline'))).2
          rw [hrest]
          exact ⟨_, hlines⟩

end LineAt

/-- A header section whose first line is exchanged for one that ends where it ended. -/
theorem FieldLines.exchange {kv kv' : Str × Str} {body l' : Str} (h : FieldLines body l kvs)
    (hline : fieldLine l = some (kv, rest)) (hline' : fieldLine l' = some (kv', rest)) :
    ∃ kvs', kvs = kv :: kvs' ∧ FieldLines body l' (kv' :: kvs') := by
  cases h with
  | last hlast =>
      obtain ⟨rfl, rfl⟩ := Prod.mk.inj (Option.some.inj (hline.symm.trans hlast))
      exact ⟨[], rfl, .last hline'⟩
  | cons hfirst hsp hcr hlines =>
      obtain ⟨rfl, rfl⟩ := Prod.mk.inj (Option.some.inj (hline.symm.trans hfirst))
      exact ⟨_, rfl, .cons hline' hsp hcr hlines⟩

end Grammar

namespace HTTPMessage

open Grammar

/-- A longer value makes the merged value longer. -/
theorem length_intercalate (sep v v' : Str) (vs ws : List Str) :
    (sep.intercalate (vs ++ v :: ws)).length + v'.length = (sep.intercalate (vs ++ v' :: ws)).length + v.length := by
  induction vs with
  | nil =>
      cases ws with
      | nil =>
          rw [List.nil_append, List.nil_append, List.intercalate_singleton, List.intercalate_singleton]
          exact Nat.add_comm _ _
      | cons w ws =>
          rw [List.nil_append, List.nil_append, List.intercalate_cons_cons, List.intercalate_cons_cons]
          simp only [List.length_append]
          omega
  | cons u vs ih =>
      obtain ⟨x, xs, hx⟩ := List.exists_cons_of_ne_nil (show vs ++ v :: ws ≠ [] by simp)
      obtain ⟨y, ys, hy⟩ := List.exists_cons_of_ne_nil (show vs ++ v' :: ws ≠ [] by simp)
      rw [hx, hy] at ih
      rw [List.cons_append, List.cons_append, hx, hy, List.intercalate_cons_cons, List.intercalate_cons_cons]
      simp only [List.length_append]
      omega

/-- Values of different lengths are not merged into the same value. -/
theorem joined_ne {v v' : Str} {vs ws : List Str} (h : v.length ≠ v'.length) :
    joined (vs ++ v :: ws) ≠ joined (vs ++ v' :: ws) := by
  have hjoined : ∀ v : Str, joined (vs ++ v :: ws) = some ((lit ",").intercalate (vs ++ v :: ws)) := by
    intro v
    cases vs with
    | nil => rfl
    | cons u vs => rfl
  rw [hjoined, hjoined]
  intro heq
  have hlength := length_intercalate (lit ",") v v' vs ws
  rw [Option.some.inj heq] at hlength
  omega

/-- A header line whose value gets longer changes the headers. -/
theorem addHeaders_ne {k v v' : Str} {kvs kvs' : List (Str × Str)} (h : v.length ≠ v'.length) :
    (addHeaders {} (kvs ++ (k, v) :: kvs')).headers_ ≠ (addHeaders {} (kvs ++ (k, v') :: kvs')).headers_ := by
  intro heq
  have hget := congrArg (fun headers : Headers => headers[k]?) heq
  simp only [getElem?_addHeaders_eq, List.filter_append, List.map_append] at hget
  rw [List.filter_cons_of_pos (by simp), List.filter_cons_of_pos (by simp), ← List.append_assoc,
    ← List.append_assoc, List.map_cons, List.map_cons] at hget
  exact joined_ne h hget

end HTTPMessage

/-- A request whose header section is known. -/
theorem HTTPRequest.accepts_headers {text l₀ body : Str} {line : HTTPRequestLine} {kvs : List (Str × Str)}
    {r : HTTPRequest} (hline : Grammar.requestLine {} text = some (line, l₀))
    (hcr : l₀.head? ≠ some charCR) (hsec : Grammar.headerSection l₀ = some (kvs, body)) :
    Accepts text r ↔ r.request_line_ = line ∧
      ∃ u, Grammar.requestEnd (HTTPMessage.addHeaders {} kvs) body = some (r.toHTTPMessage, u) := by
  rw [accepts_iff]
  simp only [Grammar.request_eq_some]
  constructor
  · rintro ⟨u, l₁, hline', hrest⟩
    obtain ⟨rfl, rfl⟩ := Prod.mk.inj (Option.some.inj (hline.symm.trans hline'))
    rw [Grammar.requestRest, Grammar.messageRest, if_neg hcr, hsec] at hrest
    exact ⟨rfl, u, hrest⟩
  · rintro ⟨rfl, u, hend⟩
    refine ⟨u, l₀, hline, ?_⟩
    rw [Grammar.requestRest, Grammar.messageRest, if_neg hcr, hsec]
    exact hend

theorem HTTPRequest.headerSection_of_accepts {text l₀ : Str} {line : HTTPRequestLine} {r : HTTPRequest}
    (h : Accepts text r) (hline : Grammar.requestLine {} text = some (line, l₀))
    (hcr : l₀.head? ≠ some charCR) : ∃ kvs body, Grammar.headerSection l₀ = some (kvs, body) := by
  obtain ⟨u, hrequest⟩ := accepts_iff.mp h
  obtain ⟨l₁, hline', hrest⟩ := Grammar.request_eq_some.mp hrequest
  obtain ⟨-, rfl⟩ := Prod.mk.inj (Option.some.inj (hline.symm.trans hline'))
  rw [Grammar.requestRest, Grammar.messageRest, if_neg hcr] at hrest
  obtain ⟨⟨kvs, body⟩, hsec, -⟩ := Option.bind_eq_some_iff.mp hrest
  exact ⟨kvs, body, hsec⟩

/-- **Trailing blanks.** In a request that is accepted, put blanks between the end of a field value and its
    CR LF. It is accepted as the same request exactly if they are none, or the value that was read is empty or
    ends with a space. -/
theorem accepts_trailing_blanks_iff {text front w rest blanks k v : Str} {r : HTTPRequest}
    (haccepts : HTTPRequest.Accepts text r) (htext : text = front ++ (w ++ charCR :: charLF :: rest))
    (hat : Grammar.LineAt text (w ++ charCR :: charLF :: rest))
    (hline : Grammar.fieldLine (w ++ charCR :: charLF :: rest) = some ((k, v), rest))
    (hsp : ∀ c ∈ blanks, HTTPMessage.isSP c = true) :
    HTTPRequest.Accepts (front ++ (w ++ (blanks ++ charCR :: charLF :: rest))) r ↔
      blanks = [] ∨ v = [] ∨ v.getLast? = some charSP := by
  by_cases hne : blanks = []
  · subst hne
    rw [List.nil_append, ← htext]
    exact iff_of_true haccepts (.inl rfl)
  -- the text in front of the line, and the lines in front of it and behind it
  obtain ⟨front', line, kvs₁, htext', hexchange⟩ := hat.exchange
  obtain rfl : front' = front := List.append_cancel_right (htext'.symm.trans htext)
  cases w with
  | nil =>
      rw [List.nil_append, Grammar.fieldLine_cr] at hline
      cases hline
  | cons c w =>
      have hc : c ≠ charCR := by
        rintro rfl
        rw [List.cons_append, Grammar.fieldLine_cr] at hline
        cases hline
      obtain ⟨l₀, hstart₀, hcr₀, hsec₀⟩ := hexchange c (w ++ charCR :: charLF :: rest) hat.head hc
      obtain ⟨l₁, hstart₁, hcr₁, hsec₁⟩ := hexchange c (w ++ (blanks ++ charCR :: charLF :: rest)) hat.head hc
      rw [← List.cons_append, ← htext] at hstart₀
      obtain ⟨kvs, body, hsec⟩ := HTTPRequest.headerSection_of_accepts haccepts hstart₀ hcr₀
      obtain ⟨kvs', hlines⟩ := hat.lines hstart₀ hsec
      obtain ⟨kvs₂, rfl, hlines'⟩ := hlines.exchange hline (Grammar.fieldLine_padded hline hne hsp)
      have hold := HTTPRequest.accepts_headers (r := r) hstart₀ hcr₀ (hsec₀ body _ hlines)
      have hnew := HTTPRequest.accepts_headers (r := r) hstart₁ hcr₁ (hsec₁ body _ hlines')
      rw [List.cons_append, hnew, or_iff_right hne, ← Grammar.padded_eq_self_iff]
      obtain ⟨hr, u, hend⟩ := hold.mp haccepts
      constructor
      · -- the headers of both messages are the headers of `r`
        rintro ⟨-, u', hend'⟩
        by_contra hv
        have heq := (Grammar.headers_requestEnd hend).symm.trans (Grammar.headers_requestEnd hend')
        exact HTTPMessage.addHeaders_ne (Grammar.length_padded_ne hv) heq
      · intro hv
        rw [hv]
        exact ⟨hr, u, hend⟩

theorem accepts_trailing_blanks_iff_length : ∃ r,
    HTTPRequest.Accepts (lit "POST / HTTP/1.1\r\ncontent-length: 1\r\n\r\nx") r ∧
    (HTTPRequest.Accepts (lit "POST / HTTP/1.1\r\ncontent-length: 1 \t\r\n\r\nx") r ↔
      lit " \t" = [] ∨ lit "1" = [] ∨ (lit "1").getLast? = some charSP) := by
  have hparse : wp HTTPRequest.parse (fun x _ => x = .ok {})
      (StringReadBuffer.ofString (lit "POST / HTTP/1.1\r\ncontent-length: 1\r\n\r\nx"), {}) :=
    wp_of_run 60 (by decide +kernel)
  obtain ⟨_, ⟨b, r⟩, hparse, rfl⟩ := hparse
  have htext : lit "POST / HTTP/1.1\r\ncontent-length: 1\r\n\r\nx" =
      lit "POST / HTTP/1.1\r\n" ++ (lit "content-length: 1" ++ charCR :: charLF :: lit "\r\nx") := by decide
  have hstart : Grammar.requestLine {} (lit "POST / HTTP/1.1\r\ncontent-length: 1\r\n\r\nx") =
      some (⟨.mePOST, lit "/", ⟨1, 1⟩⟩, lit "content-length: 1" ++ charCR :: charLF :: lit "\r\nx") := by
    decide +kernel
  have hline : Grammar.fieldLine (lit "content-length: 1" ++ charCR :: charLF :: lit "\r\nx") =
      some ((lit "content-length", lit "1"), lit "\r\nx") := by decide +kernel
  have hsp : ∀ c ∈ lit " \t", HTTPMessage.isSP c = true := List.all_eq_true.mp (by decide)
  have hblanks : lit "POST / HTTP/1.1\r\ncontent-length: 1 \t\r\n\r\nx" = lit "POST / HTTP/1.1\r\n" ++
      (lit "content-length: 1" ++ (lit " \t" ++ charCR :: charLF :: lit "\r\nx")) := by decide
  refine ⟨r, ⟨b, hparse⟩, ?_⟩
  rw [hblanks]
  exact accepts_trailing_blanks_iff ⟨b, hparse⟩ htext (.first hstart (by decide)) hline hsp

/-- One space behind the value of content-length, and the request is refused. -/
theorem content_length_with_space_refused :
    wp HTTPRequest.parse (fun x s => x = .ok {} ∧ s.2.body_ = lit "x")
      (StringReadBuffer.ofString (lit "POST / HTTP/1.1\r\ncontent-length: 1\r\n\r\nx"), {}) ∧
    wp HTTPRequest.parse (fun x _ => x = .ok { parseError := .peUnexpectedBody })
      (StringReadBuffer.ofString (lit "POST / HTTP/1.1\r\ncontent-length: 1 \r\n\r\nx"), {}) :=
  ⟨wp_of_run 60 (by decide +kernel), wp_of_run 60 (by decide +kernel)⟩

end Dodo.Network.Http
