import Dodo.Network.Http.Grammar

/-!
# `Http.Locality` — how far a reader looks

A reader of the grammar splits a text into what it reads and the rest. What it reads does not depend on
all of the rest: one octet of it at most is looked at, and none where the reader ends with a CR LF. So the
text behind a line can be exchanged for another one. That is what it takes to put two messages into one
buffer, or to leave a header line out.
-/

namespace Dodo.Network.Http.Grammar

open Common HTTPMessage

variable {p : Octet → Bool} {l rest X : Str} {d : Octet}

theorem not_of_dropWhile_eq_cons (h : l.dropWhile p = d :: rest) : p d = false := by
  have hne : l.dropWhile p ≠ [] := by simp [h]
  have hhead := List.head_dropWhile_not p hne
  simpa [h] using hhead

/-- `f` looks at one octet behind what it reads. -/
def Local {α : Type} (f : Str → Option (α × Str)) : Prop :=
  ∀ {l rest : Str} {x : α}, f l = some (x, rest) →
    ∃ t, l = t ++ rest ∧ ∀ X, X.head? = rest.head? → f (t ++ X) = some (x, X)

/-! ## Start lines -/

theorem skip_local (h : skip p l = some rest) : ∃ t, l = t ++ rest ∧ l.takeWhile p = t ∧
    ∀ X, X.head? = rest.head? → skip p (t ++ X) = some X ∧ (t ++ X).takeWhile p = t := by
  obtain ⟨rfl, hne⟩ := skip_eq_some.mp h
  refine ⟨l.takeWhile p, List.takeWhile_append_dropWhile.symm, rfl, ?_⟩
  intro X hX
  obtain ⟨d, k, hdk⟩ := List.exists_cons_of_ne_nil hne
  have hd := not_of_dropWhile_eq_cons hdk
  have ht : ∀ c ∈ l.takeWhile p, p c = true := fun c => List.mem_takeWhile_imp
  rw [hdk, List.head?_cons, List.head?_eq_some_iff] at hX
  obtain ⟨X, rfl⟩ := hX
  exact ⟨skip_append ht hd, takeWhile_append ht hd⟩

theorem version_local {v : HTTPVersion} : Local (version v) := by
  intro l rest x h
  simp only [version, bind, Option.bind_eq_some_iff, octet_eq_some] at h
  obtain ⟨_, hspace, _, rfl, _, rfl, _, rfl, _, rfl, l₁, rfl, _, hmajor, l₃, rfl, _, hminor, hv⟩ := h
  obtain ⟨rfl, rfl⟩ := Prod.mk.inj (Option.some.inj hv)
  obtain ⟨t₁, rfl, -, hspace⟩ := skip_local hspace
  obtain ⟨t₂, rfl, ht₂, hmajor⟩ := skip_local hmajor
  obtain ⟨t₃, rfl, ht₃, hminor⟩ := skip_local hminor
  refine ⟨t₁ ++ 72 :: 84 :: 84 :: 80 :: 47 :: (t₂ ++ 46 :: t₃), by simp, ?_⟩
  intro X hX
  obtain ⟨hminor, htake₃⟩ := hminor X hX
  obtain ⟨hmajor, htake₂⟩ := hmajor (46 :: (t₃ ++ X)) rfl
  obtain ⟨hspace, -⟩ := hspace (72 :: 84 :: 84 :: 80 :: 47 :: (t₂ ++ 46 :: (t₃ ++ X))) rfl
  rw [ht₂, ht₃]
  simp only [version, bind, List.append_assoc, List.cons_append, hspace, Option.bind_some, octet_cons,
    hmajor, hminor, htake₂, htake₃]

theorem number_local : Local number := by
  intro l rest n h
  simp only [number] at h
  split at h
  · cases h
  · rename_i hdigits
    obtain ⟨_, hskip, hn⟩ := Option.map_eq_some_iff.mp h
    obtain ⟨rfl, rfl⟩ := Prod.mk.inj hn
    obtain ⟨t, rfl, ht, hskip⟩ := skip_local hskip
    refine ⟨t, rfl, ?_⟩
    intro X hX
    obtain ⟨hskip, htake⟩ := hskip X hX
    rw [ht] at hdigits
    rw [number, htake, if_neg hdigits, hskip, ht, Option.map_some]

theorem requestLine_local {r r' : HTTPRequestLine} (h : requestLine r l = some (r', rest)) :
    ∃ t, l = t ++ rest ∧ ∀ X, X ≠ [] → requestLine r (t ++ X) = some (r', X) := by
  simp only [requestLine, bind, Option.bind_eq_some_iff] at h
  obtain ⟨_, hmethod, _, hsp₁, _, huri, ⟨v, _⟩, hversion, _, hsp₂, _, hcrlf, hr⟩ := h
  split at hr
  · cases hr
  · rename_i hvalid
    obtain ⟨rfl, rfl⟩ := Prod.mk.inj (Option.some.inj hr)
    obtain ⟨t₁, rfl, ht₁, hmethod⟩ := skip_local hmethod
    obtain ⟨t₂, rfl, -, hsp₁⟩ := skip_local hsp₁
    obtain ⟨t₃, rfl, ht₃, huri⟩ := skip_local huri
    obtain ⟨t₄, rfl, hversion'⟩ := version_local hversion
    obtain ⟨t₅, rfl, -, hsp₂⟩ := skip_local hsp₂
    obtain ⟨rfl, -⟩ := crlf_eq_some.mp hcrlf
    refine ⟨t₁ ++ (t₂ ++ (t₃ ++ (t₄ ++ (t₅ ++ [charCR, charLF])))), by simp, ?_⟩
    intro X hX
    have hcrlf := crlf_cons hX
    obtain ⟨hsp₂, -⟩ := hsp₂ (charCR :: charLF :: X) rfl
    have hversion := hversion' (t₅ ++ (charCR :: charLF :: X)) (by simp)
    obtain ⟨huri, htake₃⟩ := huri (t₄ ++ (t₅ ++ (charCR :: charLF :: X))) (by simp)
    obtain ⟨hsp₁, -⟩ := hsp₁ (t₃ ++ (t₄ ++ (t₅ ++ (charCR :: charLF :: X)))) (by simp)
    obtain ⟨hmethod, htake₁⟩ := hmethod (t₂ ++ (t₃ ++ (t₄ ++ (t₅ ++ (charCR :: charLF :: X))))) (by simp)
    rw [ht₁] at hvalid ⊢
    rw [ht₃]
    simp only [requestLine, bind, List.append_assoc, List.cons_append, List.nil_append, hmethod, Option.bind_some, hsp₁,
      huri, hversion, hsp₂, hcrlf, htake₁, htake₃, if_neg hvalid]

theorem responseLine_local {r r' : HTTPResponseLine} (h : responseLine r l = some (r', rest)) :
    ∃ t, l = t ++ rest ∧ ∀ X, X ≠ [] → responseLine r (t ++ X) = some (r', X) := by
  simp only [responseLine, bind, Option.bind_eq_some_iff] at h
  obtain ⟨⟨v, _⟩, hversion, _, hsp, ⟨n, _⟩, hcode, _, hreason, _, hcrlf, hr⟩ := h
  obtain ⟨rfl, rfl⟩ := Prod.mk.inj (Option.some.inj hr)
  obtain ⟨t₁, rfl, hversion'⟩ := version_local hversion
  obtain ⟨t₂, rfl, -, hsp⟩ := skip_local hsp
  obtain ⟨t₃, rfl, hcode'⟩ := number_local hcode
  obtain ⟨t₄, rfl, -, hreason⟩ := skip_local hreason
  obtain ⟨rfl, -⟩ := crlf_eq_some.mp hcrlf
  refine ⟨t₁ ++ (t₂ ++ (t₃ ++ (t₄ ++ [charCR, charLF]))), by simp, ?_⟩
  intro X hX
  have hcrlf := crlf_cons hX
  obtain ⟨hreason, -⟩ := hreason (charCR :: charLF :: X) rfl
  have hcode := hcode' (t₄ ++ (charCR :: charLF :: X)) (by simp)
  obtain ⟨hsp, -⟩ := hsp (t₃ ++ (t₄ ++ (charCR :: charLF :: X))) (by simp)
  have hversion := hversion' (t₂ ++ (t₃ ++ (t₄ ++ (charCR :: charLF :: X)))) (by simp)
  simp only [responseLine, bind, List.append_assoc, List.cons_append, List.nil_append, hversion, Option.bind_some, hsp,
    hcode, hreason, hcrlf]

/-! ## Header lines -/

/-- The text in front of `rest` is read by `fieldValue` as `v`, whatever line follows it. -/
def FieldLocal (s : FieldState) (l v rest : Str) : Prop :=
  ∃ t, l = t ++ rest ∧ ∀ d X, isSP d = false → fieldValue s (t ++ d :: X) = some (v, d :: X)

theorem FieldLocal.append {s s' : FieldState} {w u v : Str} (h : FieldLocal s' l v rest)
    (hstep : ∀ X, X ≠ [] → fieldValue s (w ++ X) = emit u (fieldValue s' X)) :
    FieldLocal s (w ++ l) (u ++ v) rest := by
  obtain ⟨t, rfl, ht⟩ := h
  refine ⟨w ++ t, by simp, ?_⟩
  intro d X hd
  rw [List.append_assoc, hstep _ (by simp), ht d X hd]
  rfl

theorem fieldValue_local {s : FieldState} {v : Str} (h : fieldValue s l = some (v, rest)) :
    FieldLocal s l v rest := by
  fun_induction fieldValue s l generalizing v with
  | case1 => cases h
  | case2 c l hsp ih => exact (ih h).append (w := [c]) (u := []) fun X _ => by simp [fieldValue, hsp, emit]
  | case3 l hsp ih => exact (ih h).append (w := [charCR]) (u := []) fun X _ => by simp [fieldValue, hsp, emit]
  | case4 c l hsp hcr ih =>
      obtain ⟨w, hw, rfl⟩ := emit_eq_some.mp h
      exact (ih hw).append (w := [c]) fun X _ => by simp [fieldValue, hsp, hcr]
  | case5 l ih => exact (ih h).append (w := [charCR]) (u := []) fun X _ => by simp [fieldValue, emit]
  | case6 c l hcr hsp ih =>
      exact (ih h).append (w := [c]) (u := []) fun X _ => by simp [fieldValue, hcr, hsp, emit]
  | case7 c l hcr hsp ih =>
      obtain ⟨w, hw, rfl⟩ := emit_eq_some.mp h
      exact (ih hw).append (w := [c]) fun X _ => by simp [fieldValue, hcr, hsp]
  | case8 => cases h
  | case9 => cases h
  | case10 c d l hlf hsp ih =>
      exact (ih h).append (w := [c, d]) (u := []) fun X _ => by simp_all [fieldValue, emit]
  | case11 c d l hlf hsp =>
      obtain ⟨rfl, rfl⟩ := Prod.mk.inj (Option.some.inj h)
      exact ⟨[c], rfl, fun d X hd => by simp_all [fieldValue]⟩
  | case12 c l hsp ih => exact (ih h).append (w := [c]) (u := []) fun X _ => by simp [fieldValue, hsp, emit]
  | case13 l hsp ih =>
      obtain ⟨w, hw, rfl⟩ := emit_eq_some.mp h
      exact (ih hw).append (w := [charCR]) fun X _ => by simp [fieldValue, hsp]
  | case14 c l hsp hcr ih =>
      obtain ⟨w, hw, rfl⟩ := emit_eq_some.mp h
      exact (ih hw).append (w := [c]) fun X _ => by simp [fieldValue, hsp, hcr]
  | case15 => cases h

theorem fieldLine_local {kv : Str × Str} (h : fieldLine l = some (kv, rest)) :
    ∃ t, l = t ++ rest ∧ t ≠ [] ∧ ∀ d X, isSP d = false → fieldLine (t ++ d :: X) = some (kv, d :: X) := by
  simp only [fieldLine, bind, Option.bind_eq_some_iff, octet_eq_some] at h
  obtain ⟨_, htoken, _, hsp, l₃, rfl, ⟨v, _⟩, hvalue, hkv⟩ := h
  obtain ⟨rfl, rfl⟩ := Prod.mk.inj (Option.some.inj hkv)
  obtain ⟨t₁, rfl, ht₁, htoken⟩ := skip_local htoken
  obtain ⟨t₂, rfl, -, hsp⟩ := skip_local hsp
  obtain ⟨t₃, rfl, hvalue'⟩ := fieldValue_local hvalue
  refine ⟨t₁ ++ (t₂ ++ 58 :: t₃), by simp, by simp, ?_⟩
  intro d X hd
  have hvalue := hvalue' d X hd
  obtain ⟨hsp, -⟩ := hsp (58 :: (t₃ ++ d :: X)) rfl
  obtain ⟨htoken, htake₁⟩ := htoken (t₂ ++ 58 :: (t₃ ++ d :: X)) (by simp)
  rw [ht₁]
  simp only [fieldLine, bind, List.append_assoc, List.cons_append, htoken, Option.bind_some, hsp, octet_cons,
    hvalue, htake₁]

/-- A header section ends with a CR LF, so it may be followed by anything, also by nothing. -/
theorem fields_local {kvs : List (Str × Str)} (h : FieldLines rest l kvs) :
    ∃ t, l = t ++ rest ∧ t ≠ [] ∧ ∀ X, FieldLines X (t ++ X) kvs := by
  induction h with
  | last hline =>
      obtain ⟨t, rfl, -, hlocal⟩ := fieldLine_local hline
      refine ⟨t ++ [charCR, charLF], by simp, by simp, ?_⟩
      intro X
      rw [List.append_assoc]
      exact .last (hlocal charCR (charLF :: X) (by decide))
  | @cons l l₁ kv kvs d hline hsp hcr hlines ih =>
      obtain ⟨t, rfl, -, hlocal⟩ := fieldLine_local hline
      obtain ⟨u, hu, hne, ih⟩ := ih
      obtain ⟨c, u, rfl⟩ := List.exists_cons_of_ne_nil hne
      obtain ⟨rfl, rfl⟩ := List.cons.inj hu
      refine ⟨t ++ d :: u, by simp, by simp, ?_⟩
      intro X
      rw [List.append_assoc]
      exact .cons (hlocal d (u ++ X) hsp) hsp hcr (ih X)

theorem headerSection_append {kvs : List (Str × Str)} (h : headerSection l = some (kvs, rest)) (X : Str) :
    headerSection (l ++ X) = some (kvs, rest ++ X) := by
  obtain ⟨t, ht, hne, hlocal⟩ := fields_local (fields_eq_some.mp h)
  have hdrop : (l ++ X).dropWhile isSP = l.dropWhile isSP ++ X := by
    rw [List.dropWhile_append, if_neg (by rw [ht]; simp [hne])]
  rw [headerSection, hdrop, ht, List.append_assoc]
  exact fields_eq_some.mpr (hlocal (rest ++ X))

/-! ## Bodies -/

theorem chunkHex_append {n : Nat} (h : chunkHex l = some (n, rest)) (X : Str) :
    chunkHex (l ++ X) = some (n, rest ++ X) := by
  obtain ⟨hne, rfl, hdrop, hrest⟩ := chunkHex_eq_some.mp h
  have hl : l ++ X = l.takeWhile isxdigit ++ charCR :: (charLF :: (rest ++ X)) := by
    conv_lhs => rw [← List.takeWhile_append_dropWhile (p := isxdigit) (l := l), hdrop]
    simp
  have hdigits : ∀ c ∈ l.takeWhile isxdigit, isxdigit c = true := fun c => List.mem_takeWhile_imp
  have htake : (l ++ X).takeWhile isxdigit = l.takeWhile isxdigit := by
    rw [hl]
    exact takeWhile_append hdigits (by decide)
  refine chunkHex_eq_some.mpr ⟨by rwa [htake], by rw [htake], ?_, by simp [hrest]⟩
  rw [hl]
  exact dropWhile_append hdigits (by decide)

theorem crlf_append (h : crlf l = some rest) (X : Str) : crlf (l ++ X) = some (rest ++ X) := by
  obtain ⟨rfl, hne⟩ := crlf_eq_some.mp h
  exact crlf_cons (by simp [hne])

theorem chunks_append {t : Str} (h : chunks l = some (t, rest)) (X : Str) :
    chunks (l ++ X) = some (t, rest ++ X) := by
  fun_induction chunks l generalizing t with
  | case1 => cases h
  | case2 l rest₁ hhex =>
      obtain ⟨rfl, rfl⟩ := Prod.mk.inj (Option.some.inj h)
      exact chunks_of_zero (chunkHex_append hhex X)
  | case3 => cases h
  | case4 l n rest₁ hhex hn rest₂ hcrlf ih =>
      obtain ⟨w, hw, rfl⟩ := emit_eq_some.mp h
      -- the CR LF behind the chunk shows that the chunk is complete
      have hlen : n ≤ rest₁.length := by
        by_contra hlt
        rw [List.drop_eq_nil_of_le (by omega)] at hcrlf
        cases hcrlf
      have hcrlf := crlf_append hcrlf X
      rw [← List.drop_append_of_le_length hlen] at hcrlf
      rw [chunks_of_pos (chunkHex_append hhex X) hn, hcrlf, Option.bind_some, ih hw,
        List.take_append_of_le_length hlen]
      rfl

/-- The octet behind the last CR LF has been looked at. -/
theorem chunks_rest {t : Str} (h : chunks l = some (t, rest)) : rest <:+ l ∧ rest ≠ [] := by
  have hhex : ∀ {n : Nat} {l rest : Str}, chunkHex l = some (n, rest) → rest <:+ l ∧ rest ≠ [] := by
    intro n l rest hhex
    obtain ⟨-, -, hdrop, hne⟩ := chunkHex_eq_some.mp hhex
    have hline : charCR :: charLF :: rest <:+ l := hdrop ▸ List.dropWhile_suffix _
    exact ⟨List.IsSuffix.trans ⟨[charCR, charLF], rfl⟩ hline, hne⟩
  fun_induction chunks l generalizing t with
  | case1 => cases h
  | case2 l rest₁ hzero =>
      obtain ⟨-, rfl⟩ := Prod.mk.inj (Option.some.inj h)
      exact hhex hzero
  | case3 => cases h
  | case4 l n rest₁ hchunk hn rest₂ hcrlf ih =>
      obtain ⟨w, hw, -⟩ := emit_eq_some.mp h
      obtain ⟨hsuffix, hne⟩ := ih hw
      have hdrop : rest₂ <:+ rest₁.drop n := (crlf_eq_some.mp hcrlf).1 ▸ ⟨[charCR, charLF], rfl⟩
      exact ⟨hsuffix.trans (hdrop.trans ((List.drop_suffix n rest₁).trans (hhex hchunk).1)), hne⟩

theorem content_append {n : Nat} {t : Str} (h : content n l = some (t, rest)) (X : Str) :
    content n (l ++ X) = some (t, rest ++ X) := by
  simp only [content] at h ⊢
  split at h
  · obtain ⟨rfl, rfl⟩ := Prod.mk.inj (Option.some.inj h)
    rw [if_pos ‹_›]
  · split at h
    · obtain ⟨rfl, rfl⟩ := Prod.mk.inj (Option.some.inj h)
      rw [if_neg ‹_›, if_pos (by rw [List.length_append]; omega), List.take_append_of_le_length ‹_›,
        List.drop_append_of_le_length (by omega)]
    · cases h

end Dodo.Network.Http.Grammar
