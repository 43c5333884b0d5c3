import Dodo.Network.Uri.Refine

/-!
# `Uri.Grammar` — the accepted texts

One inductive predicate for each reader: the texts that it accepts and the URI it gives for them. `parse_iff`
says that `parse` accepts exactly these texts. What is said below about accepted texts is proved by cases on
the grammar, and that a text is accepted by building it from the grammar.
-/

namespace Dodo.Network.URI

open Common Lib

variable {u u' : URI} {s l t r : Str} {c : Octet} {ok : Octet → Bool}

/-! ## Texts of a class -/

/-- The characters of a text: those of the class, and percent signs with hexadecimal digits. -/
theorem Text.mem (ht : Text ok t) (hc : c ∈ t) : ok c = true ∨ c = charPercent ∨ isxdigit c = true := by
  induction ht with
  | nil => cases hc
  | char h rest ih =>
      rcases List.mem_cons.mp hc with rfl | hc
      · exact .inl h
      · exact ih hc
  | percent ha hb rest ih =>
      simp only [List.mem_cons] at hc
      rcases hc with rfl | rfl | rfl | hc
      · exact .inr (.inl rfl)
      · exact .inr (.inr ha)
      · exact .inr (.inr hb)
      · exact ih hc

/-- A delimiter does not occur in the text in front of it. -/
theorem Text.notMem (ht : Text ok t) (hok : ok c = false) (hpercent : c ≠ charPercent) (hdigit : isxdigit c = false) :
    c ∉ t := by
  intro hc
  rcases ht.mem hc with h | h | h
  · exact absurd h (by simp [hok])
  · exact hpercent h
  · exact absurd h (by simp [hdigit])

theorem scan_self (hpercent : ok charPercent = false) (ht : Text ok t) : scan ok t = (t, []) := by
  have heq := scan_eq hpercent ht (r := []) trivial
  rwa [List.append_nil] at heq

theorem scan_delim (hpercent : ok charPercent = false) (ht : Text ok t) (hok : ok c = false) (hc : c ≠ charPercent) :
    scan ok (t ++ c :: r) = (t, c :: r) :=
  scan_eq hpercent ht ⟨hok, fun h => absurd h hc⟩

/-- What a scan finds: a text up to the end, or a text and the character that stops it. -/
theorem text_of_scan (h : scan ok l = (t, r)) : Text ok t ∧ l = t ++ r := by
  have htext : Text ok (scan ok l).1 := text_scan l
  have happend : (scan ok l).1 ++ (scan ok l).2 = l := scan_append l
  rw [h] at htext happend
  exact ⟨htext, happend.symm⟩

/-- Whether a text is of a class can be computed. -/
theorem Text.of_scan (h : scan ok t = (t, [])) : Text ok t := (text_of_scan h).1

theorem span_self (h : ∀ c ∈ t, ok c = true) : t.span ok = (t, []) := by
  rw [List.span_eq_takeWhile_dropWhile, List.takeWhile_eq_self_iff.mpr h, List.dropWhile_eq_nil_iff.mpr h]

theorem span_delim (h : ∀ d ∈ t, ok d = true) (hc : ok c = false) : (t ++ c :: r).span ok = (t, c :: r) := by
  rw [List.span_eq_takeWhile_dropWhile, List.takeWhile_append_of_pos h, List.dropWhile_append_of_pos h,
    List.takeWhile_cons_of_neg (by simp [hc]), List.dropWhile_cons_of_neg (by simp [hc]), List.append_nil]

theorem all_of_span (h : l.span ok = (t, r)) : (∀ c ∈ t, ok c = true) ∧ l = t ++ r := by
  rw [List.span_eq_takeWhile_dropWhile, Prod.mk.injEq] at h
  obtain ⟨rfl, rfl⟩ := h
  exact ⟨fun c hc => List.mem_takeWhile_imp hc, List.takeWhile_append_dropWhile.symm⟩

/-! ## The grammar -/

inductive IsQuery (u : URI) : Str → URI → Prop where
  | last {q : Str} (hq : Text verifyQueryFragmentChar q) : IsQuery u q { u with query_ := q }
  | fragment {q f : Str} (hq : Text verifyQueryFragmentChar q) (hne : q ≠ []) (hf : Text verifyQueryFragmentChar f) :
      IsQuery u (q ++ charHash :: f) { u with query_ := q, fragment_ := f }

inductive IsPath (u : URI) : Str → URI → Prop where
  | last {t : Str} (ht : Text verifyPathChar t) : IsPath u t { u with path_ := t }
  | query {t l : Str} {u' : URI} (ht : Text verifyPathChar t) (hne : t ≠ []) (hl : IsQuery { u with path_ := t } l u') :
      IsPath u (t ++ charQuestion :: l) u'
  | fragment {t f : Str} (ht : Text verifyPathChar t) (hne : t ≠ []) (hf : Text verifyQueryFragmentChar f) :
      IsPath u (t ++ charHash :: f) { u with path_ := t, fragment_ := f }

/-- Behind the colon of a port. -/
inductive IsPort (u : URI) : Str → URI → Prop where
  | last {d : Str} (hd : ∀ c ∈ d, isdigit c = true) : IsPort u d u
  | path {d r : Str} {c : Octet} {u' : URI} (hd : ∀ c ∈ d, isdigit c = true) (hne : d ≠ []) (hc : isdigit c = false)
      (hr : IsPath { u with port_ := d } (c :: r) u') : IsPort u (d ++ c :: r) u'

/-- Behind a host. -/
inductive IsHostEnd (u : URI) (host : Str) : Str → URI → Prop where
  | last : IsHostEnd u host [] u
  | port {r : Str} {u' : URI} (hr : IsPort { u with host_ := host } r u') : IsHostEnd u host (charColon :: r) u'
  | path {r : Str} {c : Octet} {u' : URI} (hc : c ≠ charColon) (hr : IsPath { u with host_ := host } (c :: r) u') :
      IsHostEnd u host (c :: r) u'

/-- Behind an opening bracket that ends `x`. -/
inductive IsTCP6 (u : URI) (x : Str) : Str → URI → Prop where
  | last {y : Str} (hy : ∀ c ∈ y, verifyTCP6Char c = true) : IsTCP6 u x y u
  | close {y r : Str} {u' : URI} (hy : ∀ c ∈ y, verifyTCP6Char c = true)
      (hr : IsHostEnd u (x ++ y ++ [charClose]) r u') : IsTCP6 u x (y ++ charClose :: r) u'

/-- A host that is followed by something, and what follows it. -/
inductive IsHostPart (u : URI) : Str → URI → Prop where
  | bracket {x r : Str} {u' : URI} (hx : Text verifyUserInfoHostChar x) (hr : IsTCP6 u (x ++ [charOpen]) r u') :
      IsHostPart u (x ++ charOpen :: r) u'
  | ended {x r : Str} {c : Octet} {u' : URI} (hx : Text verifyUserInfoHostChar x) (hne : x ≠ [])
      (hc : c = charColon ∨ c = charSlash) (hr : IsHostEnd u x (c :: r) u') : IsHostPart u (x ++ c :: r) u'

/-- Behind the `@`. -/
inductive IsHost (u : URI) : Str → URI → Prop where
  | last {x : Str} (hx : Text verifyUserInfoHostChar x) : IsHost u x u
  | part {l : Str} {u' : URI} (h : IsHostPart u l u') : IsHost u l u'

inductive IsAuthority (u : URI) : Str → URI → Prop where
  | last {x : Str} (hx : Text verifyUserInfoHostChar x) : IsAuthority u x { u with host_ := x }
  | userinfo {x r : Str} {u' : URI} (hx : Text verifyUserInfoHostChar x) (hne : x ≠ [])
      (hr : IsHost { u with userinfo_ := x } r u') : IsAuthority u (x ++ charAt :: r) u'
  | part {l : Str} {u' : URI} (h : IsHostPart u l u') : IsAuthority u l u'

/-- Behind the colon of the scheme. -/
inductive IsRest (u : URI) : Str → URI → Prop where
  | authority {l : Str} {u' : URI} (hl : IsAuthority u l u') : IsRest u (charSlash :: charSlash :: l) u'
  | path {l : Str} {u' : URI} (hhead : l.head? ≠ some charSlash) (hl : IsPath u l u') : IsRest u l u'

/-- A letter and characters of a scheme. -/
def IsScheme (t : Str) : Prop := ∃ c l, t = c :: l ∧ isalpha c = true ∧ ∀ d ∈ l, verifySchemeChar d = true

inductive IsURI : Str → URI → Prop where
  | nil : IsURI [] {}
  | scheme {t : Str} (ht : IsScheme t) : IsURI t {}
  | rest {t l : Str} {u : URI} (ht : IsScheme t) (hl : IsRest { scheme_ := t } l u) : IsURI (t ++ charColon :: l) u

/-! ## What the readers accept -/

theorem readFragment_iff : readFragment u l = some u' ↔ Text verifyQueryFragmentChar l ∧ u' = { u with fragment_ := l } := by
  unfold readFragment
  constructor
  · intro h
    split at h
    · obtain ⟨ht, hl⟩ := text_of_scan ‹_›
      rw [List.append_nil] at hl
      subst hl
      exact ⟨ht, (Option.some.inj h).symm⟩
    · cases h
  · rintro ⟨hl, rfl⟩
    rw [scan_self (by decide) hl]

theorem readQuery_iff : readQuery u l = some u' ↔ IsQuery u l u' := by
  unfold readQuery
  constructor
  · intro h
    split at h
    · obtain ⟨ht, hl⟩ := text_of_scan ‹_›
      rw [List.append_nil] at hl
      subst hl
      cases h
      exact .last ht
    · obtain ⟨ht, rfl⟩ := text_of_scan ‹_›
      split_ifs at h with hc
      obtain ⟨rfl, hne⟩ := hc
      obtain ⟨hf, rfl⟩ := readFragment_iff.mp h
      exact .fragment ht hne hf
  · intro h
    cases h with
    | last hq => rw [scan_self (by decide) hq]
    | fragment hq hne hf =>
        rw [scan_delim (by decide) hq (by decide) (by decide)]
        dsimp only
        rw [if_pos ⟨rfl, hne⟩, readFragment_iff]
        exact ⟨hf, rfl⟩

theorem readPath_iff : readPath u l = some u' ↔ IsPath u l u' := by
  unfold readPath
  constructor
  · intro h
    split at h
    · obtain ⟨ht, hl⟩ := text_of_scan ‹_›
      rw [List.append_nil] at hl
      subst hl
      cases h
      exact .last ht
    · obtain ⟨ht, rfl⟩ := text_of_scan ‹_›
      split_ifs at h with hne hquestion hhash
      · subst hquestion
        exact .query ht hne (readQuery_iff.mp h)
      · subst hhash
        obtain ⟨hf, rfl⟩ := readFragment_iff.mp h
        exact .fragment ht hne hf
  · intro h
    cases h with
    | last ht => rw [scan_self (by decide) ht]
    | query ht hne hl =>
        rw [scan_delim (by decide) ht (by decide) (by decide)]
        dsimp only
        rw [if_neg hne, if_pos rfl]
        exact readQuery_iff.mpr hl
    | fragment ht hne hf =>
        rw [scan_delim (by decide) ht (by decide) (by decide)]
        dsimp only
        rw [if_neg hne, if_neg (by decide), if_pos rfl, readFragment_iff]
        exact ⟨hf, rfl⟩

theorem readPort_iff : readPort u l = some u' ↔ IsPort u l u' := by
  unfold readPort
  constructor
  · intro h
    split at h
    · obtain ⟨hd, hl⟩ := all_of_span ‹_›
      rw [List.append_nil] at hl
      subst hl
      cases h
      exact .last hd
    · rename_i hspan
      obtain ⟨hd, rfl⟩ := all_of_span hspan
      split_ifs at h with hne
      exact .path hd hne (Parser.span_stops hspan) (readPath_iff.mp h)
  · intro h
    cases h with
    | last hd => rw [span_self hd]
    | path hd hne hc hr =>
        rw [span_delim hd hc]
        dsimp only
        rw [if_neg hne]
        exact readPath_iff.mpr hr

theorem readHostEnd_iff {host : Str} : readHostEnd u host l = some u' ↔ IsHostEnd u host l u' := by
  constructor
  · intro h
    unfold readHostEnd at h
    split at h
    · cases h
      exact .last
    · split_ifs at h with hc
      · subst hc
        exact .port (readPort_iff.mp h)
      · exact .path hc (readPath_iff.mp h)
  · intro h
    cases h with
    | last => rfl
    | port hr =>
        unfold readHostEnd
        dsimp only
        rw [if_pos rfl]
        exact readPort_iff.mpr hr
    | path hc hr =>
        unfold readHostEnd
        dsimp only
        rw [if_neg hc]
        exact readPath_iff.mpr hr

theorem readTCP6_iff {x : Str} : readTCP6 u x l = some u' ↔ IsTCP6 u x l u' := by
  unfold readTCP6
  constructor
  · intro h
    split at h
    · obtain ⟨hy, hl⟩ := all_of_span ‹_›
      rw [List.append_nil] at hl
      subst hl
      cases h
      exact .last hy
    · obtain ⟨hy, rfl⟩ := all_of_span ‹_›
      split_ifs at h with hc
      subst hc
      exact .close hy (readHostEnd_iff.mp h)
  · intro h
    cases h with
    | last hy => rw [span_self hy]
    | close hy hr =>
        rw [span_delim hy (by decide)]
        dsimp only
        rw [if_pos rfl]
        exact readHostEnd_iff.mpr hr

theorem readHostPart_sound {x : Str} (hx : Text verifyUserInfoHostChar x) (h : readHostPart u x c r = some u') :
    IsHostPart u (x ++ c :: r) u' := by
  unfold readHostPart at h
  split_ifs at h with hopen hdelim
  · subst hopen
    exact .bracket hx (readTCP6_iff.mp h)
  · exact .ended hx hdelim.2 hdelim.1 (readHostEnd_iff.mp h)

/-- Where a host ends, and that `readHostPart` goes on from there. -/
theorem IsHostPart.scan (h : IsHostPart u l u') :
    ∃ x c r, scan verifyUserInfoHostChar l = (x, c :: r) ∧ c ≠ charAt ∧ readHostPart u x c r = some u' := by
  cases h with
  | @bracket x r _ hx hr =>
      refine ⟨x, charOpen, r, scan_delim (by decide) hx (by decide) (by decide), by decide, ?_⟩
      unfold readHostPart
      rw [if_pos rfl]
      exact readTCP6_iff.mpr hr
  | @ended x r c _ hx hne hc hr =>
      refine ⟨x, c, r, scan_delim (by decide) hx ?_ ?_, ?_, ?_⟩
      · rcases hc with rfl | rfl <;> decide
      · rcases hc with rfl | rfl <;> decide
      · rcases hc with rfl | rfl <;> decide
      · unfold readHostPart
        rw [if_neg (by rcases hc with rfl | rfl <;> decide), if_pos ⟨hc, hne⟩]
        exact readHostEnd_iff.mpr hr

theorem readHost_iff : readHost u l = some u' ↔ IsHost u l u' := by
  unfold readHost
  constructor
  · intro h
    split at h
    · obtain ⟨hx, hl⟩ := text_of_scan ‹_›
      rw [List.append_nil] at hl
      subst hl
      cases h
      exact .last hx
    · obtain ⟨hx, rfl⟩ := text_of_scan ‹_›
      exact .part (readHostPart_sound hx h)
  · intro h
    cases h with
    | last hx => rw [scan_self (by decide) hx]
    | part h =>
        obtain ⟨x, c, r, hscan, -, hpart⟩ := h.scan
        rw [hscan]
        exact hpart

theorem readAuthority_iff : readAuthority u l = some u' ↔ IsAuthority u l u' := by
  unfold readAuthority
  constructor
  · intro h
    split at h
    · obtain ⟨hx, hl⟩ := text_of_scan ‹_›
      rw [List.append_nil] at hl
      subst hl
      cases h
      exact .last hx
    · obtain ⟨hx, rfl⟩ := text_of_scan ‹_›
      split_ifs at h with hat hne
      · subst hat
        exact .userinfo hx hne (readHost_iff.mp h)
      · exact .part (readHostPart_sound hx h)
  · intro h
    cases h with
    | last hx => rw [scan_self (by decide) hx]
    | userinfo hx hne hr =>
        rw [scan_delim (by decide) hx (by decide) (by decide)]
        dsimp only
        rw [if_pos rfl, if_neg hne]
        exact readHost_iff.mpr hr
    | part h =>
        obtain ⟨x, c, r, hscan, hat, hpart⟩ := h.scan
        rw [hscan]
        dsimp only
        rw [if_neg hat]
        exact hpart

theorem readRest_iff : readRest u l = some u' ↔ IsRest u l u' := by
  unfold readRest
  constructor
  · intro h
    split_ifs at h with hfirst hsecond
    · obtain ⟨r, rfl⟩ := List.head?_eq_some_iff.mp hfirst
      obtain ⟨r', rfl⟩ := List.head?_eq_some_iff.mp hsecond
      exact .authority (readAuthority_iff.mp h)
    · exact .path hfirst (readPath_iff.mp h)
  · intro h
    cases h with
    | authority hl =>
        rw [if_pos (List.head?_cons), List.tail_cons, if_pos (List.head?_cons)]
        exact readAuthority_iff.mpr hl
    | path hhead hl =>
        rw [if_neg hhead]
        exact readPath_iff.mpr hl

theorem IsScheme.all (h : IsScheme t) : ∀ c ∈ t, verifySchemeChar c = true := by
  obtain ⟨c, l, rfl, hc, hl⟩ := h
  intro d hd
  rcases List.mem_cons.mp hd with rfl | hd
  · exact Parser.isalpha_scheme hc
  · exact hl d hd

theorem IsScheme.head (h : IsScheme t) : (t ++ r).head?.all isalpha = true := by
  obtain ⟨c, l, rfl, hc, -⟩ := h
  exact hc

theorem read_iff : read s = some u ↔ IsURI s u := by
  unfold read
  constructor
  · intro h
    generalize hspan : s.span verifySchemeChar = tr at h
    obtain ⟨t, r⟩ := tr
    obtain ⟨hall, rfl⟩ := all_of_span hspan
    dsimp only at h
    split_ifs at h with halpha
    -- a first character that is a letter is one of the scheme
    have hscheme : t ++ r = [] ∨ IsScheme t := by
      cases t with
      | nil =>
          cases r with
          | nil => exact .inl rfl
          | cons c r =>
              have hc := Parser.isalpha_scheme (halpha)
              exact absurd hc (by simp [Parser.span_stops hspan])
      | cons c t =>
          refine .inr ⟨c, t, rfl, halpha, ?_⟩
          intro d hd
          exact hall d (List.mem_cons_of_mem c hd)
    cases r with
    | nil =>
        cases h
        rw [List.append_nil]
        rcases hscheme with hnil | hscheme
        · rw [List.append_nil] at hnil
          subst hnil
          exact .nil
        · exact .scheme hscheme
    | cons c r =>
        dsimp only at h
        split_ifs at h with hc
        subst hc
        rcases hscheme with hnil | hscheme
        · exact absurd hnil (by simp)
        · exact .rest hscheme (readRest_iff.mp h)
  · intro h
    cases h with
    | nil => rfl
    | scheme ht =>
        have hhead := ht.head (r := [])
        rw [List.append_nil] at hhead
        rw [span_self ht.all]
        dsimp only
        rw [if_pos hhead]
    | rest ht hl =>
        rw [span_delim ht.all (by decide)]
        dsimp only
        rw [if_pos ht.head, if_pos rfl]
        exact readRest_iff.mpr hl

/-- **`parse` accepts the texts of the grammar**, and the URI afterwards is the one of the grammar. -/
theorem parse_iff : (parse s).1 = true ∧ (parse s).2.2 = u ↔ IsURI s u := by
  rw [← read_iff, read_eq]
  by_cases h : (parse s).1 = true
  · simp [h]
  · simp [h]

end Dodo.Network.URI
