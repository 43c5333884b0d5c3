import Dodo.Network.Uri.RoundTrip

/-!
# `Uri.Reprint` — which accepted texts are printed again

The switch behind the loop of `parse` stores the text of the last component in four of the states. A text that
ends in another state is accepted, and what has been read of its last component is lost. `cutShort` says from
the text where that happens; every other accepted text is what `asString` prints.
-/

namespace Dodo.Network.URI

open Common Lib

variable {u u' v : URI} {s t l r x host : Str} {c : Octet}

/-! ## The texts that lose something -/

/-- The characters in front of the first `:`, `/` or `[`. -/
def inFront (c : Octet) : Bool := c ≠ charColon && c ≠ charSlash && c ≠ charOpen

/-- There is nothing, or a port. -/
def portOnly : Str → Bool
  | [] => true
  | c :: d => c = charColon && d.all isdigit

/-- The text of a host, and then `c` and `r`: an address in brackets, which may be unfinished, and then nothing or
    a port. -/
def hostOnly (c : Octet) (r : Str) : Bool :=
  if c = charOpen then
    match r.dropWhile (· ≠ charClose) with
    | [] => true
    | _ :: r' => portOnly r'
  else portOnly (c :: r)

/-- The text behind the two slashes is empty, or it ends in a host behind an `@`, in brackets, or in a port. -/
def authorityCut (a : Str) : Bool :=
  match a.dropWhile inFront with
  | [] => a = [] || a.contains charAt
  | c :: r => hostOnly c r

/-- The text has no colon, or what stands behind the scheme and `://` is cut short. -/
def cutShort (s : Str) : Bool :=
  match s.dropWhile (· ≠ charColon) with
  | [] => true
  | _ :: c :: c' :: a => c = charSlash && c' = charSlash && authorityCut a
  | _ => false

/-- No `?` or `#` that begins a query or a fragment is followed by an empty one. The first `#` begins the
    fragment, and the first `?` in front of it begins the query. -/
structure Filled (s : Str) : Prop where
  fragment {a b : Str} : s = a ++ charHash :: b → charHash ∉ a → b ≠ []
  query {a b : Str} : s = a ++ charQuestion :: b → charQuestion ∉ a → charHash ∉ a → b ≠ [] ∧ b.head? ≠ some charHash

/-- A text without these delimiters. -/
def Bare (t : Str) : Prop := charHash ∉ t ∧ charQuestion ∉ t

theorem Bare.append (ht : Bare t) (hr : Bare r) : Bare (t ++ r) := by
  constructor
  · simp [ht.1, hr.1]
  · simp [ht.2, hr.2]

theorem Bare.cons (ht : Bare t) (hc : c ≠ charHash ∧ c ≠ charQuestion) : Bare (c :: t) := by
  constructor
  · simp [ht.1, hc.1.symm]
  · simp [ht.2, hc.2.symm]

theorem bare_nil : Bare [] := ⟨List.not_mem_nil, List.not_mem_nil⟩

theorem Text.bare {ok : Octet → Bool} (ht : Text ok t) (hok : ok charHash = false ∧ ok charQuestion = false) : Bare t :=
  ⟨ht.notMem hok.1 (by decide) (by decide), ht.notMem hok.2 (by decide) (by decide)⟩

theorem notMem_of_class {ok : Octet → Bool} (ht : ∀ c ∈ t, ok c = true) (hok : ok c = false) : c ∉ t := by
  intro hc
  exact absurd (ht c hc) (by simp [hok])

theorem bare_of_class {ok : Octet → Bool} (ht : ∀ c ∈ t, ok c = true)
    (hok : ok charHash = false ∧ ok charQuestion = false) : Bare t :=
  ⟨notMem_of_class ht hok.1, notMem_of_class ht hok.2⟩

/-- What is in front of the path has no such delimiter. -/
theorem Filled.drop (h : Filled (t ++ l)) (ht : Bare t) : Filled l where
  fragment := by
    rintro a b rfl ha
    apply h.fragment (a := t ++ a)
    · rw [List.append_assoc]
    · simp [ht.1, ha]
  query := by
    rintro a b rfl ha ha'
    apply h.query (a := t ++ a)
    · rw [List.append_assoc]
    · simp [ht.2, ha]
    · simp [ht.1, ha']

theorem dropWhile_ne (hc : c ∉ t) : (t ++ c :: r).dropWhile (· ≠ c) = c :: r := by
  have ht : ∀ d ∈ t, (decide (d ≠ c)) = true := by
    intro d hd
    simp only [ne_eq, decide_not, Bool.not_eq_true', decide_eq_false_iff_not]
    rintro rfl
    exact hc hd
  rw [List.dropWhile_append_of_pos ht, List.dropWhile_cons_of_neg (by simp)]

theorem dropWhile_ne_self (hc : c ∉ t) : t.dropWhile (· ≠ c) = [] := by
  rw [List.dropWhile_eq_nil_iff]
  intro d hd
  simp only [ne_eq, decide_not, Bool.not_eq_true', decide_eq_false_iff_not]
  rintro rfl
  exact hc hd

/-! ## The path, the query and the fragment are kept -/

/-- `u` has the path, the query and the fragment that `l` shows, and else the components of `v`. -/
def Shows (v : URI) (l : Str) (u : URI) : Prop :=
  u = { v with path_ := u.path_, query_ := u.query_, fragment_ := u.fragment_ } ∧
    u.path_ ++ printQuery u.query_ u.fragment_ = l

theorem IsPath.shows (h : IsPath v l u) (hfilled : Filled l) (hquery : v.query_ = []) (hfragment : v.fragment_ = []) :
    Shows v l u := by
  cases h with
  | last ht => exact ⟨rfl, by simp [printQuery, hquery, hfragment]⟩
  | @query t l _ ht hne hl =>
      obtain ⟨hhash, hquestion⟩ := ht.bare (by decide)
      cases hl with
      | last hq =>
          have hqne := (hfilled.query rfl hquestion hhash).1
          exact ⟨rfl, by simp [printQuery, hqne, hfragment]⟩
      | @fragment q f hq hqne hf =>
          have hhash' : charHash ∉ q := hq.notMem (by decide) (by decide) (by decide)
          have hfne : f ≠ [] := by
            apply hfilled.fragment (a := t ++ charQuestion :: q)
            · simp
            · have hdiffer : charHash ≠ charQuestion := by decide
              simp [hhash, hhash', hdiffer]
          exact ⟨rfl, by simp [printQuery, hqne, hfne]⟩
  | @fragment t f ht hne hf =>
      have hhash : charHash ∉ t := ht.notMem (by decide) (by decide) (by decide)
      have hfne := hfilled.fragment rfl hhash
      exact ⟨rfl, by simp [printQuery, hfne, hquery]⟩

/-! ## The host and the port -/

/-- What is in front of the host. -/
def front (t x : Str) : Str := t ++ charColon :: charSlash :: charSlash :: printUserInfo x

theorem asString_front (h : u.host_ ≠ []) : u.asString = front u.scheme_ u.userinfo_ ++
    (u.host_ ++ (printPort u.port_ ++ (u.path_ ++ printQuery u.query_ u.fragment_))) := by
  rw [asString_host h, front]
  simp

theorem asString_hostless : asString { scheme_ := t, userinfo_ := x } = t ++ charColon :: printUserInfo x := by
  unfold asString printUserInfo
  by_cases hx : x = [] <;> simp [hx] <;> rfl

/-- Without a host, the slashes are not printed. -/
theorem asString_hostless_ne : asString { scheme_ := t, userinfo_ := x } ≠ front t x ++ l := by
  intro heq
  have hlength := congrArg List.length heq
  rw [asString_hostless, front] at hlength
  simp only [List.length_append, List.length_cons] at hlength
  omega

theorem IsPath.asString_eq {d : Str} (h : IsPath { scheme_ := t, userinfo_ := x, host_ := host, port_ := d } l u)
    (hhost : host ≠ []) (hfilled : Filled l) : u.asString = front t x ++ (host ++ (printPort d ++ l)) := by
  obtain ⟨hu, hl⟩ := h.shows hfilled rfl rfl
  rw [hu, asString_front hhost, hl]

/-- Behind a host, what is printed is the text, where it is not cut short. -/
theorem IsHostEnd.asString_iff (h : IsHostEnd { scheme_ := t, userinfo_ := x } host l u) (hhost : host ≠ [])
    (hfilled : Filled l) : u.asString = front t x ++ (host ++ l) ↔ portOnly l = false := by
  cases h with
  | last => exact iff_of_false asString_hostless_ne (by decide)
  | @port r _ hr =>
      cases hr with
      | last hd =>
          refine iff_of_false ?_ (by simpa [portOnly] using hd)
          intro heq
          have hlength := congrArg List.length heq
          rw [asString_front hhost] at hlength
          simp only [printPort, printQuery, List.length_append, List.length_cons] at hlength
          simp at hlength
      | @path d r c _ hd hne hc hr =>
          refine iff_of_true ?_ (by simp [portOnly, hc])
          have hbare : Bare (charColon :: d) := (bare_of_class hd (by decide)).cons (by decide)
          have hfilled' : Filled (c :: r) := Filled.drop (t := charColon :: d) hfilled hbare
          rw [hr.asString_eq hhost hfilled', printPort, if_pos hne]
          rfl
  | @path r c _ hc hr =>
      refine iff_of_true ?_ (by simp [portOnly, hc])
      rw [hr.asString_eq hhost hfilled]
      rfl

/-! ## The authority -/

theorem Text.inFront (hx : Text verifyUserInfoHostChar x) : ∀ c ∈ x, inFront c = true := by
  have hcolon : charColon ∉ x := hx.notMem (by decide) (by decide) (by decide)
  have hslash : charSlash ∉ x := hx.notMem (by decide) (by decide) (by decide)
  have hopen : charOpen ∉ x := hx.notMem (by decide) (by decide) (by decide)
  intro c hc
  simp only [URI.inFront, ne_eq, decide_not, Bool.and_eq_true, Bool.not_eq_true', decide_eq_false_iff_not]
  exact ⟨⟨fun h => hcolon (h ▸ hc), fun h => hslash (h ▸ hc)⟩, fun h => hopen (h ▸ hc)⟩

theorem dropWhile_inFront (hx : Text verifyUserInfoHostChar x) (hc : inFront c = false) :
    (x ++ c :: r).dropWhile inFront = c :: r := by
  rw [List.dropWhile_append_of_pos hx.inFront, List.dropWhile_cons_of_neg (by simp [hc])]

/-- What is printed of a host and what follows it is the text, where it is not cut short. -/
theorem IsHostPart.asString_iff (h : IsHostPart { scheme_ := t, userinfo_ := x } l u) (hfilled : Filled l) :
    ∃ c r, l.dropWhile inFront = c :: r ∧ (u.asString = front t x ++ l ↔ hostOnly c r = false) := by
  cases h with
  | @bracket y r _ hy hr =>
      refine ⟨charOpen, r, dropWhile_inFront hy (by decide), ?_⟩
      unfold hostOnly
      rw [if_pos rfl]
      cases hr with
      | last hz =>
          rw [dropWhile_ne_self (notMem_of_class hz (by decide))]
          exact iff_of_false asString_hostless_ne (by simp)
      | @close z r _ hz hr =>
          rw [dropWhile_ne (notMem_of_class hz (by decide))]
          have hbare : Bare (y ++ [charOpen] ++ z ++ [charClose]) :=
            (((hy.bare (by decide)).append (bare_nil.cons (by decide))).append (bare_of_class hz (by decide))).append
              (bare_nil.cons (by decide))
          have hassoc : y ++ charOpen :: (z ++ charClose :: r) = y ++ [charOpen] ++ z ++ [charClose] ++ r := by simp
          rw [hassoc] at hfilled ⊢
          exact hr.asString_iff (by simp) (hfilled.drop hbare)
  | @ended y r c _ hy hne hc hr =>
      have hstop : inFront c = false := by rcases hc with rfl | rfl <;> decide
      have hopen : c ≠ charOpen := by rcases hc with rfl | rfl <;> decide
      refine ⟨c, r, dropWhile_inFront hy hstop, ?_⟩
      unfold hostOnly
      rw [if_neg hopen]
      exact hr.asString_iff hne (hfilled.drop (hy.bare (by decide)))

theorem IsAuthority.asString_iff {a : Str} (h : IsAuthority { scheme_ := t } a u) (hfilled : Filled a) :
    u.asString = front t [] ++ a ↔ authorityCut a = false := by
  unfold authorityCut
  cases h with
  | last hy =>
      rw [List.dropWhile_eq_nil_iff.mpr hy.inFront]
      by_cases hnil : a = []
      · subst hnil
        exact iff_of_false asString_hostless_ne (by simp)
      · have hat : charAt ∉ a := hy.notMem (by decide) (by decide) (by decide)
        refine iff_of_true ?_ (by simp [hnil, hat])
        rw [asString_front hnil]
        simp [printPort, printQuery]
  | @userinfo y r _ hy hne hr =>
      have hfront : ∀ c ∈ y ++ [charAt], inFront c = true := by
        intro c hc
        rcases List.mem_append.mp hc with hc | hc
        · exact hy.inFront c hc
        · rw [List.mem_singleton.mp hc]
          decide
      have hassoc : y ++ charAt :: r = y ++ [charAt] ++ r := by simp
      have hfront' : front t [] ++ (y ++ charAt :: r) = front t y ++ r := by simp [front, printUserInfo, hne]
      rw [hfront']
      rw [hassoc, List.dropWhile_append_of_pos hfront]
      rw [hassoc] at hfilled
      cases hr with
      | last hz =>
          rw [List.dropWhile_eq_nil_iff.mpr hz.inFront]
          exact iff_of_false asString_hostless_ne (by simp)
      | part hr =>
          have hbare : Bare (y ++ [charAt]) := (hy.bare (by decide)).append (bare_nil.cons (by decide))
          obtain ⟨c, r', hdrop, hiff⟩ := hr.asString_iff (hfilled.drop hbare)
          rw [hdrop]
          exact hiff
  | part h =>
      obtain ⟨c, r, hdrop, hiff⟩ := h.asString_iff hfilled
      rw [hdrop]
      exact hiff

/-! ## Whole texts -/

theorem IsScheme.notMem_colon (h : IsScheme t) : charColon ∉ t := notMem_of_class h.all (by decide)

theorem IsURI.asString_iff (h : IsURI s u) (hfilled : Filled s) : u.asString = s ↔ cutShort s = false := by
  unfold cutShort
  cases h with
  | nil => decide
  | scheme ht =>
      rw [dropWhile_ne_self ht.notMem_colon]
      refine iff_of_false ?_ (by simp)
      rintro rfl
      exact absurd ht.notMem_colon (by decide)
  | @rest t l _ ht hl =>
      rw [dropWhile_ne ht.notMem_colon]
      have hbare : Bare (t ++ [charColon]) := (bare_of_class ht.all (by decide)).append (bare_nil.cons (by decide))
      cases hl with
      | @authority a _ ha =>
          have hfront : t ++ charColon :: charSlash :: charSlash :: a = front t [] ++ a := by simp [front, printUserInfo]
          have hbare' : Bare (front t []) := by
            have hslashes : Bare [charSlash, charSlash] := (bare_nil.cons (by decide)).cons (by decide)
            simpa [front, printUserInfo] using hbare.append hslashes
          rw [hfront] at hfilled ⊢
          rw [ha.asString_iff (hfilled.drop hbare')]
          simp
      | path hhead hl =>
          have hassoc : t ++ charColon :: l = t ++ [charColon] ++ l := by simp
          rw [hassoc] at hfilled
          obtain ⟨hu, hl⟩ := hl.shows (hfilled.drop hbare) rfl rfl
          rw [hu, asString_path rfl rfl rfl, hl]
          refine iff_of_true rfl ?_
          -- a second slash is looked at behind a first one only
          split
          · exact absurd ‹_› (by simp)
          · rename_i c c' a heq
            have hc : c ≠ charSlash := by
              rintro rfl
              cases heq
              exact hhead rfl
            simp [hc]
          · rfl

/-- **No text is lost**, where the accepted text is not cut short: it is what `asString` prints. -/
theorem asString_parse_iff (haccepted : (parse s).1 = true) (hfilled : Filled s) :
    (parse s).2.2.asString = s ↔ cutShort s = false :=
  (parse_iff.mp ⟨haccepted, rfl⟩).asString_iff hfilled

/-- Whether a text is filled is seen behind its first delimiters. -/
theorem Filled.of_dropWhile {b q : Str} (hhash : s.dropWhile (· ≠ charHash) = charHash :: b) (hb : b ≠ [])
    (hquestion : s.dropWhile (· ≠ charQuestion) = charQuestion :: q) (hq : q ≠ [] ∧ q.head? ≠ some charHash) :
    Filled s where
  fragment := by
    rintro a r rfl ha
    rw [dropWhile_ne ha] at hhash
    cases hhash
    exact hb
  query := by
    rintro a r rfl ha -
    rw [dropWhile_ne ha] at hquestion
    cases hquestion
    exact hq

theorem asString_parse_kept : (parse (lit "http://me@h:80/p?q#f")).2.2.asString = lit "http://me@h:80/p?q#f" := by
  have hfilled : Filled (lit "http://me@h:80/p?q#f") :=
    .of_dropWhile (b := lit "f") (q := lit "q#f") (by decide) (by decide) (by decide) (by decide)
  exact (asString_parse_iff (by decide) hfilled).mpr (by decide)

/-- The port of a text that ends with it is lost. -/
theorem asString_parse_port_lost : (parse (lit "http://h:80")).1 = true ∧ Filled (lit "http://h:80") ∧
    (parse (lit "http://h:80")).2.2.asString = lit "http://h" := by
  refine ⟨by decide, ⟨?_, ?_⟩, by decide⟩
  · intro a b h
    have hmem : charHash ∈ lit "http://h:80" := by simp [h]
    exact absurd hmem (by decide)
  · intro a b h
    have hmem : charQuestion ∈ lit "http://h:80" := by simp [h]
    exact absurd hmem (by decide)

end Dodo.Network.URI
