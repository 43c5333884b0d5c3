import Dodo.Network.Uri.Grammar

/-!
# `Uri.RoundTrip` — a printed URI is read back

A URI whose components are written with the characters of their classes is printed as a text of the grammar
whose URI is the one that was printed.
-/

namespace Dodo.Network.URI

open Common Lib

variable {u u' : URI} {t q f d r : Str} {c : Octet}

/-! ## Printing by components -/

/-- What is printed behind the host. -/
def printPort (d : Str) : Str := if d ≠ [] then charColon :: d else []

/-- What is printed in front of the host. -/
def printUserInfo (t : Str) : Str := if t ≠ [] then t ++ [charAt] else []

/-- What is printed behind the path. -/
def printQuery (q f : Str) : Str :=
  (if q ≠ [] then charQuestion :: q else []) ++ (if f ≠ [] then charHash :: f else [])

theorem asString_host (h : u.host_ ≠ []) : u.asString = u.scheme_ ++ charColon :: charSlash :: charSlash ::
    (printUserInfo u.userinfo_ ++ (u.host_ ++ (printPort u.port_ ++ (u.path_ ++ printQuery u.query_ u.fragment_)))) := by
  unfold asString printUserInfo printPort printQuery
  rw [if_pos h, if_pos h]
  simp only [List.append_assoc]
  rfl

theorem asString_path (hhost : u.host_ = []) (huserinfo : u.userinfo_ = []) (hport : u.port_ = []) :
    u.asString = u.scheme_ ++ charColon :: (u.path_ ++ printQuery u.query_ u.fragment_) := by
  unfold asString printQuery
  rw [if_neg (by simp [hhost]), if_neg (by simp [huserinfo]), if_neg (by simp [hhost]), if_neg (by simp [hport])]
  simp only [List.append_assoc]
  rfl

/-! ## What is printed belongs to the grammar -/

theorem isPath_print (ht : Text verifyPathChar t) (hne : t ≠ []) (hq : Text verifyQueryFragmentChar q)
    (hf : Text verifyQueryFragmentChar f) (hquery : u.query_ = []) (hfragment : u.fragment_ = []) :
    IsPath u (t ++ printQuery q f) { u with path_ := t, query_ := q, fragment_ := f } := by
  unfold printQuery
  by_cases hqnil : q = []
  · by_cases hfnil : f = []
    · have hlast := IsPath.last (u := u) ht
      rw [hquery, hfragment] at hlast
      simpa [hqnil, hfnil] using hlast
    · have hpath := IsPath.fragment (u := u) ht hne hf
      rw [hquery] at hpath
      simpa [hqnil, hfnil] using hpath
  · by_cases hfnil : f = []
    · have hpath := IsPath.query ht hne (IsQuery.last (u := { u with path_ := t }) hq)
      rw [hfragment] at hpath
      simpa [hqnil, hfnil] using hpath
    · have hpath := IsPath.query ht hne (IsQuery.fragment (u := { u with path_ := t }) hq hqnil hf)
      simpa [hqnil, hfnil] using hpath

/-- The port and the path behind a host. -/
theorem isHostEnd_print (host : Str) (hd : ∀ c ∈ d, isdigit c = true) (hport : u.port_ = [])
    (hpath : ∀ u : URI, u.query_ = [] → u.fragment_ = [] →
      IsPath u (charSlash :: r) { u with path_ := t, query_ := q, fragment_ := f })
    (hquery : u.query_ = []) (hfragment : u.fragment_ = []) :
    IsHostEnd u host (printPort d ++ charSlash :: r)
      { u with host_ := host, port_ := d, path_ := t, query_ := q, fragment_ := f } := by
  unfold printPort
  by_cases hnil : d = []
  · have hend := IsHostEnd.path (by decide) (hpath { u with host_ := host } hquery hfragment)
    simpa [hnil, hport] using hend
  · have hslash := hpath { u with host_ := host, port_ := d } hquery hfragment
    have hend := IsHostEnd.port (.path (u := { u with host_ := host }) hd hnil (by decide) hslash)
    simpa [hnil] using hend

/-- A host is not empty: characters of a name, or an address in brackets. -/
def IsHostName (t : Str) : Prop :=
  (t ≠ [] ∧ Text verifyUserInfoHostChar t) ∨ ∃ y, t = charOpen :: (y ++ [charClose]) ∧ ∀ c ∈ y, verifyTCP6Char c = true

theorem IsHostName.ne_nil (h : IsHostName t) : t ≠ [] := by
  rcases h with ⟨hne, -⟩ | ⟨y, rfl, -⟩
  · exact hne
  · exact List.cons_ne_nil _ _

theorem IsHostName.isHostPart {host : Str} (h : IsHostName host) (hc : c = charColon ∨ c = charSlash)
    (hend : IsHostEnd u host (c :: r) u') : IsHostPart u (host ++ c :: r) u' := by
  rcases h with ⟨hne, htext⟩ | ⟨y, rfl, hy⟩
  · exact .ended htext hne hc hend
  · have hpart := IsHostPart.bracket (u := u) .nil (.close (x := [charOpen]) hy (by simpa using hend))
    simpa using hpart

/-- What is printed behind a host begins with a colon or a slash. -/
theorem printPort_cons (d r : Str) : ∃ c l, printPort d ++ charSlash :: r = c :: l ∧ (c = charColon ∨ c = charSlash) := by
  unfold printPort
  by_cases hnil : d = []
  · exact ⟨charSlash, r, by simp [hnil], .inr rfl⟩
  · exact ⟨charColon, d ++ charSlash :: r, by simp [hnil], .inl rfl⟩

theorem isAuthority_print {host : Str} (ht : Text verifyUserInfoHostChar t) (hhost : IsHostName host)
    (hc : ∃ c l, r = c :: l ∧ (c = charColon ∨ c = charSlash)) (huserinfo : u.userinfo_ = [])
    (hend : IsHostEnd { u with userinfo_ := t } host r u') : IsAuthority u (printUserInfo t ++ (host ++ r)) u' := by
  obtain ⟨c, l, rfl, hc⟩ := hc
  unfold printUserInfo
  by_cases hnil : t = []
  · subst hnil
    rw [← huserinfo] at hend
    rw [if_neg (by simp), List.nil_append]
    exact .part (hhost.isHostPart hc hend)
  · rw [if_pos hnil, List.append_assoc]
    exact .userinfo ht hnil (.part (hhost.isHostPart hc hend))

/-! ## The round trip -/

/-- The components are written with the characters of their classes. A URI without a host has a path that does
    not begin with a slash. -/
structure WellFormed (u : URI) : Prop where
  scheme : IsScheme u.scheme_
  query : Text verifyQueryFragmentChar u.query_
  fragment : Text verifyQueryFragmentChar u.fragment_
  hierarchy :
    (IsHostName u.host_ ∧ Text verifyUserInfoHostChar u.userinfo_ ∧ (∀ c ∈ u.port_, isdigit c = true) ∧
      ∃ t, u.path_ = charSlash :: t ∧ Text verifyPathChar t) ∨
    (u.host_ = [] ∧ u.userinfo_ = [] ∧ u.port_ = [] ∧
      u.path_ ≠ [] ∧ u.path_.head? ≠ some charSlash ∧ Text verifyPathChar u.path_)

theorem WellFormed.isURI (h : WellFormed u) : IsURI u.asString u := by
  rcases h.hierarchy with ⟨hhost, huserinfo, hport, t, hpath, ht⟩ | ⟨hhost, huserinfo, hport, hne, hhead, ht⟩
  · rw [asString_host hhost.ne_nil, hpath, List.cons_append]
    have hslash : Text verifyPathChar (charSlash :: t) := .char (by decide) ht
    have hend := isHostEnd_print (u := { scheme_ := u.scheme_, userinfo_ := u.userinfo_ }) u.host_ hport rfl
      (fun v hquery hfragment => isPath_print hslash (by simp) h.query h.fragment hquery hfragment) rfl rfl
    have hrest := isAuthority_print (u := { scheme_ := u.scheme_ }) huserinfo hhost
      (printPort_cons u.port_ (t ++ printQuery u.query_ u.fragment_)) rfl hend
    have huri := IsURI.rest h.scheme (.authority hrest)
    rw [← hpath] at huri
    exact huri
  · rw [asString_path hhost huserinfo hport]
    have hpath := isPath_print (u := { scheme_ := u.scheme_ }) ht hne h.query h.fragment rfl rfl
    have hhead' : (u.path_ ++ printQuery u.query_ u.fragment_).head? ≠ some charSlash := by
      rw [List.head?_append_of_ne_nil _ hne]
      exact hhead
    have huri := IsURI.rest h.scheme (.path hhead' hpath)
    have hcomponents : { scheme_ := u.scheme_, path_ := u.path_, query_ := u.query_, fragment_ := u.fragment_ } = u := by
      cases u
      simp_all
    rwa [hcomponents] at huri

/-- **A printed URI is read back.** -/
theorem uri_parse_asString (h : WellFormed u) : (parse u.asString).1 = true ∧ (parse u.asString).2.2 = u :=
  parse_iff.mpr h.isURI

/-- A URI with all seven components. -/
def addressed : URI where
  scheme_ := lit "http"
  userinfo_ := lit "me"
  host_ := lit "[::1]"
  port_ := lit "80"
  path_ := lit "/a%20b"
  query_ := lit "k=v"
  fragment_ := lit "top"

theorem addressed_wellFormed : WellFormed addressed where
  scheme := ⟨104, lit "ttp", rfl, by decide, List.all_eq_true.mp (by decide)⟩
  query := .of_scan (by decide)
  fragment := .of_scan (by decide)
  hierarchy := by
    refine .inl ⟨.inr ⟨lit "::1", rfl, List.all_eq_true.mp (by decide)⟩, ?_,
      List.all_eq_true.mp (by decide), lit "a%20b", rfl, ?_⟩
    · exact .of_scan (by decide)
    · exact .of_scan (by decide)

theorem uri_parse_addressed : addressed.asString = lit "http://me@[::1]:80/a%20b?k=v#top" ∧
    (parse addressed.asString).1 = true ∧ (parse addressed.asString).2.2 = addressed :=
  ⟨by decide, uri_parse_asString addressed_wellFormed⟩

end Dodo.Network.URI
