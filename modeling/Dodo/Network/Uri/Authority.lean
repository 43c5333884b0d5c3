import Dodo.Network.Uri.Reprint

/-!
# `Uri.Authority` — which authorities are decomposed as RFC 3986 says

`rfcAuthority` is the decomposition of an authority into user information, host and port. `parse` decides at the
first `:`, `@` or `[`, and reads as a path what stands behind the digits of a port or behind a closing bracket,
even in front of the slash that ends the authority. `parse_authority_iff` says for which authorities the two agree.
-/

namespace Dodo.Network.URI

open Common Lib

variable {u v : URI} {s t l r x y a b rest host : Str} {c d : Octet} {inside : Bool}

/-! ## The decomposition -/

/-- The text in front of the last `@`, and the text behind it. -/
def lastAt : Str → Option (Str × Str)
  | [] => none
  | c :: l =>
    match lastAt l with
    | some (x, y) => some (c :: x, y)
    | none => if c = charAt then some ([], l) else none

/-- Whether the text behind `c` is in brackets. -/
def bracketed (inside : Bool) (c : Octet) : Bool :=
  if c = charOpen then true else if c = charClose then false else inside

/-- The text in front of the last colon outside brackets, and the text behind it. -/
def lastColon (inside : Bool) : Str → Option (Str × Str)
  | [] => none
  | c :: l =>
    match lastColon (bracketed inside c) l with
    | some (x, y) => some (c :: x, y)
    | none => if c = charColon ∧ inside = false then some ([], l) else none

/-- The host and the port. -/
def rfcHostPort (l : Str) : Str × Str := (lastColon false l).getD (l, [])

/-- The user information, the host and the port of an authority. -/
def rfcAuthority (a : Str) : Str × Str × Str :=
  match lastAt a with
  | some (x, l) => (x, rfcHostPort l)
  | none => ([], rfcHostPort a)

theorem lastAt_none (h : charAt ∉ l) : lastAt l = none := by
  induction l with
  | nil => rfl
  | cons c l ih =>
      have hc : c ≠ charAt := fun heq => h (heq ▸ List.mem_cons_self)
      unfold lastAt
      rw [ih (fun hl => h (List.mem_cons_of_mem c hl))]
      exact if_neg hc

theorem lastAt_append (h : charAt ∉ l) : lastAt (x ++ charAt :: l) = some (x, l) := by
  induction x with
  | nil =>
      rw [List.nil_append]
      unfold lastAt
      rw [lastAt_none h]
      exact if_pos rfl
  | cons c x ih =>
      rw [List.cons_append]
      unfold lastAt
      rw [ih]

/-- A character that is not a colon is no separator, nor is a colon in brackets. -/
theorem lastColon_cons (hc : c = charColon → inside = true) :
    lastColon inside (c :: l) = (lastColon (bracketed inside c) l).map (fun p => (c :: p.1, p.2)) := by
  conv_lhs => unfold lastColon
  cases lastColon (bracketed inside c) l with
  | none =>
      apply if_neg
      rintro ⟨heq, hinside⟩
      exact absurd (hc heq) (by simp [hinside])
  | some p => rfl

theorem lastColon_append (hx : ∀ c ∈ x, c ≠ charOpen ∧ c ≠ charClose ∧ (c = charColon → inside = true)) :
    lastColon inside (x ++ l) = (lastColon inside l).map (fun p => (x ++ p.1, p.2)) := by
  induction x with
  | nil => cases h : lastColon inside l <;> simp [h]
  | cons c x ih =>
      obtain ⟨hopen, hclose, hcolon⟩ := hx c List.mem_cons_self
      have hbracketed : bracketed inside c = inside := by simp [bracketed, hopen, hclose]
      rw [List.cons_append, lastColon_cons hcolon, hbracketed, ih (fun d hd => hx d (List.mem_cons_of_mem c hd)),
        Option.map_map]
      rfl

/-! ## Hosts as they are read -/

/-- The text of a name, and an address in brackets behind it. -/
inductive HostText : Str → Prop where
  | name {y : Str} (hy : Text verifyUserInfoHostChar y) : HostText y
  | bracket {y z : Str} (hy : Text verifyUserInfoHostChar y) (hz : ∀ c ∈ z, verifyTCP6Char c = true) :
      HostText (y ++ [charOpen] ++ z ++ [charClose])

theorem Text.noSeparator (hy : Text verifyUserInfoHostChar y) :
    ∀ c ∈ y, c ≠ charOpen ∧ c ≠ charClose ∧ (c = charColon → inside = true) := by
  have hopen : charOpen ∉ y := hy.notMem (by decide) (by decide) (by decide)
  have hclose : charClose ∉ y := hy.notMem (by decide) (by decide) (by decide)
  have hcolon : charColon ∉ y := hy.notMem (by decide) (by decide) (by decide)
  intro c hc
  exact ⟨fun h => hopen (h ▸ hc), fun h => hclose (h ▸ hc), fun h => absurd (h ▸ hc) hcolon⟩

/-- There is no separator in a host. -/
theorem HostText.lastColon_append (h : HostText host) :
    lastColon false (host ++ l) = (lastColon false l).map (fun p => (host ++ p.1, p.2)) := by
  cases h with
  | name hy => exact URI.lastColon_append hy.noSeparator
  | @bracket y z hy hz =>
      have hz' : ∀ c ∈ z, c ≠ charOpen ∧ c ≠ charClose ∧ (c = charColon → true = true) := by
        intro c hc
        exact ⟨Parser.ne_of_class (hz c hc) (by decide), Parser.ne_of_class (hz c hc) (by decide), fun _ => rfl⟩
      have hassoc : y ++ [charOpen] ++ z ++ [charClose] ++ l = y ++ (charOpen :: (z ++ charClose :: l)) := by simp
      rw [hassoc, URI.lastColon_append hy.noSeparator, lastColon_cons (by decide)]
      have hopen : bracketed false charOpen = true := rfl
      have hclose : bracketed true charClose = false := rfl
      rw [hopen, URI.lastColon_append hz', lastColon_cons (by decide), hclose]
      cases lastColon false l <;> simp

theorem HostText.notMem_at (h : HostText host) : charAt ∉ host := by
  cases h with
  | name hy => exact hy.notMem (by decide) (by decide) (by decide)
  | @bracket y z hy hz =>
      have hy' : charAt ∉ y := hy.notMem (by decide) (by decide) (by decide)
      have hz' : charAt ∉ z := notMem_of_class hz (by decide)
      have hopen : charAt ≠ charOpen := by decide
      have hclose : charAt ≠ charClose := by decide
      simp [hy', hz', hopen, hclose]

theorem HostText.rfcHostPort_eq (h : HostText host) : rfcHostPort host = (host, []) := by
  have hhost := h.lastColon_append (l := [])
  rw [List.append_nil] at hhost
  unfold rfcHostPort
  rw [hhost]
  rfl

theorem HostText.rfcHostPort_port (h : HostText host) (hd : ∀ c ∈ b, isdigit c = true) :
    rfcHostPort (host ++ charColon :: b) = (host, b) := by
  have hdigits : ∀ c ∈ b, c ≠ charOpen ∧ c ≠ charClose ∧ (c = charColon → false = true) := by
    intro c hc
    refine ⟨Parser.ne_of_class (hd c hc) (by decide), Parser.ne_of_class (hd c hc) (by decide), ?_⟩
    rintro rfl
    exact absurd (hd _ hc) (by decide)
  have hnone : lastColon false b = none := by
    have hb := URI.lastColon_append (l := []) hdigits
    rwa [List.append_nil] at hb
  have hcolon : lastColon false (charColon :: b) = some ([], b) := by
    have hbracketed : bracketed false charColon = false := rfl
    unfold lastColon
    rw [hbracketed, hnone]
    rfl
  unfold rfcHostPort
  rw [h.lastColon_append, hcolon]
  simp

/-! ## The slash that ends the authority -/

/-- A text `x` without the delimiter `d` and the character behind it, in a text whose first delimiter follows `a`. -/
theorem append_cons_split (hx : d ∉ x) (ha : d ∉ a) (h : x ++ c :: r = a ++ d :: rest) :
    (c = d ∧ x = a ∧ r = rest) ∨ (c ≠ d ∧ ∃ b, a = x ++ c :: b ∧ r = b ++ d :: rest) := by
  induction x generalizing a with
  | nil =>
      cases a with
      | nil =>
          cases h
          exact .inl ⟨rfl, rfl, rfl⟩
      | cons e a =>
          cases h
          exact .inr ⟨fun heq => ha (heq ▸ List.mem_cons_self), a, rfl, rfl⟩
  | cons e x ih =>
      cases a with
      | nil =>
          cases h
          exact absurd List.mem_cons_self hx
      | cons e' a =>
          rw [List.cons_append, List.cons_append, List.cons.injEq] at h
          obtain ⟨rfl, h⟩ := h
          have hx' : d ∉ x := fun hd => hx (List.mem_cons_of_mem e hd)
          have ha' : d ∉ a := fun hd => ha (List.mem_cons_of_mem e hd)
          rcases ih hx' ha' h with ⟨hc, rfl, rfl⟩ | ⟨hc, b, rfl, rfl⟩
          · exact .inl ⟨hc, rfl, rfl⟩
          · exact .inr ⟨hc, b, rfl, rfl⟩

/-- The path begins with the slash in front of `rest`. -/
def BeginsAt (u : URI) (rest : Str) : Prop := ∃ p, u.path_ = charSlash :: p ∧ p <+: rest

/-- A path that is read from a text begins with its first character. -/
theorem IsPath.begins (h : IsPath v (c :: r) u) : ∃ p q f, u = { v with path_ := c :: p, query_ := q, fragment_ := f } ∧
    p <+: r := by
  generalize hl : c :: r = l at h
  -- a path that is followed by something is not empty
  have hcons : ∀ {t l' : Str}, t ≠ [] → c :: r = t ++ l' → ∃ p, t = c :: p ∧ p <+: r := by
    intro t l' hne heq
    cases t with
    | nil => exact absurd rfl hne
    | cons e t =>
        cases heq
        exact ⟨t, rfl, List.prefix_append t l'⟩
  cases h with
  | last ht =>
      subst hl
      exact ⟨r, v.query_, v.fragment_, rfl, List.prefix_refl r⟩
  | query ht hne hq =>
      obtain ⟨p, rfl, hp⟩ := hcons hne hl
      cases hq with
      | last hq => exact ⟨p, _, v.fragment_, rfl, hp⟩
      | @fragment q f hq hqne hf => exact ⟨p, q, f, rfl, hp⟩
  | @fragment t f ht hne hf =>
      obtain ⟨p, rfl, hp⟩ := hcons hne hl
      exact ⟨p, v.query_, f, rfl, hp⟩

/-- What is read behind a host in front of the slash: nothing, a port, or the beginning of the path. -/
inductive Ending (v : URI) (host rest : Str) : Str → URI → Prop where
  | host {u : URI} (hu : u.userinfo_ = v.userinfo_ ∧ u.host_ = host ∧ u.port_ = v.port_) (hpath : BeginsAt u rest) :
      Ending v host rest [] u
  | port {b : Str} {u : URI} (hb : ∀ c ∈ b, isdigit c = true)
      (hu : u.userinfo_ = v.userinfo_ ∧ u.host_ = host ∧ u.port_ = b) (hpath : BeginsAt u rest) :
      Ending v host rest (charColon :: b) u
  | path {b : Str} {u : URI} (hb : portOnly b = false) (hpath : ¬ BeginsAt u rest) : Ending v host rest b u

theorem IsHostEnd.ending (h : IsHostEnd v host (b ++ charSlash :: rest) u) (hb : charSlash ∉ b) :
    Ending v host rest b u := by
  generalize hl : b ++ charSlash :: rest = l at h
  cases h with
  | last => exact absurd hl (by simp)
  | @port r _ hr =>
      rcases append_cons_split (x := []) List.not_mem_nil hb hl.symm with ⟨hc, -, -⟩ | ⟨-, b, rfl, rfl⟩
      · exact absurd hc (by decide)
      have hb' : charSlash ∉ b := fun h => hb (List.mem_cons_of_mem charColon h)
      generalize hl' : b ++ charSlash :: rest = l' at hr
      cases hr with
      | last hd =>
          have hslash : charSlash ∈ l' := by simp [← hl']
          exact absurd (hd _ hslash) (by decide)
      | @path d r c _ hd hne hc hr =>
          obtain ⟨p, q, f, rfl, hp⟩ := hr.begins
          rcases append_cons_split (notMem_of_class hd (by decide)) hb' hl'.symm with ⟨rfl, rfl, rfl⟩ | ⟨hne', b, rfl, rfl⟩
          · exact .port hd ⟨rfl, rfl, rfl⟩ ⟨p, rfl, hp⟩
          · refine .path (by simp [portOnly, hc]) ?_
            rintro ⟨p', heq, -⟩
            cases heq
            exact hne' rfl
  | @path r c _ hc hr =>
      obtain ⟨p, q, f, rfl, hp⟩ := hr.begins
      rcases append_cons_split (x := []) List.not_mem_nil hb hl.symm with ⟨rfl, rfl, rfl⟩ | ⟨hne, b, rfl, rfl⟩
      · exact .host ⟨rfl, rfl, rfl⟩ ⟨p, rfl, hp⟩
      · refine .path (by simp [portOnly, hc]) ?_
        rintro ⟨p', heq, -⟩
        cases heq
        exact hne rfl

/-! ## Where the two agree -/

/-- The text behind the first colon is a port, and what follows an address in brackets is nothing or a port. -/
def authorityOnly (a : Str) : Bool :=
  match a.dropWhile inFront with
  | [] => true
  | c :: r => hostOnly c r

/-- The authority is a host and what is behind it. -/
theorem IsHostPart.split (h : IsHostPart v (a ++ charSlash :: rest) u) (ha : charSlash ∉ a) :
    ∃ host b, a = host ++ b ∧ HostText host ∧ authorityOnly a = portOnly b ∧ Ending v host rest b u := by
  generalize hl : a ++ charSlash :: rest = l at h
  cases h with
  | @bracket y r _ hy hr =>
      have hslash : charSlash ∉ y := hy.notMem (by decide) (by decide) (by decide)
      rcases append_cons_split hslash ha hl.symm with ⟨hc, -, -⟩ | ⟨-, b, rfl, rfl⟩
      · exact absurd hc (by decide)
      have hb : charSlash ∉ b := fun h => ha (by simp [h])
      generalize hl' : b ++ charSlash :: rest = l' at hr
      cases hr with
      | last hz =>
          have hslash : charSlash ∈ l' := by simp [← hl']
          exact absurd (hz _ hslash) (by decide)
      | @close z r _ hz hr =>
          rcases append_cons_split (notMem_of_class hz (by decide)) hb hl'.symm with ⟨hc, -, -⟩ | ⟨-, b, rfl, rfl⟩
          · exact absurd hc (by decide)
          have hb' : charSlash ∉ b := fun h => hb (by simp [h])
          refine ⟨y ++ [charOpen] ++ z ++ [charClose], b, by simp, .bracket hy hz, ?_, hr.ending hb'⟩
          unfold authorityOnly hostOnly
          rw [dropWhile_inFront hy (by decide)]
          dsimp only
          rw [if_pos rfl, dropWhile_ne (notMem_of_class hz (by decide))]
  | @ended y r c _ hy hne hc hr =>
      have hslash : charSlash ∉ y := hy.notMem (by decide) (by decide) (by decide)
      unfold authorityOnly
      rcases append_cons_split hslash ha hl.symm with ⟨rfl, rfl, rfl⟩ | ⟨hne', b, rfl, rfl⟩
      · -- the slash ends the host
        refine ⟨y, [], by simp, .name hy, ?_, IsHostEnd.ending hr List.not_mem_nil⟩
        rw [List.dropWhile_eq_nil_iff.mpr hy.inFront]
        rfl
      · obtain rfl : c = charColon := hc.resolve_right hne'
        have hb : charSlash ∉ charColon :: b := fun h => ha (List.mem_append_right y h)
        refine ⟨y, charColon :: b, rfl, .name hy, ?_, IsHostEnd.ending hr hb⟩
        rw [dropWhile_inFront hy (by decide)]
        rfl

/-- `u` has this user information, the host and the port of `a`, and the path begins with the slash behind `a`. -/
structure Decomposed (u : URI) (x a rest : Str) : Prop where
  userinfo : u.userinfo_ = x
  hostPort : (u.host_, u.port_) = rfcHostPort a
  path : BeginsAt u rest
  /-- `a` is not divided further. -/
  notMem_at : charAt ∉ a

theorem IsHostPart.decomposed (h : IsHostPart { scheme_ := t, userinfo_ := x } (a ++ charSlash :: rest) u)
    (ha : charSlash ∉ a) (honly : authorityOnly a = true) : Decomposed u x a rest := by
  obtain ⟨host, b, rfl, hhost, hsplit, hending⟩ := h.split ha
  rw [hsplit] at honly
  cases hending with
  | host hu hpath =>
      obtain ⟨huserinfo, rfl, hport⟩ := hu
      rw [List.append_nil]
      exact ⟨huserinfo, by rw [hhost.rfcHostPort_eq, hport], hpath, hhost.notMem_at⟩
  | @port b _ hb hu hpath =>
      obtain ⟨huserinfo, rfl, rfl⟩ := hu
      have hat : charAt ∉ u.port_ := notMem_of_class hb (by decide)
      have hcolon : charAt ≠ charColon := by decide
      exact ⟨huserinfo, by rw [hhost.rfcHostPort_port hb], hpath, by simp [hhost.notMem_at, hat, hcolon]⟩
  | path hb hpath => exact absurd honly (by simp [hb])

theorem IsHostPart.not_beginsAt (h : IsHostPart v (a ++ charSlash :: rest) u) (ha : charSlash ∉ a)
    (honly : authorityOnly a = false) : ¬ BeginsAt u rest := by
  obtain ⟨host, b, rfl, hhost, hsplit, hending⟩ := h.split ha
  rw [hsplit] at honly
  cases hending with
  | host hu hpath => exact absurd honly (by decide)
  | port hb hu hpath => exact absurd honly (by simpa [portOnly] using hb)
  | path hb hpath => exact hpath

theorem IsAuthority.rfcAuthority_iff (h : IsAuthority { scheme_ := t } (a ++ charSlash :: rest) u) (ha : charSlash ∉ a) :
    (u.userinfo_, u.host_, u.port_) = rfcAuthority a ∧ BeginsAt u rest ↔ authorityOnly a = true := by
  generalize hl : a ++ charSlash :: rest = l at h
  -- a text of names only has no slash
  have hno : ∀ {y b : Str}, Text verifyUserInfoHostChar y → y ≠ b ++ charSlash :: rest := by
    rintro y b hy rfl
    exact absurd (List.mem_append_right b List.mem_cons_self) (hy.notMem (by decide) (by decide) (by decide))
  cases h with
  | last hy => exact absurd hl.symm (hno hy)
  | @userinfo y r _ hy hne hr =>
      have hslash : charSlash ∉ y := hy.notMem (by decide) (by decide) (by decide)
      rcases append_cons_split hslash ha hl.symm with ⟨hc, -, -⟩ | ⟨-, b, rfl, rfl⟩
      · exact absurd hc (by decide)
      have hb : charSlash ∉ b := fun h => ha (by simp [h])
      have honly : authorityOnly (y ++ charAt :: b) = authorityOnly b := by
        unfold authorityOnly
        rw [List.dropWhile_append_of_pos hy.inFront, List.dropWhile_cons_of_pos (by decide)]
      rw [honly]
      generalize hl' : b ++ charSlash :: rest = l' at hr
      cases hr with
      | last hz => exact absurd hl'.symm (hno hz)
      | part h =>
          subst hl'
          constructor
          · rintro ⟨-, hbegins⟩
            by_contra hnot
            exact h.not_beginsAt hb (Bool.eq_false_iff.mpr hnot) hbegins
          · intro honly
            obtain ⟨huserinfo, hhostPort, hpath, hat⟩ := h.decomposed hb honly
            refine ⟨?_, hpath⟩
            unfold rfcAuthority
            rw [lastAt_append hat, huserinfo, hhostPort]
  | part h =>
      subst hl
      constructor
      · rintro ⟨-, hbegins⟩
        by_contra hnot
        exact h.not_beginsAt ha (Bool.eq_false_iff.mpr hnot) hbegins
      · intro honly
        obtain ⟨huserinfo, hhostPort, hpath, hat⟩ := h.decomposed ha honly
        refine ⟨?_, hpath⟩
        unfold rfcAuthority
        rw [lastAt_none hat, huserinfo, hhostPort]

/-- **No host confusion**, where the text behind the first colon of the authority is a port and nothing but a port
    follows an address in brackets: the components are those of RFC 3986, and the path begins with the slash. -/
theorem parse_authority_iff (hs : s = t ++ lit "://" ++ a ++ lit "/" ++ rest) (ht : charColon ∉ t) (ha : charSlash ∉ a)
    (haccepted : (parse s).1 = true) :
    ((parse s).2.2.userinfo_, (parse s).2.2.host_, (parse s).2.2.port_) = rfcAuthority a ∧ BeginsAt (parse s).2.2 rest ↔
      authorityOnly a = true := by
  have huri : IsURI s (parse s).2.2 := parse_iff.mp ⟨haccepted, rfl⟩
  have hform : s = t ++ charColon :: charSlash :: charSlash :: (a ++ charSlash :: rest) := by
    rw [hs]
    simp only [List.append_assoc]
    rfl
  generalize (parse s).2.2 = u at huri
  cases huri with
  | nil => exact absurd hform (by simp)
  | scheme ht' => exact absurd (by simp [hform]) ht'.notMem_colon
  | @rest t' l _ ht' hl =>
      rcases append_cons_split ht'.notMem_colon ht hform with ⟨-, rfl, rfl⟩ | ⟨hc, -⟩
      · generalize hl' : charSlash :: charSlash :: (a ++ charSlash :: rest) = l at hl
        cases hl with
        | authority hl =>
            cases hl'
            exact hl.rfcAuthority_iff ha
        | path hhead hl =>
            subst hl'
            exact absurd rfl hhead
      · exact absurd rfl hc

/-- An authority with all three parts. -/
theorem parse_authority_full :
    ((parse (lit "http://me@[::1]:80/p")).2.2.userinfo_, (parse (lit "http://me@[::1]:80/p")).2.2.host_,
      (parse (lit "http://me@[::1]:80/p")).2.2.port_) = rfcAuthority (lit "me@[::1]:80") ∧
      BeginsAt (parse (lit "http://me@[::1]:80/p")).2.2 (lit "p") :=
  (parse_authority_iff (t := lit "http") (a := lit "me@[::1]:80") rfl (by decide) (by decide) (by decide)).mpr (by decide)

/-- The user information with a colon is read as the host and the port, and the host as the path. -/
theorem parse_authority_confused :
    lit "http://user:80@host/" = lit "http" ++ lit "://" ++ lit "user:80@host" ++ lit "/" ++ [] ∧
    (parse (lit "http://user:80@host/")).1 = true ∧
    rfcAuthority (lit "user:80@host") = (lit "user:80", lit "host", []) ∧
    (parse (lit "http://user:80@host/")).2.2 =
      { scheme_ := lit "http", host_ := lit "user", port_ := lit "80", path_ := lit "@host/" } := by
  decide

end Dodo.Network.URI
