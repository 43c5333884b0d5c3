import Dodo.Network.Http.RoundTrip

/-!
# `Http.LineGrammar` — the request lines that are accepted

A request line cut into its pieces (`LineText`), and two conditions on the pieces. `Readable` is what the automata of
`HTTPRequestLine` and `HTTPVersion` ask for: any white space may stand in front of the version, line breaks with it,
the uri may be missing, and so may the digits of the version. `WellFormed` is the grammar of a request line. The
pieces of a readable line are determined by the text, so that a text which is readable and not well formed is
accepted without being a request line.
-/

namespace Dodo.Network.Http

open Common Lib Lib.Comp

namespace Grammar

open HTTPMessage

variable {p : Octet → Bool} {t l rest : Str}

/-! ## Runs of octets -/

/-- The text goes on with an octet that is not one of `p`. -/
def Ends (p : Octet → Bool) (l : Str) : Prop := ∃ d l', l = d :: l' ∧ p d = false

theorem Ends.skip (h : Ends p rest) (ht : ∀ c ∈ t, p c = true) : skip p (t ++ rest) = some rest := by
  obtain ⟨d, l', rfl, hd⟩ := h
  exact skip_append ht hd

theorem Ends.takeWhile (h : Ends p rest) (ht : ∀ c ∈ t, p c = true) : (t ++ rest).takeWhile p = t := by
  obtain ⟨d, l', rfl, hd⟩ := h
  exact takeWhile_append ht hd

theorem Ends.append_inj {t' rest' : Str} (hrest : Ends p rest) (hrest' : Ends p rest') (ht : ∀ c ∈ t, p c = true)
    (ht' : ∀ c ∈ t', p c = true) (h : t ++ rest = t' ++ rest') : t = t' ∧ rest = rest' := by
  have htake := congrArg (List.takeWhile p) h
  rw [hrest.takeWhile ht, hrest'.takeWhile ht'] at htake
  subst htake
  exact ⟨rfl, List.append_cancel_left h⟩

/-- A run may be empty: what it consists of then does not matter for the text behind it. -/
theorem Ends.append {q : Octet → Bool} (hrest : Ends p rest) (ht : ∀ c ∈ t, q c = true)
    (hpq : ∀ c, q c = true → p c = false) : Ends p (t ++ rest) := by
  cases t with
  | nil => exact hrest
  | cons d t => exact ⟨d, _, rfl, hpq d (ht d (List.mem_cons_self ..))⟩

theorem ends_of_skip (h : skip p l = some rest) : Ends p rest ∧ l = l.takeWhile p ++ rest := by
  obtain ⟨rfl, hne⟩ := skip_eq_some.mp h
  obtain ⟨d, l', hcons⟩ := List.exists_cons_of_ne_nil hne
  have hhead := List.head_dropWhile_not p hne
  refine ⟨⟨d, l', hcons, ?_⟩, List.takeWhile_append_dropWhile.symm⟩
  simpa [hcons] using hhead

theorem isspace_of_isSP {c : Octet} (h : isSP c = true) : isspace c = true := by
  have hc : c = charSP ∨ c = charHT := by simpa [isSP] using h
  rcases hc with rfl | rfl <;> decide

theorem isdigit_of_isSP {c : Octet} (h : isSP c = true) : isdigit c = false := by
  have hc : c = charSP ∨ c = charHT := by simpa [isSP] using h
  rcases hc with rfl | rfl <;> decide

theorem isSP_of_nonspace {c : Octet} (h : nonspace c = true) : isSP c = false := by
  rw [Bool.eq_false_iff]
  intro hsp
  simp [nonspace, isspace_of_isSP hsp] at h

/-! ## Versions -/

/-- The text of a version behind the white space `space`. -/
def versionText (space major minor : Str) : Str := space ++ (lit "HTTP/" ++ (major ++ (lit "." ++ minor)))

theorem versionText_append {space major minor : Str} : versionText space major minor ++ rest =
    space ++ 72 :: 84 :: 84 :: 80 :: 47 :: (major ++ 46 :: (minor ++ rest)) := by
  simp [versionText, lit]

theorem version_eq_some {v v' : HTTPVersion} : version v l = some (v', rest) ↔ ∃ space major minor,
    (∀ c ∈ space, isspace c = true) ∧ (∀ c ∈ major, isdigit c = true) ∧ (∀ c ∈ minor, isdigit c = true) ∧
      Ends isdigit rest ∧ l = versionText space major minor ++ rest ∧
      v' = { major_ := extractUInt major v.major_, minor_ := extractUInt minor v.minor_ } := by
  constructor
  · intro h
    simp only [version, Option.bind_eq_bind, Option.bind_eq_some_iff, octet_eq_some] at h
    obtain ⟨_, hspace, _, rfl, _, rfl, _, rfl, _, rfl, l₁, rfl, _, hmajor, l₃, rfl, l₄, hminor, hv⟩ := h
    obtain ⟨rfl, rfl⟩ := Prod.mk.inj (Option.some.inj hv)
    obtain ⟨hends, hl₃⟩ := ends_of_skip hminor
    refine ⟨l.takeWhile isspace, l₁.takeWhile isdigit, l₃.takeWhile isdigit, fun _ => List.mem_takeWhile_imp,
      fun _ => List.mem_takeWhile_imp, fun _ => List.mem_takeWhile_imp, hends, ?_, rfl⟩
    calc l = l.takeWhile isspace ++ 72 :: 84 :: 84 :: 80 :: 47 :: l₁ := (ends_of_skip hspace).2
      _ = l.takeWhile isspace ++ 72 :: 84 :: 84 :: 80 :: 47 :: (l₁.takeWhile isdigit ++ 46 :: l₃) := by
        rw [← (ends_of_skip hmajor).2]
      _ = l.takeWhile isspace ++
          72 :: 84 :: 84 :: 80 :: 47 :: (l₁.takeWhile isdigit ++ 46 :: (l₃.takeWhile isdigit ++ l₄)) := by
        rw [← hl₃]
      _ = _ := versionText_append.symm
  · rintro ⟨space, major, minor, hspace, hmajor, hminor, hends, rfl, rfl⟩
    rw [versionText_append, version, skip_append hspace (by decide)]
    simp only [Option.bind_eq_bind, Option.bind_some, octet_cons]
    rw [skip_append hmajor (by decide)]
    simp only [Option.bind_some, octet_cons]
    rw [hends.skip hminor, takeWhile_append hmajor (by decide), hends.takeWhile hminor]
    rfl

end Grammar

/-! ## Request lines -/

/-- A request line in pieces. -/
structure LineText where
  method : Method
  blanks : Str    -- between the method and the uri
  uri : Str
  space : Str     -- in front of the version
  major : Str
  minor : Str
  trailing : Str

namespace LineText

open HTTPMessage

def text (t : LineText) : Str :=
  t.method.methodAsString ++ (t.blanks ++ (t.uri ++ (Grammar.versionText t.space t.major t.minor ++
    (t.trailing ++ [charCR, charLF]))))

/-- The line that is read. -/
def line (t : LineText) : HTTPRequestLine where
  method_ := t.method
  request_uri_ := t.uri
  http_version_ := { major_ := extractUInt t.major 1, minor_ := extractUInt t.minor 0 }

/-- The grammar of a request line. -/
structure WellFormed (t : LineText) : Prop where
  method_valid : t.method ≠ .meINVALID
  blanks_ne : t.blanks ≠ []
  blanks_sp : ∀ c ∈ t.blanks, isSP c = true
  uri_ne : t.uri ≠ []
  uri_nonspace : ∀ c ∈ t.uri, isspace c = false
  space_ne : t.space ≠ []
  space_sp : ∀ c ∈ t.space, isSP c = true
  major_ne : t.major ≠ []
  major_digits : ∀ c ∈ t.major, isdigit c = true
  major_lt : decVal t.major < 2 ^ 32
  minor_ne : t.minor ≠ []
  minor_digits : ∀ c ∈ t.minor, isdigit c = true
  minor_lt : decVal t.minor < 2 ^ 32
  trailing_sp : ∀ c ∈ t.trailing, isSP c = true

/-- What the automata ask for. The blanks end where the uri begins; if there is none, the white space in front of
    the version follows the method and its blanks, and begins with something else than a blank. -/
structure Readable (t : LineText) : Prop where
  method_valid : t.method ≠ .meINVALID
  blanks_sp : ∀ c ∈ t.blanks, isSP c = true
  blanks_ne : t.uri ≠ [] → t.blanks ≠ []
  uri_nonspace : ∀ c ∈ t.uri, Grammar.nonspace c = true
  space_ne : t.space ≠ []
  space_isspace : ∀ c ∈ t.space, isspace c = true
  space_head : t.uri = [] → ∀ c ∈ t.space.head?, isSP c = false
  major_digits : ∀ c ∈ t.major, isdigit c = true
  minor_digits : ∀ c ∈ t.minor, isdigit c = true
  trailing_sp : ∀ c ∈ t.trailing, isSP c = true

variable {t t' : LineText} {rest rest' : Str}

theorem WellFormed.readable (h : t.WellFormed) : t.Readable where
  method_valid := h.method_valid
  blanks_sp := h.blanks_sp
  blanks_ne _ := h.blanks_ne
  uri_nonspace c hc := by simp [Grammar.nonspace, h.uri_nonspace c hc]
  space_ne := h.space_ne
  space_isspace c hc := Grammar.isspace_of_isSP (h.space_sp c hc)
  space_head huri := absurd huri h.uri_ne
  major_digits := h.major_digits
  minor_digits := h.minor_digits
  trailing_sp := h.trailing_sp

section Ends

open Grammar

/-! What follows each piece. -/

theorem Readable.ends_minor (h : t.Readable) : Ends isdigit (t.trailing ++ charCR :: charLF :: rest) :=
  Ends.append ⟨charCR, _, rfl, by decide⟩ h.trailing_sp fun _ => isdigit_of_isSP

theorem Readable.ends_uri (h : t.Readable) : Ends nonspace (versionText t.space t.major t.minor ++ rest) := by
  obtain ⟨d, space, hspace⟩ := List.exists_cons_of_ne_nil h.space_ne
  have hd := h.space_isspace d (by simp [hspace])
  exact ⟨d, _, by rw [versionText, hspace]; rfl, by simp [nonspace, hd]⟩

theorem Readable.ends_blanks (h : t.Readable) :
    Ends isSP (t.uri ++ (versionText t.space t.major t.minor ++ rest)) := by
  by_cases huri : t.uri = []
  · obtain ⟨d, space, hspace⟩ := List.exists_cons_of_ne_nil h.space_ne
    exact ⟨d, _, by rw [huri, versionText, hspace]; rfl, h.space_head huri d (by simp [hspace])⟩
  · obtain ⟨d, uri, hcons⟩ := List.exists_cons_of_ne_nil huri
    exact ⟨d, _, by rw [hcons]; rfl, isSP_of_nonspace (h.uri_nonspace d (by simp [hcons]))⟩

theorem Readable.ends_method (h : t.Readable) :
    Ends nonspace (t.blanks ++ (t.uri ++ (versionText t.space t.major t.minor ++ rest))) := by
  by_cases huri : t.uri = []
  · rw [huri]
    refine Ends.append h.ends_uri h.blanks_sp fun c hc => ?_
    simp [nonspace, isspace_of_isSP hc]
  · obtain ⟨d, blanks, hcons⟩ := List.exists_cons_of_ne_nil (h.blanks_ne huri)
    have hd := isspace_of_isSP (h.blanks_sp d (by simp [hcons]))
    exact ⟨d, _, by rw [hcons]; rfl, by simp [nonspace, hd]⟩

theorem text_append : t.text ++ rest = t.method.methodAsString ++ (t.blanks ++ (t.uri ++
    (versionText t.space t.major t.minor ++ (t.trailing ++ charCR :: charLF :: rest)))) := by
  simp [text]

/-- The pieces of a readable line are determined by the text. -/
theorem Readable.unique (h : t.Readable) (h' : t'.Readable) (htext : t.text ++ rest = t'.text ++ rest') : t = t' := by
  rw [text_append, text_append] at htext
  obtain ⟨hmethod, htext⟩ := h.ends_method.append_inj h'.ends_method Method.nonspace_methodAsString
    Method.nonspace_methodAsString htext
  obtain ⟨hblanks, htext⟩ := h.ends_blanks.append_inj h'.ends_blanks h.blanks_sp h'.blanks_sp htext
  obtain ⟨huri, htext⟩ := h.ends_uri.append_inj h'.ends_uri h.uri_nonspace h'.uri_nonspace htext
  rw [versionText_append, versionText_append] at htext
  obtain ⟨hspace, htext⟩ := Ends.append_inj (p := isspace) ⟨72, _, rfl, by decide⟩ ⟨72, _, rfl, by decide⟩
    h.space_isspace h'.space_isspace htext
  simp only [List.cons.injEq, true_and] at htext
  obtain ⟨hmajor, htext⟩ := Ends.append_inj (p := isdigit) ⟨46, _, rfl, by decide⟩ ⟨46, _, rfl, by decide⟩
    h.major_digits h'.major_digits htext
  obtain ⟨hminor, htext⟩ := h.ends_minor.append_inj h'.ends_minor h.minor_digits h'.minor_digits
    (List.cons.inj htext).2
  obtain ⟨htrailing, -⟩ := Ends.append_inj (p := isSP) ⟨charCR, _, rfl, by decide⟩ ⟨charCR, _, rfl, by decide⟩
    h.trailing_sp h'.trailing_sp htext
  have hsame : t.method = t'.method := by
    rw [← Method.methodFromString_methodAsString (m := t.method), hmethod, Method.methodFromString_methodAsString]
  cases t
  cases t'
  simp_all

/-- **The request lines that are accepted** are the readable ones. -/
theorem requestLine_eq_some {l : Str} {r : HTTPRequestLine} : requestLine {} l = some (r, rest) ↔
    ∃ t : LineText, t.Readable ∧ l = t.text ++ rest ∧ rest ≠ [] ∧ r = t.line := by
  constructor
  · intro h
    simp only [requestLine, Option.bind_eq_bind, Option.bind_eq_some_iff] at h
    obtain ⟨l₁, hmethod, l₂, hblanks, l₃, huri, ⟨v, l₄⟩, hversion, l₅, htrailing, l₆, hcrlf, hline⟩ := h
    obtain ⟨space, major, minor, hspace, hmajor, hminor, -, rfl, rfl⟩ := version_eq_some.mp hversion
    obtain ⟨hends₁, hl⟩ := ends_of_skip hmethod
    obtain ⟨hends₂, hl₁⟩ := ends_of_skip hblanks
    obtain ⟨hends₃, hl₂⟩ := ends_of_skip huri
    obtain ⟨-, hl₄⟩ := ends_of_skip htrailing
    obtain ⟨rfl, hne⟩ := crlf_eq_some.mp hcrlf
    split_ifs at hline with hvalid
    obtain ⟨rfl, rfl⟩ := Prod.mk.inj (Option.some.inj hline)
    have hspace_ne : space ≠ [] := by
      rintro rfl
      obtain ⟨d, l', hcons, hd⟩ := hends₃
      rw [versionText_append] at hcons
      obtain ⟨rfl, -⟩ := List.cons.inj hcons
      exact absurd hd (by decide)
    have hblanks_ne : l₂.takeWhile nonspace ≠ [] → l₁.takeWhile isSP ≠ [] := by
      -- without blanks the octet that ended the method is still there, and it ends the uri
      intro huri_ne hblanks_nil
      rw [hblanks_nil, List.nil_append] at hl₁
      obtain ⟨d, l', rfl, hd⟩ := hends₁
      rw [← hl₁, List.takeWhile_cons_of_neg (by simp [hd])] at huri_ne
      exact huri_ne rfl
    have hhead : l₂.takeWhile nonspace = [] → ∀ c ∈ space.head?, isSP c = false := by
      intro huri_nil c hc
      obtain ⟨space', rfl⟩ := List.head?_eq_some_iff.mp hc
      rw [huri_nil, List.nil_append] at hl₂
      obtain ⟨d, l', hcons, hd⟩ := hends₂
      rw [hl₂] at hcons
      obtain ⟨rfl, -⟩ := List.cons.inj hcons
      exact hd
    refine ⟨⟨.methodFromString (l.takeWhile nonspace), l₁.takeWhile isSP, l₂.takeWhile nonspace, space, major, minor,
      l₄.takeWhile isSP⟩, ⟨hvalid, fun _ => List.mem_takeWhile_imp, hblanks_ne, fun _ => List.mem_takeWhile_imp, hspace_ne,
      hspace, hhead, hmajor, hminor, fun _ => List.mem_takeWhile_imp⟩, ?_, hne, rfl⟩
    rw [text_append, Method.methodAsString_methodFromString hvalid, ← hl₄, ← hl₂, ← hl₁, ← hl]
  · rintro ⟨t, h, rfl, hne, rfl⟩
    have hversion : version {} (versionText t.space t.major t.minor ++ (t.trailing ++ charCR :: charLF :: rest)) =
        some (t.line.http_version_, t.trailing ++ charCR :: charLF :: rest) :=
      version_eq_some.mpr ⟨_, _, _, h.space_isspace, h.major_digits, h.minor_digits, h.ends_minor, rfl, rfl⟩
    have htrailing : skip isSP (t.trailing ++ charCR :: charLF :: rest) = some (charCR :: charLF :: rest) :=
      skip_append h.trailing_sp (by decide)
    rw [text_append, requestLine]
    simp only [Option.bind_eq_bind]
    rw [h.ends_method.skip Method.nonspace_methodAsString, h.ends_method.takeWhile Method.nonspace_methodAsString,
      Option.bind_some, h.ends_blanks.skip h.blanks_sp, Option.bind_some, h.ends_uri.skip h.uri_nonspace,
      h.ends_uri.takeWhile h.uri_nonspace, Option.bind_some, hversion, Option.bind_some, htrailing, Option.bind_some,
      crlf_cons hne, Option.bind_some, Method.methodFromString_methodAsString, if_neg h.method_valid]
    rfl

end Ends

/-- The text begins with the line, and there is more behind it. -/
def Begins (t : LineText) (text : Str) : Prop := ∃ rest, rest ≠ [] ∧ text = t.text ++ rest

theorem toNat_extractUInt {ds : Str} {value : UInt32} (hne : ds ≠ []) (hlt : decVal ds < 2 ^ 32) :
    (extractUInt ds value).toNat = decVal ds := by
  rw [extractUInt, if_neg hne, Nat.min_eq_left (by omega), UInt32.toNat_ofNat_of_lt' hlt]

/-- The members of `line` are what the text `t` says. -/
structure Reads (t : LineText) (line : HTTPRequestLine) : Prop where
  method : line.method_ = t.method
  uri : line.request_uri_ = t.uri
  major : line.http_version_.major_.toNat = decVal t.major
  minor : line.http_version_.minor_.toNat = decVal t.minor

theorem WellFormed.reads (h : t.WellFormed) : t.Reads t.line where
  method := rfl
  uri := rfl
  major := toNat_extractUInt h.major_ne h.major_lt
  minor := toNat_extractUInt h.minor_ne h.minor_lt

end LineText

/-- How `HTTPRequestLine::parse` ends on a text according to the grammar: success exactly on a request line, and then
    with what is written there. -/
def FollowsGrammar (text : Str) (r : Except Exn ParseResult) (line : HTTPRequestLine) : Prop :=
  ((∃ parseResult, r = .ok parseResult ∧ parseResult.ok = true) ↔ ∃ t : LineText, t.WellFormed ∧ t.Begins text) ∧
    ∀ t : LineText, t.WellFormed → t.Begins text → t.Reads line

variable {β : Type} [VirtualReadBuffer β] {e : SystemError}

/-- **The grammar of request lines**: `parse` follows it on a text exactly if the text is not a line that is readable
    without being well formed. -/
theorem parse_followsGrammar_iff (D : Delivers β e) (b : β) (text : Str) (hat : D.At b text) (hne : text ≠ []) :
    wp HTTPRequestLine.parse (fun r s => FollowsGrammar text r s.2) (b, {}) ↔
      ∀ t : LineText, t.Readable → t.Begins text → t.WellFormed := by
  refine wp_iff (HTTPRequestLine.parse_spec (o := {}) hat hne) ?_
  rintro r ⟨b', line⟩ hr
  cases hline : Grammar.requestLine {} text with
  | none =>
      have hnone : ∀ t : LineText, t.Readable → ¬ t.Begins text := by
        rintro t ht ⟨rest, hrest, rfl⟩
        rw [LineText.requestLine_eq_some.mpr ⟨t, ht, rfl, hrest, rfl⟩] at hline
        cases hline
      rw [hline] at hr
      refine iff_of_true ⟨iff_of_false ?_ ?_, ?_⟩ ?_
      · rintro ⟨pr, rfl, hok⟩
        exact absurd hok (Bool.eq_false_iff.mp hr)
      · rintro ⟨t, ht, hbegins⟩
        exact hnone t ht.readable hbegins
      · exact fun t ht hbegins => absurd hbegins (hnone t ht.readable)
      · exact fun t ht hbegins => absurd hbegins (hnone t ht)
  | some v =>
      obtain ⟨_, rest⟩ := v
      rw [hline] at hr
      obtain ⟨rfl, rfl, -⟩ := hr
      obtain ⟨t₀, hreadable, rfl, hrest, hv⟩ := LineText.requestLine_eq_some.mp hline
      have hbegins : t₀.Begins (t₀.text ++ rest) := ⟨rest, hrest, rfl⟩
      have hunique : ∀ t : LineText, t.Readable → t.Begins (t₀.text ++ rest) → t = t₀ := by
        rintro t ht ⟨rest', -, htext⟩
        exact ht.unique hreadable htext.symm
      constructor
      · intro hfollows t ht htext
        obtain ⟨t', ht', htext'⟩ := hfollows.1.mp ⟨_, rfl, rfl⟩
        rwa [hunique t ht htext, ← hunique t' ht'.readable htext']
      · intro hwell
        have ht₀ := hwell t₀ hreadable hbegins
        refine ⟨iff_of_true ⟨_, rfl, rfl⟩ ⟨t₀, ht₀, hbegins⟩, ?_⟩
        intro t ht htext
        rw [hunique t ht.readable htext, hv]
        exact ht₀.reads

theorem parse_followsGrammar_iff_get :
    wp HTTPRequestLine.parse (fun r s => FollowsGrammar (lit "GET / HTTP/1.1\r\n\r\n") r s.2)
        (StringReadBuffer.ofString (lit "GET / HTTP/1.1\r\n\r\n"), {}) ↔
      ∀ t : LineText, t.Readable → t.Begins (lit "GET / HTTP/1.1\r\n\r\n") → t.WellFormed :=
  parse_followsGrammar_iff StringReadBuffer.delivers _ _ (StringReadBuffer.delivers_ofString _ (by decide)) (by decide)

/-- A method and a version without digits on the next line are accepted as a request line. -/
theorem parse_accepts_broken_line :
    ¬ wp HTTPRequestLine.parse (fun r s => FollowsGrammar (lit "GET\r\nHTTP/.\r\n\r\n") r s.2)
      (StringReadBuffer.ofString (lit "GET\r\nHTTP/.\r\n\r\n"), {}) := by
  have hreads : wp HTTPRequestLine.parse (fun r _ => r = .ok {})
      (StringReadBuffer.ofString (lit "GET\r\nHTTP/.\r\n\r\n"), {}) := wp_of_run 60 (by decide +kernel)
  have hreadable : LineText.Readable ⟨.meGET, [], [], lit "\r\n", [], [], []⟩ :=
    ⟨by decide, nofun, fun h => absurd rfl h, nofun, by decide, List.all_eq_true.mp (by decide), fun _ _ hc => by
      obtain rfl := Option.some.inj hc
      decide, nofun, nofun, nofun⟩
  rw [wp_iff (c := False) hreads]
  · exact not_false
  rintro r s rfl
  refine iff_false_intro fun hfollows => ?_
  obtain ⟨t, ht, rest, -, htext⟩ := hfollows.1.mp ⟨_, rfl, rfl⟩
  have htext' : t.text ++ rest = LineText.text ⟨.meGET, [], [], lit "\r\n", [], [], []⟩ ++ lit "\r\n" := htext.symm
  have hsame := ht.readable.unique hreadable htext'
  exact ht.major_ne (by rw [hsame])

end Dodo.Network.Http
