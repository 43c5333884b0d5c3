import Dodo.Common.Text

/-!
# `Common.Json` — strings as they stand in JSON texts

`escapeJSON` writes a string to an `ostringstream`, octet by octet. `std::hex` and `std::setfill` stay in effect on the
stream once they are set, `std::setw` only for the next output, so what an octet is written as could depend on those
before it. It does not: every octet has an escape of its own, and `readJSON`, which undoes the escapes one after the
other, gives back the string.
-/

namespace Dodo.Common

/-- A `std::ostringstream` with the format flags that are set on it. -/
structure OStringStream where
  text : Str := []
  hex : Bool := false
  width : Nat := 0
  fill : Octet := 32
deriving DecidableEq, Repr

namespace OStringStream

/-- `o << s`; the text is padded on the left, and the width is used up. -/
def put (o : OStringStream) (s : Str) : OStringStream :=
  { o with text := o.text ++ (List.replicate (o.width - s.length) o.fill ++ s), width := 0 }

/-- `o << n` -/
def putInt (o : OStringStream) (n : Nat) : OStringStream := o.put (if o.hex then hexadecimal n else decimal n)

/-- `o << "\\u" << std::hex << std::setw(4) << std::setfill('0') << n` -/
def putUnicode (o : OStringStream) (n : Nat) : OStringStream :=
  { o.put (lit "\\u") with hex := true, width := 4, fill := 48 }.putInt n

end OStringStream

def charQuote : Octet := 34
def charBackslash : Octet := 92

/-- The value of a `char`, which is signed. -/
def asChar (c : Octet) : Int := if c < 128 then c.toNat else c.toNat - 256

/-- The body of the loop of `escapeJSON`. -/
def escapeOctet (o : OStringStream) (c : Octet) : OStringStream :=
  if c = charQuote then o.put (lit "\\\"")
  else if c = charBackslash then o.put (lit "\\\\")
  else if c = 8 then o.put (lit "\\b")
  else if c = 12 then o.put (lit "\\f")
  else if c = 10 then o.put (lit "\\n")
  else if c = 13 then o.put (lit "\\r")
  else if c = 9 then o.put (lit "\\t")
  else if 0 ≤ asChar c ∧ asChar c ≤ 31 then o.putUnicode c.toNat
  else o.put [c]

def escapeJSON (s : Str) : Str := (s.foldl escapeOctet {}).text

/-! ## The escape of an octet -/

/-- What an octet is written as. -/
def escapeOf (c : Octet) : Str := (escapeOctet {} c).text

/-- `t` is the stream `o` with the text of `e` behind its own. -/
def OStringStream.Adds (o t e : OStringStream) : Prop := t.text = o.text ++ e.text ∧ t.width = 0

theorem OStringStream.Adds.ite {o t e t' e' : OStringStream} {p : Prop} [Decidable p] (h : o.Adds t e)
    (h' : o.Adds t' e') : o.Adds (if p then t else t') (if p then e else e') := by
  by_cases hp : p
  · rwa [if_pos hp, if_pos hp]
  · rwa [if_neg hp, if_neg hp]

/-- On a stream without a width an octet adds its escape, whatever the other flags are. -/
theorem escapeOctet_eq {o : OStringStream} (ho : o.width = 0) (c : Octet) :
    (escapeOctet o c).text = o.text ++ escapeOf c ∧ (escapeOctet o c).width = 0 := by
  have hput (s : Str) : o.Adds (o.put s) (OStringStream.put {} s) := by
    simp [OStringStream.Adds, OStringStream.put, ho]
  have hunicode : o.Adds (o.putUnicode c.toNat) (OStringStream.putUnicode {} c.toNat) := by
    simp [OStringStream.Adds, OStringStream.putUnicode, OStringStream.putInt, OStringStream.put, ho]
  show o.Adds (escapeOctet o c) (escapeOctet {} c)
  unfold escapeOctet
  -- the seven characters with an escape of two, the other control characters, and all others
  exact (hput _).ite ((hput _).ite ((hput _).ite ((hput _).ite ((hput _).ite ((hput _).ite ((hput _).ite
    (hunicode.ite (hput _))))))))

/-- The loop writes the escapes one behind the other. -/
theorem escapeJSON_eq (s : Str) : escapeJSON s = s.flatMap escapeOf := by
  have hloop (l : Str) (o : OStringStream) (ho : o.width = 0) :
      (l.foldl escapeOctet o).text = o.text ++ l.flatMap escapeOf := by
    induction l generalizing o with
    | nil => simp
    | cons c l ih =>
        obtain ⟨htext, hwidth⟩ := escapeOctet_eq ho c
        rw [List.foldl_cons, ih _ hwidth, htext, List.flatMap_cons, List.append_assoc]
  exact hloop s {} rfl

/-! ## Reading -/

/-- The character that a backslash and `c` stand for. -/
def twoCharacter (c : Octet) : Option Octet :=
  if c = charQuote then some charQuote
  else if c = charBackslash then some charBackslash
  else if c = 47 then some 47
  else if c = 98 then some 8
  else if c = 102 then some 12
  else if c = 110 then some 10
  else if c = 114 then some 13
  else if c = 116 then some 9
  else none

/-- The text between the quotes of a JSON string, with its escapes undone. A control character and a quote have to be
escaped; what `\u` denotes has to be one octet. -/
def readJSON : Str → Option Str
  | [] => some []
  | c :: l =>
    if c = charBackslash then
      match l with
      | [] => none
      | e :: l =>
        if e = 117 then
          match l with
          | a :: b :: x :: y :: l =>
            if [a, b, x, y].all isxdigit ∧ hexVal [a, b, x, y] < 128 then
              (readJSON l).map (UInt8.ofNat (hexVal [a, b, x, y]) :: ·)
            else none
          | _ => none
        else (twoCharacter e).bind (fun d => (readJSON l).map (d :: ·))
    else if c = charQuote ∨ c < 32 then none
    else (readJSON l).map (c :: ·)

/-! ## Reading what is written -/

/-- The three kinds of escapes of an octet. -/
inductive Escape (c : Octet) : Str → Prop where
  | two (e : Octet) (he : e ≠ 117) (h : twoCharacter e = some c) : Escape c [charBackslash, e]
  | unicode (a b x y : Octet) (hdigits : [a, b, x, y].all isxdigit) (h : hexVal [a, b, x, y] = c.toNat)
      (hc : c.toNat < 128) : Escape c [charBackslash, 117, a, b, x, y]
  | verbatim (hbackslash : c ≠ charBackslash) (hquote : c ≠ charQuote) (hcontrol : ¬ c < 32) : Escape c [c]

/-- A control character is written with four digits. -/
theorem control_digits : ∀ n < 32,
    let digits := List.replicate (4 - (hexadecimal n).length) 48 ++ hexadecimal n
    digits.length = 4 ∧ digits.all isxdigit ∧ hexVal digits = n := by
  decide +kernel

/-- An octet from 128 on is negative, so the test finds the control characters only. -/
theorem asChar_control (c : Octet) : 0 ≤ asChar c ∧ asChar c ≤ 31 ↔ c.toNat < 32 := by
  have hrange := c.toNat_lt
  unfold asChar
  by_cases hascii : c < 128
  · have hascii' : c.toNat < 128 := hascii
    rw [if_pos hascii]
    omega
  · have hascii' : ¬ c.toNat < 128 := hascii
    rw [if_neg hascii]
    omega

/-- Every octet is written as one of its escapes. -/
theorem escapeOf_escape (c : Octet) : Escape c (escapeOf c) := by
  by_cases hquote : c = charQuote
  · rw [hquote]
    exact .two charQuote (by decide) rfl
  by_cases hbackslash : c = charBackslash
  · rw [hbackslash]
    exact .two charBackslash (by decide) rfl
  by_cases hb : c = 8
  · rw [hb]
    exact .two 98 (by decide) rfl
  by_cases hf : c = 12
  · rw [hf]
    exact .two 102 (by decide) rfl
  by_cases hn : c = 10
  · rw [hn]
    exact .two 110 (by decide) rfl
  by_cases hr : c = 13
  · rw [hr]
    exact .two 114 (by decide) rfl
  by_cases ht : c = 9
  · rw [ht]
    exact .two 116 (by decide) rfl
  rw [escapeOf, escapeOctet, if_neg hquote, if_neg hbackslash, if_neg hb, if_neg hf, if_neg hn, if_neg hr, if_neg ht]
  by_cases hcontrol : c.toNat < 32
  · obtain ⟨hlength, hdigits, hval⟩ := control_digits c.toNat hcontrol
    rw [if_pos ((asChar_control c).mpr hcontrol)]
    show Escape c (lit "\\u" ++ (List.replicate (4 - (hexadecimal c.toNat).length) 48 ++ hexadecimal c.toNat))
    generalize List.replicate (4 - (hexadecimal c.toNat).length) 48 ++ hexadecimal c.toNat = digits at *
    match digits, hlength with
    | [a, b, x, y], _ => exact .unicode a b x y hdigits hval (by omega)
  · rw [if_neg (fun h => hcontrol ((asChar_control c).mp h))]
    show Escape c [c]
    exact .verbatim hbackslash hquote hcontrol

/-- An escape is read as the octet it is of. -/
theorem Escape.readJSON {c : Octet} {x : Str} (h : Escape c x) (l : Str) :
    readJSON (x ++ l) = (readJSON l).map (c :: ·) := by
  cases h with
  | two e he h =>
      show Common.readJSON (charBackslash :: e :: l) = _
      rw [Common.readJSON.eq_def]
      dsimp only
      rw [if_pos rfl, if_neg he, h, Option.bind_some]
  | unicode a b x y hdigits h hc =>
      show Common.readJSON (charBackslash :: 117 :: a :: b :: x :: y :: l) = _
      rw [Common.readJSON.eq_def]
      dsimp only
      rw [if_pos rfl, if_pos rfl, if_pos ⟨hdigits, by omega⟩, h, UInt8.ofNat_toNat]
  | verbatim hbackslash hquote hcontrol =>
      show Common.readJSON (c :: l) = _
      rw [Common.readJSON.eq_def]
      dsimp only
      rw [if_neg hbackslash, if_neg (by simp [hquote, hcontrol])]

theorem readJSON_escapeJSON (s : Str) : readJSON (escapeJSON s) = some s := by
  rw [escapeJSON_eq]
  induction s with
  | nil => rfl
  | cons c s ih =>
      rw [List.flatMap_cons, (escapeOf_escape c).readJSON, ih]
      rfl

/-! ## Control characters -/

theorem le_of_twoCharacter {c e : Octet} (h : twoCharacter e = some c) : 32 ≤ e := by
  by_contra hlt
  -- a control character is none of those that stand behind a backslash
  have hne (d : Octet) (hd : 32 ≤ d) : e ≠ d := fun heq => hlt (heq ▸ hd)
  rw [twoCharacter, if_neg (hne _ (by decide)), if_neg (hne _ (by decide)), if_neg (hne _ (by decide)),
    if_neg (hne _ (by decide)), if_neg (hne _ (by decide)), if_neg (hne _ (by decide)), if_neg (hne _ (by decide)),
    if_neg (hne _ (by decide))] at h
  cases h

theorem le_of_isxdigit {c : Octet} (h : isxdigit c) : 32 ≤ c := by
  simp only [isxdigit, isdigit, Bool.or_eq_true, Bool.and_eq_true, decide_eq_true_eq] at h
  rcases h with (h | h) | h
  all_goals exact UInt8.le_trans (by decide) h.1

/-- No escape holds a control character. -/
theorem Escape.le_of_mem {c d : Octet} {x : Str} (h : Escape c x) (hd : d ∈ x) : 32 ≤ d := by
  cases h with
  | two e he h =>
      rcases List.mem_cons.mp hd with rfl | hd
      · decide
      · rw [List.mem_singleton.mp hd]
        exact le_of_twoCharacter h
  | unicode a b x y hdigits h hc =>
      rcases List.mem_cons.mp hd with rfl | hd
      · decide
      · rcases List.mem_cons.mp hd with rfl | hd
        · decide
        · exact le_of_isxdigit (List.all_eq_true.mp hdigits d hd)
  | verbatim hbackslash hquote hcontrol =>
      rw [List.mem_singleton.mp hd]
      exact UInt8.not_lt.mp hcontrol

/-! ## Quotes -/

/-- Whether the character behind `x` is escaped: there is a backslash right before it that is not escaped itself. -/
def escaped (x : Str) : Bool := x.foldl (fun e c => c = charBackslash && !e) false

/-- Every quote has a backslash right before it that is not escaped itself. -/
def QuotesEscaped (t : Str) : Prop :=
  ∀ x y, t = x ++ charQuote :: y → ∃ x', x = x' ++ [charBackslash] ∧ escaped x' = false

theorem escaped_concat (x : Str) (c : Octet) : escaped (x ++ [c]) = (c = charBackslash && !escaped x) := by
  rw [escaped, List.foldl_append]
  rfl

/-- Behind a text that ends outside an escape, another text begins as if it were alone. -/
theorem escaped_append {s : Str} (hs : escaped s = false) (t : Str) : escaped (s ++ t) = escaped t := by
  unfold escaped at hs ⊢
  rw [List.foldl_append, hs]

theorem QuotesEscaped.append {s t : Str} (hs : QuotesEscaped s) (ht : QuotesEscaped t) (hend : escaped s = false) :
    QuotesEscaped (s ++ t) := by
  intro x y heq
  rcases List.append_eq_append_iff.mp heq with ⟨z, rfl, hz⟩ | ⟨z, hz, heq'⟩
  · -- the quote is in `t`
    obtain ⟨x', rfl, hx'⟩ := ht z y hz
    exact ⟨s ++ x', by rw [List.append_assoc], by rw [escaped_append hend, hx']⟩
  · cases z with
    | nil =>
        obtain ⟨x', hnil, _⟩ := ht [] y heq'.symm
        simp at hnil
    | cons d z =>
        rw [List.cons_append, List.cons.injEq] at heq'
        exact hs x z (by rw [hz, heq'.1])

theorem not_mem_of_all_isxdigit {ds : Str} (h : ds.all isxdigit) {c : Octet} (hc : isxdigit c = false) : c ∉ ds := by
  intro hmem
  rw [List.all_eq_true.mp h c hmem] at hc
  contradiction

/-- An escape ends where it is read to, and a quote in it is behind its backslash. -/
theorem Escape.quotesEscaped {c : Octet} {x : Str} (h : Escape c x) : QuotesEscaped x ∧ escaped x = false := by
  cases h with
  | two e he h =>
      refine ⟨?_, by simp [escaped]⟩
      intro u v heq
      cases u with
      | nil => exact absurd (List.cons.inj heq).1 (by decide)
      | cons d u =>
          rw [List.cons_append, List.cons.injEq] at heq
          have hu : u = [] := by
            have hlength := congrArg List.length heq.2
            rw [List.length_append, List.length_singleton, List.length_cons] at hlength
            exact List.eq_nil_of_length_eq_zero (by omega)
          exact ⟨[], by rw [hu, ← heq.1, List.nil_append], rfl⟩
  | unicode a b x y hdigits h hc =>
      have hquote : charQuote ∉ [a, b, x, y] := not_mem_of_all_isxdigit hdigits (by decide)
      have hbackslash : charBackslash ∉ [a, b, x, y] := not_mem_of_all_isxdigit hdigits (by decide)
      constructor
      · intro u v heq
        have hmem : charQuote ∈ charBackslash :: 117 :: [a, b, x, y] := by
          rw [heq]
          simp
        rcases List.mem_cons.mp hmem with hmem | hmem
        · exact absurd hmem (by decide)
        · rcases List.mem_cons.mp hmem with hmem | hmem
          · exact absurd hmem (by decide)
          · exact absurd hmem hquote
      · have hy : y ≠ charBackslash := fun hy => hbackslash (by simp [hy])
        show escaped ([charBackslash, 117, a, b, x] ++ [y]) = false
        rw [escaped_concat]
        simp [hy]
  | verbatim hbackslash hquote hcontrol =>
      constructor
      · intro u v heq
        have hmem : charQuote ∈ [c] := by
          rw [heq]
          simp
        exact absurd (List.mem_singleton.mp hmem).symm hquote
      · simp [escaped, hbackslash]

theorem quotesEscaped_escapeJSON (s : Str) : QuotesEscaped (escapeJSON s) := by
  rw [escapeJSON_eq]
  induction s with
  | nil =>
      intro x y heq
      simp at heq
  | cons c s ih =>
      obtain ⟨hquotes, hend⟩ := (escapeOf_escape c).quotesEscaped
      rw [List.flatMap_cons]
      exact hquotes.append ih hend

/-- **`escapeJSON` is lossless and safe**: its escapes are read back to the string, there is no control character and no
bare quote in them, and different strings are written differently. -/
theorem escapeJSON_lossless :
    (∀ s, readJSON (escapeJSON s) = some s) ∧ (∀ s, ∀ c ∈ escapeJSON s, 32 ≤ c) ∧
      (∀ s, QuotesEscaped (escapeJSON s)) ∧ Function.Injective escapeJSON := by
  refine ⟨readJSON_escapeJSON, ?_, quotesEscaped_escapeJSON, ?_⟩
  · intro s d hd
    rw [escapeJSON_eq] at hd
    obtain ⟨c, _, hd⟩ := List.mem_flatMap.mp hd
    exact (escapeOf_escape c).le_of_mem hd
  · intro s t heq
    have hread := readJSON_escapeJSON s
    rw [heq, readJSON_escapeJSON] at hread
    exact (Option.some.inj hread).symm

-- an octet from 128 on stays as it is, also behind one that has set the stream to hexadecimal
example : escapeJSON [34, 31, 49, 200] = lit "\\\"\\u001f1" ++ [200] := by decide +kernel

end Dodo.Common
