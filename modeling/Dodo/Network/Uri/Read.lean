import Mathlib.Data.List.Basic
import Dodo.Network.Uri.Parse

/-!
# `Uri.Read` — what the parser accepts, without indices

The automaton of `parse` reads one component after the other from left to right. `read` says the same as a
recursive descent over the text: a component is the longest run of its characters, and the character behind
it decides what comes next. `Uri.Refine` shows that the automaton computes `read`.
-/

namespace Dodo.Network.URI

open Common Lib

/-! ## Runs of characters -/

/-- Characters of a class, and octets written as a percent sign and two hexadecimal digits. -/
inductive Text (ok : Octet → Bool) : Str → Prop where
  | nil : Text ok []
  | char {c : Octet} {t : Str} (h : ok c = true) (rest : Text ok t) : Text ok (c :: t)
  | percent {a b : Octet} {t : Str} (ha : isxdigit a = true) (hb : isxdigit b = true) (rest : Text ok t) :
      Text ok (charPercent :: a :: b :: t)

/-- The longest run at the beginning of a text, and what follows it. -/
def scan (ok : Octet → Bool) : Str → Str × Str
  | [] => ([], [])
  | c :: l =>
    if ok c then (c :: (scan ok l).1, (scan ok l).2)
    else if c = charPercent then
      match l with
      | a :: b :: l' =>
        if isxdigit a ∧ isxdigit b then (c :: a :: b :: (scan ok l').1, (scan ok l').2) else ([], c :: l)
      | _ => ([], c :: l)
    else ([], c :: l)

variable {ok : Octet → Bool} {l t r : Str} {c : Octet}

theorem scan_append (l : Str) : (scan ok l).1 ++ (scan ok l).2 = l := by
  fun_induction scan ok l <;> simp_all

theorem text_scan (l : Str) : Text ok (scan ok l).1 := by
  fun_induction scan ok l with
  | case1 => exact .nil
  | case2 c l h ih => exact .char h ih
  | case3 a b l' hhex h ih => exact .percent hhex.1 hhex.2 ih
  | case4 | case5 | case6 => exact .nil

/-- Behind the longest run: the end, a character of another class, or a percent sign that does not belong to
    an octet. -/
def Stops (ok : Octet → Bool) : Str → Prop
  | [] => True
  | c :: l => ok c = false ∧
    (c = charPercent → ∀ a b l', l = a :: b :: l' → ¬ (isxdigit a = true ∧ isxdigit b = true))

theorem scan_stops (l : Str) : Stops ok (scan ok l).2 := by
  fun_induction scan ok l with
  | case1 => trivial
  | case2 c l h ih => exact ih
  | case3 a b l' hhex h ih => exact ih
  | case4 a b l' hhex h =>
      refine ⟨Bool.eq_false_iff.mpr h, ?_⟩
      rintro - a' b' r heq
      cases heq
      exact hhex
  | case5 l hshort h =>
      refine ⟨Bool.eq_false_iff.mpr h, ?_⟩
      rintro - a b r rfl
      exact absurd rfl (hshort a b r)
  | case6 c l h hne => exact ⟨Bool.eq_false_iff.mpr h, fun heq => absurd heq hne⟩

/-- The longest run is found. -/
theorem scan_eq (hpercent : ok charPercent = false) (ht : Text ok t) (hr : Stops ok r) : scan ok (t ++ r) = (t, r) := by
  induction ht with
  | nil =>
      cases r with
      | nil => rfl
      | cons c l =>
          obtain ⟨hc, hpct⟩ := hr
          unfold scan
          rw [List.nil_append]
          dsimp only
          rw [if_neg (by simp [hc])]
          split_ifs with heq
          · split
            · rename_i a b l'
              rw [if_neg (hpct heq a b l' rfl)]
            · rfl
          · rfl
  | char h rest ih =>
      rw [List.cons_append]
      unfold scan
      rw [if_pos h, ih]
  | percent ha hb rest ih =>
      rw [List.cons_append, List.cons_append, List.cons_append]
      unfold scan
      rw [if_neg (by simp [hpercent]), if_pos rfl]
      dsimp only
      rw [if_pos ⟨ha, hb⟩, ih]

/-! ## The reader -/

def readFragment (u : URI) (l : Str) : Option URI :=
  match scan verifyQueryFragmentChar l with
  | (t, []) => some { u with fragment_ := t }
  | (_, _ :: _) => none

def readQuery (u : URI) (l : Str) : Option URI :=
  match scan verifyQueryFragmentChar l with
  | (t, []) => some { u with query_ := t }
  | (t, c :: r) => if c = charHash ∧ t ≠ [] then readFragment { u with query_ := t } r else none

def readPath (u : URI) (l : Str) : Option URI :=
  match scan verifyPathChar l with
  | (t, []) => some { u with path_ := t }
  | (t, c :: r) =>
    if t = [] then none
    else if c = charQuestion then readQuery { u with path_ := t } r
    else if c = charHash then readFragment { u with path_ := t } r
    else none

/-- A port at the end of the text is not stored. -/
def readPort (u : URI) (l : Str) : Option URI :=
  match l.span isdigit with
  | (_, []) => some u
  | (t, c :: r) => if t = [] then none else readPath { u with port_ := t } (c :: r)

/-- What follows the host. A host in brackets at the end of the text is not stored. -/
def readHostEnd (u : URI) (host : Str) : Str → Option URI
  | [] => some u
  | c :: r =>
    if c = charColon then readPort { u with host_ := host } r else readPath { u with host_ := host } (c :: r)

/-- Behind an opening bracket; `t` is the text of the host so far. -/
def readTCP6 (u : URI) (t l : Str) : Option URI :=
  match l.span verifyTCP6Char with
  | (_, []) => some u
  | (y, c :: r) => if c = charClose then readHostEnd u (t ++ y ++ [c]) r else none

/-- The text `t` of a host has been read, and `c` stops it. -/
def readHostPart (u : URI) (t : Str) (c : Octet) (r : Str) : Option URI :=
  if c = charOpen then readTCP6 u (t ++ [c]) r
  else if (c = charColon ∨ c = charSlash) ∧ t ≠ [] then readHostEnd u t (c :: r)
  else none

/-- The host behind an `@`. At the end of the text it is not stored. -/
def readHost (u : URI) (l : Str) : Option URI :=
  match scan verifyUserInfoHostChar l with
  | (_, []) => some u
  | (t, c :: r) => readHostPart u t c r

def readAuthority (u : URI) (l : Str) : Option URI :=
  match scan verifyUserInfoHostChar l with
  | (t, []) => some { u with host_ := t }
  | (t, c :: r) =>
    if c = charAt then (if t = [] then none else readHost { u with userinfo_ := t } r)
    else readHostPart u t c r

/-- Behind the scheme: two slashes and an authority, or a path that does not begin with a slash. -/
def readRest (u : URI) (l : Str) : Option URI :=
  if l.head? = some charSlash then
    if l.tail.head? = some charSlash then readAuthority u l.tail.tail else none
  else readPath u l

/-- A text of scheme characters only is read as an empty URI. -/
def read (l : Str) : Option URI :=
  match l.span verifySchemeChar with
  | (t, r) =>
    if l.head?.all isalpha then
      match r with
      | [] => some {}
      | c :: r => if c = charColon then readRest { scheme_ := t } r else none
    else none

end Dodo.Network.URI
