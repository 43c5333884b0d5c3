import Dodo.Common.Text

/-!
# `Common.Regex` — the regular expression for rotated logs

`std::regex` is a parameter of the model. What is required of it (`RegexLibrary.Lawful`) concerns one form of expression,
a text without special characters other than the dot, a dot and a rest; any other text may be an expression that matches
anything, or be refused. `simpleRegex` is a library that fulfils the requirement and can be run.
-/

namespace Dodo.Common

/-- `.` does not match the end of a line. -/
def lineless (c : Octet) : Bool := c ≠ 10 && c ≠ 13

/-- The characters with a meaning of their own in an ECMAScript expression, the dot apart. -/
def special : Str := lit "^$\\*+?()[]\x7b\x7d|"

/-- `std::regex` and `std::regex_match`: the strings that an expression matches as a whole, nothing for a text that is
    not an expression (`std::regex_error`). -/
structure RegexLibrary where
  compile : Str → Option (Str → Bool)

/-- What `^t\..*` matches, for a text `t` without special characters. -/
def alike : Str → Str → Bool
  | [], [] => false
  | [], d :: p => d = 46 && p.all lineless
  | _ :: _, [] => false
  | c :: t, d :: p => (if c = 46 then lineless d else c = d) && alike t p

theorem length_lt_of_alike {t p : Str} (h : alike t p = true) : t.length < p.length := by
  induction t generalizing p with
  | nil =>
      cases p with
      | nil => cases h
      | cons d p => exact Nat.succ_pos _
  | cons c t ih =>
      cases p with
      | nil => cases h
      | cons d p =>
          rw [alike, Bool.and_eq_true] at h
          exact Nat.succ_lt_succ (ih h.2)

structure RegexLibrary.Lawful (lib : RegexLibrary) : Prop where
  compile_log : ∀ t : Str, (∀ c ∈ t, c ∉ special) → lib.compile (lit "^" ++ t ++ lit "\\..*") = some (alike t)

/-! ## An expression library

The expressions of single characters, `.` and escaped characters, each of which may be followed by `*`. All other texts
are refused. -/

namespace SimpleRegex

inductive Atom where
  | octet (c : Octet)
  | any

structure Term where
  atom : Atom
  starred : Bool

def Atom.accepts : Atom → Octet → Bool
  | .octet c, d => c = d
  | .any, d => lineless d

/-- The terms match the whole string, split between them in some way. -/
def accepts : List Term → Str → Bool
  | [], p => p.isEmpty
  | ⟨_, false⟩ :: _, [] => false
  | ⟨a, false⟩ :: ts, d :: p => a.accepts d && accepts ts p
  | ⟨a, true⟩ :: ts, p => (List.range (p.length + 1)).any (fun n => (p.take n).all a.accepts && accepts ts (p.drop n))

/-- The terms read so far, the last one first, and whether the next character is escaped. -/
structure Reader where
  terms : List Term
  escaped : Bool

def Reader.push (r : Reader) (a : Atom) : Reader := ⟨⟨a, false⟩ :: r.terms, false⟩

def Reader.star (r : Reader) : Option Reader :=
  match r.terms with
  | ⟨a, false⟩ :: ts => some ⟨⟨a, true⟩ :: ts, false⟩
  | _ => none

def Reader.read (r : Reader) (c : Octet) : Option Reader :=
  if r.escaped then (if isalpha c || isdigit c then none else some (r.push (.octet c)))
  else if c = 92 then some { r with escaped := true }
  else if c = 42 then r.star
  else if c = 46 then some (r.push .any)
  else if c ∈ special then none
  else some (r.push (.octet c))

/-- `regex_match` matches from the start in any case. -/
def body : Str → Str
  | 94 :: text => text
  | text => text

def compile (text : Str) : Option (Str → Bool) :=
  ((body text).foldlM Reader.read ⟨[], false⟩).bind (fun r => if r.escaped then none else some (accepts r.terms.reverse))

/-- A character that is not special stands for itself, the dot for all. -/
def atom (c : Octet) : Atom := if c = 46 then .any else .octet c

theorem read_plain (ts : List Term) {c : Octet} (hc : c ∉ special) :
    Reader.read ⟨ts, false⟩ c = some ⟨⟨atom c, false⟩ :: ts, false⟩ := by
  have hbackslash : c ≠ 92 := fun h => hc (h ▸ by decide)
  have hstar : c ≠ 42 := fun h => hc (h ▸ by decide)
  by_cases hdot : c = 46 <;> simp [Reader.read, Reader.push, atom, hc, hbackslash, hstar, hdot]

theorem foldlM_read_plain (ts : List Term) {t : Str} (ht : ∀ c ∈ t, c ∉ special) (rest : Str) :
    (t ++ rest).foldlM Reader.read ⟨ts, false⟩ =
      rest.foldlM Reader.read ⟨(t.map (⟨atom ·, false⟩)).reverse ++ ts, false⟩ := by
  induction t generalizing ts with
  | nil => rfl
  | cons c t ih =>
      rw [List.cons_append, List.foldlM_cons, read_plain ts (ht c List.mem_cons_self)]
      show (t ++ rest).foldlM Reader.read _ = _
      rw [ih _ (fun d hd => ht d (List.mem_cons_of_mem c hd)), List.map_cons, List.reverse_cons, List.append_assoc]
      rfl

/-- A starred dot takes what is left, if there is no end of a line in it. -/
theorem accepts_rest (p : Str) : accepts [⟨.any, true⟩] p = p.all lineless := by
  rw [Bool.eq_iff_iff, accepts]
  simp only [accepts, List.any_eq_true, List.mem_range, Bool.and_eq_true, List.isEmpty_iff, List.drop_eq_nil_iff]
  constructor
  · rintro ⟨n, _, hall, hlen⟩
    rwa [List.take_of_length_le hlen] at hall
  · intro hall
    exact ⟨p.length, Nat.lt_succ_self _, by rwa [List.take_length], Nat.le_refl _⟩

theorem accepts_eq_alike (t p : Str) :
    accepts (t.map (⟨atom ·, false⟩) ++ [⟨.octet 46, false⟩, ⟨.any, true⟩]) p = alike t p := by
  induction t generalizing p with
  | nil =>
      cases p with
      | nil => rfl
      | cons d p =>
          show (decide (46 = d) && accepts [⟨.any, true⟩] p) = (decide (d = 46) && p.all lineless)
          rw [accepts_rest, decide_eq_decide.mpr eq_comm]
  | cons c t ih =>
      cases p with
      | nil => rfl
      | cons d p =>
          show ((atom c).accepts d &&
            accepts (t.map (⟨atom ·, false⟩) ++ [⟨.octet 46, false⟩, ⟨.any, true⟩]) p) = alike (c :: t) (d :: p)
          rw [ih, alike]
          by_cases hdot : c = 46 <;> simp [atom, hdot, Atom.accepts]

end SimpleRegex

def simpleRegex : RegexLibrary := ⟨SimpleRegex.compile⟩

theorem lawful_simpleRegex : simpleRegex.Lawful where
  compile_log t ht := by
    have hbody : SimpleRegex.body (lit "^" ++ t ++ lit "\\..*") = t ++ lit "\\..*" := rfl
    show SimpleRegex.compile _ = _
    rw [SimpleRegex.compile, hbody, SimpleRegex.foldlM_read_plain _ ht]
    show some (SimpleRegex.accepts (_ :: _ :: _).reverse) = _
    rw [List.append_nil, List.reverse_cons, List.reverse_cons, List.reverse_reverse, List.append_assoc]
    exact congrArg some (funext (SimpleRegex.accepts_eq_alike t))

end Dodo.Common
