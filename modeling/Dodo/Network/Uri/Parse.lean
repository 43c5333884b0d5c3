import Dodo.Common.Text
import Dodo.Lib.While

/-!
# `Uri.Parse` — the `URI` class

`parse` is an automaton over the indices of the string: `mark` is where the component begins that is being
read, and `idx` is the next character. A component is cut out of the string when its end is seen; what is
being read when the string ends is cut out by the switch behind the loop, in some of the states.
-/

namespace Dodo.Network

open Common Lib

structure URI where
  scheme_ : Str := []
  userinfo_ : Str := []
  host_ : Str := []
  port_ : Str := []
  path_ : Str := []
  query_ : Str := []
  fragment_ : Str := []
deriving DecidableEq, Repr

namespace URI

/-! ## Printing -/

def asString (u : URI) : Str :=
  u.scheme_ ++ lit ":" ++
  (if u.host_ ≠ [] then lit "//" else []) ++
  (if u.userinfo_ ≠ [] then u.userinfo_ ++ lit "@" else []) ++
  (if u.host_ ≠ [] then u.host_ else []) ++
  (if u.port_ ≠ [] then lit ":" ++ u.port_ else []) ++
  u.path_ ++
  (if u.query_ ≠ [] then lit "?" ++ u.query_ else []) ++
  (if u.fragment_ ≠ [] then lit "#" ++ u.fragment_ else [])

/-! ## Characters -/

def charHash : Octet := 35
def charPercent : Octet := 37
def charSlash : Octet := 47
def charColon : Octet := 58
def charQuestion : Octet := 63
def charAt : Octet := 64
def charOpen : Octet := 91
def charClose : Octet := 93

def verifySchemeChar (c : Octet) : Bool :=
  isalpha c || isdigit c || c = 43 || c = 46 || c = 45   -- + . -

def verifyOctetChar (c : Octet) : Bool :=
  isalpha c || isdigit c || c = 45 || c = 46 || c = 95 || c = 126   -- - . _ ~

def verifyTCP6Char (c : Octet) : Bool :=
  ((97 ≤ c && c ≤ 102) || (65 ≤ c && c ≤ 70)) || isdigit c || c = charColon

def verifyUserInfoHostChar (c : Octet) : Bool :=
  verifyOctetChar c ||
  c = 33 || c = 36 || c = 38 || c = 39 || c = 40 || c = 41 ||   -- ! $ & ' ( )
  c = 42 || c = 43 || c = 44 || c = 59 || c = 61                -- * + , ; =

def verifyPathChar (c : Octet) : Bool :=
  verifyUserInfoHostChar c || c = charColon || c = charSlash || c = charAt

def verifyQueryFragmentChar (c : Octet) : Bool :=
  verifyUserInfoHostChar c || c = charColon || c = charAt || c = charSlash || c = charQuestion

/-! ## Parsing -/

inductive ParseState where
  | psSchemeStart
  | psSchemeEnd
  | psAuthorityStart
  | psUserInfoEnd
  | psHostStart
  | psHostEnd
  | psPortStart
  | psPortEnd
  | psPathStart
  | psPathEnd
  | psQueryStart
  | psQueryEnd
  | psFragmentStart
  | psTCP6Start
  | psPCTEncoded
  | psError
  | psDone
deriving DecidableEq, Repr

/-- The object and the local variables of `parse`. -/
structure Parser where
  prev_state : ParseState := .psError
  return_state : ParseState := .psError
  state : ParseState := .psSchemeStart
  idx : Nat := 0
  mark : Nat := 0
  uri : URI := {}
deriving DecidableEq, Repr

namespace Parser

/-- The text from `mark` up to `idx`. -/
def text (s : Str) (p : Parser) : Str := substr s p.mark (p.idx - p.mark)

def goto (p : Parser) (state : ParseState) : Parser := { p with state := state }

def next (p : Parser) : Parser := { p with idx := p.idx + 1 }

/-- A percent sign leads to `psPCTEncoded` and back. -/
def percent (p : Parser) : Parser := { p with return_state := p.state, state := .psPCTEncoded }

/-- The switch in the loop, where the character at `idx` is `c`. -/
def switch (s : Str) (p : Parser) (c : Octet) : Parser :=
  match p.state with
  | .psSchemeStart =>
    if p.prev_state ≠ .psSchemeStart ∧ ¬ isalpha c then p.goto .psError
    else if c = charColon then p.goto .psSchemeEnd
    else if ¬ verifySchemeChar c then p.goto .psError
    else p.next
  | .psSchemeEnd =>
    let p := { p with uri := { p.uri with scheme_ := p.text s } }.next
    if octetAt s p.idx = charSlash then
      let p := p.next
      if octetAt s p.idx = charSlash then
        { p with idx := p.idx + 1, mark := p.idx + 1, state := .psAuthorityStart }
      else p.goto .psError
    else { p with state := .psPathStart, mark := p.idx }
  | .psAuthorityStart =>
    if c = charAt then p.goto .psUserInfoEnd
    else if c = charSlash then p.goto .psHostEnd
    else if c = charColon then p.goto .psHostEnd
    else if c = charOpen then (p.goto .psTCP6Start).next
    else if c = charPercent then p.percent
    else if verifyUserInfoHostChar c then p.next
    else p.goto .psError
  | .psUserInfoEnd =>
    if p.mark < p.idx then
      { p with
        uri := { p.uri with userinfo_ := p.text s }
        idx := p.idx + 1, mark := p.idx + 1, state := .psHostStart }
    else p.goto .psError
  | .psHostStart =>
    if c = charOpen then (p.goto .psTCP6Start).next
    else if c = charColon ∨ c = charSlash then p.goto .psHostEnd
    else if verifyUserInfoHostChar c then p.next
    else if c = charPercent then p.percent
    else p.goto .psError
  | .psTCP6Start =>
    if c = charClose then (p.goto .psHostEnd).next
    else if verifyTCP6Char c then p.next
    else p.goto .psError
  | .psHostEnd =>
    if p.mark < p.idx then
      let p := { p with uri := { p.uri with host_ := p.text s } }
      if c = charColon then { p with state := .psPortStart, idx := p.idx + 1, mark := p.idx + 1 }
      else { p with state := .psPathStart, mark := p.idx }
    else p.goto .psError
  | .psPortStart => if ¬ isdigit c then p.goto .psPortEnd else p.next
  | .psPortEnd =>
    if p.mark < p.idx then
      { p with uri := { p.uri with port_ := p.text s }, state := .psPathStart, mark := p.idx }
    else p.goto .psError
  | .psPathStart =>
    if c = charQuestion then p.goto .psPathEnd
    else if c = charHash then p.goto .psPathEnd
    else if verifyPathChar c then p.next
    else if c = charPercent then p.percent
    else p.goto .psError
  | .psPathEnd =>
    if p.mark < p.idx then
      let p := { p with uri := { p.uri with path_ := p.text s } }
      let p := if c = charQuestion then p.goto .psQueryStart
        else if c = charHash then p.goto .psFragmentStart
        else p
      { p with idx := p.idx + 1, mark := p.idx + 1 }
    else p.goto .psError
  | .psQueryStart =>
    if c = charHash then p.goto .psQueryEnd
    else if verifyQueryFragmentChar c then p.next
    else if c = charPercent then p.percent
    else p.goto .psError
  | .psQueryEnd =>
    if p.mark < p.idx then
      { p with
        uri := { p.uri with query_ := p.text s }
        state := .psFragmentStart, idx := p.idx + 1, mark := p.idx + 1 }
    else p.goto .psError
  | .psFragmentStart =>
    if verifyQueryFragmentChar c then p.next
    else if c = charPercent then p.percent
    else p.goto .psError
  | .psPCTEncoded =>
    if c = charPercent then
      let p := p.next
      if p.idx < s.length ∧ isxdigit (octetAt s p.idx) then
        let p := p.next
        if p.idx < s.length ∧ isxdigit (octetAt s p.idx) then p.next.goto p.return_state
        else p.goto .psError
      else p.goto .psError
    else p.goto .psError
  | .psError | .psDone => p.next

/-- The body of the loop. -/
def pass (s : Str) (p : Parser) : Parser :=
  let p := p.switch s (octetAt s p.idx)
  { p with prev_state := p.state }

/-- The condition of the loop. -/
def going (s : Str) (p : Parser) : Bool := p.state ≠ .psDone ∧ p.state ≠ .psError ∧ p.idx < s.length

/-- The switch behind the loop. -/
def finish (s : Str) (p : Parser) : URI :=
  match p.state with
  | .psAuthorityStart => { p.uri with host_ := substr s p.mark (s.length - p.mark) }
  | .psPathStart => { p.uri with path_ := substr s p.mark (s.length - p.mark) }
  | .psQueryStart => { p.uri with query_ := substr s p.mark (s.length - p.mark) }
  | .psFragmentStart => { p.uri with fragment_ := substr s p.mark (s.length - p.mark) }
  | _ => p.uri

/-- The parser when the loop has ended. No character takes more than four passes, see `not_going_run`. -/
def run (s : Str) : Parser := While.loop (going s) (pass s) (4 * s.length + 2) {}

end Parser

/-- `parse( s, idx )`: what it returns, `idx`, and the URI afterwards. -/
def parse (s : Str) : Bool × Nat × URI :=
  let p := Parser.run s
  (p.state ≠ .psError, p.idx, p.finish s)

/-! ## The loop ends -/

namespace Parser

variable {s : Str} {p : Parser}

/-- How many passes a state can take before it reads a character. -/
def rank : ParseState → Nat
  | .psSchemeStart | .psPathStart | .psQueryStart | .psFragmentStart => 1
  | .psHostEnd | .psPortEnd => 2
  | .psAuthorityStart | .psHostStart | .psPortStart => 3
  | _ => 0

/-- The passes that are left. -/
def passes (s : Str) (p : Parser) : Nat := 4 * (s.length - p.idx) + rank p.state

theorem rank_le (state : ParseState) : rank state ≤ 3 := by
  cases state <;> decide

/-- A pass that does not end the loop leaves fewer passes. -/
theorem passes_pass (h : going s p = true) (h' : going s (pass s p) = true) :
    passes s (pass s p) < passes s p := by
  have hidx : p.idx < s.length := by
    simp only [going, decide_eq_true_eq] at h
    exact h.2.2
  have herror : (pass s p).state ≠ .psError := by
    simp only [going, decide_eq_true_eq] at h'
    exact h'.2.1
  have hrank := rank_le p.return_state
  revert herror
  unfold pass switch
  cases hstate : p.state with
  | psError | psDone => simp [going, hstate] at h
  | psPCTEncoded =>
      dsimp only
      split_ifs <;> intro herror
      · -- three characters are read, and the state is one of those before
        simp only [passes, goto, next, hstate]
        omega
      all_goals exact absurd rfl herror
  | _ =>
      dsimp only
      split_ifs <;> intro herror <;>
        first
        | exact absurd rfl herror
        | (simp only [passes, goto, next, percent, rank, hstate]; omega)

/-- **Every parse ends.** -/
theorem not_going_run (s : Str) : going s (run s) = false := by
  apply While.loop_ended (passes s)
  · intro p h h'
    exact passes_pass h h'
  · show 4 * (s.length - 0) + 1 < 4 * s.length + 2
    omega

/-- A run of passes to an end is what `parse` does. -/
theorem run_eq (h : While.Steps (going s) (pass s) {} p) (hended : going s p = false) : run s = p :=
  (While.steps_loop _ _).unique h (not_going_run s) hended

end Parser
end URI
end Dodo.Network
