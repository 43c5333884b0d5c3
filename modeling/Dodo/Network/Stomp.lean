import Dodo.Common.Text
import Dodo.Lib.While

/-!
# `Network.Stomp` — recognising the command of a STOMP frame

`readCommand` is a scanner with two states and two indices. Its first case falls through to the second, so the
end of the line is looked for behind every octet of the command: it reads the command with a CR after each octet.
`scan` is the scanner over what is left of the frame and of the command.
-/

namespace Dodo.Network.Stomp

open Common Lib

def charCR : Octet := 13
def charLF : Octet := 10

/-- `getOctet` of a `Bytes`; outside the array there is no octet to return. -/
def getOctet (octets : Str) (index : Nat) : Option Octet := octets[index]?

inductive FrameMatch where
  | noMatch
  | incompleteMatch
  | fullMatch
deriving DecidableEq, Repr

/-- How a call ends. -/
inductive Outcome where
  | ret (m : FrameMatch)
  /-- An octet outside the array has been read. -/
  | outside
deriving DecidableEq, Repr

inductive State where
  | command_read
  | endofline
deriving DecidableEq, Repr

/-- The local variables of `readCommand`, its parameter `index` and, where the loop has been left from within, how. -/
structure Scan where
  state : State := .command_read
  index : Nat
  cmd_idx : Nat := 0
  left : Option Outcome := none
deriving DecidableEq, Repr

/-- `case endofline` -/
def endofline (frame : Str) (s : Scan) : Scan :=
  match getOctet frame s.index with
  | none => { s with left := some .outside }
  | some c =>
    if c = charCR then { s with index := s.index + 1 }
    else if c = charLF then { s with left := some (.ret .fullMatch) }
    else { s with left := some (.ret .noMatch) }

/-- The `switch`; `case command_read` has no `break`. -/
def pass (frame command : Str) (s : Scan) : Scan :=
  match s.state with
  | .command_read =>
    if s.cmd_idx = command.length then endofline frame { s with state := .endofline }
    else match getOctet frame s.index, getOctet command s.cmd_idx with
      | some c, some d =>
        if c ≠ d then { s with left := some (.ret .noMatch) }
        else endofline frame { s with index := s.index + 1, cmd_idx := s.cmd_idx + 1 }
      | _, _ => { s with left := some .outside }
  | .endofline => endofline frame s

def going (frame : Str) (s : Scan) : Bool := s.left.isNone && decide (s.index < frame.length)

/-- The scan from `index` on; every pass that does not leave the loop moves `index`. -/
def scanned (frame command : Str) (index : Nat) : Scan :=
  While.loop (going frame) (pass frame command) (frame.length + 1) { index := index }

/-- What is returned behind the loop, unless it has been left from within. -/
def Scan.outcome (s : Scan) : Outcome := s.left.getD (.ret .incompleteMatch)

/-- What `readCommand` returns, and the `index` it leaves. -/
def readCommand (frame : Str) (index : Nat) (command : Str) : Outcome × Nat :=
  ((scanned frame command index).outcome, (scanned frame command index).index)

variable {frame command front back rest : Str} {s : Scan} {n k : Nat} {c d : Octet}

/-! ## One pass -/

/-- A pass leaves the loop, or it moves `index`. -/
theorem endofline_cases (frame : Str) (s : Scan) :
    (∃ o, (endofline frame s).left = some o) ∨ (endofline frame s).index = s.index + 1 := by
  rw [endofline]
  cases getOctet frame s.index with
  | none => exact .inl ⟨_, rfl⟩
  | some c =>
      dsimp only
      split_ifs
      · exact .inr rfl
      · exact .inl ⟨_, rfl⟩
      · exact .inl ⟨_, rfl⟩

theorem pass_cases (frame command : Str) (s : Scan) :
    (∃ o, (pass frame command s).left = some o) ∨ s.index < (pass frame command s).index := by
  have heol : ∀ t : Scan, s.index ≤ t.index →
      (∃ o, (endofline frame t).left = some o) ∨ s.index < (endofline frame t).index := by
    intro t ht
    refine (endofline_cases frame t).imp_right fun hindex => ?_
    omega
  rw [pass]
  split
  · split_ifs
    · exact heol _ (Nat.le_refl _)
    · split
      · split_ifs
        · exact .inl ⟨_, rfl⟩
        · exact heol _ (Nat.le_succ _)
      · exact .inl ⟨_, rfl⟩
  · exact heol _ (Nat.le_refl _)

/-- **Termination**: the passes of `scanned` suffice. -/
theorem scanned_ended (frame command : Str) (index : Nat) : going frame (scanned frame command index) = false := by
  refine While.loop_ended (fun s => frame.length - s.index) ?_ (by dsimp only; omega)
  intro s hs hpass
  simp only [going, Bool.and_eq_true, decide_eq_true_eq, Option.isNone_iff_eq_none] at hs hpass
  rcases pass_cases frame command s with ⟨o, ho⟩ | hindex
  · rw [ho] at hpass
    cases hpass.1
  · omega

/-! ## The scanner over lists -/

/-- The loop in the state `endofline`. -/
def scanEol : Str → Outcome
  | [] => .ret .incompleteMatch
  | c :: rest =>
    if c = charCR then scanEol rest else if c = charLF then .ret .fullMatch else .ret .noMatch

/-- The loop in the state `command_read`, with what is left of the frame and of the command. -/
def scan : Str → Str → Outcome
  | [], _ => .ret .incompleteMatch
  | c :: rest, [] => scanEol (c :: rest)
  | [c], d :: _ => if c ≠ d then .ret .noMatch else .outside
  | c :: e :: rest, d :: command =>
    if c ≠ d then .ret .noMatch
    else if e = charCR then scan rest command
    else if e = charLF then .ret .fullMatch else .ret .noMatch

theorem getOctet_of_drop {l : Str} {i : Nat} (h : l.drop i = c :: rest) : getOctet l i = some c := by
  rw [getOctet, ← List.head?_drop, h, List.head?_cons]

theorem drop_succ_of_drop {l : Str} {i : Nat} (h : l.drop i = c :: rest) : l.drop (i + 1) = rest := by
  rw [← List.drop_drop, h, List.drop_one, List.tail_cons]

theorem lt_length_of_drop {l : Str} {i : Nat} (h : l.drop i = c :: rest) : i < l.length := by
  by_contra hle
  rw [List.drop_eq_nil_of_le (by omega)] at h
  cases h

theorem endofline_eq (h : frame.drop s.index = c :: rest) : endofline frame s =
    if c = charCR then { s with index := s.index + 1 }
    else { s with left := some (.ret (if c = charLF then .fullMatch else .noMatch)) } := by
  rw [endofline, getOctet_of_drop h]
  dsimp only
  split_ifs <;> rfl

/-- A loop that has been left stays as it is. -/
theorem outcome_of_left {o : Outcome} (h : s.left = some o) :
    (While.loop (going frame) (pass frame command) n s).outcome = o := by
  rw [While.loop_of_ended n (by simp [going, h]), Scan.outcome, h, Option.getD_some]

theorem outcome_of_nil (hleft : s.left = none) (h : frame.drop s.index = []) :
    (While.loop (going frame) (pass frame command) n s).outcome = .ret .incompleteMatch := by
  have hlength := List.drop_eq_nil_iff.mp h
  rw [While.loop_of_ended n (by simp [going, hlength]), Scan.outcome, hleft, Option.getD_none]

theorem loop_pass (hleft : s.left = none) (h : frame.drop s.index = c :: rest) :
    While.loop (going frame) (pass frame command) (n + 1) s =
      While.loop (going frame) (pass frame command) n (pass frame command s) := by
  have hlt := lt_length_of_drop h
  rw [While.loop, if_pos (by simp [going, hleft, hlt])]

theorem outcome_endofline (hstate : s.state = .endofline) (hleft : s.left = none)
    (hn : frame.length - s.index < n) :
    (While.loop (going frame) (pass frame command) n s).outcome = scanEol (frame.drop s.index) := by
  induction n generalizing s with
  | zero => exact absurd hn (Nat.not_lt_zero _)
  | succ n ih =>
      match h : frame.drop s.index with
      | [] => exact outcome_of_nil hleft h
      | c :: rest =>
          have hlt := lt_length_of_drop h
          have hpass : pass frame command s = endofline frame s := by rw [pass, hstate]
          rw [loop_pass hleft h, hpass, endofline_eq h, scanEol]
          split_ifs with hcr hlf
          · rw [ih (s := { s with index := s.index + 1 }) hstate hleft (by dsimp only; omega), drop_succ_of_drop h]
          · exact outcome_of_left rfl
          · exact outcome_of_left rfl

/-- A command that is used up makes the pass one of the other state. -/
theorem pass_command_end (hstate : s.state = .command_read) (hend : s.cmd_idx = command.length) :
    pass frame command s = pass frame command { s with state := .endofline } := by
  rw [pass, hstate, pass]
  exact if_pos hend

/-- A pass compares two octets, and then looks at the octet behind. -/
theorem pass_command_read {d : Octet} {command' : Str} (hstate : s.state = .command_read)
    (h : frame.drop s.index = c :: rest) (hd : command.drop s.cmd_idx = d :: command') :
    pass frame command s = if c ≠ d then { s with left := some (.ret .noMatch) }
      else endofline frame { s with index := s.index + 1, cmd_idx := s.cmd_idx + 1 } := by
  have hlt := lt_length_of_drop hd
  rw [pass, hstate]
  dsimp only
  rw [if_neg (by omega), getOctet_of_drop h, getOctet_of_drop hd]

/-- **The loop is `scan`**, by induction on the passes. -/
theorem outcome_command_read (hstate : s.state = .command_read) (hleft : s.left = none)
    (hidx : s.cmd_idx ≤ command.length) (hn : frame.length - s.index < n) :
    (While.loop (going frame) (pass frame command) n s).outcome =
      scan (frame.drop s.index) (command.drop s.cmd_idx) := by
  induction n generalizing s with
  | zero => exact absurd hn (Nat.not_lt_zero _)
  | succ n ih =>
      match h : frame.drop s.index, hd : command.drop s.cmd_idx with
      | [], _ => exact outcome_of_nil hleft h
      | c :: rest, [] =>
          have hend : s.cmd_idx = command.length := Nat.le_antisymm hidx (List.drop_eq_nil_iff.mp hd)
          rw [loop_pass hleft h, pass_command_end hstate hend, ← loop_pass (s := { s with state := .endofline }) hleft h,
            outcome_endofline (s := { s with state := .endofline }) rfl hleft hn, scan, ← h]
      | c :: rest, d :: command' =>
          have hlt := lt_length_of_drop h
          have hlt' := lt_length_of_drop hd
          have hrest := drop_succ_of_drop h
          have hcommand := drop_succ_of_drop hd
          rw [loop_pass hleft h, pass_command_read hstate h hd]
          by_cases hcd : c = d
          · rw [if_neg (not_not.mpr hcd)]
            match rest, hrest with
            | [], hrest =>
                -- the octet was the last one of the frame, and `endofline` looks behind it
                rw [scan, if_neg (not_not.mpr hcd)]
                refine outcome_of_left ?_
                rw [endofline, getOctet, List.getElem?_eq_none (List.drop_eq_nil_iff.mp hrest)]
            | e :: rest, hrest =>
                rw [scan, if_neg (not_not.mpr hcd), endofline_eq hrest]
                split_ifs with hcr hlf
                · rw [ih (s := { s with index := s.index + 1 + 1, cmd_idx := s.cmd_idx + 1 }) hstate hleft hlt'
                    (by dsimp only; omega), drop_succ_of_drop hrest, hcommand]
                · exact outcome_of_left rfl
                · exact outcome_of_left rfl
          · rw [if_pos hcd, outcome_of_left rfl]
            cases rest with
            | nil => rw [scan, if_pos hcd]
            | cons e rest => rw [scan, if_pos hcd]

theorem readCommand_outcome (frame command : Str) : (readCommand frame 0 command).1 = scan frame command := by
  rw [readCommand, scanned, outcome_command_read rfl rfl (Nat.zero_le _) (by dsimp only; omega)]
  rfl

/-! ## What is read

`spaced` is the text that the first state goes through: the command, with a CR behind each octet. -/

def spaced (front : Str) : Str := front.flatMap fun c => [c, charCR]

/-- The last octet of the frame is one of the command. -/
def ReadsOutside (command frame : Str) : Prop :=
  ∃ front c back, command = front ++ c :: back ∧ frame = spaced front ++ [c]

/-- A LF behind any octet of the command, or behind the command. -/
def ReadsFull (command frame : Str) : Prop :=
  (∃ front c back rest, command = front ++ c :: back ∧ frame = spaced front ++ c :: charLF :: rest) ∨
    ∃ k rest, frame = spaced command ++ (List.replicate k charCR ++ charLF :: rest)

def ReadsIncomplete (command frame : Str) : Prop :=
  (∃ front back, command = front ++ back ∧ frame = spaced front) ∨
    ∃ k, frame = spaced command ++ List.replicate k charCR

theorem scanEol_replicate (k : Nat) (rest : Str) : scanEol (List.replicate k charCR ++ rest) = scanEol rest := by
  induction k with
  | zero => rfl
  | succ k ih => rw [List.replicate_succ, List.cons_append, scanEol, if_pos rfl, ih]

theorem scan_nil_right (frame : Str) : scan frame [] = scanEol frame := by
  cases frame with
  | nil => rfl
  | cons c rest => rfl

/-- The matched part of the command can be taken off. -/
theorem scan_spaced (front back rest : Str) : scan (spaced front ++ rest) (front ++ back) = scan rest back := by
  induction front with
  | nil => rfl
  | cons c front ih =>
      show scan (c :: charCR :: (spaced front ++ rest)) (c :: (front ++ back)) = scan rest back
      rw [scan, if_neg (not_not.mpr rfl), if_pos rfl, ih]

theorem scan_of_readsOutside (h : ReadsOutside command frame) : scan frame command = .outside := by
  obtain ⟨front, c, back, rfl, rfl⟩ := h
  rw [scan_spaced, scan, if_neg (not_not.mpr rfl)]

theorem scan_of_readsFull (h : ReadsFull command frame) : scan frame command = .ret .fullMatch := by
  rcases h with ⟨front, c, back, rest, rfl, rfl⟩ | ⟨k, rest, rfl⟩
  · rw [scan_spaced, scan, if_neg (not_not.mpr rfl), if_neg (by decide), if_pos rfl]
  · have hscan := scan_spaced command [] (List.replicate k charCR ++ charLF :: rest)
    rw [List.append_nil] at hscan
    rw [hscan, scan_nil_right, scanEol_replicate, scanEol, if_neg (by decide), if_pos rfl]

theorem scan_of_readsIncomplete (h : ReadsIncomplete command frame) :
    scan frame command = .ret .incompleteMatch := by
  rcases h with ⟨front, back, rfl, rfl⟩ | ⟨k, rfl⟩
  · have hscan := scan_spaced front back []
    rw [List.append_nil] at hscan
    rw [hscan, scan]
  · have hscan := scan_spaced command [] (List.replicate k charCR)
    have heol := scanEol_replicate k []
    rw [List.append_nil] at hscan heol
    rw [hscan, scan_nil_right, heol, scanEol]

/-- What the frame is, by the outcome. -/
def Explains (command frame : Str) : Outcome → Prop
  | .outside => ReadsOutside command frame
  | .ret .fullMatch => ReadsFull command frame
  | .ret .incompleteMatch => ReadsIncomplete command frame
  | .ret .noMatch => True

/-- Another octet of the command, with its CR, in front. -/
theorem Explains.cons {o : Outcome} (h : Explains command frame o) :
    Explains (c :: command) (c :: charCR :: frame) o := by
  match o with
  | .outside =>
      obtain ⟨front, d, back, rfl, rfl⟩ := h
      exact ⟨c :: front, d, back, rfl, rfl⟩
  | .ret .fullMatch =>
      rcases h with ⟨front, d, back, rest, rfl, rfl⟩ | ⟨k, rest, rfl⟩
      · exact .inl ⟨c :: front, d, back, rest, rfl, rfl⟩
      · exact .inr ⟨k, rest, rfl⟩
  | .ret .incompleteMatch =>
      rcases h with ⟨front, back, rfl, rfl⟩ | ⟨k, rfl⟩
      · exact .inl ⟨c :: front, back, rfl, rfl⟩
      · exact .inr ⟨k, rfl⟩
  | .ret .noMatch => exact trivial

theorem explains_scanEol (frame : Str) : Explains [] frame (scanEol frame) := by
  induction frame with
  | nil => exact .inr ⟨0, rfl⟩
  | cons c rest ih =>
      rw [scanEol]
      split_ifs with hcr hlf
      · subst hcr
        match h : scanEol rest with
        | .outside =>
            rw [h] at ih
            obtain ⟨front, d, back, hnil, -⟩ := ih
            exact absurd hnil.symm (by simp)
        | .ret .fullMatch =>
            rw [h] at ih
            rcases ih with ⟨front, d, back, rest', hnil, -⟩ | ⟨k, rest', hrest⟩
            · exact absurd hnil.symm (by simp)
            · exact .inr ⟨k + 1, rest', congrArg (charCR :: ·) hrest⟩
        | .ret .incompleteMatch =>
            rw [h] at ih
            rcases ih with ⟨front, back, hnil, hrest⟩ | ⟨k, hrest⟩
            · obtain ⟨rfl, -⟩ := List.append_eq_nil_iff.mp hnil.symm
              exact .inr ⟨1, congrArg (charCR :: ·) hrest⟩
            · exact .inr ⟨k + 1, congrArg (charCR :: ·) hrest⟩
        | .ret .noMatch => exact trivial
      · subst hlf
        exact .inr ⟨0, rest, rfl⟩
      · exact trivial

theorem explains_scan (command frame : Str) : Explains command frame (scan frame command) := by
  induction frame, command using scan.induct with
  | case1 command => exact .inl ⟨[], command, rfl, rfl⟩
  | case2 c rest => exact explains_scanEol (c :: rest)
  | case3 c d command hne =>
      rw [scan, if_pos hne]
      exact trivial
  | case4 c d command heq =>
      obtain rfl := not_not.mp heq
      rw [scan, if_neg heq]
      exact ⟨[], c, command, rfl, rfl⟩
  | case5 c e rest d command hne =>
      rw [scan, if_pos hne]
      exact trivial
  | case6 c rest d command heq ih =>
      -- a CR behind an octet of the command is skipped, wherever in the command this is
      obtain rfl := not_not.mp heq
      rw [scan, if_neg heq, if_pos rfl]
      exact ih.cons
  | case7 c rest d command heq hcr =>
      obtain rfl := not_not.mp heq
      rw [scan, if_neg heq, if_neg hcr, if_pos rfl]
      exact .inl ⟨[], c, command, rest, rfl, rfl⟩
  | case8 c e rest d command heq hcr hlf =>
      rw [scan, if_neg heq, if_neg hcr, if_neg hlf]
      exact trivial

theorem readCommand_outside_iff : (readCommand frame 0 command).1 = .outside ↔ ReadsOutside command frame := by
  rw [readCommand_outcome]
  refine ⟨fun h => ?_, scan_of_readsOutside⟩
  have hscan := explains_scan command frame
  rwa [h] at hscan

theorem readCommand_full_iff : (readCommand frame 0 command).1 = .ret .fullMatch ↔ ReadsFull command frame := by
  rw [readCommand_outcome]
  refine ⟨fun h => ?_, scan_of_readsFull⟩
  have hscan := explains_scan command frame
  rwa [h] at hscan

theorem readCommand_incomplete_iff :
    (readCommand frame 0 command).1 = .ret .incompleteMatch ↔ ReadsIncomplete command frame := by
  rw [readCommand_outcome]
  refine ⟨fun h => ?_, scan_of_readsIncomplete⟩
  have hscan := explains_scan command frame
  rwa [h] at hscan

theorem readCommand_no_iff : (readCommand frame 0 command).1 = .ret .noMatch ↔
    ¬ ReadsOutside command frame ∧ ¬ ReadsFull command frame ∧ ¬ ReadsIncomplete command frame := by
  rw [← readCommand_outside_iff, ← readCommand_full_iff, ← readCommand_incomplete_iff]
  match (readCommand frame 0 command).1 with
  | .outside => decide
  | .ret .fullMatch => decide
  | .ret .incompleteMatch => decide
  | .ret .noMatch => decide

/-! ## What is to be read -/

/-- The command, any number of CR, and LF. -/
def line (command : Str) (k : Nat) : Str := command ++ (List.replicate k charCR ++ [charLF])

def StartsWithLine (command frame : Str) : Prop := ∃ k, line command k <+: frame

def StartsLine (command frame : Str) : Prop := ∃ k, frame <+: line command k ∧ frame ≠ line command k

/-- The three results mean what they say, and no octet outside the frame is read. -/
structure Classifies (command frame : Str) (o : Outcome) : Prop where
  inside : o ≠ .outside
  full : o = .ret .fullMatch ↔ StartsWithLine command frame
  incomplete : o = .ret .incompleteMatch ↔ StartsLine command frame
  no : o = .ret .noMatch ↔ ¬ StartsWithLine command frame ∧ ¬ StartsLine command frame

theorem classifies_iff : Classifies command frame (readCommand frame 0 command).1 ↔
    ¬ ReadsOutside command frame ∧ (ReadsFull command frame ↔ StartsWithLine command frame) ∧
      (ReadsIncomplete command frame ↔ StartsLine command frame) := by
  rw [← readCommand_outside_iff, ← readCommand_full_iff, ← readCommand_incomplete_iff]
  constructor
  · rintro ⟨hinside, hfull, hincomplete, -⟩
    exact ⟨hinside, hfull, hincomplete⟩
  · rintro ⟨hinside, hfull, hincomplete⟩
    refine ⟨hinside, hfull, hincomplete, ?_⟩
    rw [← hfull, ← hincomplete, readCommand_no_iff, readCommand_full_iff, readCommand_incomplete_iff]
    exact and_iff_right (mt readCommand_outside_iff.mpr hinside)

/-! ## Commands of more than one octet -/

/-- Behind the first octet there has to be an end of line. -/
theorem readCommand_second (hcr : d ≠ charCR) (hlf : d ≠ charLF) :
    (readCommand (c :: d :: rest) 0 (c :: command)).1 = .ret .noMatch := by
  rw [readCommand_outcome, scan, if_neg (not_not.mpr rfl), if_neg hcr, if_neg hlf]

theorem StartsWithLine.second (h : StartsWithLine (c :: d :: back) frame) : ∃ rest, frame = c :: d :: rest := by
  obtain ⟨k, rest, rfl⟩ := h
  exact ⟨_, rfl⟩

theorem StartsLine.second (h : StartsLine (c :: d :: back) frame) :
    frame = [] ∨ frame = [c] ∨ ∃ rest, frame = c :: d :: rest := by
  obtain ⟨k, ⟨rest, hrest⟩, -⟩ := h
  match frame with
  | [] => exact .inl rfl
  | [e] =>
      obtain ⟨rfl, -⟩ := List.cons.inj hrest
      exact .inr (.inl rfl)
  | e :: e' :: frame =>
      obtain ⟨rfl, htail⟩ := List.cons.inj hrest
      obtain ⟨rfl, -⟩ := List.cons.inj htail
      exact .inr (.inr ⟨frame, rfl⟩)

/-- Such a command is never recognised where it stands. -/
theorem readCommand_of_startsWithLine (hcr : d ≠ charCR) (hlf : d ≠ charLF)
    (h : StartsWithLine (c :: d :: back) frame) :
    (readCommand frame 0 (c :: d :: back)).1 = .ret .noMatch := by
  obtain ⟨rest, rfl⟩ := h.second
  exact readCommand_second hcr hlf

/-- The result is right for no octets at all, and for frames that are neither read in any way nor to be read. -/
theorem classifies_iff_of_second (hcr : d ≠ charCR) (hlf : d ≠ charLF) :
    Classifies (c :: d :: back) frame (readCommand frame 0 (c :: d :: back)).1 ↔
      frame = [] ∨ (¬ ReadsOutside (c :: d :: back) frame ∧ ¬ ReadsFull (c :: d :: back) frame ∧
          ¬ ReadsIncomplete (c :: d :: back) frame) ∧
        ¬ StartsWithLine (c :: d :: back) frame ∧ ¬ StartsLine (c :: d :: back) frame := by
  rw [← readCommand_no_iff]
  constructor
  · intro h
    by_cases hno : (readCommand frame 0 (c :: d :: back)).1 = .ret .noMatch
    · exact .inr ⟨hno, h.no.mp hno⟩
    · have hnotfull : ¬ StartsWithLine (c :: d :: back) frame :=
        fun hline => hno (readCommand_of_startsWithLine hcr hlf hline)
      have hstarts : StartsLine (c :: d :: back) frame := by
        by_contra hnot
        exact hno (h.no.mpr ⟨hnotfull, hnot⟩)
      rcases hstarts.second with hnil | rfl | ⟨rest, rfl⟩
      · exact .inl hnil
      · exact absurd (readCommand_outside_iff.mpr ⟨[], c, d :: back, rfl, rfl⟩) h.inside
      · exact absurd (readCommand_second hcr hlf) hno
  · rintro (rfl | ⟨hno, hnot⟩)
    · have hpart : StartsLine (c :: d :: back) [] := ⟨0, List.nil_prefix, by simp [line]⟩
      have hline : ¬ StartsWithLine (c :: d :: back) [] := fun h => by simpa using h.second
      refine ⟨nofun, iff_of_false nofun hline, iff_of_true rfl hpart, iff_of_false nofun fun h => h.2 hpart⟩
    · rw [hno]
      exact ⟨nofun, iff_of_false nofun hnot.1, iff_of_false nofun hnot.2, iff_of_true rfl hnot⟩

/-! ## The CONNECT frame -/

def eol : Str := lit "\n"

def command_connect : Str := lit "STOMP"

def header_accept_version_1_2 : Str := lit "accept-version:1.2"

structure Connect where
  host_ : Str := []
  login_ : Str := []
  passcode_ : Str := []
  heartbeat_out_ms_ : UInt64 := 0
  heartbeat_in_ms_ : UInt64 := 0
deriving DecidableEq, Repr

namespace Connect

/-- `match`, which adds nothing to its list of errors. -/
def match_ (_connect : Connect) (frame : Str) : Outcome := (readCommand frame 0 command_connect).1

def generate (connect : Connect) : Str :=
  command_connect ++ eol ++ header_accept_version_1_2 ++ eol ++ (lit "host:" ++ connect.host_) ++ eol
    ++ (if 0 < connect.login_.length then
          (lit "login:" ++ connect.login_) ++ eol ++ (lit "passcode:" ++ connect.passcode_) ++ eol
        else [])
    ++ (if connect.heartbeat_out_ms_ ≠ 0 then
          (lit "heart-beat:" ++ decimal connect.heartbeat_out_ms_.toNat ++ lit ","
            ++ decimal connect.heartbeat_in_ms_.toNat) ++ eol
        else [])
    ++ eol ++ [0]

/-- The frame starts with the command and the end of its line. -/
theorem generate_startsWithLine (connect : Connect) : StartsWithLine command_connect connect.generate := by
  refine ⟨0, ?_⟩
  simp only [generate, List.append_assoc]
  exact ⟨_, rfl⟩

theorem match_generate (connect : Connect) : connect.match_ connect.generate = .ret .noMatch :=
  readCommand_of_startsWithLine (by decide) (by decide) connect.generate_startsWithLine

/-- **A generated frame never matches**, and the result of `readCommand` is the right one exactly if the texts
    with a CR behind every octet of the command differ nowhere from the texts to be read. -/
theorem match_generate_and_readCommand_iff (connect : Connect) (command frame : Str) :
    (connect.match_ connect.generate = .ret .fullMatch ↔ False) ∧
    (Classifies command frame (readCommand frame 0 command).1 ↔
      ¬ ReadsOutside command frame ∧ (ReadsFull command frame ↔ StartsWithLine command frame) ∧
        (ReadsIncomplete command frame ↔ StartsLine command frame)) := by
  refine ⟨iff_of_false ?_ not_false, classifies_iff⟩
  rw [match_generate]
  nofun

/-- A line that is complete does not match, the first octet of the command is not enough to stay within the
    frame, and the first octet and LF match. -/
theorem command_not_recognised :
    ({} : Connect).match_ ({} : Connect).generate = .ret .noMatch ∧
    readCommand (lit "STOMP\n") 0 command_connect = (.ret .noMatch, 1) ∧
    readCommand (lit "S") 0 command_connect = (.outside, 1) ∧
    readCommand (lit "S\n") 0 command_connect = (.ret .fullMatch, 1) := by
  decide

end Connect
end Dodo.Network.Stomp
