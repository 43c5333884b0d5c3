import Dodo.Common.Text

/-!
# `Common.EscapedSplit` — splitting a string where the delimiter is not escaped

`escapedSplit` reads a string once. Its documentation gives the rule: an escape character has an effect on a delimiter
right behind it, and everywhere else it is input. `readPieces` is that rule. The loop departs from it in two ways: an
escape character is never written to the piece, and it stays in effect until the next delimiter, however far that is.
The two agree on exactly the strings in which every escape character stands right before a delimiter.
-/

namespace Dodo.Common

inductive SplitState where
  | stInit
  | stEscape
  | stInput
deriving DecidableEq, Repr

/-- The variables of the loop. -/
structure Splitter where
  state : SplitState := .stInit
  tmp : Str := []
  result : List Str := []
deriving DecidableEq, Repr

/-- The body of the loop, for the next character. -/
def Splitter.pass (escape : List Octet) (delimiter : Octet) (p : Splitter) (c : Octet) : Splitter :=
  if c ∈ escape then { p with state := .stEscape }
  else if c = delimiter then
    if p.state ≠ .stEscape then { state := .stInput, tmp := [], result := p.result ++ [p.tmp] }
    else { p with state := .stInput, tmp := p.tmp ++ [c] }
  else { p with tmp := p.tmp ++ [c] }

/-- What is returned behind the loop. -/
def Splitter.pieces (p : Splitter) : List Str := if 0 < p.tmp.length then p.result ++ [p.tmp] else p.result

def escapedSplit (src : Str) (escape : List Octet) (delimiter : Octet) : List Str :=
  (src.foldl (Splitter.pass escape delimiter) {}).pieces

/-- The documented rule, for the rest of a string behind the piece read so far. -/
def readPieces (escape : List Octet) (delimiter : Octet) : Str → Str → List Str
  | piece, [] => if piece = [] then [] else [piece]
  | piece, [c] => if c = delimiter then [piece] else [piece ++ [c]]
  | piece, c :: e :: l =>
    if c ∈ escape ∧ e = delimiter then readPieces escape delimiter (piece ++ [delimiter]) l
    else if c = delimiter then piece :: readPieces escape delimiter [] (e :: l)
    else readPieces escape delimiter (piece ++ [c]) (e :: l)

/-- Every escape character stands right before a delimiter. -/
def EscapesDelimiters (escape : List Octet) (delimiter : Octet) : Str → Prop
  | [] => True
  | c :: l => (c ∈ escape → l.head? = some delimiter) ∧ EscapesDelimiters escape delimiter l

variable {escape : List Octet} {delimiter : Octet}

/-! ## Where the loop follows the rule -/

/-- Outside an escape the loop continues as the rule does, as long as escape characters stand before delimiters. -/
theorem pieces_foldl (hd : delimiter ∉ escape) (tmp l : Str) (state : SplitState) (result : List Str)
    (hstate : state ≠ .stEscape) (hl : EscapesDelimiters escape delimiter l) :
    (l.foldl (Splitter.pass escape delimiter) ⟨state, tmp, result⟩).pieces =
      result ++ readPieces escape delimiter tmp l := by
  induction tmp, l using readPieces.induct escape delimiter generalizing state result with
  | case1 => simp [Splitter.pieces, readPieces]
  | case2 piece hpiece =>
      have hpos : 0 < piece.length := List.length_pos_iff.mpr hpiece
      rw [readPieces, if_neg hpiece]
      exact if_pos hpos
  | case3 piece =>
      rw [readPieces, if_pos rfl, List.foldl_cons, Splitter.pass, if_neg hd, if_pos rfl, if_pos hstate]
      exact if_neg (Nat.lt_irrefl 0)
  | case4 piece c hc =>
      have hin : c ∉ escape := fun hin => absurd (hl.1 hin) (by simp)
      rw [readPieces, if_neg hc, List.foldl_cons, Splitter.pass, if_neg hin, if_neg hc]
      exact if_pos (by simp)
  | case5 piece c e l hescaped ih =>
      obtain ⟨hin, rfl⟩ := hescaped
      have hpass : Splitter.pass escape e ⟨state, piece, result⟩ c = ⟨.stEscape, piece, result⟩ := if_pos hin
      rw [readPieces, if_pos ⟨hin, rfl⟩, List.foldl_cons, List.foldl_cons, hpass, Splitter.pass, if_neg hd,
        if_pos rfl]
      exact ih .stInput result (by simp) hl.2.2
  | case6 piece e l hescaped ih =>
      rw [readPieces, if_neg hescaped, if_pos rfl, List.foldl_cons, Splitter.pass, if_neg hd, if_pos rfl,
        if_pos hstate, ih .stInput _ (by simp) hl.2, List.append_assoc, List.singleton_append]
  | case7 piece c e l hescaped hc ih =>
      have hin : c ∉ escape := fun hin => hescaped ⟨hin, Option.some.inj (hl.1 hin)⟩
      rw [readPieces, if_neg hescaped, if_neg hc, List.foldl_cons, Splitter.pass, if_neg hin, if_neg hc]
      exact ih state result hstate hl.2

/-! ## Where it does not -/

/-- What the loop has written holds no escape character. -/
structure Splitter.Plain (escape : List Octet) (p : Splitter) : Prop where
  tmp : ∀ c ∈ p.tmp, c ∉ escape
  result : ∀ piece ∈ p.result, ∀ c ∈ piece, c ∉ escape

theorem Splitter.Plain.pass {p : Splitter} (h : p.Plain escape) (c : Octet) :
    (p.pass escape delimiter c).Plain escape := by
  have happend (hc : c ∉ escape) : ∀ c' ∈ p.tmp ++ [c], c' ∉ escape := by
    intro c' hmem
    rcases List.mem_append.mp hmem with hmem | hmem
    · exact h.tmp c' hmem
    · rwa [List.mem_singleton.mp hmem]
  unfold Splitter.pass
  split
  · exact ⟨h.tmp, h.result⟩
  · rename_i hc
    split
    · split
      · refine ⟨by simp, ?_⟩
        intro piece hmem
        rcases List.mem_append.mp hmem with hmem | hmem
        · exact h.result piece hmem
        · rw [List.mem_singleton.mp hmem]
          exact h.tmp
      · exact ⟨happend hc, h.result⟩
    · exact ⟨happend hc, h.result⟩

/-- No escape character is returned. -/
theorem not_mem_escapedSplit (src : Str) :
    ∀ piece ∈ escapedSplit src escape delimiter, ∀ c ∈ piece, c ∉ escape := by
  have hplain : (src.foldl (Splitter.pass escape delimiter) {}).Plain escape := by
    refine List.foldlRecOn src _ (⟨by simp, by simp⟩ : Splitter.Plain escape {}) ?_
    intro p hp c _
    exact hp.pass c
  unfold escapedSplit Splitter.pieces
  split
  · intro piece hmem
    rcases List.mem_append.mp hmem with hmem | hmem
    · exact hplain.result piece hmem
    · rw [List.mem_singleton.mp hmem]
      exact hplain.tmp
  · exact hplain.result

/-- By the rule, what has been read of a piece is returned. -/
theorem mem_readPieces {c : Octet} (tmp l : Str) (hc : c ∈ tmp) :
    ∃ piece ∈ readPieces escape delimiter tmp l, c ∈ piece := by
  induction tmp, l using readPieces.induct escape delimiter with
  | case1 => exact absurd hc (by simp)
  | case2 piece hpiece =>
      rw [readPieces, if_neg hpiece]
      exact ⟨piece, List.mem_singleton_self piece, hc⟩
  | case3 piece =>
      rw [readPieces, if_pos rfl]
      exact ⟨piece, List.mem_singleton_self piece, hc⟩
  | case4 piece c' hc' =>
      rw [readPieces, if_neg hc']
      exact ⟨_, List.mem_singleton_self _, List.mem_append_left _ hc⟩
  | case5 piece c' e l hescaped ih =>
      rw [readPieces, if_pos hescaped]
      exact ih (List.mem_append_left _ hc)
  | case6 piece e l hescaped _ =>
      rw [readPieces, if_neg hescaped, if_pos rfl]
      exact ⟨piece, List.mem_cons_self, hc⟩
  | case7 piece c' e l hescaped hc' ih =>
      rw [readPieces, if_neg hescaped, if_neg hc']
      exact ih (List.mem_append_left _ hc)

/-- By the rule, an escape character that is not before a delimiter is input, and is returned. -/
theorem escape_mem_readPieces (hd : delimiter ∉ escape) (tmp l : Str) (hl : ¬ EscapesDelimiters escape delimiter l) :
    ∃ piece ∈ readPieces escape delimiter tmp l, ∃ c ∈ piece, c ∈ escape := by
  -- an escape character that has just been read into the piece is found again by `mem_readPieces`
  have hread {piece rest : Str} {c : Octet} (hin : c ∈ escape) :
      ∃ piece' ∈ readPieces escape delimiter (piece ++ [c]) rest, ∃ c ∈ piece', c ∈ escape := by
    obtain ⟨piece', hmem, hc⟩ : ∃ piece' ∈ readPieces escape delimiter (piece ++ [c]) rest, c ∈ piece' :=
      mem_readPieces _ rest (List.mem_append_right piece (List.mem_singleton_self c))
    exact ⟨piece', hmem, c, hc, hin⟩
  induction tmp, l using readPieces.induct escape delimiter with
  | case1 => exact absurd trivial hl
  | case2 piece hpiece => exact absurd trivial hl
  | case3 piece => exact absurd ⟨fun hin => absurd hin hd, trivial⟩ hl
  | case4 piece c hc =>
      have hin : c ∈ escape := by
        by_contra hin
        exact hl ⟨fun h => absurd h hin, trivial⟩
      rw [readPieces, if_neg hc]
      exact ⟨_, List.mem_singleton_self _, c, by simp, hin⟩
  | case5 piece c e l hescaped ih =>
      rw [readPieces, if_pos hescaped]
      obtain ⟨hin, rfl⟩ := hescaped
      exact ih (fun h => hl ⟨fun _ => rfl, fun h' => absurd h' hd, h⟩)
  | case6 piece e l hescaped ih =>
      rw [readPieces, if_neg hescaped, if_pos rfl]
      obtain ⟨piece', hmem, hc⟩ := ih (fun h => hl ⟨fun hin => absurd hin hd, h⟩)
      exact ⟨piece', List.mem_cons_of_mem _ hmem, hc⟩
  | case7 piece c e l hescaped hc ih =>
      rw [readPieces, if_neg hescaped, if_neg hc]
      by_cases hin : c ∈ escape
      · exact hread hin
      · exact ih (fun h => hl ⟨fun h' => absurd h' hin, h⟩)

/-- **`escapedSplit` follows its documented rule** on exactly the strings in which every escape character stands right
before a delimiter. -/
theorem escapedSplit_iff (hd : delimiter ∉ escape) (src : Str) :
    escapedSplit src escape delimiter = readPieces escape delimiter [] src ↔
      EscapesDelimiters escape delimiter src := by
  constructor
  · intro heq
    by_contra hsrc
    obtain ⟨piece, hmem, c, hc, hin⟩ := escape_mem_readPieces hd [] src hsrc
    exact not_mem_escapedSplit src piece (by rwa [heq]) c hc hin
  · exact pieces_foldl hd [] src .stInit [] (by simp)

/-- An escaped delimiter in a name, with the characters that identities are split with. -/
theorem escapedSplit_iff_comma : escapedSplit (lit "O=a\\,b,C=d") (lit "\\") 44 = [lit "O=a,b", lit "C=d"] :=
  (escapedSplit_iff (by decide) (lit "O=a\\,b,C=d")).mpr (by simp [EscapesDelimiters, lit])

/-- The example of the documentation, and an escape that reaches over an ordinary character to the next delimiter. -/
theorem escapedSplit_drops_escape :
    escapedSplit (lit "one:t$$wo:three") (lit "$") 58 = [lit "one", lit "two:three"] ∧
      readPieces (lit "$") 58 [] (lit "one:t$$wo:three") = [lit "one", lit "t$$wo", lit "three"] ∧
      escapedSplit (lit "a\\b,c") (lit "\\") 44 = [lit "ab,c"] ∧
      readPieces (lit "\\") 44 [] (lit "a\\b,c") = [lit "a\\b", lit "c"] := by
  decide

/-! ## Texts that are joined by delimiters

A text that is written for this parser has escape characters before its delimiters. Of such texts the parser makes pieces
without the escape characters, but a text that leaves an escape pending is joined to the next one. -/

/-- Whether an escape is in effect behind a text, if it was before (`b`). -/
def pending (escape : List Octet) (delimiter : Octet) (b : Bool) (t : Str) : Bool :=
  t.foldl (fun b c => if c ∈ escape then true else if c = delimiter then false else b) b

/-- An escape is in effect at every delimiter. -/
def guarded (escape : List Octet) (delimiter : Octet) : Bool → Str → Bool
  | _, [] => true
  | b, c :: t =>
    if c ∈ escape then guarded escape delimiter true t
    else if c = delimiter then b && guarded escape delimiter false t
    else guarded escape delimiter b t

def strip (escape : List Octet) (t : Str) : Str := t.filter (· ∉ escape)

/-- The pieces that joined texts are read as, behind the piece read so far. -/
def blocks (escape : List Octet) (delimiter : Octet) : Str → List Str → List Str
  | piece, [] => [piece]
  | piece, [t] => [piece ++ strip escape t]
  | piece, t :: u :: ts =>
    if pending escape delimiter false t then blocks escape delimiter (piece ++ strip escape t ++ [delimiter]) (u :: ts)
    else (piece ++ strip escape t) :: blocks escape delimiter [] (u :: ts)

theorem pending_append (b : Bool) (s t : Str) :
    pending escape delimiter b (s ++ t) = pending escape delimiter (pending escape delimiter b s) t := List.foldl_append

theorem guarded_append (b : Bool) (s t : Str) : guarded escape delimiter b (s ++ t) =
    (guarded escape delimiter b s && guarded escape delimiter (pending escape delimiter b s) t) := by
  induction s generalizing b with
  | nil => rfl
  | cons c s ih =>
      rw [List.cons_append, guarded, guarded, show pending escape delimiter b (c :: s) =
        pending escape delimiter (if c ∈ escape then true else if c = delimiter then false else b) s from rfl]
      split
      · exact ih true
      · split
        · rw [ih, Bool.and_assoc]
        · exact ih b

theorem strip_append (s t : Str) : strip escape (s ++ t) = strip escape s ++ strip escape t := List.filter_append ..

/-- Text without delimiters and escape characters changes nothing. -/
theorem pending_plain {t : Str} (h : ∀ c ∈ t, c ∉ escape ∧ c ≠ delimiter) (b : Bool) :
    pending escape delimiter b t = b := by
  induction t with
  | nil => rfl
  | cons c t ih =>
      obtain ⟨⟨hescape, hdelimiter⟩, ht⟩ := List.forall_mem_cons.mp h
      show pending escape delimiter (if c ∈ escape then true else if c = delimiter then false else b) t = b
      rw [if_neg hescape, if_neg hdelimiter]
      exact ih ht

theorem guarded_plain {t : Str} (h : ∀ c ∈ t, c ∉ escape ∧ c ≠ delimiter) (b : Bool) :
    guarded escape delimiter b t = true := by
  induction t with
  | nil => rfl
  | cons c t ih =>
      obtain ⟨⟨hescape, hdelimiter⟩, ht⟩ := List.forall_mem_cons.mp h
      rw [guarded, if_neg hescape, if_neg hdelimiter]
      exact ih ht

theorem strip_plain {t : Str} (h : ∀ c ∈ t, c ∉ escape) : strip escape t = t :=
  List.filter_eq_self.mpr (fun c hc => decide_eq_true (h c hc))

/-- A guarded text goes to the piece that is being read. -/
theorem foldl_pass_guarded {p : Splitter} {b : Bool} (hb : b = true ↔ p.state = .stEscape)
    {t : Str} (h : guarded escape delimiter b t = true) :
    ∃ state, t.foldl (Splitter.pass escape delimiter) p = ⟨state, p.tmp ++ strip escape t, p.result⟩ ∧
      (pending escape delimiter b t = true ↔ state = .stEscape) := by
  induction t generalizing p b with
  | nil => exact ⟨p.state, by simp [strip], hb⟩
  | cons c t ih =>
      rw [guarded] at h
      rw [List.foldl_cons, show pending escape delimiter b (c :: t) =
        pending escape delimiter (if c ∈ escape then true else if c = delimiter then false else b) t from rfl]
      by_cases hescape : c ∈ escape
      · rw [if_pos hescape] at h ⊢
        have hpass : p.pass escape delimiter c = { p with state := .stEscape } := if_pos hescape
        obtain ⟨state, hfold, hpending⟩ := ih (p := { p with state := .stEscape }) (by simp) h
        have hstrip : strip escape (c :: t) = strip escape t := List.filter_cons_of_neg (by simpa using hescape)
        exact ⟨state, by rw [hpass, hfold, hstrip], hpending⟩
      · have hstrip : strip escape (c :: t) = c :: strip escape t := List.filter_cons_of_pos (by simpa using hescape)
        rw [if_neg hescape] at h ⊢
        by_cases hdelimiter : c = delimiter
        · rw [if_pos hdelimiter, Bool.and_eq_true] at h
          rw [if_pos hdelimiter]
          have hpass : p.pass escape delimiter c = ⟨.stInput, p.tmp ++ [c], p.result⟩ := by
            rw [Splitter.pass, if_neg hescape, if_pos hdelimiter, if_neg (not_not.mpr (hb.mp h.1))]
          obtain ⟨state, hfold, hpending⟩ := ih (p := ⟨.stInput, p.tmp ++ [c], p.result⟩) (by simp) h.2
          refine ⟨state, ?_, hpending⟩
          rw [hpass, hfold, hstrip, List.append_assoc, List.singleton_append]
        · rw [if_neg hdelimiter] at h ⊢
          have hpass : p.pass escape delimiter c = { p with tmp := p.tmp ++ [c] } := by
            rw [Splitter.pass, if_neg hescape, if_neg hdelimiter]
          obtain ⟨state, hfold, hpending⟩ := ih (p := { p with tmp := p.tmp ++ [c] }) hb h
          refine ⟨state, ?_, hpending⟩
          rw [hpass, hfold, hstrip, List.append_assoc, List.singleton_append]

/-- **What joined texts are read as.** -/
theorem escapedSplit_intercalate (hd : delimiter ∉ escape) {ts : List Str} (hne : ts ≠ [])
    (hts : ∀ t ∈ ts, guarded escape delimiter false t = true ∧ strip escape t ≠ []) :
    escapedSplit ([delimiter].intercalate ts) escape delimiter = blocks escape delimiter [] ts := by
  -- from any point between two texts; induction on the texts to come
  suffices hread : ∀ (p : Splitter), p.state ≠ .stEscape →
      (([delimiter].intercalate ts).foldl (Splitter.pass escape delimiter) p).pieces =
        p.result ++ blocks escape delimiter p.tmp ts from hread {} (by decide)
  induction ts with
  | nil => exact absurd rfl hne
  | cons t ts ih =>
      intro p hp
      obtain ⟨⟨hguarded, hstrip⟩, hrest⟩ := List.forall_mem_cons.mp hts
      obtain ⟨state, hfold, hpending⟩ := foldl_pass_guarded (b := false) (by simpa using hp) hguarded
      cases ts with
      | nil =>
          have hpos : 0 < (p.tmp ++ strip escape t).length := by
            have := List.length_pos_iff.mpr hstrip
            rw [List.length_append]
            omega
          rw [show [delimiter].intercalate [t] = t by simp [List.intercalate], hfold, Splitter.pieces, if_pos hpos, blocks]
      | cons u ts =>
          rw [intercalate_cons (List.cons_ne_nil u ts), List.foldl_append, hfold, List.foldl_cons, blocks]
          by_cases hescaped : state = .stEscape
          · have hpass : Splitter.pass escape delimiter ⟨state, p.tmp ++ strip escape t, p.result⟩ delimiter =
                ⟨.stInput, p.tmp ++ strip escape t ++ [delimiter], p.result⟩ := by
              rw [Splitter.pass, if_neg hd, if_pos rfl, if_neg (not_not.mpr hescaped)]
            rw [hpass, ih (List.cons_ne_nil u ts) hrest _ (by simp), if_pos (hpending.mpr hescaped)]
          · have hpass : Splitter.pass escape delimiter ⟨state, p.tmp ++ strip escape t, p.result⟩ delimiter =
                ⟨.stInput, [], p.result ++ [p.tmp ++ strip escape t]⟩ := by
              rw [Splitter.pass, if_neg hd, if_pos rfl, if_pos hescaped]
            rw [hpass, ih (List.cons_ne_nil u ts) hrest _ (by simp), if_neg (mt hpending.mp hescaped), List.append_assoc,
              List.singleton_append]

end Dodo.Common
