import Dodo.Network.Fragments

/-!
# `Network.Lines` — text lines over a socket

`receiveLine` asks for one octet at a time, and drops every carriage return. Its loop ends at a line feed, at an error,
and when no octet was received: at the end of the stream, where `receive` returns `ecOK`. There the last case looks
like the first to the caller, who gets the rest of the stream as if it were a line, and then empty lines for ever.

## Contents
- **The code.** `sendLine` and `receiveLine`.
- **Lines of a stream.** `lines` are those that end with a line feed. A call returns what is before the next line feed,
  or all that is left.
- **Runs.** `Calls` is one call after the other. As many calls as there are lines give the lines, and no more.
-/

namespace Dodo.Network

open Common Lib Lib.Comp

namespace BaseSocket

def lineFeed : Octet := 10
def carriageReturn : Octet := 13

/-! ## The code -/

def sendLine (s : Str) : Str := s ++ [lineFeed]

/-- The variables of `receiveLine`. -/
structure LineState where
  error : SystemError
  received : Nat
  c : Octet
  ss : Str
deriving DecidableEq, Repr

/-- `error = receive( &c, 1, received )`; without an octet `c` stays as it is. -/
def receiveOctet (c : Octet) (ss : Str) : Comp Socket Fault LineState := do
  let (error, l) ← receive 1
  pure ⟨error, l.length, l.headD c, ss⟩

def receiveLinePass (p : LineState) : Comp Socket Fault (LineState ⊕ (SystemError × Str)) :=
  if p.error = .ecOK ∧ p.received = 1 ∧ p.c ≠ lineFeed then do
    let next ← receiveOctet p.c (if p.c ≠ carriageReturn then p.ss ++ [p.c] else p.ss)
    pure (.inl next)
  else pure (.inr (p.error, if p.error = .ecOK then p.ss else []))

def receiveLine : Comp Socket Fault (SystemError × Str) := do
  let first ← receiveOctet 0 []
  .loop receiveLinePass first

/-! ## Lines of a stream -/

/-- The stream is `l`, in whatever pieces it comes, and at its end `receive` returns `ecOK` without an octet. -/
def EndsAfter (l : Str) (s : Socket) : Prop :=
  ∃ qs, s = .ofChunks qs (.data []) ∧ (∀ q ∈ qs, q ≠ []) ∧ qs.flatten = l

/-- The line that begins with `line` and goes on in the stream, and those behind it, as far as they end. -/
def linesFrom (line : Str) : Str → List Str
  | [] => []
  | c :: l => if c = lineFeed then line :: linesFrom [] l else linesFrom (line ++ [c]) l

/-- The lines of a stream that end with a line feed, without it. -/
def lines (l : Str) : List Str := linesFrom [] l

def withoutCR (line : Str) : Str := line.filter (· ≠ carriageReturn)

/-- What is before the next line feed, or all that is left. -/
def upToLF (l : Str) : Str := l.takeWhile (· ≠ lineFeed)

/-- What is behind the next line feed. -/
def behindLF (l : Str) : Str := (l.dropWhile (· ≠ lineFeed)).tail

variable {l : Str} {c : Octet} {s s' : Socket}

theorem EndsAfter.unread (h : EndsAfter l s) : s.unread = l := by
  obtain ⟨qs, rfl, _, rfl⟩ := h
  exact Socket.unread_ofChunks

/-- An octet is received as long as there is one. -/
theorem EndsAfter.receive_cons (h : EndsAfter (c :: l) s) :
    ∃ s₁, s.receive 1 = (.ok .ecOK, [c], s₁) ∧ EndsAfter l s₁ := by
  obtain ⟨qs, rfl, hne, hflatten⟩ := h
  cases qs with
  | nil => cases hflatten
  | cons q qs =>
      obtain ⟨d, q, rfl⟩ := List.exists_cons_of_ne_nil (hne q List.mem_cons_self)
      obtain ⟨rfl, hrest⟩ := List.cons.inj hflatten
      refine ⟨_, receive_chunk hne, _, rfl, ne_nil_of_mem_dropOctets hne, ?_⟩
      rw [flatten_dropOctets]
      exact hrest

theorem EndsAfter.receive_nil (h : EndsAfter [] s) : s.receive 1 = (.ok .ecOK, [], s) := by
  obtain ⟨qs, rfl, hne, hflatten⟩ := h
  cases qs with
  | nil => rfl
  | cons q qs =>
      have hq := hne q List.mem_cons_self
      rw [List.flatten_cons, List.append_eq_nil_iff] at hflatten
      exact absurd hflatten.1 hq

theorem EndsAfter.wp_receiveOctet {ss : Str} {Q : Except Fault LineState → Socket → Prop} (h : EndsAfter l s)
    (hcons : ∀ c' l' s₁, l = c' :: l' → EndsAfter l' s₁ → Q (.ok ⟨.ecOK, 1, c', ss⟩) s₁)
    (hnil : l = [] → Q (.ok ⟨.ecOK, 0, c, ss⟩) s) : wp (receiveOctet c ss) Q s := by
  rw [receiveOctet, wp_bind, receive, wp_prim]
  cases l with
  | nil =>
      rw [h.receive_nil]
      exact wp_pure.mpr (hnil rfl)
  | cons c' l' =>
      obtain ⟨s₁, hreceive, h₁⟩ := h.receive_cons
      rw [hreceive]
      exact wp_pure.mpr (hcons c' l' s₁ rfl h₁)

theorem upToLF_lineFeed : upToLF (lineFeed :: l) = [] := List.takeWhile_cons_of_neg (by simp)

theorem upToLF_cons (hc : c ≠ lineFeed) : upToLF (c :: l) = c :: upToLF l := List.takeWhile_cons_of_pos (by simp [hc])

theorem behindLF_lineFeed : behindLF (lineFeed :: l) = l := by
  rw [behindLF, List.dropWhile_cons_of_neg (by simp)]
  rfl

theorem behindLF_cons (hc : c ≠ lineFeed) : behindLF (c :: l) = behindLF l := by
  rw [behindLF, List.dropWhile_cons_of_pos (by simp [hc])]
  rfl

theorem withoutCR_cons (ss line : Str) : (if c ≠ carriageReturn then ss ++ [c] else ss) ++ withoutCR line =
    ss ++ withoutCR (c :: line) := by
  unfold withoutCR
  by_cases hc : c = carriageReturn
  · simp [hc]
  · simp [hc]

/-- The loop ends with what it has when there is a line feed or when nothing was received. -/
theorem wp_loop_ends {received : Nat} {ss : Str} (hends : ¬ (received = 1 ∧ c ≠ lineFeed))
    {Q : Except Fault (SystemError × Str) → Socket → Prop} (hQ : Q (.ok (.ecOK, ss)) s) :
    wp (.loop receiveLinePass ⟨.ecOK, received, c, ss⟩) Q s := by
  rw [wp_loop, receiveLinePass, if_neg (fun h => hends h.2)]
  exact wp_break.mpr hQ

/-- Otherwise it keeps the octet, unless it is a carriage return, and goes on with the next one. -/
theorem wp_loop_next {ss : Str} (hc : c ≠ lineFeed) (h : EndsAfter l s)
    {Q : Except Fault (SystemError × Str) → Socket → Prop}
    (hcons : ∀ d l' s₁, l = d :: l' → EndsAfter l' s₁ →
      wp (.loop receiveLinePass ⟨.ecOK, 1, d, if c ≠ carriageReturn then ss ++ [c] else ss⟩) Q s₁)
    (hnil : l = [] → Q (.ok (.ecOK, if c ≠ carriageReturn then ss ++ [c] else ss)) s) :
    wp (.loop receiveLinePass ⟨.ecOK, 1, c, ss⟩) Q s := by
  rw [wp_loop, receiveLinePass, if_pos ⟨rfl, rfl, hc⟩, wp_bind]
  apply h.wp_receiveOctet
  · intro d l' s₁ hl h₁
    exact wp_continue.mpr (hcons d l' s₁ hl h₁)
  · intro hl
    exact wp_continue.mpr (wp_loop_ends (by simp) (hnil hl))

theorem wp_loop_lineFeed (h : EndsAfter l s) (ss : Str) :
    wp (.loop receiveLinePass ⟨.ecOK, 1, lineFeed, ss⟩)
      (fun r s' => r = .ok (.ecOK, ss ++ withoutCR (upToLF (lineFeed :: l))) ∧ EndsAfter (behindLF (lineFeed :: l)) s')
      s := by
  apply wp_loop_ends (by simp)
  rw [upToLF_lineFeed, behindLF_lineFeed]
  exact ⟨by simp [withoutCR], h⟩

/-- The loop when an octet has been received, and `l` comes behind it. -/
theorem wp_loop_octet (h : EndsAfter l s) (ss : Str) :
    wp (.loop receiveLinePass ⟨.ecOK, 1, c, ss⟩)
      (fun r s' => r = .ok (.ecOK, ss ++ withoutCR (upToLF (c :: l))) ∧ EndsAfter (behindLF (c :: l)) s') s := by
  induction l generalizing c ss s with
  | nil =>
      by_cases hc : c = lineFeed
      · exact hc ▸ wp_loop_lineFeed h ss
      · apply wp_loop_next hc h
        · intro d l' s₁ hl
          cases hl
        · intro _
          rw [upToLF_cons hc, behindLF_cons hc, ← withoutCR_cons]
          exact ⟨by simp [withoutCR, upToLF], h⟩
  | cons d l ih =>
      by_cases hc : c = lineFeed
      · exact hc ▸ wp_loop_lineFeed h ss
      · rw [upToLF_cons hc, behindLF_cons hc, ← withoutCR_cons]
        apply wp_loop_next hc h
        · intro d' l' s₁ hl h₁
          obtain ⟨rfl, rfl⟩ := List.cons.inj hl
          exact ih h₁ _
        · intro hl
          cases hl

/-- **One call**: it returns what is before the next line feed, or all that is left, and never an error. -/
theorem EndsAfter.receiveLine (h : EndsAfter l s) :
    ∃ s', Returns receiveLine s (.ok (.ecOK, withoutCR (upToLF l))) s' ∧ EndsAfter (behindLF l) s' := by
  have hwp : wp BaseSocket.receiveLine
      (fun r s' => r = .ok (.ecOK, withoutCR (upToLF l)) ∧ EndsAfter (behindLF l) s') s := by
    rw [BaseSocket.receiveLine, wp_bind]
    apply h.wp_receiveOctet
    · rintro c l' s₁ rfl h₁
      exact wp_loop_octet h₁ []
    · rintro rfl
      exact wp_loop_ends (by simp) ⟨rfl, h⟩
  obtain ⟨r, s', hreturns, rfl, h'⟩ := hwp
  exact ⟨s', hreturns, h'⟩

/-! ## Runs -/

/-- A call of `receiveLine`: the octets that it has taken from the socket, and what it returned. -/
structure Call where
  read : Str
  error : SystemError
  line : Str
deriving DecidableEq, Repr

/-- One call after the other. -/
inductive Calls : Socket → List Call → Socket → Prop where
  | nil {s : Socket} : Calls s [] s
  | cons {s s₁ s' : Socket} {call : Call} {calls : List Call}
      (hreturns : Returns receiveLine s (.ok (call.error, call.line)) s₁) (hread : s.unread = call.read ++ s₁.unread)
      (h : Calls s₁ calls s') : Calls s (call :: calls) s'

/-- The calls that returned `ecOK` gave the lines of the stream, and each has read a line feed. -/
structure Framed (l : Str) (calls : List Call) : Prop where
  lines : (calls.filter (·.error = .ecOK)).map Call.line <+: (lines l).map withoutCR
  terminated : ∀ call ∈ calls, call.error = .ecOK → ∃ x, call.read = x ++ [lineFeed]

theorem linesFrom_eq (line l : Str) :
    linesFrom line l = if lineFeed ∈ l then (line ++ upToLF l) :: lines (behindLF l) else [] := by
  induction l generalizing line with
  | nil => rfl
  | cons c l ih =>
      rw [linesFrom]
      by_cases hc : c = lineFeed
      · subst hc
        rw [if_pos rfl, if_pos List.mem_cons_self, upToLF_lineFeed, behindLF_lineFeed, List.append_nil]
        rfl
      · rw [if_neg hc, ih, upToLF_cons hc, behindLF_cons hc, List.append_assoc, List.singleton_append]
        simp [Ne.symm hc]

theorem lines_eq (l : Str) : lines l = if lineFeed ∈ l then upToLF l :: lines (behindLF l) else [] :=
  linesFrom_eq [] l

/-- A stream with a line feed is its first line, and the rest. -/
theorem upToLF_append (h : lineFeed ∈ l) : upToLF l ++ lineFeed :: behindLF l = l := by
  induction l with
  | nil => exact absurd h List.not_mem_nil
  | cons c l ih =>
      by_cases hc : c = lineFeed
      · subst hc
        rw [upToLF_lineFeed, behindLF_lineFeed, List.nil_append]
      · rw [upToLF_cons hc, behindLF_cons hc, List.cons_append]
        rw [ih (by simpa [Ne.symm hc] using h)]

/-- What one call takes from the stream and returns. -/
def firstCall (l : Str) : Call :=
  ⟨if lineFeed ∈ l then upToLF l ++ [lineFeed] else l, .ecOK, withoutCR (upToLF l)⟩

theorem read_firstCall (l : Str) : (firstCall l).read ++ behindLF l = l := by
  show (if lineFeed ∈ l then upToLF l ++ [lineFeed] else l) ++ behindLF l = l
  by_cases h : lineFeed ∈ l
  · rw [if_pos h, List.append_assoc, List.singleton_append, upToLF_append h]
  · have hall : l.dropWhile (· ≠ lineFeed) = [] := by
      rw [List.dropWhile_eq_nil_iff]
      intro c hc
      simpa using fun heq : c = lineFeed => h (heq ▸ hc)
    rw [if_neg h, behindLF, hall, List.tail_nil, List.append_nil]

theorem EndsAfter.call (h : EndsAfter l s) :
    ∃ s₁, Returns BaseSocket.receiveLine s (.ok ((firstCall l).error, (firstCall l).line)) s₁ ∧
      s.unread = (firstCall l).read ++ s₁.unread ∧ EndsAfter (behindLF l) s₁ := by
  obtain ⟨s₁, hreturns, h₁⟩ := h.receiveLine
  exact ⟨s₁, hreturns, by rw [h.unread, h₁.unread, read_firstCall], h₁⟩

/-- A run begins with that call. -/
theorem Calls.first {call : Call} {calls : List Call} (h : EndsAfter l s) (hcalls : Calls s (call :: calls) s') :
    call = firstCall l ∧ ∃ s₁, EndsAfter (behindLF l) s₁ ∧ Calls s₁ calls s' := by
  obtain ⟨s₁, hreturns, hread, h₁⟩ := h.call
  cases hcalls with
  | cons hreturns' hread' hrest =>
      obtain ⟨hresult, rfl⟩ := hreturns'.unique hreturns
      obtain ⟨herror, hline⟩ := Prod.mk.inj (Except.ok.inj hresult)
      have hread := List.append_cancel_right (hread'.symm.trans hread)
      obtain ⟨read, error, line⟩ := call
      exact ⟨by rw [show read = _ from hread, show error = _ from herror, show line = _ from hline], _, h₁, hrest⟩

/-- There can be any number of calls. -/
theorem EndsAfter.exists_calls (h : EndsAfter l s) (n : Nat) : ∃ calls s', Calls s calls s' ∧ calls.length = n := by
  induction n generalizing l s with
  | zero => exact ⟨[], s, .nil, rfl⟩
  | succ n ih =>
      obtain ⟨s₁, hreturns, hread, h₁⟩ := h.call
      obtain ⟨calls, s', hcalls, hlength⟩ := ih h₁
      exact ⟨firstCall l :: calls, s', .cons hreturns hread hcalls, by rw [List.length_cons, hlength]⟩

theorem Calls.error_eq {calls : List Call} (h : EndsAfter l s) (hcalls : Calls s calls s') :
    ∀ call ∈ calls, call.error = .ecOK := by
  induction calls generalizing l s with
  | nil => simp
  | cons call calls ih =>
      obtain ⟨rfl, s₁, h₁, hrest⟩ := hcalls.first h
      intro call hmem
      rcases List.mem_cons.mp hmem with rfl | hmem
      · rfl
      · exact ih h₁ hrest call hmem

/-- Every call returns `ecOK`. -/
theorem Calls.filter_eq {calls : List Call} (h : EndsAfter l s) (hcalls : Calls s calls s') :
    calls.filter (·.error = .ecOK) = calls := by
  rw [List.filter_eq_self]
  intro call hmem
  exact decide_eq_true (hcalls.error_eq h call hmem)

/-- As long as there are lines, they are what is returned. -/
theorem Calls.framed {calls : List Call} (h : EndsAfter l s) (hcalls : Calls s calls s')
    (hlength : calls.length ≤ (lines l).length) : Framed l calls := by
  induction calls generalizing l s with
  | nil => exact ⟨List.nil_prefix, by simp⟩
  | cons call calls ih =>
      obtain ⟨rfl, s₁, h₁, hrest⟩ := hcalls.first h
      rw [lines_eq] at hlength
      by_cases hmem : lineFeed ∈ l
      · rw [if_pos hmem, List.length_cons, List.length_cons] at hlength
        have hframed := ih h₁ hrest (Nat.le_of_succ_le_succ hlength)
        constructor
        · rw [List.filter_cons_of_pos (by rfl), lines_eq, if_pos hmem, List.map_cons, List.map_cons]
          exact (List.prefix_cons_inj _).mpr hframed.lines
        · intro call hcall hok
          rcases List.mem_cons.mp hcall with rfl | hcall
          · exact ⟨upToLF l, if_pos hmem⟩
          · exact hframed.terminated call hcall hok
      · rw [if_neg hmem] at hlength
        simp at hlength

theorem behindLF_line {x : Str} (hx : lineFeed ∉ x) :
    upToLF (x ++ lineFeed :: l) = x ∧ behindLF (x ++ lineFeed :: l) = l := by
  induction x with
  | nil => exact ⟨upToLF_lineFeed, behindLF_lineFeed⟩
  | cons c x ih =>
      rw [List.mem_cons, not_or] at hx
      obtain ⟨hup, hbehind⟩ := ih hx.2
      rw [List.cons_append, upToLF_cons (Ne.symm hx.1), behindLF_cons (Ne.symm hx.1), hup, hbehind]
      exact ⟨rfl, rfl⟩

/-- The lines of what `sendLine` puts on the stream. -/
theorem lines_sendLine {ls : List Str} (hls : ∀ x ∈ ls, lineFeed ∉ x) : lines (ls.flatMap sendLine) = ls := by
  induction ls with
  | nil => rfl
  | cons x ls ih =>
      obtain ⟨hup, hbehind⟩ := behindLF_line (l := ls.flatMap sendLine) (hls x List.mem_cons_self)
      rw [List.flatMap_cons, sendLine, List.append_assoc, List.singleton_append, lines_eq, if_pos (by simp), hup,
        hbehind, ih (fun y hy => hls y (List.mem_cons_of_mem x hy))]

/-- **The lines that `receiveLine` returns are those of the stream** for exactly as many calls as the stream has line
feeds; lines that were sent with `sendLine` are received as they were sent. -/
theorem receiveLine_framed_iff (h : EndsAfter l s) :
    (∀ n, ∃ calls s', Calls s calls s' ∧ calls.length = n) ∧
    (∀ calls s', Calls s calls s' → (Framed l calls ↔ calls.length ≤ (lines l).length)) ∧
    (∀ ls : List Str, (∀ x ∈ ls, carriageReturn ∉ x ∧ lineFeed ∉ x) → l = ls.flatMap sendLine →
      ∃ calls s', Calls s calls s' ∧
        calls.map (fun call => (call.error, call.line)) = ls.map (fun x => (.ecOK, x))) := by
  refine ⟨h.exists_calls, ?_, ?_⟩
  · intro calls s' hcalls
    refine ⟨fun hframed => ?_, hcalls.framed h⟩
    have hle := hframed.lines.length_le
    rwa [hcalls.filter_eq h, List.length_map, List.length_map] at hle
  · intro ls hls hl
    have hlines : lines l = ls := by rw [hl, lines_sendLine (fun x hx => (hls x hx).2)]
    obtain ⟨calls, s', hcalls, hlength⟩ := h.exists_calls ls.length
    have hprefix := (hcalls.framed h (by rw [hlength, hlines])).lines
    have hplain : ls.map withoutCR = ls := by
      refine (List.map_congr_left ?_).trans (List.map_id ls)
      intro x hx
      show x.filter (· ≠ carriageReturn) = x
      rw [List.filter_eq_self]
      intro c hc
      simpa using fun heq : c = carriageReturn => (hls x hx).1 (heq ▸ hc)
    rw [hcalls.filter_eq h, hlines, hplain] at hprefix
    have hreceived : calls.map Call.line = ls := hprefix.eq_of_length (by rw [List.length_map, hlength])
    refine ⟨calls, s', hcalls, ?_⟩
    rw [← hreceived, List.map_map]
    apply List.map_congr_left
    intro call hmem
    rw [hcalls.error_eq h call hmem]
    rfl

/-- A line whose end comes in a piece of its own. -/
theorem receiveLine_framed_one : ∃ calls s',
    Calls (.ofChunks [lit "a", lit "\r\n"] (.data [])) calls s' ∧ Framed (lit "a\r\n") calls ∧ calls.length = 1 := by
  have h : EndsAfter (lit "a\r\n") (.ofChunks [lit "a", lit "\r\n"] (.data [])) := ⟨_, rfl, by decide, rfl⟩
  obtain ⟨hexists, hframed, -⟩ := receiveLine_framed_iff h
  obtain ⟨calls, s', hcalls, hlength⟩ := hexists 1
  exact ⟨calls, s', hcalls, (hframed calls s' hcalls).mpr (by rw [hlength]; decide), hlength⟩

/-- A stream without a line feed: all of it is returned with `ecOK`, and then an empty line. -/
theorem receiveLine_without_end : ∃ s₁ s₂,
    Returns receiveLine (.ofChunks [lit "ab"] (.data [])) (.ok (.ecOK, lit "ab")) s₁ ∧
      Returns receiveLine s₁ (.ok (.ecOK, [])) s₂ ∧ lineFeed ∉ lit "ab" :=
  ⟨_, _, ⟨4, rfl⟩, ⟨4, rfl⟩, by decide⟩

end BaseSocket
end Dodo.Network
