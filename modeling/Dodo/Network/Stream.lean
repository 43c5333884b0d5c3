import Dodo.Network.ReadBuffer

/-!
# `Network.Stream` — a read buffer as a byte stream

`Delivers β e`: the states of a buffer `β` seen as streams of octets that end in the error `e`. `At b l`
says that `get()` gives the head of `l` and that `l.tail` is still to come. The state behind the end is
`At b []`: there `next()` keeps failing with `e`, and `get()` returns some octet, no matter which.

The rules below are what every scanner is verified with; the three implementations are shown to satisfy
the laws (`StringReadBuffer.delivers`, `FileReadBuffer.delivers`, and `SocketReadBuffer.delivers` for every
kind of socket and every error in which it ends).
-/

namespace Dodo.Network

open Common Lib Lib.Comp

/-- What `next()` returns when `l` is left to read behind the current octet. -/
def endOr (e : SystemError) (l : Str) : SystemError := if l = [] then e else .ecOK

@[simp] theorem endOr_nil {e : SystemError} : endOr e [] = e := by simp [endOr]

@[simp] theorem endOr_cons {e : SystemError} {c : Octet} {l : Str} : endOr e (c :: l) = .ecOK := by
  simp [endOr]

/-- A reading of the buffers `β` as streams of octets that end in the error `e`. -/
structure Delivers (β : Type) [VirtualReadBuffer β] (e : SystemError) where
  At : β → Str → Prop
  err_ne : e ≠ .ecOK
  get_cons : ∀ {b c l}, At b (c :: l) → VirtualReadBuffer.get b = .ok c
  next_cons : ∀ {b c l}, At b (c :: l) →
    (VirtualReadBuffer.next b).1 = .ok (endOr e l) ∧ At (VirtualReadBuffer.next b).2 l
  get_nil : ∀ {b}, At b [] → ∃ c, VirtualReadBuffer.get b = .ok c
  next_nil : ∀ {b}, At b [] →
    (VirtualReadBuffer.next b).1 = .ok e ∧ At (VirtualReadBuffer.next b).2 []

namespace Delivers

variable {β ω α γ : Type} [VirtualReadBuffer β] {e : SystemError} (D : Delivers β e)

/-- The postcondition of a scanner: it returned `a`, the object is `o`, and `l` is left to read. -/
def Scan (a : α) (o : ω) (l : Str) (r : Except Exn α) (s : β × ω) : Prop :=
  r = .ok a ∧ s.2 = o ∧ D.At s.1 l

/-- Sequencing behind a scanner whose outcome is known. -/
theorem bind {p : Comp (β × ω) Exn α} {f : α → Comp (β × ω) Exn γ} {a : α} {o o' : ω} {l' : Str}
    {b : β} {Q : Except Exn γ → β × ω → Prop} (hp : wp p (D.Scan a o' l') (b, o))
    (hf : ∀ b', D.At b' l' → wp (f a) Q (b', o')) : wp (p >>= f) Q (b, o) := by
  refine wp_bind.mpr (wp_mono hp ?_)
  rintro r ⟨b', o''⟩ ⟨rfl, rfl, hat⟩
  exact hf b' hat

section Rules

variable {D} {b : β} {c : Octet} {l : Str} {o : ω} {Q : Except Exn γ → β × ω → Prop}

theorem get_bind {f : Octet → Comp (β × ω) Exn γ} (h : D.At b (c :: l)) (hf : wp (f c) Q (b, o)) :
    wp (get >>= f) Q (b, o) := by
  rw [wp_bind, get, wp_prim, D.get_cons h]
  exact hf

theorem next_bind {f : SystemError → Comp (β × ω) Exn γ} (h : D.At b (c :: l))
    (hf : ∀ b', D.At b' l → wp (f (endOr e l)) Q (b', o)) : wp (next >>= f) Q (b, o) := by
  rw [wp_bind, next, wp_prim, (D.next_cons h).1]
  exact hf _ (D.next_cons h).2

/-- `next()`, by whether there is another octet. -/
theorem next_cases {f : SystemError → Comp (β × ω) Exn γ} (h : D.At b (c :: l))
    (hend : l = [] → ∀ b', D.At b' [] → wp (f e) Q (b', o))
    (hgo : ∀ d l' b', l = d :: l' → D.At b' (d :: l') → wp (f .ecOK) Q (b', o)) :
    wp (next >>= f) Q (b, o) := by
  refine next_bind h fun b' h' => ?_
  cases l with
  | nil => exact endOr_nil ▸ hend rfl b' h'
  | cons d l => exact endOr_cons ▸ hgo d l b' rfl h'

/-- Behind the end `get()` returns some octet. -/
theorem get_bind_nil {f : Octet → Comp (β × ω) Exn γ} (h : D.At b []) (hf : ∀ c, wp (f c) Q (b, o)) :
    wp (get >>= f) Q (b, o) := by
  obtain ⟨c, hc⟩ := D.get_nil h
  rw [wp_bind, get, wp_prim, hc]
  exact hf c

theorem next_bind_nil {f : SystemError → Comp (β × ω) Exn γ} (h : D.At b [])
    (hf : ∀ b', D.At b' [] → wp (f e) Q (b', o)) : wp (next >>= f) Q (b, o) := by
  rw [wp_bind, next, wp_prim, (D.next_nil h).1]
  exact hf _ (D.next_nil h).2

end Rules

end Delivers

/-! ## Arrays -/

/-- The octets of the array `a` from `lo` up to `hi`. -/
def window (a : Nat → Octet) (lo hi : Nat) : Str := (List.range' lo (hi - lo)).map a

theorem window_of_le {a : Nat → Octet} {lo hi : Nat} (h : hi ≤ lo) : window a lo hi = [] := by
  simp [window, Nat.sub_eq_zero_of_le h]

theorem window_of_lt {a : Nat → Octet} {lo hi : Nat} (h : lo < hi) :
    window a lo hi = a lo :: window a (lo + 1) hi := by
  obtain ⟨k, rfl⟩ : ∃ k, hi = lo + 1 + k := ⟨hi - (lo + 1), by omega⟩
  simp [window, show lo + 1 + k - lo = k + 1 by omega, List.range'_succ]

theorem window_eq_nil {a : Nat → Octet} {lo hi : Nat} : window a lo hi = [] ↔ hi ≤ lo := by
  simp [window, Nat.sub_eq_zero_iff_le]

/-- What was copied to the start of an array is what it holds there. -/
theorem window_fill {l : Str} {a : Nat → Octet} : window (fill l a) 0 l.length = l := by
  apply List.ext_getElem
  · simp [window]
  · intro i h₁ h₂
    simp [window, fill, h₂]

/-! ## `StringReadBuffer` -/

namespace StringReadBuffer

/-- A string buffer at the octet `idx_`. It stays on its last octet when it is exhausted. -/
def delivers : Delivers StringReadBuffer .ecEAGAIN where
  At b l := b.data_ ≠ [] ∧ (if l = [] then b.idx_ = b.data_.length - 1 else b.data_.drop b.idx_ = l)
  err_ne := by decide
  get_cons := by
    rintro b c l ⟨-, h⟩
    rw [if_neg (by simp)] at h
    have hget : b.data_[b.idx_]? = some c := by
      rw [← List.head?_drop, h, List.head?_cons]
    simp [VirtualReadBuffer.get, StringReadBuffer.get, hget]
  next_cons := by
    rintro b c l ⟨hne, h⟩
    rw [if_neg (by simp)] at h
    have hlen : b.data_.length = b.idx_ + l.length + 1 := by
      have := congrArg List.length h
      rw [List.length_drop, List.length_cons] at this
      omega
    have htail : b.data_.drop (b.idx_ + 1) = l := by
      rw [← List.tail_drop, h, List.tail_cons]
    cases l with
    | nil =>
        have hlast : b.next = (.ok .ecEAGAIN, b) := by
          rw [StringReadBuffer.next, if_pos ⟨hne, by simp at hlen; omega⟩]
        simp only [VirtualReadBuffer.next, hlast, endOr_nil, if_true, true_and]
        exact ⟨hne, by simp at hlen; omega⟩
    | cons d l =>
        have hmove : b.next = (.ok .ecOK, { b with idx_ := b.idx_ + 1 }) := by
          rw [StringReadBuffer.next, if_neg (by simp at hlen ⊢; omega)]
        simp only [VirtualReadBuffer.next, hmove, endOr_cons, true_and]
        exact ⟨hne, by rw [if_neg (by simp)]; exact htail⟩
  get_nil := by
    rintro b ⟨hne, h⟩
    rw [if_pos rfl] at h
    have hlt : b.idx_ < b.data_.length := by
      have := List.length_pos_of_ne_nil hne
      omega
    exact ⟨b.data_.get ⟨b.idx_, hlt⟩, by simp [VirtualReadBuffer.get, StringReadBuffer.get, hlt]⟩
  next_nil := by
    rintro b ⟨hne, h⟩
    rw [if_pos rfl] at h
    have hlast : b.next = (.ok .ecEAGAIN, b) := by
      rw [StringReadBuffer.next, if_pos ⟨hne, by omega⟩]
    simp only [VirtualReadBuffer.next, hlast, if_true, true_and]
    exact ⟨hne, h⟩

theorem delivers_ofString (data : Str) (h : data ≠ []) : delivers.At (ofString data) data :=
  ⟨h, by rw [if_neg h]; rfl⟩

/-- A buffer from which `front` has been read. -/
theorem delivers_behind (front : Str) {data : Str} (h : data ≠ []) :
    delivers.At ⟨front ++ data, front.length⟩ data :=
  ⟨by simp [h], by rw [if_neg h]; exact List.drop_left⟩

theorem data_next (b : StringReadBuffer) : b.next.2.data_ = b.data_ := by
  unfold next
  split <;> rfl

/-- The same reading, of buffers that hold `data`. -/
def deliversOf (data : Str) : Delivers StringReadBuffer .ecEAGAIN where
  At b l := b.data_ = data ∧ delivers.At b l
  err_ne := delivers.err_ne
  get_cons h := delivers.get_cons h.2
  next_cons {b _ _} h := ⟨(delivers.next_cons h.2).1, (data_next b).trans h.1, (delivers.next_cons h.2).2⟩
  get_nil h := delivers.get_nil h.2
  next_nil {b} h := ⟨(delivers.next_nil h.2).1, (data_next b).trans h.1, (delivers.next_nil h.2).2⟩

/-- Where there is something left, what is left tells the position. -/
theorem eq_of_deliversOf {b : StringReadBuffer} {front l : Str} (hl : l ≠ [])
    (h : (deliversOf (front ++ l)).At b l) : b = ⟨front ++ l, front.length⟩ := by
  obtain ⟨data, idx⟩ := b
  obtain ⟨rfl, -, hdrop⟩ := h
  rw [if_neg hl] at hdrop
  have hlength := congrArg List.length hdrop
  have hpos := List.length_pos_of_ne_nil hl
  simp only [List.length_drop, List.length_append] at hlength
  congr 1
  omega

end StringReadBuffer

/-! ## `FileReadBuffer` -/

namespace FileReadBuffer

/-- The octets from the current one on. -/
def remaining (b : FileReadBuffer) : Str := window b.buffer_ b.idx_ b.read_ ++ b.file_

/-- A refill of an array that is used up moves a piece of the file into it. -/
theorem underflow_spec {b : FileReadBuffer} (hb : 0 < b.bufsize_) :
    b.underflow.1 = endOr .ecEAGAIN b.remaining ∧ b.underflow.2.remaining = b.remaining ∧
      b.underflow.2.bufsize_ = b.bufsize_ ∧
      (b.remaining ≠ [] → b.underflow.2.idx_ < b.underflow.2.read_) := by
  unfold underflow
  split
  case isTrue h =>
    have hrem : b.remaining = b.file_ := by rw [remaining, window_of_le h, List.nil_append]
    rw [hrem]
    refine ⟨?_, ?_, rfl, ?_⟩
    · cases hf : b.file_ with
      | nil => simp
      | cons c l =>
          simp only [endOr_cons, List.length_take, List.length_cons]
          rw [if_neg (by omega)]
    · simp only [remaining, window_fill, List.take_append_drop]
    · intro hne
      have := List.length_pos_of_ne_nil hne
      simp only [List.length_take]
      omega
  case isFalse h =>
    have hne : b.remaining ≠ [] := by
      rw [remaining, window_of_lt (by omega)]; simp
    exact ⟨by simp [endOr, hne], rfl, rfl, fun _ => Nat.lt_of_not_le h⟩

/-- A file buffer with `remaining` still to come. -/
def delivers : Delivers FileReadBuffer .ecEAGAIN where
  At b l := 0 < b.bufsize_ ∧ b.remaining = l ∧ (l ≠ [] → b.idx_ < b.read_)
  err_ne := by decide
  get_cons := by
    rintro b c l ⟨-, h, hlt⟩
    rw [remaining, window_of_lt (hlt (by simp)), List.cons_append] at h
    exact congrArg Except.ok (List.cons.inj h).1
  next_cons := by
    rintro b c l ⟨hb, h, hlt⟩
    rw [remaining, window_of_lt (hlt (by simp)), List.cons_append] at h
    have hrem : FileReadBuffer.remaining { b with idx_ := b.idx_ + 1 } = l := (List.cons.inj h).2
    obtain ⟨h₁, h₂, h₃, h₄⟩ := underflow_spec (b := { b with idx_ := b.idx_ + 1 }) hb
    rw [hrem] at h₁ h₂ h₄
    exact ⟨congrArg Except.ok h₁, h₃ ▸ hb, h₂, h₄⟩
  get_nil := fun {b} _ => ⟨b.get, rfl⟩
  next_nil := by
    rintro b ⟨hb, h, -⟩
    rw [remaining, List.append_eq_nil_iff, window_eq_nil] at h
    have hrem : FileReadBuffer.remaining { b with idx_ := b.idx_ + 1 } = [] := by
      rw [remaining, List.append_eq_nil_iff, window_eq_nil]
      exact ⟨Nat.le_succ_of_le h.1, h.2⟩
    obtain ⟨h₁, h₂, h₃, h₄⟩ := underflow_spec (b := { b with idx_ := b.idx_ + 1 }) hb
    rw [hrem] at h₁ h₂ h₄
    exact ⟨congrArg Except.ok h₁, h₃ ▸ hb, h₂, h₄⟩

/-- The constructor of a file buffer on a file that is not empty succeeds, at its first octet. -/
theorem delivers_ofFile {content : Str} {bufsize : Nat} (buffer : Nat → Octet) (h : content ≠ [])
    (hb : 0 < bufsize) : ∃ b, ofFile content bufsize buffer = .ok b ∧ delivers.At b content := by
  have hrem : FileReadBuffer.remaining ⟨content, bufsize, buffer, 0, 0, 0⟩ = content := by
    simp [remaining, window_of_le]
  obtain ⟨h₁, h₂, h₃, h₄⟩ := underflow_spec (b := ⟨content, bufsize, buffer, 0, 0, 0⟩) hb
  rw [hrem] at h₁ h₂ h₄
  have hok : endOr .ecEAGAIN content = .ecOK := by simp [endOr, h]
  refine ⟨_, ?_, h₃ ▸ hb, h₂, h₄⟩
  simp only [ofFile, h₁, hok, ne_eq, not_true, if_false]

end FileReadBuffer

/-! ## `SocketReadBuffer` -/

/-- The socket delivers `chunks`, one with each `receive` for up to `n` octets; after that each `receive` returns `e`. -/
inductive Yields {σ : Type} [VirtualSocket σ] (n : Nat) (e : SystemError) : σ → List Str → Prop
  | nil {s : σ} : VirtualSocket.receive s n = (.ok e, [], s) → Yields n e s []
  | cons {s s' : σ} {x : Str} {xs : List Str} : x ≠ [] → VirtualSocket.receive s n = (.ok .ecOK, x, s') →
      Yields n e s' xs → Yields n e s (x :: xs)

/-- A socket that delivers the octets of `chunks`, a chunk at a time. -/
def Socket.ofChunks (chunks : List Str) (atEnd : RecvResult) : Socket := ⟨chunks.map .data, atEnd⟩

theorem Socket.yields_ofChunks {chunks : List Str} {atEnd : RecvResult} {n : Nat} {e : SystemError}
    (hend : receive (ofChunks [] atEnd) n = (.ok e, [], ofChunks [] atEnd))
    (h : ∀ c ∈ chunks, c ≠ [] ∧ c.length ≤ n) : Yields n e (ofChunks chunks atEnd) chunks := by
  induction chunks with
  | nil => exact .nil hend
  | cons x xs ih =>
      obtain ⟨hx, hlen⟩ := h x (by simp)
      refine .cons hx ?_ (ih fun c hc => h c (by simp [hc]))
      show receive (ofChunks (x :: xs) atEnd) n = _
      simp [receive, recv, ofChunks, hlen]

namespace SocketReadBuffer

variable {σ : Type} [VirtualSocket σ] {b : SocketReadBuffer σ} {e : SystemError} {c : Octet} {l : Str}

/-- `b` holds, or its socket will deliver, exactly `l`; after that `receive` returns `e`. -/
def Feeds (b : SocketReadBuffer σ) (e : SystemError) (l : Str) : Prop :=
  ∃ chunks, Yields b.bufsize_ e b.socket_ chunks ∧ window b.buffer_ b.idx_ b.received_ ++ chunks.flatten = l

/-- What `underflow` does when the array is used up. -/
theorem underflow_of_receive {error : Except Exn SystemError} {x : Str} {socket : σ} (hle : b.received_ ≤ b.idx_)
    (hrecv : VirtualSocket.receive b.socket_ b.bufsize_ = (error, x, socket)) :
    b.underflow = (error, { b with
      socket_ := socket, buffer_ := fill x b.buffer_, received_ := x.length, underflows_ := b.underflows_ + 1,
      idx_ := if error = .ok .ecOK then 0 else b.idx_ }) := by
  simp only [underflow, if_pos hle, hrecv]
  split <;> rfl

/-- As long as there is something left, `underflow` succeeds and makes the next octet current. -/
theorem Feeds.underflow (h : Feeds b e l) (hl : l ≠ []) :
    b.underflow.1 = .ok .ecOK ∧ Feeds b.underflow.2 e l ∧ b.underflow.2.idx_ < b.underflow.2.received_ := by
  obtain ⟨chunks, hyields, hrem⟩ := h
  by_cases hle : b.received_ ≤ b.idx_
  · rw [window_of_le hle, List.nil_append] at hrem
    cases hyields with
    | nil => exact absurd hrem.symm hl
    | @cons _ s' x xs hx hrecv hyields =>
        rw [underflow_of_receive hle hrecv, if_pos rfl]
        refine ⟨rfl, ⟨xs, hyields, ?_⟩, List.length_pos_of_ne_nil hx⟩
        rw [window_fill, ← List.flatten_cons]
        exact hrem
  · have hsame : b.underflow = (.ok .ecOK, b) := if_neg hle
    rw [hsame]
    exact ⟨rfl, ⟨chunks, hyields, hrem⟩, Nat.lt_of_not_le hle⟩

/-- The current octet is the head of what is left, and `idx_ + 1` leaves its tail. -/
theorem Feeds.advance (h : Feeds b e (c :: l)) (hlt : b.idx_ < b.received_) :
    b.get = c ∧ Feeds { b with idx_ := b.idx_ + 1 } e l := by
  obtain ⟨chunks, hyields, hrem⟩ := h
  rw [window_of_lt hlt, List.cons_append] at hrem
  obtain ⟨hc, htail⟩ := List.cons.inj hrem
  exact ⟨hc, chunks, hyields, htail⟩

/-- Nothing is left: the socket has come to its end, and the array is used up. -/
theorem feeds_nil : Feeds b e [] ↔
    VirtualSocket.receive b.socket_ b.bufsize_ = (.ok e, [], b.socket_) ∧ b.received_ ≤ b.idx_ := by
  constructor
  · rintro ⟨chunks, hyields, hrem⟩
    obtain ⟨hwin, hflat⟩ := List.append_eq_nil_iff.mp hrem
    cases hyields with
    | nil hrecv => exact ⟨hrecv, window_eq_nil.mp hwin⟩
    | cons hx => exact absurd (List.append_eq_nil_iff.mp hflat).1 hx
  · rintro ⟨hrecv, hle⟩
    exact ⟨[], .nil hrecv, by rw [window_of_le hle]; rfl⟩

/-- At the end `underflow` returns what `receive` returns, and nothing changes. -/
theorem Feeds.underflow_nil (h : Feeds b e []) : b.underflow.1 = .ok e ∧ Feeds b.underflow.2 e [] := by
  obtain ⟨hrecv, hle⟩ := feeds_nil.mp h
  rw [underflow_of_receive hle hrecv, feeds_nil]
  exact ⟨rfl, hrecv, Nat.zero_le _⟩

/-- A socket buffer with `l` still to come; then `receive` returns `e`. -/
def delivers (he : e ≠ .ecOK) : Delivers (SocketReadBuffer σ) e where
  At b l := Feeds b e l ∧ (l ≠ [] → b.idx_ < b.received_)
  err_ne := he
  get_cons := fun {b c l} h => congrArg Except.ok (h.1.advance (h.2 (by simp))).1
  next_cons := by
    rintro b c l ⟨h, hlt⟩
    obtain ⟨-, hadv⟩ := h.advance (hlt (by simp))
    cases l with
    | nil =>
        obtain ⟨h₁, h₂⟩ := hadv.underflow_nil
        exact ⟨by rw [endOr_nil]; exact h₁, h₂, fun hne => absurd rfl hne⟩
    | cons d l =>
        obtain ⟨h₁, h₂, h₃⟩ := hadv.underflow (by simp)
        exact ⟨by rw [endOr_cons]; exact h₁, h₂, fun _ => h₃⟩
  get_nil := fun {b} _ => ⟨b.get, rfl⟩
  next_nil := by
    rintro b ⟨h, -⟩
    obtain ⟨hrecv, hle⟩ := feeds_nil.mp h
    have hadv : Feeds { b with idx_ := b.idx_ + 1 } e [] := feeds_nil.mpr ⟨hrecv, Nat.le_succ_of_le hle⟩
    obtain ⟨h₁, h₂⟩ := hadv.underflow_nil
    exact ⟨h₁, h₂, fun hne => absurd rfl hne⟩

variable {socket : σ} {chunks : List Str} {bufsize : Nat}

/-- A new socket buffer feeds what its socket delivers. -/
theorem feeds_ofSocket (buffer : Nat → Octet) (h : Yields bufsize e socket chunks) :
    Feeds (ofSocket socket bufsize buffer) e chunks.flatten :=
  ⟨chunks, h, by simp [ofSocket, window_of_le]⟩

/-- A new socket buffer, behind its first `underflow`. -/
theorem delivers_ofSocket (he : e ≠ .ecOK) (buffer : Nat → Octet) (h : Yields bufsize e socket chunks)
    (hne : chunks.flatten ≠ []) : ∃ b, (ofSocket socket bufsize buffer).underflow = (.ok .ecOK, b) ∧
      (delivers he).At b chunks.flatten := by
  obtain ⟨herr, hfeeds, hlt⟩ := (feeds_ofSocket buffer h).underflow hne
  exact ⟨_, Prod.ext herr rfl, hfeeds, fun _ => hlt⟩

end SocketReadBuffer

/-- The buffers on a plain socket that has nothing more to deliver for now. -/
def Socket.delivers : Delivers (SocketReadBuffer Socket) .ecEAGAIN := SocketReadBuffer.delivers (by decide)

/-- A new buffer on a plain socket whose peer has sent `chunks`. -/
theorem Socket.delivers_ofChunks {chunks : List Str} {bufsize : Nat} (buffer : Nat → Octet)
    (hne : chunks.flatten ≠ []) (hfit : ∀ c ∈ chunks, c ≠ [] ∧ c.length ≤ bufsize) :
    ∃ b, (SocketReadBuffer.ofSocket (ofChunks chunks (.fail .ecEAGAIN)) bufsize buffer).underflow = (.ok .ecOK, b) ∧
      Socket.delivers.At b chunks.flatten :=
  SocketReadBuffer.delivers_ofSocket _ buffer (yields_ofChunks rfl hfit) hne

end Dodo.Network
