import Dodo.Network.Stream

/-!
# `Network.SocketStream` — a `SocketReadBuffer` on a stream the peer closes

At the end of the stream `recv` returns 0, which `Socket::receive` reports as `ecOK` with nothing
received. `SocketReadBuffer::underflow` passes that `ecOK` on (`FileReadBuffer::underflow` turns the same
situation into `ecEAGAIN`), so `next()` never fails at the end and `get()` gives an octet that was read
before.
-/

namespace Dodo.Network.SocketReadBuffer

open Common

variable {σ : Type} [VirtualSocket σ] {b : SocketReadBuffer σ} {l : Str}

/-- What `get()` gives after each of `k` calls of `next()` that returned `ecOK`. -/
def seenAfter : Nat → SocketReadBuffer σ → Str
  | 0, _ => []
  | k + 1, b => (if b.next.1 = .ok .ecOK then [b.next.2.get] else []) ++ seenAfter k b.next.2

/-- What `get()` gives at the start, and after each of `k` calls of `next()` that returned `ecOK`. -/
def seen (k : Nat) (b : SocketReadBuffer σ) : Str := b.get :: seenAfter k b

/-- A closed stream: `l` is left to read, and every `receive` after it returns `ecOK` with nothing received. -/
def OnClosed (b : SocketReadBuffer σ) (l : Str) : Prop :=
  Feeds b .ecOK l ∧ (l ≠ [] → b.idx_ < b.received_)

/-- `underflow` returns `ecOK` whether or not there is something left. -/
theorem underflow_onClosed (h : Feeds b .ecOK l) :
    b.underflow.1 = .ok .ecOK ∧ OnClosed b.underflow.2 l := by
  cases l with
  | cons c l =>
      obtain ⟨herr, hfeeds, hlt⟩ := h.underflow (by simp)
      exact ⟨herr, hfeeds, fun _ => hlt⟩
  | nil =>
      obtain ⟨herr, hfeeds⟩ := h.underflow_nil
      exact ⟨herr, hfeeds, fun hne => absurd rfl hne⟩

/-- One call of `next()`: it returns `ecOK`, and one octet less is left. -/
theorem next_onClosed (h : OnClosed b l) : b.next.1 = .ok .ecOK ∧ OnClosed b.next.2 l.tail := by
  cases l with
  | cons c l => exact underflow_onClosed (h.1.advance (h.2 (by simp))).2
  | nil =>
      obtain ⟨hrecv, hle⟩ := feeds_nil.mp h.1
      exact underflow_onClosed (feeds_nil.mpr ⟨hrecv, Nat.le_succ_of_le hle⟩)

theorem length_seen (h : OnClosed b l) (k : Nat) : (seen k b).length = k + 1 := by
  suffices hk : ∀ k b l, OnClosed b l → (seenAfter k b).length = k by
    rw [seen, List.length_cons, hk k b l h]
  intro k
  induction k with
  | zero => intro b l _; rfl
  | succ k ih =>
      intro b l h
      obtain ⟨hok, hnext⟩ := next_onClosed h
      rw [seenAfter, if_pos hok, List.length_append, ih _ _ hnext, List.length_singleton]
      omega

/-- Before the end, `get()` shows the stream. -/
theorem seen_of_lt {k : Nat} (h : OnClosed b l) (hk : k < l.length) : seen k b = l.take (k + 1) := by
  induction k generalizing b l with
  | zero =>
      obtain ⟨c, l, rfl⟩ := List.exists_cons_of_length_pos hk
      rw [seen, (h.1.advance (h.2 (by simp))).1]
      rfl
  | succ k ih =>
      obtain ⟨c, l, rfl⟩ := List.exists_cons_of_length_pos (Nat.zero_lt_of_lt hk)
      obtain ⟨hok, hnext⟩ := next_onClosed h
      have := ih hnext (by simpa using hk)
      rw [seen] at this
      rw [seen, seenAfter, if_pos hok, List.singleton_append, this, (h.1.advance (h.2 (by simp))).1]
      rfl

/-- **Exactly the octets of the stream are seen as long as the end is not passed**, for every division
    of the stream into chunks: `k` calls of `next()` show the first `k + 1` octets of it, and nothing
    else, if and only if there are more than `k` of them. -/
theorem seen_eq_take_iff (bufsize : Nat) (chunks : List Str) (array : Nat → Octet) (k : Nat)
    (hfit : ∀ c ∈ chunks, c ≠ [] ∧ c.length ≤ bufsize) :
    (ofSocket (Socket.ofChunks chunks (.data [])) bufsize array).underflow.1 = .ok .ecOK ∧
      (seen k (ofSocket (Socket.ofChunks chunks (.data [])) bufsize array).underflow.2
          = chunks.flatten.take (k + 1) ↔ k < chunks.flatten.length) := by
  have hend : Socket.receive (.ofChunks [] (.data [])) bufsize = (.ok .ecOK, [], .ofChunks [] (.data [])) := by
    simp [Socket.receive, Socket.recv, Socket.ofChunks]
  obtain ⟨hok, hclosed⟩ := underflow_onClosed (feeds_ofSocket array (Socket.yields_ofChunks hend hfit))
  refine ⟨hok, ?_, seen_of_lt hclosed⟩
  intro heq
  have := congrArg List.length heq
  rw [length_seen hclosed, List.length_take] at this
  omega

theorem seen_eq_take_iff_two_chunks :
    (ofSocket (Socket.ofChunks [[97, 98], [99]] (.data [])) 2 fun _ => 0).underflow.1 = .ok .ecOK ∧
      (seen 2 (ofSocket (Socket.ofChunks [[97, 98], [99]] (.data [])) 2 fun _ => 0).underflow.2
          = [[97, 98], [99]].flatten.take 3 ↔ 2 < [[97, 98], [99]].flatten.length) :=
  seen_eq_take_iff 2 [[97, 98], [99]] (fun _ => 0) 2 (by decide)

/-- The stream is the one octet `a`; a second `next()` succeeds and `a` is seen again. -/
theorem seen_stale :
    (ofSocket (Socket.ofChunks [[97]] (.data [])) 1 fun _ => 0).underflow.1 = .ok .ecOK ∧
      (ofSocket (Socket.ofChunks [[97]] (.data [])) 1 fun _ => 0).underflow.2.next.1 = .ok .ecOK ∧
      seen 1 (ofSocket (Socket.ofChunks [[97]] (.data [])) 1 fun _ => 0).underflow.2 = [97, 97] := by
  decide

end Dodo.Network.SocketReadBuffer
