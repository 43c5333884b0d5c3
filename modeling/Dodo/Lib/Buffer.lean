import Mathlib.Data.List.Basic

/-!
# `Lib.Buffer` — writing into memory of a fixed size

A buffer is written to in pieces, each at a position of its own. A piece that does not fit is not written at all: there
is no result. `Writes` is what a writer has done that started at a position, as far as a reader of the buffer up to
there can tell. Pieces that follow each other are one piece (`Writes.append`), and the end of a piece may be given up
again (`Writes.of_append`), as when a later one overwrites it.
-/

namespace Dodo.Lib.Buffer

variable {α : Type*} {buffer buffer' buffer'' s s' : List α} {pos : Nat}

/-- The buffer with `s` at a position, if it has room for it there. -/
def store (buffer : List α) (pos : Nat) (s : List α) : Option (List α) :=
  if pos + s.length ≤ buffer.length then some (buffer.take pos ++ s ++ buffer.drop (pos + s.length)) else none

/-- Behind the first `pos` elements, which stay, the buffer now has `s`. -/
structure Writes (buffer : List α) (pos : Nat) (s buffer' : List α) : Prop where
  length_eq : buffer'.length = buffer.length
  room : pos + s.length ≤ buffer.length
  take_eq : buffer'.take (pos + s.length) = buffer.take pos ++ s

theorem writes_of_store (h : store buffer pos s = some buffer') : Writes buffer pos s buffer' := by
  unfold store at h
  split at h
  · rename_i hroom
    obtain rfl := Option.some.inj h
    have htake : (buffer.take pos).length = pos := by
      rw [List.length_take]
      omega
    refine ⟨?_, hroom, ?_⟩
    · rw [List.length_append, List.length_append, htake, List.length_drop]
      omega
    · apply List.take_left'
      rw [List.length_append, htake]
  · cases h

theorem exists_store (buffer : List α) (pos : Nat) (s : List α) (hroom : pos + s.length ≤ buffer.length) :
    ∃ buffer', store buffer pos s = some buffer' ∧ buffer'.length = buffer.length := by
  have hstore : store buffer pos s = some _ := if_pos hroom
  exact ⟨_, hstore, (writes_of_store hstore).length_eq⟩

namespace Writes

theorem nil (hroom : pos ≤ buffer.length) : Writes buffer pos [] buffer :=
  ⟨rfl, hroom, by rw [List.length_nil, Nat.add_zero, List.append_nil]⟩

theorem append (h : Writes buffer pos s buffer') (h' : Writes buffer' (pos + s.length) s' buffer'') :
    Writes buffer pos (s ++ s') buffer'' where
  length_eq := h'.length_eq.trans h.length_eq
  room := by
    have hroom := h'.room
    rw [h.length_eq] at hroom
    rw [List.length_append]
    omega
  take_eq := by rw [List.length_append, ← Nat.add_assoc, h'.take_eq, h.take_eq, List.append_assoc]

theorem of_append (h : Writes buffer pos (s ++ s') buffer') : Writes buffer pos s buffer' where
  length_eq := h.length_eq
  room := by
    have hroom := h.room
    rw [List.length_append] at hroom
    omega
  take_eq := by
    have htake := congrArg (List.take (pos + s.length)) h.take_eq
    have hroom := h.room
    rw [List.length_append] at hroom
    rw [List.length_append, List.take_take, Nat.min_eq_left (by omega), ← List.append_assoc] at htake
    rw [htake]
    apply List.take_left'
    rw [List.length_append, List.length_take]
    omega

theorem take (h : Writes buffer pos s buffer') (n : Nat) : Writes buffer pos (s.take n) buffer' := by
  rw [← List.take_append_drop n s] at h
  exact h.of_append

end Writes
end Dodo.Lib.Buffer
