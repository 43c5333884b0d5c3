import Dodo.Network.Http.Buffers
import Dodo.Network.Http.Locality

/-!
# `Http.Chunked` — chunked bodies as a peer sends them

`parseChunkedBody` on a text that was put together chunk by chunk. The octets of a chunk may be anything,
also CR, LF and digits: only its size says where it ends. The parser stops behind the CR LF of the last
chunk, so the empty line behind it is left in the buffer; but it has to be there, because every CR LF is
read with a look at the octet that follows.
-/

namespace Dodo.Network.Http

open Common Lib Lib.Comp

/-- A chunk with the digits of its size, in any letter case and with any number of leading zeros. -/
structure Chunk where
  size : Str
  data : Str
  hex : ∀ c ∈ size, isxdigit c = true
  size_eq : hexVal size = data.length
  ne_nil : data ≠ []
  /-- The length of an array is an `unsigned long`. -/
  fits : data.length < 2 ^ 64

namespace Chunk

def text (c : Chunk) : Str := c.size ++ charCR :: charLF :: (c.data ++ [charCR, charLF])

/-- The line of a chunk of size 0, which has at least one digit. -/
def last (zeros : Nat) : Str := List.replicate (zeros + 1) 48 ++ [charCR, charLF]

/-- The chunks `cs` and the last one. -/
def lines (cs : List Chunk) (zeros : Nat) : Str := cs.flatMap text ++ last zeros

/-- A chunked body up to its empty line. -/
def encoding (cs : List Chunk) (zeros : Nat) : Str := lines cs zeros ++ [charCR, charLF]

theorem size_ne_nil (c : Chunk) : c.size ≠ [] := by
  intro hnil
  have hlength := c.size_eq
  rw [hnil] at hlength
  exact c.ne_nil (List.length_eq_zero_iff.mp hlength.symm)

theorem hexVal_zeros (n : Nat) : hexVal (List.replicate n 48) = 0 := by
  unfold hexVal
  induction n with
  | zero => rfl
  | succ n ih =>
      rw [List.replicate_succ, List.foldl_cons]
      exact ih

end Chunk

namespace Grammar

variable {l : Str}

theorem chunkHex_digits {ds : Str} (hhex : ∀ c ∈ ds, isxdigit c = true) (hne : ds ≠ [])
    (hfits : hexVal ds < 2 ^ 64) (hl : l ≠ []) :
    chunkHex (ds ++ charCR :: charLF :: l) = some (hexVal ds, l) := by
  have htake : (ds ++ charCR :: charLF :: l).takeWhile isxdigit = ds := takeWhile_append hhex (by decide)
  refine chunkHex_eq_some.mpr ⟨by rwa [htake], ?_, dropWhile_append hhex (by decide), hl⟩
  rw [htake, extractHex]
  omega

/-- One chunk is read, whatever its octets are. -/
theorem chunks_text (c : Chunk) (hl : l ≠ []) : chunks (c.text ++ l) = emit c.data (chunks l) := by
  have hfits : hexVal c.size < 2 ^ 64 := c.size_eq ▸ c.fits
  have hpos : hexVal c.size ≠ 0 := by
    rw [c.size_eq]
    exact fun hzero => c.ne_nil (List.length_eq_zero_iff.mp hzero)
  have hhex : chunkHex (c.text ++ l) = some (hexVal c.size, c.data ++ charCR :: charLF :: l) := by
    have h := chunkHex_digits (l := c.data ++ charCR :: charLF :: l) c.hex c.size_ne_nil hfits (by simp)
    simpa [Chunk.text] using h
  rw [chunks_of_pos hhex hpos, c.size_eq, List.drop_left, List.take_left, crlf_cons hl, Option.bind_some]

theorem chunks_last (zeros : Nat) (hl : l ≠ []) : chunks (Chunk.last zeros ++ l) = some ([], l) := by
  apply chunks_of_zero
  have hhex : ∀ c ∈ List.replicate (zeros + 1) (48 : Octet), isxdigit c = true := by
    intro c hc
    rw [List.eq_of_mem_replicate hc]
    decide
  have h := chunkHex_digits (l := l) hhex (by simp) (by rw [Chunk.hexVal_zeros]; omega) hl
  simpa [Chunk.last, Chunk.hexVal_zeros] using h

theorem chunks_lines (cs : List Chunk) (zeros : Nat) (hl : l ≠ []) :
    chunks (Chunk.lines cs zeros ++ l) = some (cs.flatMap Chunk.data, l) := by
  unfold Chunk.lines
  induction cs with
  | nil => exact chunks_last zeros hl
  | cons c cs ih =>
      rw [List.flatMap_cons, List.flatMap_cons, List.append_assoc, List.append_assoc,
        chunks_text c (by simp [Chunk.last]), ← List.append_assoc, ih]
      rfl

/-- A body that is cut off before its empty line is not read. -/
theorem chunks_prefix {cs : List Chunk} {zeros : Nat} {pre : Str} (h : pre <+: Chunk.lines cs zeros) :
    chunks pre = none := by
  rw [Option.eq_none_iff_forall_ne_some]
  rintro ⟨t, rest⟩ hpre
  -- what was read of the prefix would be read of the whole body, and more than its last CR LF would be left
  obtain ⟨suffix, hsuffix⟩ := h
  have hwhole := chunks_append hpre (suffix ++ [charCR, charLF])
  rw [← List.append_assoc, hsuffix, chunks_lines cs zeros (by simp)] at hwhole
  have hrest := congrArg List.length (Prod.mk.inj (Option.some.inj hwhole)).2
  have hpos := List.length_pos_of_ne_nil (chunks_rest hpre).2
  simp only [List.length_append, List.length_cons, List.length_nil] at hrest
  omega

end Grammar

/-- **Chunked bodies.** Whatever is in front of it in the buffer and behind it, a chunked body is read to its
    end and added to the body there was; and no part of it that ends before its last CR LF is accepted. -/
theorem parseChunkedBody_encoding (m : HTTPMessage) (front rest : Str) (cs : List Chunk) (zeros : Nat) :
    ParsesTo HTTPMessage.parseChunkedBody
        (⟨front ++ (Chunk.encoding cs zeros ++ rest), front.length⟩ : StringReadBuffer) m
        (some (m.appendAll (cs.flatMap Chunk.data))) ∧
      ∀ pre, pre ≠ [] → pre <+: Chunk.lines cs zeros →
        ParsesTo HTTPMessage.parseChunkedBody (⟨front ++ pre, front.length⟩ : StringReadBuffer) m none := by
  constructor
  · have hne : Chunk.encoding cs zeros ++ rest ≠ [] := by simp [Chunk.encoding]
    have hspec := HTTPMessage.parseChunkedBody_spec (m := m) (StringReadBuffer.delivers_behind front hne) hne
    have hchunks : Grammar.chunks (Chunk.encoding cs zeros ++ rest) =
        some (cs.flatMap Chunk.data, [charCR, charLF] ++ rest) := by
      rw [Chunk.encoding, List.append_assoc]
      exact Grammar.chunks_lines cs zeros (by simp)
    rw [hchunks] at hspec
    exact parsesTo_of_decodes hspec
  · intro pre hne hpre
    have hspec := HTTPMessage.parseChunkedBody_spec (m := m) (StringReadBuffer.delivers_behind front hne) hne
    rw [Grammar.chunks_prefix hpre] at hspec
    exact parsesTo_of_decodes hspec

end Dodo.Network.Http
