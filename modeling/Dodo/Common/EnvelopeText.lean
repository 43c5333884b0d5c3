import Mathlib.Data.List.Forall2
import Mathlib.Data.List.Perm.Subperm
import Dodo.Common.DataCrypt

/-!
# `Common.EnvelopeText` — the texts that `decode` recognizes

`decode` assigns what it reads to four variables, a later section over an earlier one of the same name, and only looks
at the end whether all four have a value. With exactly four sections that is enough: a name that came twice would leave
another variable empty. So the sections are named by the four names in some order, and `Reads` says what such a text
is, without the code that reads it. As `split` does not return an empty last piece, a delimiter may stand behind a value
and behind the last section.
-/

namespace Dodo.Common
namespace DataCrypt

inductive SectionName where
  | cipher
  | data
  | iv
  | tag
deriving DecidableEq, Repr

namespace SectionName

def text : SectionName → Str
  | .cipher => lit "cipher"
  | .data => lit "data"
  | .iv => lit "iv"
  | .tag => lit "tag"

def all : List SectionName := [.cipher, .data, .iv, .tag]

theorem mem_all (n : SectionName) : n ∈ all := by cases n <;> decide

theorem nodup_all : all.Nodup := by decide

theorem clean_text (n : SectionName) : Clean n.text ∧ n.text ≠ [] := by
  cases n <;> exact ⟨⟨by decide, by decide⟩, by decide⟩

end SectionName

/-- The variable for a section. -/
def Envelope.value (e : Envelope) : SectionName → Str
  | .cipher => e.cipher
  | .data => e.data
  | .iv => e.iv
  | .tag => e.tag

def Envelope.set (e : Envelope) (v : Str) : SectionName → Envelope
  | .cipher => { e with cipher := v }
  | .data => { e with data := v }
  | .iv => { e with iv := v }
  | .tag => { e with tag := v }

theorem Envelope.value_set (e : Envelope) (v : Str) (n m : SectionName) :
    (e.set v n).value m = if m = n then v else e.value m := by
  cases n <;> cases m <;> rfl

theorem Envelope.ext_value {e e' : Envelope} (h : ∀ n, e.value n = e'.value n) : e = e' := by
  obtain ⟨c, d, i, t⟩ := e
  obtain ⟨c', d', i', t'⟩ := e'
  have hc : c = c' := h .cipher
  have hd : d = d' := h .data
  have hi : i = i' := h .iv
  have ht : t = t' := h .tag
  rw [hc, hd, hi, ht]

/-- The text of an encrypted value: the four sections in some order, and white space behind the bracket. -/
def Reads (src : Str) (e : Envelope) : Prop :=
  ∃ (order : List SectionName) (sections : List Str) (inner ws : Str),
    order.Perm SectionName.all ∧
    List.Forall₂ (fun n s => Joined charColon [n.text, e.value n] s) order sections ∧
    Joined charComma sections inner ∧
    src = lit "ENC[" ++ inner ++ lit "]" ++ ws ∧ (∀ c ∈ ws, isspace c = true) ∧
    ∀ n, e.value n ≠ [] ∧ Clean (e.value n)

/-! ## Sections -/

/-- Sections with their names and values. -/
abbrev Sections := List (SectionName × Str)

/-- The variables behind the loop over the sections. -/
def Sections.assigned (e : Envelope) (pairs : Sections) : Envelope := pairs.foldl (fun e p => e.set p.2 p.1) e

variable {e e' : Envelope} {sections : List Str} {pairs : Sections} {n : SectionName} {v : Str}

theorem readSections_cons {s : Str} : readSections e (s :: sections) = some e' ↔
    ∃ p : SectionName × Str, split s charColon = [p.1.text, p.2] ∧
      readSections (e.set p.2 p.1) sections = some e' := by
  constructor
  · intro h
    rw [readSections] at h
    split at h
    · rename_i name value hsplit
      split_ifs at h with hcipher hdata hiv htag
      · exact ⟨(.cipher, value), by rw [hsplit, hcipher]; rfl, h⟩
      · exact ⟨(.data, value), by rw [hsplit, hdata]; rfl, h⟩
      · exact ⟨(.iv, value), by rw [hsplit, hiv]; rfl, h⟩
      · exact ⟨(.tag, value), by rw [hsplit, htag]; rfl, h⟩
    · contradiction
  · rintro ⟨⟨n, v⟩, hsplit, h⟩
    rw [readSections, hsplit]
    cases n <;> exact h

/-- The loop assigns the values of the sections to the variables of their names. -/
theorem readSections_iff : readSections e sections = some e' ↔
    ∃ pairs : Sections, List.Forall₂ (fun p s => split s charColon = [p.1.text, p.2]) pairs sections ∧
      pairs.assigned e = e' := by
  induction sections generalizing e with
  | nil =>
      constructor
      · intro h
        exact ⟨[], .nil, Option.some.inj h⟩
      · rintro ⟨pairs, hpairs, h⟩
        cases hpairs
        exact congrArg some h
  | cons s sections ih =>
      rw [readSections_cons]
      constructor
      · rintro ⟨p, hsplit, h⟩
        obtain ⟨pairs, hpairs, hassigned⟩ := ih.mp h
        exact ⟨p :: pairs, .cons hsplit hpairs, hassigned⟩
      · rintro ⟨pairs, hpairs, h⟩
        cases hpairs with
        | cons hsplit hpairs => exact ⟨_, hsplit, ih.mpr ⟨_, hpairs, h⟩⟩

/-- A variable that no section is named after keeps its value. -/
theorem value_assigned_of_not_mem (hn : n ∉ pairs.map Prod.fst) : (pairs.assigned e).value n = e.value n := by
  induction pairs generalizing e with
  | nil => rfl
  | cons p pairs ih =>
      rw [List.map_cons, List.mem_cons, not_or] at hn
      show (Sections.assigned (e.set p.2 p.1) pairs).value n = _
      rw [ih hn.2, Envelope.value_set, if_neg hn.1]

/-- Where no name comes twice, each variable has the value of its section. -/
theorem value_assigned (hnodup : (pairs.map Prod.fst).Nodup) (hmem : (n, v) ∈ pairs) :
    (pairs.assigned e).value n = v := by
  induction pairs generalizing e with
  | nil => exact absurd hmem List.not_mem_nil
  | cons p pairs ih =>
      rw [List.map_cons, List.nodup_cons] at hnodup
      show (Sections.assigned (e.set p.2 p.1) pairs).value n = v
      rcases List.mem_cons.mp hmem with rfl | hmem
      · rw [value_assigned_of_not_mem hnodup.1, Envelope.value_set, if_pos rfl]
      · exact ih hnodup.2 hmem

/-- **Four sections for four variables**: if none of the variables stays empty, each name labels one section. -/
theorem perm_of_values_ne_nil (hlength : pairs.length = 4) (hne : ∀ n, (pairs.assigned {}).value n ≠ []) :
    (pairs.map Prod.fst).Perm SectionName.all := by
  have hsubset : SectionName.all ⊆ pairs.map Prod.fst := by
    intro n _
    by_contra hn
    apply hne n
    rw [value_assigned_of_not_mem hn]
    cases n <;> rfl
  have hsubperm := List.subperm_of_subset SectionName.nodup_all hsubset
  refine (hsubperm.perm_of_length_le ?_).symm
  rw [List.length_map, hlength]
  rfl

/-! ## Brackets -/

theorem not_empty_iff : ¬ (e.cipher.length = 0 ∨ e.data.length = 0 ∨ e.iv.length = 0 ∨ e.tag.length = 0) ↔
    ∀ n, e.value n ≠ [] := by
  simp only [List.length_eq_zero_iff, not_or]
  constructor
  · rintro ⟨hc, hd, hi, ht⟩ n
    cases n
    · exact hc
    · exact hd
    · exact hi
    · exact ht
  · intro h
    exact ⟨h .cipher, h .data, h .iv, h .tag⟩

/-- The text between the brackets, of a string that has them. -/
theorem brackets_of_decode {src : Str} (h : decode src = some e) :
    ∃ inner ws, src = lit "ENC[" ++ inner ++ lit "]" ++ ws ∧ ∀ c ∈ ws, isspace c = true := by
  unfold decode at h
  dsimp only at h
  split_ifs at h with hopen hclose hfour
  rw [not_not] at hopen hclose
  have hsrc : src = lit "ENC[" ++ src.drop 4 := by
    rw [← hopen]
    exact (List.take_append_drop 4 src).symm
  have hend : src.drop (closePos src (src.length - 1)) = lit "]" ++ src.drop (closePos src (src.length - 1) + 1) := by
    rw [← hclose, substr, ← List.drop_drop, List.take_append_drop]
  generalize hpos : closePos src (src.length - 1) = close_pos at hclose hend
  -- none of the first four characters is a closing bracket
  have hfour : 4 ≤ close_pos := by
    by_contra hlt
    rw [hsrc] at hclose
    have hcases : close_pos = 0 ∨ close_pos = 1 ∨ close_pos = 2 ∨ close_pos = 3 := by omega
    rcases hcases with rfl | rfl | rfl | rfl
    all_goals exact absurd hclose (by simp [substr, lit])
  refine ⟨(src.drop 4).take (close_pos - 4), src.drop (close_pos + 1), ?_, ?_⟩
  · rw [List.append_assoc, ← hend, List.append_assoc]
    have hdrop : src.drop close_pos = (src.drop 4).drop (close_pos - 4) := by
      rw [List.drop_drop]
      congr 1
      omega
    rw [hdrop, List.take_append_drop]
    exact hsrc
  · intro c hc
    obtain ⟨i, hi, rfl⟩ := List.getElem_of_mem hc
    rw [List.length_drop] at hi
    have hat : octetAt src (close_pos + 1 + i) = (src.drop (close_pos + 1))[i] := by
      rw [octetAt, List.getElem_drop, List.getD_eq_getElem?_getD, List.getElem?_eq_getElem (by omega), Option.getD_some]
    rw [← hat]
    exact isspace_of_closePos_lt (n := src.length - 1) (by omega) (by omega)

/-- What is read are the sections between the brackets. -/
theorem decode_iff_brackets {src : Str} : decode src = some e ↔
    ∃ inner ws, src = lit "ENC[" ++ inner ++ lit "]" ++ ws ∧ (∀ c ∈ ws, isspace c = true) ∧
      (split inner charComma).length = 4 ∧ readSections {} (split inner charComma) = some e ∧
      ∀ n, e.value n ≠ [] := by
  have hbrackets {inner ws : Str} (hws : ∀ c ∈ ws, isspace c = true) :
      decode (lit "ENC[" ++ inner ++ lit "]" ++ ws) = some e ↔
        (split inner charComma).length = 4 ∧ readSections {} (split inner charComma) = some e ∧
          ∀ n, e.value n ≠ [] := by
    rw [decode_brackets inner hws, ← not_empty_iff]
    by_cases hfour : (split inner charComma).length = 4
    · rw [if_neg (not_not.mpr hfour)]
      cases hread : readSections {} (split inner charComma) with
      | none => simp
      | some e' =>
          dsimp only
          constructor
          · intro h
            split_ifs at h with hempty
            obtain rfl := Option.some.inj h
            exact ⟨hfour, rfl, hempty⟩
          · rintro ⟨_, h, hempty⟩
            obtain rfl := Option.some.inj h
            exact if_neg hempty
    · rw [if_pos hfour]
      simp [hfour]
  constructor
  · intro h
    obtain ⟨inner, ws, rfl, hws⟩ := brackets_of_decode h
    exact ⟨inner, ws, rfl, hws, (hbrackets hws).mp h⟩
  · rintro ⟨inner, ws, rfl, hws, h⟩
    exact (hbrackets hws).mpr h

/-! ## Texts -/

/-- A section is read as a name and a value if its text is the two, the value not empty and without a colon. -/
theorem split_section_iff {s : Str} (hv : v ≠ []) :
    split s charColon = [n.text, v] ↔ Joined charColon [n.text, v] s ∧ charColon ∉ v := by
  constructor
  · intro h
    have hjoined := joined_split (d := charColon) s
    have hcolon := not_mem_split (d := charColon) (l := s)
    rw [h] at hjoined hcolon
    exact ⟨hjoined, hcolon v (by simp)⟩
  · rintro ⟨hjoined, hcolon⟩
    apply split_joined hjoined (List.cons_ne_nil _ _)
    intro x hx
    rcases List.mem_cons.mp hx with rfl | hx
    · exact ⟨n.clean_text.1.2, n.clean_text.2⟩
    · rw [List.mem_singleton.mp hx]
      exact ⟨hcolon, hv⟩

/-- The characters of a section. -/
theorem mem_section {s : Str} {c : Octet} (h : Joined charColon [n.text, v] s) :
    c ∈ s ↔ c ∈ n.text ∨ c = charColon ∨ c ∈ v := by
  have hjoin : [charColon].intercalate [n.text, v] = n.text ++ charColon :: v := by simp [List.intercalate]
  unfold Joined at h
  rw [hjoin] at h
  rcases h with rfl | rfl
  · simp
  · simp only [List.append_assoc, List.cons_append, List.mem_append, List.mem_cons]
    grind

theorem exists_of_forall₂ {α β : Type} {R : α → β → Prop} {l : List α} {l' : List β} (h : List.Forall₂ R l l') :
    ∀ a ∈ l, ∃ b ∈ l', R a b := by
  induction h with
  | nil => simp
  | cons hab _ ih =>
      intro a ha
      rcases List.mem_cons.mp ha with rfl | ha
      · exact ⟨_, List.mem_cons_self, hab⟩
      · obtain ⟨b, hb, hr⟩ := ih a ha
        exact ⟨b, List.mem_cons_of_mem _ hb, hr⟩

/-- What is accepted is such a text. -/
theorem reads_of_decode {src : Str} (h : decode src = some e) : Reads src e := by
  obtain ⟨inner, ws, hsrc, hws, hfour, hread, hne⟩ := decode_iff_brackets.mp h
  obtain ⟨pairs, hpairs, rfl⟩ := readSections_iff.mp hread
  have hperm := perm_of_values_ne_nil (hpairs.length_eq.trans hfour) hne
  have hnodup := hperm.nodup_iff.mpr SectionName.nodup_all
  -- the sections again, with the values that the variables have in the end
  have hsections : List.Forall₂ (fun n s => split s charColon = [n.text, (pairs.assigned {}).value n])
      (pairs.map Prod.fst) (split inner charComma) := by
    rw [List.forall₂_map_left_iff]
    have hmem := (List.forall₂_and_left (p := (· ∈ pairs)) _ _).mpr ⟨fun p hp => hp, hpairs⟩
    refine hmem.imp ?_
    rintro ⟨n, v⟩ s ⟨hp, hsplit⟩
    rw [hsplit, value_assigned hnodup hp]
  refine ⟨pairs.map Prod.fst, split inner charComma, inner, ws, hperm, ?_, joined_split inner, hsrc, hws, ?_⟩
  · exact hsections.imp (fun n s hsplit => ((split_section_iff (hne n)).mp hsplit).1)
  · intro n
    obtain ⟨s, hs, hsplit⟩ := exists_of_forall₂ hsections n (hperm.mem_iff.mpr n.mem_all)
    obtain ⟨hjoined, hcolon⟩ := (split_section_iff (hne n)).mp hsplit
    refine ⟨hne n, fun hcomma => ?_, hcolon⟩
    exact not_mem_split s hs ((mem_section hjoined).mpr (.inr (.inr hcomma)))

/-- Such a text is accepted, and the values are those of its sections. -/
theorem decode_of_reads {src : Str} (h : Reads src e) : decode src = some e := by
  obtain ⟨order, sections, inner, ws, hperm, hsections, hinner, hsrc, hws, hvalues⟩ := h
  have hlength : sections.length = 4 := hsections.length_eq.symm.trans hperm.length_eq
  have hsplit : split inner charComma = sections := by
    apply split_joined hinner (by rintro rfl; simp at hlength)
    intro s hs
    obtain ⟨n, _, hjoined⟩ := exists_of_forall₂ hsections.flip s hs
    constructor
    · intro hcomma
      rcases (mem_section hjoined).mp hcomma with hmem | heq | hmem
      · exact n.clean_text.1.1 hmem
      · exact absurd heq (by decide)
      · exact (hvalues n).2.1 hmem
    · exact List.ne_nil_of_mem ((mem_section hjoined).mpr (.inr (.inl rfl)))
  have hread : readSections {} sections = some e := by
    refine readSections_iff.mpr ⟨order.map (fun n => (n, e.value n)), ?_, ?_⟩
    · rw [List.forall₂_map_left_iff]
      exact hsections.imp (fun n s hjoined => (split_section_iff (hvalues n).1).mpr ⟨hjoined, (hvalues n).2.2⟩)
    · apply Envelope.ext_value
      intro n
      apply value_assigned
      · rw [List.map_map]
        show (order.map id).Nodup
        rw [List.map_id]
        exact hperm.nodup_iff.mpr SectionName.nodup_all
      · exact List.mem_map.mpr ⟨n, hperm.mem_iff.mpr n.mem_all, rfl⟩
  exact decode_iff_brackets.mpr ⟨inner, ws, hsrc, hws, by rw [hsplit, hlength], by rw [hsplit, hread],
    fun n => (hvalues n).1⟩

/-- **What `decode` reads**: the four sections in any order, with white space behind the bracket, give their values; and
of every text that is accepted there were four sections, one of each name, whose values are what is returned. -/
theorem decode_reads_sections :
    (∀ (e : Envelope) (order : List SectionName) (ws : Str), (∀ n, e.value n ≠ [] ∧ Clean (e.value n)) →
      order.Perm SectionName.all → (∀ c ∈ ws, isspace c = true) →
      decode (lit "ENC[" ++ [charComma].intercalate (order.map (fun n => n.text ++ charColon :: e.value n)) ++
        lit "]" ++ ws) = some e) ∧
    ∀ src e, decode src = some e → Reads src e := by
  refine ⟨?_, fun src e => reads_of_decode⟩
  intro e order ws hvalues hperm hws
  apply decode_of_reads
  refine ⟨order, _, _, ws, hperm, ?_, .inl rfl, rfl, hws, hvalues⟩
  rw [List.forall₂_map_right_iff, List.forall₂_same]
  intro n _
  exact .inl (by simp [List.intercalate])

/-- An order that `encrypt` does not write, with a line end behind it. -/
theorem decode_reads_sections_order :
    decode (lit "ENC[tag:t,iv:i,data:d,cipher:c]\n") = some ⟨lit "c", lit "d", lit "i", lit "t"⟩ := by
  have hvalues : ∀ n, Envelope.value ⟨lit "c", lit "d", lit "i", lit "t"⟩ n ≠ [] ∧
      Clean (Envelope.value ⟨lit "c", lit "d", lit "i", lit "t"⟩ n) := by
    intro n
    cases n <;> exact ⟨by decide, by decide, by decide⟩
  exact decode_reads_sections.1 ⟨lit "c", lit "d", lit "i", lit "t"⟩ [.tag, .iv, .data, .cipher] [10] hvalues (by decide)
    (by simp [isspace])

end DataCrypt
end Dodo.Common
