import Dodo.Common.SystemError
import Dodo.Common.Text

/-!
# `Network.SocketSend` — `Socket::send` and calling it again

`Socket::send` calls `::send` until the system has accepted the whole buffer or an error is met. On a socket that does not
block, the error `ecEAGAIN` is returned for the caller to try again; how much of the buffer is gone by then is not
returned. The results of `::send` are a list here, in the order in which the calls get them.
-/

namespace Dodo.Network

open Common

/-- What a call of `::send` returns. -/
inductive SendResult where
  /-- Octets that were accepted, of those that were given; not more than these. -/
  | accepted (n : Nat)
  | failed (errno : SystemError)
deriving DecidableEq, Repr

namespace Socket

/-- `Socket::send` of the octets from `cp` on: how it ends, the octets that the system has accepted, and the results
    that are left; `none` if a call of `::send` has not come back. The argument `more` only adds a flag to these
    calls. -/
def send : Str → List SendResult → Option (Except Exn SystemError × Str × List SendResult)
  | [], results => some (.ok .ecOK, [], results)
  | _ :: _, [] => none
  | c :: cp, .accepted n :: results =>
    (send ((c :: cp).drop n) results).map fun (r, wire, rest) => (r, (c :: cp).take n ++ wire, rest)
  | _ :: _, .failed errno :: results =>
    if errno = .ecEAGAIN ∨ errno = .ecECONNRESET then some (.ok errno, [], results)
    else some (.error (.systemException errno), [], results)

variable {buf left wire : Str} {results rest : List SendResult} {r : Except Exn SystemError}

/-- A call that goes on behind the octets that were accepted. -/
theorem send_accepted {c : Octet} {cp : Str} {n : Nat} :
    send (c :: cp) (.accepted n :: results) = some (r, wire, rest) ↔
      ∃ wire', send ((c :: cp).drop n) results = some (r, wire', rest) ∧ wire = (c :: cp).take n ++ wire' := by
  rw [send, Option.map_eq_some_iff]
  constructor
  · rintro ⟨⟨r', wire', rest'⟩, hsend, hx⟩
    simp only [Prod.mk.injEq] at hx
    obtain ⟨rfl, rfl, rfl⟩ := hx
    exact ⟨wire', hsend, rfl⟩
  · rintro ⟨wire', hsend, rfl⟩
    exact ⟨_, hsend, rfl⟩

theorem send_failed {c : Octet} {cp : Str} {errno : SystemError} :
    send (c :: cp) (.failed errno :: results) = some (r, wire, rest) ↔
      r = (if errno = .ecEAGAIN ∨ errno = .ecECONNRESET then .ok errno else .error (.systemException errno)) ∧
        wire = [] ∧ rest = results := by
  rw [send]
  split_ifs <;> simp only [Option.some.injEq, Prod.mk.injEq] <;> grind

/-- Success means that the system has accepted the buffer. -/
theorem wire_of_send_ok (h : send left results = some (.ok .ecOK, wire, rest)) : wire = left := by
  induction left, results using send.induct generalizing wire with
  | case1 =>
      rw [send] at h
      cases h
      rfl
  | case2 => cases h
  | case3 c cp n results ih =>
      obtain ⟨wire', hsend, rfl⟩ := send_accepted.mp h
      rw [ih hsend, List.take_append_drop]
  | case4 c cp errno results herrno =>
      obtain ⟨hr, -⟩ := send_failed.mp h
      obtain rfl := Except.ok.inj (hr.trans (if_pos herrno))
      exact absurd herrno (by decide)
  | case5 c cp errno results herrno =>
      obtain ⟨hr, -⟩ := send_failed.mp h
      cases hr.trans (if_neg herrno)

theorem length_rest (h : send left results = some (.ok .ecEAGAIN, wire, rest)) : rest.length < results.length := by
  induction left, results using send.induct generalizing wire with
  | case1 | case2 =>
      rw [send] at h
      cases h
  | case3 c cp n results ih =>
      obtain ⟨wire', hsend, rfl⟩ := send_accepted.mp h
      exact Nat.lt_succ_of_lt (ih hsend)
  | case4 | case5 =>
      obtain ⟨-, -, rfl⟩ := send_failed.mp h
      exact Nat.lt_succ_self _

/-- A call of `Socket::send` that has come back: how it ended, and what the system has accepted. -/
abbrev Call := Except Exn SystemError × Str

/-- The calls of a caller who calls `Socket::send` with the same arguments again as long as it returns `ecEAGAIN`. -/
def retry (buf : Str) (results : List SendResult) : List Call :=
  match _h : send buf results with
  | none => []
  | some (r, wire, rest) => if _hr : r = .ok .ecEAGAIN then (r, wire) :: retry buf rest else [(r, wire)]
termination_by results.length
decreasing_by exact length_rest (_hr ▸ _h)

theorem retry_of_none (h : send buf results = none) : retry buf results = [] := by
  rw [retry]
  split <;> simp_all

theorem retry_again (h : send buf results = some (.ok .ecEAGAIN, wire, rest)) :
    retry buf results = (.ok .ecEAGAIN, wire) :: retry buf rest := by
  rw [retry]
  split <;> simp_all

theorem retry_last (h : send buf results = some (r, wire, rest)) (hr : r ≠ .ok .ecEAGAIN) :
    retry buf results = [(r, wire)] := by
  rw [retry]
  split <;> simp_all

/-! ## When the calls can be repeated -/

/-- What a caller who calls again relies on: a call that succeeds has transmitted the buffer, one that returns `ecEAGAIN`
    nothing of it, and so all calls together transmit it once. -/
structure Retryable (buf : Str) (calls : List Call) : Prop where
  ok : ∀ c ∈ calls, c.1 = .ok .ecOK → c.2 = buf
  again : ∀ c ∈ calls, c.1 = .ok .ecEAGAIN → c.2 = []
  once : ∀ c ∈ calls.getLast?, c.1 = .ok .ecOK → calls.flatMap (·.2) = buf

/-- Whenever `::send` fails with `ecEAGAIN`, the whole buffer of `len` octets is left, and nothing of it has been
    accepted in this call; `left` is what is left now. -/
def WholeAtEAGAIN (len : Nat) : Nat → List SendResult → Prop
  | 0, _ => True
  | _ + 1, [] => True
  | left + 1, .accepted n :: results => WholeAtEAGAIN len (left + 1 - n) results
  | left + 1, .failed errno :: results => errno = .ecEAGAIN → left + 1 = len ∧ WholeAtEAGAIN len len results

/-- A call that comes to no `ecEAGAIN`. -/
theorem wholeAtEAGAIN_last {len : Nat} (h : ∀ wire rest, send left results ≠ some (.ok .ecEAGAIN, wire, rest)) :
    WholeAtEAGAIN len left.length results := by
  induction left, results using send.induct with
  | case1 | case2 => simp [WholeAtEAGAIN]
  | case3 c cp n results ih =>
      have hlength : ((c :: cp).drop n).length = cp.length + 1 - n := by simp
      rw [List.length_cons, WholeAtEAGAIN, ← hlength]
      exact ih fun wire rest hsend => h _ _ (send_accepted.mpr ⟨wire, hsend, rfl⟩)
  | case4 c cp errno results | case5 c cp errno results =>
      rw [List.length_cons, WholeAtEAGAIN]
      rintro rfl
      exact absurd (send_failed.mpr ⟨(if_pos (.inl rfl)).symm, rfl, rfl⟩) (h [] results)

/-- A call that comes to `ecEAGAIN`, and what the next calls come to. -/
theorem wholeAtEAGAIN_again {len : Nat} (h : send left results = some (.ok .ecEAGAIN, wire, rest)) :
    WholeAtEAGAIN len left.length results ↔ left.length = len + wire.length ∧ WholeAtEAGAIN len len rest := by
  induction left, results using send.induct generalizing wire with
  | case1 | case2 =>
      rw [send] at h
      cases h
  | case3 c cp n results ih =>
      obtain ⟨wire', hsend, rfl⟩ := send_accepted.mp h
      have hlength : ((c :: cp).drop n).length = cp.length + 1 - n := by simp
      -- the call that failed had octets left
      have hlt : n < cp.length + 1 := by
        by_contra hle
        rw [List.drop_eq_nil_of_le (by rw [List.length_cons]; omega), send] at hsend
        cases hsend
      rw [List.length_cons, WholeAtEAGAIN, ← hlength, ih hsend, hlength, List.length_append, List.length_take,
        List.length_cons]
      refine and_congr_left fun _ => ?_
      omega
  | case4 c cp errno results herrno =>
      obtain ⟨hr, rfl, rfl⟩ := send_failed.mp h
      obtain rfl := Except.ok.inj (hr.trans (if_pos herrno))
      rw [List.length_cons, WholeAtEAGAIN]
      simp
  | case5 c cp errno results herrno =>
      obtain ⟨hr, -⟩ := send_failed.mp h
      cases hr.trans (if_neg herrno)

theorem wire_of_again (h : send buf results = some (.ok .ecEAGAIN, wire, rest)) :
    WholeAtEAGAIN buf.length buf.length results ↔ wire = [] ∧ WholeAtEAGAIN buf.length buf.length rest := by
  rw [wholeAtEAGAIN_again h, ← List.length_eq_zero_iff]
  refine and_congr_left fun _ => ?_
  omega

/-- A call that is made again with nothing transmitted leaves it to the others. -/
theorem retryable_cons {calls : List Call} :
    Retryable buf ((.ok .ecEAGAIN, wire) :: calls) ↔ wire = [] ∧ Retryable buf calls := by
  constructor
  · intro h
    obtain rfl : wire = [] := h.again _ (List.mem_cons_self ..) rfl
    refine ⟨rfl, fun c hc => h.ok c (List.mem_cons_of_mem _ hc), fun c hc => h.again c (List.mem_cons_of_mem _ hc), ?_⟩
    intro c hc hok
    have hlast : c ∈ ((Except.ok SystemError.ecEAGAIN, ([] : Str)) :: calls).getLast? := by
      rw [List.getLast?_cons, Option.mem_def.mp hc]
      rfl
    exact h.once c hlast hok
  · rintro ⟨rfl, h⟩
    refine ⟨?_, ?_, ?_⟩
    · intro c hc hok
      rcases List.mem_cons.mp hc with rfl | hc
      · exact absurd (Except.ok.inj hok) (by decide)
      · exact h.ok c hc hok
    · intro c hc hagain
      rcases List.mem_cons.mp hc with rfl | hc
      · rfl
      · exact h.again c hc hagain
    · intro c hc hok
      rw [List.getLast?_cons] at hc
      cases hlast : calls.getLast? with
      | none =>
          rw [hlast] at hc
          obtain rfl := Option.some.inj hc
          exact absurd (Except.ok.inj hok) (by decide)
      | some c' =>
          rw [hlast] at hc
          obtain rfl := Option.some.inj hc
          exact h.once _ hlast hok

/-- **`Socket::send` can be called again** exactly if the system has not accepted anything of the buffer in a call
    before `::send` fails with `ecEAGAIN`. -/
theorem retryable_retry_iff (buf : Str) (results : List SendResult) :
    Retryable buf (retry buf results) ↔ WholeAtEAGAIN buf.length buf.length results := by
  induction hn : results.length using Nat.strong_induction_on generalizing results with
  | _ n ih =>
    subst hn
    cases hsend : send buf results with
    | none =>
        rw [retry_of_none hsend]
        refine iff_of_true ⟨nofun, nofun, nofun⟩ (wholeAtEAGAIN_last fun wire rest h => ?_)
        rw [hsend] at h
        cases h
    | some v =>
        obtain ⟨r, wire, rest⟩ := v
        by_cases hr : r = .ok .ecEAGAIN
        · subst hr
          rw [retry_again hsend, retryable_cons, ih rest.length (length_rest hsend) rest rfl, wire_of_again hsend]
        · rw [retry_last hsend hr]
          refine iff_of_true ⟨?_, ?_, ?_⟩ (wholeAtEAGAIN_last fun wire' rest' h => ?_)
          · intro c hc hok
            obtain rfl := List.mem_singleton.mp hc
            obtain rfl : r = .ok .ecOK := hok
            exact wire_of_send_ok hsend
          · intro c hc hagain
            obtain rfl := List.mem_singleton.mp hc
            exact absurd hagain hr
          · intro c hc hok
            obtain rfl := Option.some.inj hc
            obtain rfl : r = .ok .ecOK := hok
            rw [List.flatMap_singleton]
            exact wire_of_send_ok hsend
          · rw [hsend] at h
            exact hr (Prod.mk.inj (Option.some.inj h)).1

/-- One octet is accepted before `ecEAGAIN`, and sent again by the second call. -/
theorem retry_transmits_twice :
    retry (lit "ab") [.accepted 1, .failed .ecEAGAIN, .accepted 2] =
      [(.ok .ecEAGAIN, lit "a"), (.ok .ecOK, lit "ab")] ∧
    ¬ Retryable (lit "ab") (retry (lit "ab") [.accepted 1, .failed .ecEAGAIN, .accepted 2]) := by
  have hfirst : send (lit "ab") [.accepted 1, .failed .ecEAGAIN, .accepted 2] =
      some (.ok .ecEAGAIN, lit "a", [.accepted 2]) := by decide
  have hsecond : send (lit "ab") [.accepted 2] = some (.ok .ecOK, lit "ab", []) := by decide
  rw [retry_again hfirst, retry_last hsecond (by decide)]
  refine ⟨rfl, fun h => ?_⟩
  exact absurd (h.once _ rfl rfl) (by decide)

end Socket
end Dodo.Network
