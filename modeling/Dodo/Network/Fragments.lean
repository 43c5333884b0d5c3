import Dodo.Lib.Pieces
import Dodo.Network.BaseSocket

/-!
# `Network.Fragments` — integers that arrive in pieces

The receive loop is `gather` on the pieces of the stream: every pass asks for the whole size, and stores what
it got at the start of the variable. So a value that comes in one piece is read as it was sent. Where its octets
come in several pieces, they overwrite each other, and the last pass may take octets of the next value.
-/

namespace Dodo.Network

open Common Lib Lib.Comp

/-- The octets of a result of `recv`. -/
def RecvResult.octets : RecvResult → Str
  | .data l => l
  | .fail _ => []

/-- The octets a socket has still to deliver. -/
def Socket.unread (s : Socket) : Str := s.pending.flatMap RecvResult.octets

@[simp] theorem Socket.unread_ofChunks {qs : List Str} {atEnd : RecvResult} :
    (Socket.ofChunks qs atEnd).unread = qs.flatten := by
  simp only [Socket.unread, Socket.ofChunks]
  induction qs with
  | nil => rfl
  | cons q qs ih => rw [List.map_cons, List.flatMap_cons, ih, List.flatten_cons, RecvResult.octets]

/-- Nothing comes behind the pieces of a stream: it is at its end, or an error is reported. -/
def Silent (atEnd : RecvResult) : Prop := ∀ l, atEnd = .data l → l = []

namespace BaseSocket

variable {σ : Type} {request total : Nat} {store : σ → Str → Except Fault σ} {target target' : σ}
  {qs got rest : List Str} {q : Str} {atEnd : RecvResult} {socket s' : Socket}

/-! ## The receive loop -/

theorem receive_chunk (hne : ∀ r ∈ q :: qs, r ≠ []) : Socket.receive (.ofChunks (q :: qs) atEnd) request =
    (.ok .ecOK, q.take request, .ofChunks (dropOctets (q.take request).length (q :: qs)) atEnd) := by
  have htail : ∀ r ∈ qs, r ≠ [] := fun r hr => hne r (List.mem_cons_of_mem q hr)
  by_cases hlength : q.length ≤ request
  · rw [List.take_of_length_le hlength, dropOctets_length htail]
    simp [Socket.receive, Socket.recv, Socket.ofChunks, hlength]
  · rw [List.length_take, Nat.min_eq_left (by omega), dropOctets, if_neg hlength]
    simp [Socket.receive, Socket.recv, Socket.ofChunks, hlength]

/-- An error at the end is not taken for `ecOK`. -/
theorem receive_fail {errno : SystemError} {l : Str} {s : Socket} :
    Socket.receive (.ofChunks [] (.fail errno)) request ≠ (.ok .ecOK, l, s) := by
  intro h
  simp only [Socket.receive, Socket.recv, Socket.ofChunks, List.map_nil] at h
  split at h
  case isTrue herrno =>
    obtain rfl := Except.ok.inj (Prod.mk.inj h).1
    exact absurd herrno (by decide)
  case isFalse => cases h

/-- At the end `ecOK` comes without octets. -/
theorem receive_end (hend : Silent atEnd) {l : Str} {s : Socket}
    (h : Socket.receive (.ofChunks [] atEnd) request = (.ok .ecOK, l, s)) :
    l = [] ∧ s = .ofChunks [] atEnd := by
  cases atEnd with
  | data l' =>
      obtain rfl := hend l' rfl
      simp [Socket.receive, Socket.recv, Socket.ofChunks] at h
      exact ⟨h.1, h.2.symm⟩
  | fail errno => exact absurd h receive_fail

/-- A pass on a stream that is not at its end. -/
theorem pass_chunk (hne : ∀ r ∈ q :: qs, r ≠ [])
    {Q : Except Fault ((σ × Nat) ⊕ (SystemError × σ)) → Socket → Prop} :
    wp (receiveAllPass request store (target, total)) Q (.ofChunks (q :: qs) atEnd) ↔
      Q ((store target (q.take request)).map fun target =>
          if total + (q.take request).length < request then .inl (target, total + (q.take request).length)
          else .inr (.ecOK, target))
        (.ofChunks (dropOctets (q.take request).length (q :: qs)) atEnd) := by
  rw [receiveAllPass, wp_bind, receive, wp_prim, receive_chunk hne, seqPost_ok, wp_bind, wp_prim]
  cases store target (q.take request) with
  | error fault => exact Iff.rfl
  | ok target =>
      simp only [seqPost_ok, Except.map, true_and]
      split <;> exact wp_pure

/-- The pieces that are gathered are stored one after the other. -/
theorem loop_gather (store : σ → Str → Except Fault σ) (target : σ) (atEnd : RecvResult)
    (hne : ∀ r ∈ qs, r ≠ []) (h : gather request total qs = some (got, rest)) :
    wp (.loop (receiveAllPass request store) (target, total))
      (fun r s => r = (got.foldlM store target).map (fun t => (.ecOK, t)) ∧
        ((∃ t, got.foldlM store target = .ok t) → s = .ofChunks rest atEnd))
      (.ofChunks qs atEnd) := by
  induction qs generalizing total target got with
  | nil => cases h
  | cons q qs ih =>
      have htail : ∀ r ∈ qs, r ≠ [] := fun r hr => hne r (List.mem_cons_of_mem q hr)
      rw [gather] at h
      rw [wp_loop, pass_chunk hne]
      split at h
      case isTrue hlast =>
        obtain ⟨rfl, rfl⟩ := Prod.mk.inj (Option.some.inj h)
        rw [List.foldlM_cons]
        cases store target (q.take request) with
        | error fault =>
            refine ⟨rfl, ?_⟩
            rintro ⟨_, ht⟩
            cases ht
        | ok target =>
            simp only [Except.map, if_neg (Nat.not_lt.mpr hlast), seqPost_ok, loopNext]
            exact wp_pure.mpr ⟨rfl, fun _ => rfl⟩
      case isFalse hlast =>
        obtain ⟨⟨got', rest'⟩, hgather, hpair⟩ := Option.map_eq_some_iff.mp h
        obtain ⟨rfl, rfl⟩ := Prod.mk.inj hpair
        have htake := take_of_not_enough hlast
        rw [htake] at hlast
        rw [List.foldlM_cons, htake]
        cases store target q with
        | error fault =>
            refine ⟨rfl, ?_⟩
            rintro ⟨_, ht⟩
            cases ht
        | ok target =>
            simp only [Except.map, if_pos (Nat.not_le.mp hlast), seqPost_ok, loopNext, dropOctets_length htail]
            exact ih _ htail hgather

theorem receive_eq {s s' : Socket} {error : SystemError} {l : Str}
    (h : Returns (receive request) s (.ok (error, l)) s') : s.receive request = (.ok error, l, s') := by
  have hprim := returns_prim.mp h
  generalize s.receive request = r at hprim ⊢
  obtain ⟨_ | _, l', s₁⟩ := r
  · cases hprim
  · obtain ⟨hok, rfl⟩ := Prod.mk.inj hprim
    obtain ⟨rfl, rfl⟩ := Prod.mk.inj (Except.ok.inj hok)
    rfl

/-- A pass at the end of the stream gets nothing, or it ends the loop with an error. -/
theorem pass_end (hend : Silent atEnd) (htotal : total < request) {x : (σ × Nat) ⊕ (SystemError × σ)}
    (h : Returns (receiveAllPass request store (target, total)) (.ofChunks [] atEnd) (.ok x) socket) :
    (∃ t, x = .inl (t, total) ∧ socket = .ofChunks [] atEnd) ∨ ∃ error t, error ≠ .ecOK ∧ x = .inr (error, t) := by
  obtain ⟨⟨error, l⟩, s₁, hreceive, h⟩ := returns_bind_ok.mp h
  obtain ⟨t, s₂, hstore, h⟩ := returns_bind_ok.mp h
  obtain ⟨-, rfl⟩ := Prod.mk.inj (returns_prim.mp hstore)
  by_cases herror : error = .ecOK
  · subst herror
    obtain ⟨rfl, rfl⟩ := receive_end hend (receive_eq hreceive)
    rw [if_pos ⟨rfl, by simpa using htotal⟩] at h
    obtain ⟨hx, rfl⟩ := returns_pure.mp h
    exact .inl ⟨t, Except.ok.inj hx, rfl⟩
  · rw [if_neg (fun hand => herror hand.1)] at h
    obtain ⟨hx, -⟩ := returns_pure.mp h
    exact .inr ⟨error, t, herror, Except.ok.inj hx⟩

/-- Behind the last piece `total` does not grow, so no pass ends the loop with `ecOK`. -/
theorem loop_end (hend : Silent atEnd) (htotal : total < request) :
    ¬ Returns (.loop (receiveAllPass request store) (target, total)) (.ofChunks [] atEnd)
      (.ok (.ecOK, target')) socket := by
  intro hret
  let Inv : σ × Nat → Socket → Prop := fun l s => s = .ofChunks [] atEnd ∧ l.2 < request
  have hstep : ∀ l s l' s', Inv l s → Returns (receiveAllPass request store l) s (.ok (.inl l')) s' →
      Inv l' s' := by
    rintro ⟨t, n⟩ s ⟨t', n'⟩ s' ⟨rfl, hn⟩ hpass
    obtain ⟨_, hx, rfl⟩ | ⟨_, _, -, hx⟩ := pass_end hend hn hpass
    · obtain ⟨-, rfl⟩ := Prod.mk.inj (Sum.inl.inj hx)
      exact ⟨rfl, hn⟩
    · cases hx
  obtain ⟨⟨t, n⟩, s, ⟨rfl, hn⟩, ⟨a, hlast, hok⟩ | ⟨_, -, hok⟩⟩ :=
    Returns.loop_invariant Inv hstep ⟨rfl, htotal⟩ hret
  · obtain rfl := Except.ok.inj hok
    obtain ⟨_, hx, -⟩ | ⟨error, _, herror, hx⟩ := pass_end hend hn hlast
    · cases hx
    · exact herror (Prod.mk.inj (Sum.inr.inj hx)).1.symm
  · cases hok

/-- Where the pieces are not enough, the loop does not return `ecOK`: it waits, or an error ends it. -/
theorem loop_not_enough (hend : Silent atEnd) (hne : ∀ r ∈ qs, r ≠ []) (htotal : total < request)
    (h : gather request total qs = none) :
    ¬ Returns (.loop (receiveAllPass request store) (target, total)) (.ofChunks qs atEnd)
      (.ok (.ecOK, target')) socket := by
  induction qs generalizing total target with
  | nil => exact loop_end hend htotal
  | cons q qs ih =>
      have htail : ∀ r ∈ qs, r ≠ [] := fun r hr => hne r (List.mem_cons_of_mem q hr)
      rw [gather] at h
      split at h
      case isTrue => cases h
      case isFalse hlast =>
        have htake := take_of_not_enough hlast
        rw [htake] at hlast
        intro hret
        have hwp : wp (.loop (receiveAllPass request store) (target, total))
            (fun r s => r = .ok (.ecOK, target') ∧ s = socket) (.ofChunks (q :: qs) atEnd) :=
          ⟨_, _, hret, rfl, rfl⟩
        rw [wp_loop, pass_chunk hne, htake] at hwp
        cases hstore : store target q with
        | error fault =>
            rw [hstore] at hwp
            cases hwp.1
        | ok target =>
            simp only [hstore, Except.map, if_pos (Nat.not_le.mp hlast), seqPost_ok, loopNext,
              dropOctets_length htail] at hwp
            obtain ⟨_, _, hret', rfl, rfl⟩ := hwp
            exact ih htail (by omega) (Option.map_eq_none_iff.mp h) hret'

/-- **The receive loop gathers**: it returns `ecOK` exactly if enough pieces come, and then with what storing
    them makes. -/
theorem receiveAll_iff (hend : Silent atEnd) (hne : ∀ r ∈ qs, r ≠ []) (hrequest : 0 < request) :
    Returns (receiveAll request store target) (.ofChunks qs atEnd) (.ok (.ecOK, target')) socket ↔
      ∃ got rest, gather request 0 qs = some (got, rest) ∧ got.foldlM store target = .ok target' ∧
        socket = .ofChunks rest atEnd := by
  constructor
  · intro hret
    cases hgather : gather request 0 qs with
    | none => exact absurd hret (loop_not_enough hend hne hrequest hgather)
    | some v =>
        -- an execution has one result, so this is the one that `gather` tells
        obtain ⟨got, rest⟩ := v
        obtain ⟨r, s, hret', hr, hs⟩ := loop_gather store target atEnd hne hgather
        obtain ⟨rfl, rfl⟩ := hret.unique hret'
        cases hstore : got.foldlM store target with
        | error fault =>
            rw [hstore] at hr
            cases hr
        | ok t =>
            rw [hstore] at hr
            obtain ⟨-, rfl⟩ := Prod.mk.inj (Except.ok.inj hr)
            exact ⟨got, rest, rfl, hstore, hs ⟨_, hstore⟩⟩
  · rintro ⟨got, rest, hgather, hstore, rfl⟩
    obtain ⟨r, s, hret, rfl, hs⟩ := loop_gather store target atEnd hne hgather
    rw [hstore] at hret
    rwa [hs ⟨_, hstore⟩] at hret

/-! ## One integer -/

section Integer

variable {α : Type} {T : IntegerType α} {v v' : α}

/-- The variable after pieces have been stored in it. -/
def overlays (width : Nat) (got : List Str) : Str := got.foldl overlay (List.replicate width 0)

theorem length_overlay {t l : Str} (h : l.length ≤ t.length) : (overlay t l).length = t.length := by
  simp only [overlay, List.length_append, List.length_drop]
  omega

@[simp] theorem length_sendInteger : (sendInteger T v).length = T.width := length_toBytes _ _

theorem sendInteger_ne_nil : sendInteger T v ≠ [] := by
  have := T.width_pos
  exact List.ne_nil_of_length_pos (by rw [length_sendInteger]; exact this)

/-- Octets are the ones that were sent exactly if they are read as the value. -/
theorem ofBits_eq_iff {bs : Str} (hbs : bs.length = T.width) :
    T.ofBits (ofBytes bs) = v ↔ bs = sendInteger T v := by
  have hlt : ofBytes bs < 256 ^ T.width := hbs ▸ ofBytes_lt bs
  constructor
  · rintro rfl
    rw [sendInteger, T.bits_ofBits _ hlt, ← hbs, toBytes_ofBytes]
  · rintro rfl
    rw [sendInteger, ofBytes_toBytes (T.bits_lt v), T.ofBits_bits]

theorem foldlM_overlay {t : Str} :
    got.foldlM (fun t l => (.ok (overlay t l) : Except Fault Str)) t = .ok (got.foldl overlay t) := by
  induction got generalizing t with
  | nil => rfl
  | cons l got ih => exact ih

theorem receiveInteger_iff (hend : Silent atEnd) (hne : ∀ r ∈ qs, r ≠ []) :
    Returns (receiveInteger T) (.ofChunks qs atEnd) (.ok (.ecOK, v)) socket ↔
      ∃ got rest, gather T.width 0 qs = some (got, rest) ∧ T.ofBits (ofBytes (overlays T.width got)) = v ∧
        socket = .ofChunks rest atEnd := by
  rw [receiveInteger, returns_bind_ok]
  constructor
  · rintro ⟨⟨error, t⟩, s, hall, hpure⟩
    obtain ⟨hv, rfl⟩ := returns_pure.mp hpure
    obtain ⟨rfl, rfl⟩ := Prod.mk.inj (Except.ok.inj hv)
    obtain ⟨got, rest, hgather, hstore, rfl⟩ := (receiveAll_iff hend hne T.width_pos).mp hall
    rw [foldlM_overlay] at hstore
    obtain rfl := Except.ok.inj hstore
    exact ⟨got, rest, hgather, by rw [if_pos rfl, overlays], rfl⟩
  · rintro ⟨got, rest, hgather, rfl, rfl⟩
    refine ⟨(.ecOK, overlays T.width got), .ofChunks rest atEnd, ?_, ?_⟩
    · exact (receiveAll_iff hend hne T.width_pos).mpr ⟨got, rest, hgather, foldlM_overlay, rfl⟩
    · exact returns_pure.mpr ⟨rfl, rfl⟩

theorem length_overlays {width : Nat} (h : ∀ g ∈ got, g.length ≤ width) :
    (overlays width got).length = width := by
  suffices hfold : ∀ t : Str, t.length = width → (got.foldl overlay t).length = width from
    hfold _ List.length_replicate
  induction got with
  | nil => exact fun t ht => ht
  | cons g got ih =>
      intro t ht
      have hg := h g List.mem_cons_self
      exact ih (fun r hr => h r (List.mem_cons_of_mem g hr)) _ (by rw [length_overlay (by omega), ht])

end Integer

/-! ## A sequence of integers -/

/-- A value of one of the eight types. -/
inductive Integer where
  | uInt8 (v : UInt8)
  | int8 (v : Int8)
  | uInt16 (v : UInt16)
  | int16 (v : Int16)
  | uInt32 (v : UInt32)
  | int32 (v : Int32)
  | uInt64 (v : UInt64)
  | int64 (v : Int64)
deriving DecidableEq

namespace Integer

def send : Integer → Str
  | .uInt8 v => sendUInt8 v
  | .int8 v => sendInt8 v
  | .uInt16 v => sendUInt16 v
  | .int16 v => sendInt16 v
  | .uInt32 v => sendUInt32 v
  | .int32 v => sendInt32 v
  | .uInt64 v => sendUInt64 v
  | .int64 v => sendInt64 v

/-- The result of a receive function as a value. -/
def receiveAs {α : Type} (wrap : α → Integer) (p : Comp Socket Fault (SystemError × α)) :
    Comp Socket Fault (SystemError × Integer) := do
  let (error, v) ← p
  pure (error, wrap v)

/-- The function that receives a value of the same type. -/
def receive : Integer → Comp Socket Fault (SystemError × Integer)
  | .uInt8 _ => receiveAs .uInt8 receiveUInt8
  | .int8 _ => receiveAs .int8 receiveInt8
  | .uInt16 _ => receiveAs .uInt16 receiveUInt16
  | .int16 _ => receiveAs .int16 receiveInt16
  | .uInt32 _ => receiveAs .uInt32 receiveUInt32
  | .int32 _ => receiveAs .int32 receiveInt32
  | .uInt64 _ => receiveAs .uInt64 receiveUInt64
  | .int64 _ => receiveAs .int64 receiveInt64

/-- The calls that receive a sequence, one after the other. -/
def receiveSeq : List Integer → Comp Socket Fault (List (SystemError × Integer))
  | [] => pure []
  | x :: xs => do
    let r ← x.receive
    let rs ← receiveSeq xs
    pure (r :: rs)

variable {x : Integer} {xs : List Integer}

theorem receiveAs_iff {α : Type} {T : IntegerType α} {v : α} {wrap : α → Integer}
    (hwrap : ∀ a b, wrap a = wrap b → a = b) (hend : Silent atEnd) (hne : ∀ r ∈ qs, r ≠ []) :
    Returns (receiveAs wrap (receiveInteger T)) (.ofChunks qs atEnd) (.ok (.ecOK, wrap v)) socket ↔
      ∃ got rest, gather (sendInteger T v).length 0 qs = some (got, rest) ∧
        overlays (sendInteger T v).length got = sendInteger T v ∧ socket = .ofChunks rest atEnd := by
  have hread : ∀ {got rest}, gather T.width 0 qs = some (got, rest) →
      (T.ofBits (ofBytes (overlays T.width got)) = v ↔ overlays T.width got = sendInteger T v) :=
    fun hgather => ofBits_eq_iff (length_overlays (length_le_of_gather hgather))
  rw [length_sendInteger, receiveAs, returns_bind_ok]
  constructor
  · rintro ⟨⟨error, v'⟩, s, hreceive, hpure⟩
    obtain ⟨hv, rfl⟩ := returns_pure.mp hpure
    obtain ⟨rfl, hwrapped⟩ := Prod.mk.inj (Except.ok.inj hv)
    obtain rfl := hwrap _ _ hwrapped
    obtain ⟨got, rest, hgather, hbits, rfl⟩ := (receiveInteger_iff hend hne).mp hreceive
    exact ⟨got, rest, hgather, (hread hgather).mp hbits, rfl⟩
  · rintro ⟨got, rest, hgather, hoverlays, rfl⟩
    refine ⟨(.ecOK, v), .ofChunks rest atEnd, ?_, returns_pure.mpr ⟨rfl, rfl⟩⟩
    exact (receiveInteger_iff hend hne).mpr ⟨got, rest, hgather, (hread hgather).mpr hoverlays, rfl⟩

theorem receive_iff (hend : Silent atEnd) (hne : ∀ r ∈ qs, r ≠ []) :
    Returns x.receive (.ofChunks qs atEnd) (.ok (.ecOK, x)) socket ↔
      ∃ got rest, gather x.send.length 0 qs = some (got, rest) ∧ overlays x.send.length got = x.send ∧
        socket = .ofChunks rest atEnd := by
  cases x with
  | uInt8 v => exact receiveAs_iff (fun _ _ => Integer.uInt8.inj) hend hne
  | int8 v => exact receiveAs_iff (fun _ _ => Integer.int8.inj) hend hne
  | uInt16 v => exact receiveAs_iff (fun _ _ => Integer.uInt16.inj) hend hne
  | int16 v => exact receiveAs_iff (fun _ _ => Integer.int16.inj) hend hne
  | uInt32 v => exact receiveAs_iff (fun _ _ => Integer.uInt32.inj) hend hne
  | int32 v => exact receiveAs_iff (fun _ _ => Integer.int32.inj) hend hne
  | uInt64 v => exact receiveAs_iff (fun _ _ => Integer.uInt64.inj) hend hne
  | int64 v => exact receiveAs_iff (fun _ _ => Integer.int64.inj) hend hne

theorem send_ne_nil : x.send ≠ [] := by cases x <;> exact sendInteger_ne_nil

/-- The results of calls that all return `ecOK` and the values `xs`. -/
def received (xs : List Integer) : List (SystemError × Integer) := xs.map fun x => (.ecOK, x)

theorem receiveSeq_cons_iff : Returns (receiveSeq (x :: xs)) socket (.ok (received (x :: xs))) s' ↔
    ∃ s, Returns x.receive socket (.ok (.ecOK, x)) s ∧ Returns (receiveSeq xs) s (.ok (received xs)) s' := by
  simp only [receiveSeq, returns_bind_ok, returns_pure, Except.ok.injEq, received, List.map_cons,
    List.cons.injEq]
  constructor
  · rintro ⟨_, s, hx, _, _, hxs, ⟨rfl, rfl⟩, rfl⟩
    exact ⟨s, hx, hxs⟩
  · rintro ⟨s, hx, hxs⟩
    exact ⟨_, s, hx, _, s', hxs, ⟨rfl, rfl⟩, rfl⟩

/-- Calls that return take as many octets as were sent, or more. -/
theorem length_le_of_receiveSeq (hend : Silent atEnd) (hne : ∀ r ∈ qs, r ≠ [])
    (h : Returns (receiveSeq xs) (.ofChunks qs atEnd) (.ok (received xs)) socket) :
    (xs.flatMap send).length + socket.unread.length ≤ qs.flatten.length := by
  induction xs generalizing qs with
  | nil =>
      obtain ⟨-, rfl⟩ := returns_pure.mp h
      simp
  | cons x xs ih =>
      obtain ⟨s, hx, hxs⟩ := receiveSeq_cons_iff.mp h
      obtain ⟨got, rest, hgather, -, rfl⟩ := (receive_iff hend hne).mp hx
      obtain ⟨hflat, hle, hrest⟩ := gather_spec hgather
      have hrec := ih (hrest ▸ ne_nil_of_mem_dropOctets hne) hxs
      rw [hflat, List.flatMap_cons, List.length_append, List.length_append]
      omega

/-- The octets of a value arrive at the front of one piece, or in pieces of their own that leave the value when
    they are written over each other. -/
def Intact (x : Integer) (qs : List Str) : Prop :=
  ∃ got, InPieces x.send got qs ∧ overlays x.send.length got = x.send

/-- **Integers in pieces.** For every sequence of values and every division of their octets into pieces, the
    receive functions return the values in order and use up the stream exactly if every value arrives intact. -/
theorem receiveSeq_iff (xs : List Integer) (pieces : List Str) (atEnd : RecvResult) (hend : Silent atEnd)
    (hne : ∀ q ∈ pieces, q ≠ []) (hsent : pieces.flatten = xs.flatMap send) :
    (∃ s, Returns (receiveSeq xs) (.ofChunks pieces atEnd) (.ok (received xs)) s ∧ s.unread = []) ↔
      ∀ front x back, xs = front ++ x :: back →
        Intact x (dropOctets (front.flatMap send).length pieces) := by
  induction xs generalizing pieces with
  | nil =>
      refine iff_of_true ⟨_, returns_pure.mpr ⟨rfl, rfl⟩, ?_⟩ ?_
      · rw [Socket.unread_ofChunks, hsent, List.flatMap_nil]
      · intro front x back h
        simp at h
  | cons x xs ih =>
      rw [List.flatMap_cons] at hsent
      -- what is left behind the first value
      have hleft : (dropOctets x.send.length pieces).flatten = xs.flatMap send := by
        rw [flatten_dropOctets, hsent, List.drop_left]
      have hrec := ih (dropOctets x.send.length pieces) (ne_nil_of_mem_dropOctets hne) hleft
      have htail : ∀ front : List Integer, dropOctets ((x :: front).flatMap send).length pieces =
          dropOctets (front.flatMap send).length (dropOctets x.send.length pieces) := by
        intro front
        rw [List.flatMap_cons, List.length_append, dropOctets_add]
      rw [forall_front_cons, List.flatMap_nil, List.length_nil, dropOctets_zero hne]
      simp only [htail, ← hrec]
      constructor
      · rintro ⟨s', hret, hunread⟩
        obtain ⟨s, hx, hxs⟩ := receiveSeq_cons_iff.mp hret
        obtain ⟨got, rest, hgather, hoverlays, rfl⟩ := (receive_iff hend hne).mp hx
        obtain ⟨hflat, hle, hrest⟩ := gather_spec hgather
        -- the other calls need all the octets that are left for them
        have hlength : got.flatten.length = x.send.length := by
          have hmore := length_le_of_receiveSeq hend (hrest ▸ ne_nil_of_mem_dropOctets hne) hxs
          have htotal := congrArg List.length (hflat.symm.trans hsent)
          rw [List.length_append, List.length_append] at htotal
          omega
        have hgot : got.flatten = x.send := (List.append_inj (hflat.symm.trans hsent) hlength).1
        rw [hlength] at hrest
        subst hrest
        exact ⟨⟨got, hgot ▸ inPieces_of_gather hne hgather hlength, hoverlays⟩, s', hxs, hunread⟩
      · rintro ⟨⟨got, hpieces, hoverlays⟩, s', hxs, hunread⟩
        refine ⟨s', receiveSeq_cons_iff.mpr ⟨_, ?_, hxs⟩, hunread⟩
        exact (receive_iff hend hne).mpr ⟨got, _, gather_of_inPieces hne send_ne_nil hpieces, hoverlays, rfl⟩

/-- Three values in three pieces. The last octet of the first value is a piece of its own, and is written over a zero. -/
theorem receiveSeq_iff_divided :
    ∃ s, Returns (receiveSeq [.uInt32 329216, .uInt16 258, .int8 (-1)])
      (.ofChunks [[0, 5, 6], [0], [1, 2, 255]] (.data []))
      (.ok (received [.uInt32 329216, .uInt16 258, .int8 (-1)])) s ∧ s.unread = [] := by
  have hend : Silent (.data []) := fun l hl => (RecvResult.data.inj hl).symm
  refine (receiveSeq_iff _ [[0, 5, 6], [0], [1, 2, 255]] (.data []) hend (by simp) (by decide)).mpr ?_
  refine forall_front_cons.mpr ⟨?_, forall_front_cons.mpr ⟨?_, forall_front_cons.mpr ⟨?_, ?_⟩⟩⟩
  · exact ⟨[[0, 5, 6], [0]], ⟨by decide, .inl ⟨[[1, 2, 255]], by decide⟩⟩, by decide⟩
  · exact ⟨[[1, 2]], ⟨by decide, .inr ⟨[255], [], by decide, by decide⟩⟩, by decide⟩
  · exact ⟨[[255]], ⟨by decide, .inl ⟨[], by decide⟩⟩, by decide⟩
  · intro front x back h
    simp at h

/-- The two octets of 258 in two pieces: the second is written over the first. And two values of which the
    first takes an octet of the second, which is then missing. -/
theorem pieces_overwritten :
    wp (receiveSeq [.uInt16 258]) (fun r _ => r = .ok [(.ecOK, .uInt16 512)])
      (.ofChunks [[1], [2]] (.data [])) ∧
    wp (receiveSeq [.uInt16 258, .uInt16 772]) (fun r _ => r = .ok [(.ecOK, .uInt16 515), (.ecEAGAIN, .uInt16 0)])
      (.ofChunks [[1], [2, 3], [4]] (.fail .ecEAGAIN)) :=
  ⟨wp_of_run 10 (by decide +kernel), wp_of_run 10 (by decide +kernel)⟩

end Integer

end BaseSocket
end Dodo.Network
