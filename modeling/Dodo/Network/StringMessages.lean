import Dodo.Network.Fragments

/-!
# `Network.StringMessages` — strings that arrive in pieces

`receiveString` reads the size of a string and then runs the receive loop over a local array. A string is
received as it was sent exactly if it has no zero octet, since the array is read as a C string; if no piece of it
is longer than the receive buffer; and if the loop gathers it, and nothing behind it.
-/

namespace Dodo.Network.BaseSocket

open Common Lib Lib.Comp

variable {opts : Options} {s : Str} {ss qs got rest pieces : List Str} {atEnd : RecvResult} {socket : Socket}

/-! ## The octets of a string -/

/-- What `sendString` puts on the stream of a blocking socket. -/
def message (s : Str) : Str := sendUInt64 (UInt64.ofNat s.length) ++ s

/-- The strings of a sequence, sent in order: the octets on the stream. -/
def sendStrings (opts : Options) (ss : List Str) : Except Exn Str := (ss.mapM (sendString opts)).map List.flatten

theorem sendStrings_eq (h : opts.blocking = true) : sendStrings opts ss = .ok (ss.flatMap message) := by
  have hmap : ss.mapM (sendString opts) = .ok (ss.map message) := by
    induction ss with
    | nil => rfl
    | cons s ss ih =>
        rw [List.mapM_cons, ih, sendString, if_pos h]
        rfl
  rw [sendStrings, hmap, List.flatMap_def]
  rfl

/-- The size that was sent is read back. -/
theorem size_eq (h : s.length < 2 ^ 63) : (UInt64.ofNat s.length).toNat = s.length :=
  UInt64.toNat_ofNat_of_lt' (Nat.lt_trans h (by decide))

theorem length_cstr_le (l : Str) : (cstr l).length ≤ l.length := (List.takeWhile_prefix _).length_le

theorem length_flatMap_cstr_le (got : List Str) : (got.flatMap cstr).length ≤ got.flatten.length := by
  induction got with
  | nil => simp
  | cons l got ih =>
      have hl := length_cstr_le l
      rw [List.flatMap_cons, List.flatten_cons, List.length_append, List.length_append]
      omega

theorem flatMap_cstr_iff : got.flatMap cstr = got.flatten ↔ 0 ∉ got.flatten := by
  induction got with
  | nil => simp
  | cons l got ih =>
      rw [List.flatMap_cons, List.flatten_cons, List.mem_append, not_or, ← ih, ← cstr_eq_self_iff]
      constructor
      · intro h
        have hlength := congrArg List.length h
        have hle := length_flatMap_cstr_le got
        have hl := length_cstr_le l
        rw [List.length_append, List.length_append] at hlength
        exact List.append_inj h (by omega)
      · rintro ⟨hl, hgot⟩
        rw [hl, hgot]

/-- The pieces of a string are appended one after the other, as C strings, if each of them fits. -/
theorem foldlM_appendReceived {t : Str} : got.foldlM (appendReceived opts) s = .ok t ↔
    (∀ g ∈ got, g.length ≤ opts.receiveBufSize) ∧ t = s ++ got.flatMap cstr := by
  induction got generalizing s with
  | nil =>
      rw [List.foldlM_nil]
      constructor
      · intro h
        exact ⟨by simp, by rw [← Except.ok.inj h]; simp⟩
      · rintro ⟨-, rfl⟩
        simp [pure, Except.pure]
  | cons g got ih =>
      rw [List.foldlM_cons, appendReceived]
      by_cases hg : g.length ≤ opts.receiveBufSize
      · rw [if_pos hg]
        show got.foldlM (appendReceived opts) (s ++ cstr g) = .ok t ↔ _
        rw [ih]
        simp [hg]
      · rw [if_neg hg]
        constructor
        · intro h
          cases h
        · rintro ⟨hall, -⟩
          exact absurd (hall g List.mem_cons_self) hg

/-! ## One string -/

/-- The size of a string that comes in one piece is received, and nothing behind it. -/
theorem receiveSize {q : Str} (hend : Silent atEnd) (hne : ∀ r ∈ pieces, r ≠ []) (v : UInt64)
    (h : pieces = (sendUInt64 v ++ q) :: rest) :
    Returns receiveUInt64 (.ofChunks pieces atEnd) (.ok (.ecOK, v)) (.ofChunks (dropOctets 8 pieces) atEnd) := by
  have hpieces : InPieces (sendUInt64 v) [sendUInt64 v] pieces := ⟨by simp, .inr ⟨q, rest, rfl, h⟩⟩
  have hwidth : (sendUInt64 v).length = 8 := length_sendInteger
  have hgather := gather_of_inPieces (l := sendUInt64 v) hne sendInteger_ne_nil hpieces
  rw [hwidth] at hgather
  refine (receiveInteger_iff hend hne).mpr ⟨_, _, hgather, ?_, rfl⟩
  rw [ofBits_eq_iff (length_overlays (by simp [hwidth, uInt64]))]
  show sendUInt64 v ++ (List.replicate 8 0).drop (sendUInt64 v).length = sendInteger uInt64 v
  rw [hwidth]
  exact List.append_nil _

/-- `receiveString` on a stream that starts with the size of the string in one piece. -/
theorem receiveString_iff {q t : Str} (hblocking : opts.blocking = true) (hend : Silent atEnd)
    (hne : ∀ r ∈ pieces, r ≠ []) (hs : s.length < 2 ^ 63)
    (h : pieces = (sendUInt64 (UInt64.ofNat s.length) ++ q) :: rest) :
    Returns (receiveString opts) (.ofChunks pieces atEnd) (.ok (.ecOK, t)) socket ↔
      Returns (receiveAll s.length (appendReceived opts) []) (.ofChunks (dropOctets 8 pieces) atEnd)
        (.ok (.ecOK, t)) socket := by
  have hsize := receiveSize hend hne _ h
  rw [receiveString, if_pos hblocking, returns_bind_ok]
  constructor
  · rintro ⟨⟨error, n⟩, s₁, hreceive, hrest⟩
    obtain ⟨hok, rfl⟩ := hreceive.unique hsize
    obtain ⟨rfl, rfl⟩ := Prod.mk.inj (Except.ok.inj hok)
    dsimp only at hrest
    rwa [if_pos rfl, size_eq hs] at hrest
  · intro hall
    refine ⟨_, _, hsize, ?_⟩
    dsimp only
    rwa [if_pos rfl, size_eq hs]

/-- With a request of zero there is one pass. -/
theorem receiveAll_zero_iff {σ : Type} {store : σ → Str → Except Fault σ} {target target' : σ} {s' : Socket} :
    Returns (receiveAll 0 store target) socket (.ok (.ecOK, target')) s' ↔
      ∃ l, socket.receive 0 = (.ok .ecOK, l, s') ∧ store target l = .ok target' := by
  rw [receiveAll, returns_loop, receiveAllPass]
  constructor
  · intro h
    obtain ⟨x, s₁, hpass, hnext⟩ := returns_bind_ok.mp h
    obtain ⟨⟨error, l⟩, s₂, hreceive, hpass⟩ := returns_bind_ok.mp hpass
    obtain ⟨t, s₃, hstore, hpass⟩ := returns_bind_ok.mp hpass
    obtain ⟨ht, rfl⟩ := Prod.mk.inj (returns_prim.mp hstore)
    -- no length is below 0, so the first pass is the last
    rw [if_neg (fun hand => Nat.not_lt_zero _ hand.2)] at hpass
    obtain ⟨hx, rfl⟩ := returns_pure.mp hpass
    obtain rfl := Except.ok.inj hx
    obtain ⟨hok, rfl⟩ := returns_pure.mp hnext
    obtain ⟨rfl, rfl⟩ := Prod.mk.inj (Except.ok.inj hok)
    exact ⟨l, receive_eq hreceive, ht⟩
  · rintro ⟨l, hreceive, hstore⟩
    refine returns_bind_ok.mpr ⟨.inr (.ecOK, target'), s', ?_, returns_pure.mpr ⟨rfl, rfl⟩⟩
    refine returns_bind_ok.mpr ⟨(.ecOK, l), s', returns_prim.mpr (by rw [hreceive]), ?_⟩
    refine returns_bind_ok.mpr ⟨target', s', returns_prim.mpr (by rw [hstore]), ?_⟩
    rw [if_neg (fun hand => Nat.not_lt_zero _ hand.2)]
    exact returns_pure.mpr ⟨rfl, rfl⟩

/-- A request of zero octets returns at once, unless an error is reported at the end of the stream. -/
theorem receive_zero_iff {l : Str} (hend : Silent atEnd) (hne : ∀ r ∈ qs, r ≠ []) :
    Socket.receive (.ofChunks qs atEnd) 0 = (.ok .ecOK, l, socket) ↔
      (qs = [] → atEnd = .data []) ∧ l = [] ∧ socket = .ofChunks qs atEnd := by
  cases qs with
  | cons q qs =>
      rw [receive_chunk hne, List.take_zero, List.length_nil, dropOctets_zero hne]
      simp only [Prod.mk.injEq, true_and, reduceCtorEq, false_implies, eq_comm]
  | nil =>
      constructor
      · intro h
        refine ⟨fun _ => ?_, receive_end hend h⟩
        cases atEnd with
        | data l' => rw [hend l' rfl]
        | fail errno => exact absurd h receive_fail
      · rintro ⟨hdata, rfl, rfl⟩
        rw [hdata rfl]
        rfl

/-- A string arrives in one piece that fits into the receive buffer, or in pieces of its own that do, and it has
    no zero octet. An empty string needs something behind it, be it the end of the stream. -/
def Arrives (opts : Options) (atEnd : RecvResult) (s : Str) (qs : List Str) : Prop :=
  if s = [] then qs = [] → atEnd = .data []
  else 0 ∉ s ∧ ∃ got, InPieces s got qs ∧ ∀ g ∈ got, g.length ≤ opts.receiveBufSize

/-- The loop of `receiveString` gives the string, and stops behind it. -/
theorem receiveContent_iff (opts : Options) (socket : Socket) {back : Str} (hend : Silent atEnd) (hne : ∀ r ∈ qs, r ≠ [])
    (hflat : qs.flatten = s ++ back) :
    (Returns (receiveAll s.length (appendReceived opts) []) (.ofChunks qs atEnd) (.ok (.ecOK, s)) socket ∧
      socket.unread = back) ↔ Arrives opts atEnd s qs ∧ socket = .ofChunks (dropOctets s.length qs) atEnd := by
  unfold Arrives
  by_cases hs : s = []
  · -- for an empty string `receive` is called once, too, and asked for nothing
    subst hs
    rw [if_pos rfl, List.length_nil, receiveAll_zero_iff, dropOctets_zero hne]
    simp only [receive_zero_iff hend hne]
    constructor
    · rintro ⟨⟨l, ⟨hdata, -, rfl⟩, -⟩, -⟩
      exact ⟨hdata, rfl⟩
    · rintro ⟨hdata, rfl⟩
      refine ⟨⟨[], ⟨hdata, rfl, rfl⟩, ?_⟩, by rw [Socket.unread_ofChunks, hflat, List.nil_append]⟩
      rw [appendReceived, if_pos (by simp)]
      rfl
  · rw [if_neg hs, receiveAll_iff hend hne (List.length_pos_of_ne_nil hs)]
    constructor
    · rintro ⟨⟨got, rest, hgather, hstore, rfl⟩, hunread⟩
      rw [Socket.unread_ofChunks] at hunread
      obtain ⟨hsplit, -, hrest⟩ := gather_spec hgather
      obtain ⟨hfit, hcstr⟩ := foldlM_appendReceived.mp hstore
      rw [List.nil_append] at hcstr
      -- the octets in front of `back` are those of the string
      rw [hunread, hflat] at hsplit
      have hgot : got.flatten = s := (List.append_cancel_right hsplit).symm
      have hpieces := inPieces_of_gather hne hgather (by rw [hgot])
      rw [hgot] at hpieces hrest
      refine ⟨⟨?_, got, hpieces, hfit⟩, by rw [hrest]⟩
      rw [← hgot, ← flatMap_cstr_iff, ← hcstr, hgot]
    · rintro ⟨⟨hzero, got, hpieces, hfit⟩, rfl⟩
      refine ⟨⟨got, _, gather_of_inPieces hne hs hpieces, ?_, rfl⟩, ?_⟩
      · refine foldlM_appendReceived.mpr ⟨hfit, ?_⟩
        rw [List.nil_append, flatMap_cstr_iff.mpr (by rw [hpieces.1]; exact hzero), hpieces.1]
      · rw [Socket.unread_ofChunks, flatten_dropOctets, hflat, List.drop_left]

/-! ## A sequence of strings -/

/-- The calls of `receiveString` return the strings in order, and each takes the octets of its own message. -/
def ReceivesInOrder (opts : Options) : List Str → Socket → Prop
  | [], _ => True
  | s :: ss, socket => ∃ socket', Returns (receiveString opts) socket (.ok (.ecOK, s)) socket' ∧
      socket'.unread = ss.flatMap message ∧ ReceivesInOrder opts ss socket'

/-- The size in front of each string comes in one piece. -/
def SizesWhole (ss pieces : List Str) : Prop :=
  ∀ front s back, ss = front ++ s :: back →
    ∃ q qs, dropOctets (front.flatMap message).length pieces = q :: qs ∧ 8 ≤ q.length

theorem SizesWhole.tail (h : SizesWhole (s :: ss) pieces) :
    SizesWhole ss (dropOctets (message s).length pieces) := by
  intro front t back hss
  have ht := h (s :: front) t back (by rw [hss, List.cons_append])
  rwa [List.flatMap_cons, List.length_append, dropOctets_add] at ht

/-- The first piece starts with the size of the first string. -/
theorem SizesWhole.head (hne : ∀ q ∈ pieces, q ≠ []) (h : SizesWhole (s :: ss) pieces)
    (hflat : pieces.flatten = message s ++ ss.flatMap message) :
    ∃ q rest, pieces = (sendUInt64 (UInt64.ofNat s.length) ++ q) :: rest := by
  obtain ⟨q, qs, hpieces, hq⟩ := h [] s ss rfl
  rw [List.flatMap_nil, List.length_nil, dropOctets_zero hne] at hpieces
  have hwidth : (sendUInt64 (UInt64.ofNat s.length)).length = 8 := length_sendInteger
  rw [hpieces, List.flatten_cons, message, List.append_assoc] at hflat
  have htake := congrArg (List.take 8) hflat
  rw [List.take_append_of_le_length hq, ← hwidth, List.take_left, hwidth] at htake
  exact ⟨q.drop 8, qs, by rw [← htake, List.take_append_drop, hpieces]⟩

/-- **Strings in pieces.** For every list of strings, every receive buffer size and every division of the
    messages into pieces that leaves their sizes whole, the strings are received in order, each from its own
    message and within the local array, exactly if each of them `Arrives`. A string has less than `2^63` octets,
    the limit of `std::string`. -/
theorem receiveStrings_iff (opts : Options) (strings pieces : List Str) (atEnd : RecvResult)
    (hblocking : opts.blocking = true) (hsent : sendStrings opts strings = .ok pieces.flatten)
    (hlength : ∀ s ∈ strings, s.length < 2 ^ 63) (hne : ∀ q ∈ pieces, q ≠ []) (hend : Silent atEnd)
    (hsizes : SizesWhole strings pieces) :
    ReceivesInOrder opts strings (.ofChunks pieces atEnd) ↔
      ∀ front s back, strings = front ++ s :: back →
        Arrives opts atEnd s (dropOctets ((front.flatMap message).length + 8) pieces) := by
  rw [sendStrings_eq hblocking] at hsent
  replace hsent := Except.ok.inj hsent
  induction strings generalizing pieces with
  | nil =>
      refine iff_of_true trivial ?_
      intro front s back h
      simp at h
  | cons s ss ih =>
      rw [List.flatMap_cons] at hsent
      obtain ⟨q, rest, hpieces⟩ := hsizes.head hne hsent.symm
      have hwidth : (sendUInt64 (UInt64.ofNat s.length)).length = 8 := length_sendInteger
      have hmessage : (message s).length = 8 + s.length := by rw [message, List.length_append, hwidth]
      -- what is left behind the size, and behind the string
      have hcontent : (dropOctets 8 pieces).flatten = s ++ ss.flatMap message := by
        rw [flatten_dropOctets, ← hsent, message, List.append_assoc, ← hwidth, List.drop_left]
      have hleft : ss.flatMap message = (dropOctets (message s).length pieces).flatten := by
        rw [flatten_dropOctets, ← hsent, List.drop_left]
      have hrec := ih (dropOctets (message s).length pieces)
        (fun t ht => hlength t (List.mem_cons_of_mem s ht)) (ne_nil_of_mem_dropOctets hne) hsizes.tail hleft
      have hfirst := fun socket => receiveContent_iff opts socket hend
        (ne_nil_of_mem_dropOctets hne) hcontent
      rw [forall_front_cons, List.flatMap_nil, List.length_nil, Nat.zero_add, ReceivesInOrder]
      simp only [receiveString_iff hblocking hend hne (hlength s List.mem_cons_self) hpieces, ← and_assoc, hfirst]
      have hrest : dropOctets s.length (dropOctets 8 pieces) = dropOctets (message s).length pieces := by
        rw [← dropOctets_add, hmessage]
      have htail : ∀ front : List Str, dropOctets (((s :: front).flatMap message).length + 8) pieces =
          dropOctets ((front.flatMap message).length + 8) (dropOctets (message s).length pieces) := by
        intro front
        rw [List.flatMap_cons, List.length_append, Nat.add_assoc, dropOctets_add]
      simp only [hrest, htail, ← hrec]
      constructor
      · rintro ⟨socket, ⟨harrives, rfl⟩, hss⟩
        exact ⟨harrives, hss⟩
      · rintro ⟨harrives, hss⟩
        exact ⟨_, ⟨harrives, rfl⟩, hss⟩

/-- Two strings in four pieces: the first string begins behind its size and goes on in a piece of its own. -/
theorem receiveStrings_iff_divided : ReceivesInOrder ⟨true, 16⟩ [lit "abc", lit "de"]
    (.ofChunks [sendUInt64 3 ++ lit "a", lit "bc", sendUInt64 2, lit "de"] (.data [])) := by
  have hsizes : SizesWhole [lit "abc", lit "de"] [sendUInt64 3 ++ lit "a", lit "bc", sendUInt64 2, lit "de"] := by
    refine forall_front_cons.mpr ⟨?_, forall_front_cons.mpr ⟨?_, ?_⟩⟩
    · exact ⟨sendUInt64 3 ++ lit "a", [lit "bc", sendUInt64 2, lit "de"], by decide, by decide⟩
    · exact ⟨sendUInt64 2, [lit "de"], by decide, by decide⟩
    · intro front s back h
      simp at h
  refine (receiveStrings_iff ⟨true, 16⟩ [lit "abc", lit "de"] _ (.data []) rfl (by decide) ?_ (by decide) ?_ hsizes).mpr ?_
  · simp only [List.forall_mem_cons]
    decide
  · exact fun l hl => (RecvResult.data.inj hl).symm
  · refine forall_front_cons.mpr ⟨?_, forall_front_cons.mpr ⟨?_, ?_⟩⟩
    · rw [Arrives, if_neg (by decide)]
      exact ⟨by decide, [lit "a", lit "bc"], ⟨by decide, .inl ⟨[sendUInt64 2, lit "de"], by decide⟩⟩, by decide⟩
    · rw [Arrives, if_neg (by decide)]
      exact ⟨by decide, [lit "de"], ⟨by decide, .inl ⟨[], by decide⟩⟩, by decide⟩
    · intro front s back h
      simp at h

/-- A zero octet ends a string early; a piece that is longer than the receive buffer is written behind the end
    of the array; and a string that comes in two pieces takes an octet of the next message. -/
theorem strings_not_received :
    wp (receiveString ⟨true, 16⟩) (fun r _ => r = .ok (.ecOK, lit "a"))
      (.ofChunks [message [97, 0, 98]] (.data [])) ∧
    wp (receiveString ⟨true, 1⟩) (fun r _ => r = .error .overrun)
      (.ofChunks [message (lit "ab")] (.data [])) ∧
    wp (do
        let first ← receiveString ⟨true, 16⟩
        let second ← receiveString ⟨true, 16⟩
        pure (first, second))
      (fun r _ => r = .ok ((.ecOK, lit "abc"), (.ecEAGAIN, [])))
      (.ofChunks [sendUInt64 3, lit "a", lit "bc" ++ message (lit "d")] (.fail .ecEAGAIN)) :=
  ⟨wp_of_run 10 (by decide +kernel), wp_of_run 10 (by decide +kernel), wp_of_run 10 (by decide +kernel)⟩

end Dodo.Network.BaseSocket
