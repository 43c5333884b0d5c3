import Dodo.Network.Stream
import Dodo.Network.TCPListener

/-!
# `Network.TCPConnectionData` — reading what a socket has to give

`readBuffer` calls `receive` until it gets less than a full array. What it returns is the `ok` of the read stage
of `TCPServer::run`: anything but `ecOK` there shuts the connection down. The results of the calls of `receive`
are given, one for each pass of the loop; `Socket.results` are those of a plain socket.
-/

namespace Dodo.Network

open Common

/-- What `receive( buf, request, received )` returns: an error, and the octets it has written to `buf`. There are
    at most `request` of them, and none with an error. -/
structure Received (request : Nat) where
  error : SystemError
  octets : Str
  length_le : octets.length ≤ request
  octets_nil : error ≠ .ecOK → octets = []

namespace Socket

variable {socket : Socket} {request : Nat}

theorem recv_length_le {l : Str} {socket' : Socket} (h : socket.recv request = (.data l, socket')) :
    l.length ≤ request := by
  obtain ⟨pending, atEnd⟩ := socket
  match pending, atEnd with
  | [], .data l' =>
      obtain ⟨hl, -⟩ := Prod.mk.inj h
      rw [← RecvResult.data.inj hl]
      exact List.length_take_le request l'
  | [], .fail _ => cases h
  | .fail _ :: _, _ => cases h
  | .data l' :: rest, _ =>
      simp only [recv] at h
      split at h
      case isTrue hle =>
        obtain ⟨hl, -⟩ := Prod.mk.inj h
        rwa [← RecvResult.data.inj hl]
      case isFalse =>
        obtain ⟨hl, -⟩ := Prod.mk.inj h
        rw [← RecvResult.data.inj hl]
        exact List.length_take_le request l'

/-- `Socket::receive` keeps to what `Received` says. -/
theorem receive_octets {error : SystemError} {l : Str} {socket' : Socket}
    (h : socket.receive request = (.ok error, l, socket')) :
    l.length ≤ request ∧ (error ≠ .ecOK → l = []) := by
  rw [receive] at h
  split at h
  case h_1 =>
    split at h
    case isTrue =>
      obtain ⟨rfl, -⟩ := Prod.mk.inj (Prod.mk.inj h).2
      exact ⟨Nat.zero_le _, fun _ => rfl⟩
    case isFalse => cases h
  case h_2 hrecv =>
    obtain ⟨herror, hl⟩ := Prod.mk.inj h
    obtain ⟨rfl, -⟩ := Prod.mk.inj hl
    exact ⟨recv_length_le hrecv, fun hne => absurd (Except.ok.inj herror).symm hne⟩

/-- A call of `receive` on a plain socket. -/
def received (socket : Socket) (request : Nat) : Ended (Received request) × Socket :=
  match h : socket.receive request with
  | (.ok error, l, socket') => (.returned ⟨error, l, (receive_octets h).1, (receive_octets h).2⟩, socket')
  | (.error _, _, socket') => (.threw, socket')

/-- The results of `n` calls. -/
def results (request : Nat) : Nat → Socket → List (Ended (Received request))
  | 0, _ => []
  | n + 1, socket => (socket.received request).1 :: results request n (socket.received request).2

/-- A socket that does not block, with `l` to read. -/
def holding (l : Str) : Socket := .ofChunks (if l = [] then [] else [l]) (.fail .ecEAGAIN)

theorem received_holding_nil : (holding []).received request =
    (.returned ⟨.ecEAGAIN, [], Nat.zero_le request, fun _ => rfl⟩, holding []) :=
  rfl

theorem received_holding (request : Nat) {l : Str} (hl : l ≠ []) : ∃ hle hnil, (holding l).received request =
    (.returned ⟨.ecOK, l.take request, hle, hnil⟩, holding (l.drop request)) := by
  have hreceive : (holding l).receive request = (.ok .ecOK, l.take request, holding (l.drop request)) := by
    rw [holding, if_neg hl, holding]
    by_cases hle : l.length ≤ request
    · rw [if_pos (List.drop_eq_nil_of_le hle), List.take_of_length_le hle]
      simp [receive, recv, ofChunks, hle]
    · rw [if_neg (by rwa [List.drop_eq_nil_iff])]
      simp [receive, recv, ofChunks, hle]
  refine ⟨List.length_take_le request l, fun hne => absurd rfl hne, ?_⟩
  rw [received]
  split
  case h_1 h =>
    obtain ⟨herror, hrest⟩ := Prod.mk.inj (h.symm.trans hreceive)
    obtain ⟨rfl, rfl⟩ := Prod.mk.inj hrest
    obtain rfl := Except.ok.inj herror
    rfl
  case h_2 h => cases h.symm.trans hreceive

end Socket

structure TCPConnectionData where
  read_buffer : Str := []
deriving DecidableEq, Repr

namespace TCPConnectionData

/-- The loop of `readBuffer` on the results of `receive`, with the out-parameter `received`. The `return false`
    makes a `SystemError` of the number zero. Without a result the call goes on waiting. -/
def readBufferLoop (data : TCPConnectionData) (received : Nat) :
    List (Ended (Received 4096)) → Option (Ended SystemError × TCPConnectionData × Nat)
  | [] => none
  | .threw :: _ => some (.threw, data, received)
  | .returned r :: results =>
    let recv := r.octets.length
    if r.error.Soft ∧ 0 < recv then
      let data := { data with read_buffer := data.read_buffer ++ r.octets }
      if recv = 4096 then readBufferLoop data (received + recv) results
      else some (.returned r.error, data, received + recv)
    else if ¬ r.error.Soft then some (.returned ⟨0⟩, data, received)
    else if recv = 4096 then readBufferLoop data received results
    else some (.returned r.error, data, received)

def readBuffer (data : TCPConnectionData) (results : List (Ended (Received 4096))) :
    Option (Ended SystemError × TCPConnectionData × Nat) := readBufferLoop data 0 results

variable {data : TCPConnectionData} {received : Nat} {r last : Received 4096} {full : List (Received 4096)}
  {results : List (Ended (Received 4096))}

/-! ## The loop -/

/-- The octets of a list of results. -/
def octetsOf (rs : List (Received 4096)) : Str := rs.flatMap (·.octets)

/-- A full piece is appended, and the loop goes on. -/
theorem readBufferLoop_full (h : r.octets.length = 4096) :
    readBufferLoop data received (.returned r :: results) =
      readBufferLoop { data with read_buffer := data.read_buffer ++ r.octets } (received + r.octets.length)
        results := by
  have hok : r.error = .ecOK := by
    by_contra herror
    rw [r.octets_nil herror] at h
    cases h
  rw [readBufferLoop, if_pos ⟨.inl hok, by omega⟩, if_pos h]

/-- Full pieces are appended one after the other. -/
theorem readBufferLoop_append (hfull : ∀ r ∈ full, r.octets.length = 4096) :
    readBufferLoop data received (full.map .returned ++ results) =
      readBufferLoop { data with read_buffer := data.read_buffer ++ octetsOf full }
        (received + (octetsOf full).length) results := by
  induction full generalizing data received with
  | nil => simp [octetsOf]
  | cons r full ih =>
      rw [List.map_cons, List.cons_append, readBufferLoop_full (hfull r List.mem_cons_self),
        ih fun r hr => hfull r (List.mem_cons_of_mem _ hr)]
      simp only [octetsOf, List.flatMap_cons, List.length_append, List.append_assoc, Nat.add_assoc]

/-- The result that is not a full piece ends the loop. A hard error is returned as `ecOK`, `ecEAGAIN` as it is. -/
theorem readBufferLoop_last (h : last.octets.length ≠ 4096) :
    readBufferLoop data received (.returned last :: results) =
      some (.returned (if last.error.Soft then last.error else .ecOK),
        { data with read_buffer := data.read_buffer ++ last.octets }, received + last.octets.length) := by
  rw [readBufferLoop]
  by_cases hsoft : last.error.Soft
  · rw [if_pos hsoft]
    by_cases hpos : 0 < last.octets.length
    · rw [if_pos ⟨hsoft, hpos⟩, if_neg h]
    · have hnil : last.octets = [] := List.eq_nil_of_length_eq_zero (by omega)
      rw [if_neg fun hand => hpos hand.2, if_neg (not_not.mpr hsoft), if_neg h, hnil]
      simp
  · have hnil : last.octets = [] := last.octets_nil fun hok => hsoft (.inl hok)
    rw [if_neg fun hand => hsoft hand.1, if_pos hsoft, if_neg hsoft, hnil]
    simp [SystemError.ecOK]

/-- **What a call does**: the octets of all results are appended and counted, up to the first one that is not a
    full piece. -/
theorem readBuffer_eq (hfull : ∀ r ∈ full, r.octets.length = 4096) (hlast : last.octets.length ≠ 4096) :
    readBuffer data (full.map .returned ++ .returned last :: results) =
      some (.returned (if last.error.Soft then last.error else .ecOK),
        { data with read_buffer := data.read_buffer ++ octetsOf (full ++ [last]) },
        (octetsOf (full ++ [last])).length) := by
  rw [readBuffer, readBufferLoop_append hfull, readBufferLoop_last hlast]
  simp [octetsOf]

/-- An exception of `receive` leaves what has been appended. -/
theorem readBuffer_threw (hfull : ∀ r ∈ full, r.octets.length = 4096) :
    readBuffer data (full.map .returned ++ .threw :: results) =
      some (.threw, { data with read_buffer := data.read_buffer ++ octetsOf full }, (octetsOf full).length) := by
  rw [readBuffer, readBufferLoop_append hfull, readBufferLoop, Nat.zero_add]

/-! ## A plain socket -/

theorem readBufferLoop_holding (l : Str) :
    readBufferLoop data received ((Socket.holding l).results 4096 (l.length / 4096 + 1)) =
      some (.returned (if l.length % 4096 = 0 then .ecEAGAIN else .ecOK),
        { data with read_buffer := data.read_buffer ++ l }, received + l.length) := by
  induction hn : l.length using Nat.strong_induction_on generalizing l data received with
  | _ n ih =>
      subst hn
      by_cases hl : l = []
      · subst hl
        simp [Socket.results, Socket.received_holding_nil, readBufferLoop_last, SystemError.Soft]
      · obtain ⟨hle, hnil, hfirst⟩ := Socket.received_holding 4096 hl
        rw [Socket.results, hfirst]
        by_cases hshort : l.length < 4096
        · have hpos := List.length_pos_of_ne_nil hl
          have htake : l.take 4096 = l := List.take_of_length_le (by omega)
          rw [readBufferLoop_last (by simp only [htake]; omega), if_pos (.inl rfl), if_neg (by omega)]
          simp only [htake]
        · -- a full piece, and then what is left behind it
          have htake : (l.take 4096).length = 4096 := by rw [List.length_take]; omega
          have hdrop : (l.drop 4096).length = l.length - 4096 := List.length_drop
          have hcount : l.length / 4096 = (l.drop 4096).length / 4096 + 1 := by omega
          have hmod : (l.drop 4096).length % 4096 = l.length % 4096 := by omega
          rw [readBufferLoop_full htake, hcount, ih _ (by omega) _ rfl, hmod, htake, hdrop]
          rw [show received + 4096 + (l.length - 4096) = received + l.length by omega]
          simp only [List.append_assoc, List.take_append_drop]

/-- All that a socket holds is read; but where it is a multiple of the array, the last call of `receive` finds
    nothing, and `readBuffer` returns `ecEAGAIN`. -/
theorem readBuffer_holding (data : TCPConnectionData) (l : Str) :
    readBuffer data ((Socket.holding l).results 4096 (l.length / 4096 + 1)) =
      some (.returned (if l.length % 4096 = 0 then .ecEAGAIN else .ecOK),
        { data with read_buffer := data.read_buffer ++ l }, l.length) := by
  rw [readBuffer, readBufferLoop_holding, Nat.zero_add]

/-! ## What the server makes of it -/

/-- What a call is for. The results of `receive` are full pieces and the one that ended the loop. -/
structure Serves (data : TCPConnectionData) (full : List (Received 4096)) (last : Received 4096)
    (error : SystemError) (data' : TCPConnectionData) (received : Nat) : Prop where
  appended : data'.read_buffer = data.read_buffer ++ octetsOf (full ++ [last])
  counted : received = (octetsOf (full ++ [last])).length
  /-- All that was there has been read. -/
  drained : last.error.Soft → error = .ecOK
  failed : ¬ last.error.Soft → error = last.error
  /-- `TCPServer::run` shuts the connection down for a reason. -/
  shut : ∀ read : Ended SystemError, (readSocketDone (.returned error) read).has .Shut = true →
    ¬ last.error.Soft ∨ ∃ e, read = .returned e ∧ ¬ e.Soft

/-- The server goes by both results. -/
theorem readSocketDone_has_Shut {buffer error : SystemError} :
    (readSocketDone (.returned buffer) (.returned error)).has .Shut = true ↔ buffer ≠ .ecOK ∨ ¬ error.Soft := by
  rw [readSocketDone, SystemError.Soft]
  split
  case isTrue h =>
    refine iff_of_false (by decide) ?_
    rintro (hbuffer | herror)
    · exact hbuffer h.1
    · exact herror h.2
  case isFalse h =>
    refine iff_of_true (by decide) ?_
    by_cases hbuffer : buffer = .ecOK
    · exact .inr fun herror => h ⟨hbuffer, herror⟩
    · exact .inl hbuffer

/-- **`readBuffer` serves its purpose** exactly if the last result of `receive` is `ecOK`: a short piece or the
    end of the stream. An exception of `receive` is passed on, with what came before it appended and counted. -/
theorem readBuffer_serves_iff (data : TCPConnectionData) (full : List (Received 4096)) (last : Received 4096)
    (results : List (Ended (Received 4096))) (hfull : ∀ r ∈ full, r.octets.length = 4096)
    (hlast : last.octets.length ≠ 4096) :
    ((∃ error data' received, readBuffer data (full.map .returned ++ .returned last :: results) =
        some (.returned error, data', received) ∧ Serves data full last error data' received) ↔
      last.error = .ecOK) ∧
    readBuffer data (full.map .returned ++ .threw :: results) =
      some (.threw, { data with read_buffer := data.read_buffer ++ octetsOf full }, (octetsOf full).length) := by
  refine ⟨?_, readBuffer_threw hfull⟩
  rw [readBuffer_eq hfull hlast]
  constructor
  · rintro ⟨error, data', received, heq, hserves⟩
    obtain ⟨herror, -⟩ := Prod.mk.inj (Option.some.inj heq)
    obtain rfl := Ended.returned.inj herror
    -- a soft error is returned as it is, and a hard one is not returned
    by_cases hsoft : last.error.Soft
    · have hdrained := hserves.drained hsoft
      rwa [if_pos hsoft] at hdrained
    · have hfailed := hserves.failed hsoft
      rw [if_neg hsoft] at hfailed
      exact hfailed.symm
  · intro hok
    have hsoft : last.error.Soft := .inl hok
    refine ⟨_, _, _, rfl, rfl, rfl, fun _ => ?_, fun hhard => absurd hsoft hhard, ?_⟩
    · rw [if_pos hsoft, hok]
    · intro read hshut
      cases read with
      | threw =>
          rw [show readSocketDone _ .threw = .None from rfl] at hshut
          exact absurd hshut (by decide)
      | returned e =>
          rw [readSocketDone_has_Shut, if_pos hsoft] at hshut
          exact .inr ⟨e, rfl, hshut.resolve_left fun hne => hne hok⟩

/-- A full piece. -/
def fullPiece : Received 4096 :=
  ⟨.ecOK, List.replicate 4096 97, by rw [List.length_replicate], fun hne => absurd rfl hne⟩

/-- A full piece and a short one, with something in the buffer before. -/
theorem readBuffer_serves_iff_pieces :
    (∃ error data' received, readBuffer ⟨lit "x"⟩ ([fullPiece].map .returned ++
          .returned ⟨.ecOK, lit "ab", by decide, by decide⟩ :: []) = some (.returned error, data', received) ∧
        Serves ⟨lit "x"⟩ [fullPiece] ⟨.ecOK, lit "ab", by decide, by decide⟩ error data' received) ∧
    readBuffer ⟨lit "x"⟩ ([fullPiece].map .returned ++ .threw :: []) =
      some (.threw, ⟨lit "x" ++ octetsOf [fullPiece]⟩, (octetsOf [fullPiece]).length) := by
  have hfull : ∀ r ∈ [fullPiece], r.octets.length = 4096 := by
    intro r hr
    rw [List.mem_singleton.mp hr]
    exact List.length_replicate
  obtain ⟨hserves, hthrew⟩ := readBuffer_serves_iff ⟨lit "x"⟩ [fullPiece] ⟨.ecOK, lit "ab", by decide, by decide⟩ []
    hfull (by decide)
  exact ⟨hserves.mpr rfl, hthrew⟩

/-- With nothing to read, `ecEAGAIN` is returned and the connection is shut down; with an error, `ecOK` is. -/
theorem readBuffer_not_serves :
    (readBuffer {} [.returned ⟨.ecEAGAIN, [], by decide, by decide⟩] = some (.returned .ecEAGAIN, {}, 0) ∧
      (readSocketDone (.returned .ecEAGAIN) (.returned .ecOK)).has .Shut = true) ∧
    readBuffer {} [.returned ⟨.ecENOTCONN, [], by decide, by decide⟩] = some (.returned .ecOK, {}, 0) := by
  decide

end TCPConnectionData
end Dodo.Network
