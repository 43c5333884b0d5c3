import Dodo.Network.Http.RoundTrip

/-!
# `Http.Transmit` — `HTTPRequest::send` and `HTTPRequest::write`

Two ways to put a request on a socket. `send` hands over the head and then the octets of the body; `write` hands over
what `asString` makes of the request, with the body as a string. The socket is a parameter: any way to take octets
and to return an error code.
-/

namespace Dodo.Network.Http

open Common Lib Lib.Comp

namespace HTTPRequest

/-- `setBody`, of the base class. -/
def setBody (r : HTTPRequest) (body : Str) : HTTPRequest :=
  { r with toHTTPMessage := r.toHTTPMessage.setBody body }

/-- The request line, the headers and the empty line behind them. -/
def head (r : HTTPRequest) : Str := r.request_line_.asString ++ (headerLines r.headers_ ++ [charCR, charLF])

variable {σ : Type} (socketSend : Str → Bool → Comp σ Exn SystemError)

def send (r : HTTPRequest) : Comp σ Exn SystemError := do
  let rc ← socketSend r.head false
  if !rc.ok then pure rc
  else if r.request_line_.method_.methodAllowsBody && 0 < r.body_.length then socketSend r.body_ false
  else pure rc

/-- `asString` is called before anything is sent. -/
def write (r : HTTPRequest) : Comp σ Exn SystemError :=
  match r.asString with
  | .ok text => socketSend text false
  | .error x => .throw x

/-! ## What is handed to the socket -/

/-- The buffers of `send`, if all of them are taken. -/
def buffers (r : HTTPRequest) : List Str :=
  if r.request_line_.method_.methodAllowsBody && 0 < r.body_.length then [r.head, r.body_] else [r.head]

variable {socketSend} {log : σ → List Str} {r : HTTPRequest} {s : σ}

section Succeeds

variable (hsucceeds : ∀ l more s, wp (socketSend l more) (fun x s' => x = .ok .ecOK ∧ log s' = log s ++ [l]) s)

include hsucceeds

theorem send_spec : wp (send socketSend r) (fun x s' => x = .ok .ecOK ∧ log s' = log s ++ r.buffers) s := by
  refine wp_bind.mpr (wp_mono (hsucceeds r.head false s) ?_)
  rintro _ s₁ ⟨rfl, hlog⟩
  dsimp only [seqPost_ok]
  rw [if_neg (by decide), buffers]
  split
  · refine wp_mono (hsucceeds r.body_ false s₁) ?_
    rintro _ s₂ ⟨rfl, hlog'⟩
    exact ⟨rfl, by rw [hlog', hlog, List.append_assoc]; rfl⟩
  · exact wp_pure.mpr ⟨rfl, hlog⟩

theorem send_iff {sent : List Str} :
    wp (send socketSend r) (fun x s' => x = .ok .ecOK ∧ log s' = log s ++ sent) s ↔ sent = r.buffers := by
  refine wp_iff (send_spec hsucceeds) ?_
  rintro _ s' ⟨rfl, hlog⟩
  simp [hlog, eq_comm]

/-- `write` hands over one buffer, unless `asString` throws. -/
theorem write_iff {written : Str} :
    wp (write socketSend r) (fun x s' => x = .ok .ecOK ∧ log s' = log s ++ [written]) s ↔ r.asString = .ok written := by
  unfold write
  cases r.asString with
  | ok text =>
      refine wp_iff (hsucceeds text false s) ?_
      rintro _ s' ⟨rfl, hlog⟩
      simp [hlog]
  | error x => simp

end Succeeds

theorem filter_eq_self_iff {body : Str} : body.filter (· ≠ 0) = body ↔ 0 ∉ body := by
  rw [List.filter_eq_self]
  constructor
  · intro h hzero
    simpa using h 0 hzero
  · intro h c hc
    simpa using fun hc0 : c = 0 => h (hc0 ▸ hc)

/-- The string of a body is the body exactly if there is no zero in it. -/
theorem bytesAsString_eq_ok_iff {body : Str} : HTTPMessage.bytesAsString body = .ok body ↔ 0 ∉ body := by
  constructor
  · intro h
    unfold HTTPMessage.bytesAsString at h
    split_ifs at h
    exact filter_eq_self_iff.mp (Except.ok.inj h)
  · exact HTTPMessage.bytesAsString_of_no_zero

theorem asString_eq_buffers_iff : r.asString = .ok r.buffers.flatten ↔
    (r.request_line_.method_.methodAllowsBody = true → 0 ∉ r.body_) := by
  unfold asString buffers
  by_cases hbody : (r.request_line_.method_.methodAllowsBody && decide (0 < r.body_.length)) = true
  · rw [if_pos hbody, if_pos hbody]
    simp only [Bool.and_eq_true, decide_eq_true_eq] at hbody
    rw [← bytesAsString_eq_ok_iff, imp_iff_right hbody.1]
    cases HTTPMessage.bytesAsString r.body_ with
    | ok text => simp [Except.map, head]
    | error x => simp [Except.map]
  · rw [if_neg hbody, if_neg hbody]
    refine iff_of_true (by simp [head]) fun hallows => ?_
    have hnil : r.body_ = [] := by simpa [hallows] using hbody
    simp [hnil]

/-- `send` and `write` return, and what `send` hands to the socket in pieces is what `write` hands to it. -/
def TransmitsSame (socketSend : Str → Bool → Comp σ Exn SystemError) (log : σ → List Str) (r : HTTPRequest) (s : σ) :
    Prop :=
  ∃ sent written, wp (send socketSend r) (fun x s' => x = .ok .ecOK ∧ log s' = log s ++ sent) s ∧
    wp (write socketSend r) (fun x s' => x = .ok .ecOK ∧ log s' = log s ++ [written]) s ∧ sent.flatten = written

theorem transmitsSame_iff
    (hsucceeds : ∀ l more s, wp (socketSend l more) (fun x s' => x = .ok .ecOK ∧ log s' = log s ++ [l]) s) :
    TransmitsSame socketSend log r s ↔ (r.request_line_.method_.methodAllowsBody = true → 0 ∉ r.body_) := by
  simp only [TransmitsSame, send_iff hsucceeds, write_iff hsucceeds, ← asString_eq_buffers_iff]
  constructor
  · rintro ⟨sent, written, rfl, hwrite, rfl⟩
    exact hwrite
  · intro hwrite
    exact ⟨_, _, rfl, hwrite, rfl⟩

/-- **`send` against `write`**: over every socket that takes what it is given, both transmit the same octets exactly if
    the method allows no body or the body has no zero octet. -/
theorem transmitsSame_setBody_iff (socketSend : Str → Bool → Comp σ Exn SystemError) (log : σ → List Str)
    (hsucceeds : ∀ l more s, wp (socketSend l more) (fun x s' => x = .ok .ecOK ∧ log s' = log s ++ [l]) s)
    (r : HTTPRequest) (body : Str) (s : σ) :
    TransmitsSame socketSend log (r.setBody body) s ↔
      (r.request_line_.method_.methodAllowsBody = true → 0 ∉ body) :=
  transmitsSame_iff hsucceeds

/-- A socket that takes everything and keeps it. -/
def record (l : Str) (_more : Bool) : Comp (List Str) Exn SystemError := .prim fun log => (.ok .ecOK, log ++ [l])

theorem record_succeeds (l : Str) (more : Bool) (s : List Str) :
    wp (record l more) (fun x s' => x = .ok .ecOK ∧ id s' = id s ++ [l]) s :=
  wp_prim.mpr ⟨rfl, rfl⟩

/-- A `POST` request, apart from its body. -/
def post : HTTPRequest := { request_line_ := { method_ := .mePOST } }

theorem transmitsSame_setBody_iff_post : TransmitsSame record id (post.setBody (lit "ab")) [] ↔
    (post.request_line_.method_.methodAllowsBody = true → 0 ∉ lit "ab") :=
  transmitsSame_setBody_iff record id record_succeeds post (lit "ab") []

/-- `write` throws on a zero in the body, and drops one at the end of it. -/
theorem write_loses_zero :
    ¬ TransmitsSame record id (post.setBody [0, 97]) [] ∧ ¬ TransmitsSame record id (post.setBody [97, 0]) [] := by
  rw [transmitsSame_iff record_succeeds, transmitsSame_iff record_succeeds]
  exact ⟨fun h => h rfl (by decide), fun h => h rfl (by decide)⟩

end HTTPRequest
end Dodo.Network.Http
