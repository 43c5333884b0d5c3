import Dodo.Network.Http.Message

/-!
# `Http.Version` — `HTTPVersion`

The version both start lines carry. The members are assigned only at the end of a successful scan, by
stream extraction from the digits collected: no digits leave a member as it was.
-/

namespace Dodo.Network.Http

open Common Lib

structure HTTPVersion where
  major_ : UInt32 := 1
  minor_ : UInt32 := 0
deriving DecidableEq, Repr

namespace HTTPVersion

def asString (v : HTTPVersion) : Str :=
  lit "HTTP/" ++ decimal v.major_.toNat ++ lit "." ++ decimal v.minor_.toNat

/-- The states of `HTTPVersion::parse`. -/
inductive State where
  | ssStart
  | ssHttp
  | sshTtp1
  | sshTtp2
  | sshttP
  | ssSlash
  | ssMajor
  | ssDot
  | ssMinor
  | ssDone
deriving DecidableEq, Repr

variable {β ω : Type} [VirtualReadBuffer β]

/-- The local variables of the loop. -/
structure Vars where
  state : State := .ssStart
  major : Str := []
  minor : Str := []
  parseResult : ParseResult := {}

/-- A state that expects the octet `c` and goes on to `state` behind it. -/
def expect (c : Octet) (state : State) (v : Vars) : Comp (β × ω) Exn (Vars ⊕ ParseResult) := do
  let d ← get
  if d = c then
    let se ← next
    pure (.inl { v with state, parseResult := .setSystemError se })
  else pure (.inr (.error .peInvalidHTTPVersion))

/-- The `switch` in the loop; `.inr` is a `return`. -/
def step (v : Vars) : Comp (β × ω) Exn (Vars ⊕ ParseResult) :=
  match v.state with
  | .ssStart => do
    let c ← get
    if !isspace c then pure (.inl { v with state := .ssHttp })
    else
      let se ← next
      pure (.inl { v with parseResult := .setSystemError se })
  | .ssHttp => expect 72 .sshTtp1 v     -- H
  | .sshTtp1 => expect 84 .sshTtp2 v    -- T
  | .sshTtp2 => expect 84 .sshttP v     -- T
  | .sshttP => expect 80 .ssSlash v     -- P
  | .ssSlash => expect 47 .ssMajor v    -- /
  | .ssMajor => do
    let c ← get
    if !isdigit c then pure (.inl { v with state := .ssDot })
    else
      let se ← next
      pure (.inl { v with major := v.major ++ [c], parseResult := .setSystemError se })
  | .ssDot => expect 46 .ssMinor v      -- .
  | .ssMinor => do
    let c ← get
    if !isdigit c then pure (.inl { v with state := .ssDone })
    else
      let se ← next
      pure (.inl { v with minor := v.minor ++ [c], parseResult := .setSystemError se })
  | .ssDone => pure (.inl v)

def parsePass (v : Vars) : Comp (β × HTTPVersion) Exn (Vars ⊕ ParseResult) :=
  if v.parseResult.ok && v.state ≠ .ssDone then step v
  else do
    if v.parseResult.systemError = .ecOK then
      modifySelf (fun this => { major_ := extractUInt v.major this.major_,
                                minor_ := extractUInt v.minor this.minor_ })
    pure (.inr v.parseResult)

def parse : Comp (β × HTTPVersion) Exn ParseResult := .loop parsePass {}

end HTTPVersion
end Dodo.Network.Http
