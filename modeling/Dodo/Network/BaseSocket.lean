import Dodo.Lib.NetworkOrder
import Dodo.Network.Stream

/-!
# `Network.BaseSocket` — integers and strings over a socket

The `send…` functions hand octets to `send`, which puts all of them on the stream; they are modelled as these
octets. The `more` argument of some of them is a hint for the network, and leaves the octets as they are.

The `receive…` functions share one loop. It asks `receive` for the whole size at every pass, at the start of
the same variable or array, and adds up what it got until that is enough.
-/

namespace Dodo.Network

open Common Lib

/-- How a call can end without returning: by an exception, or by a write behind the end of a local array, after
    which nothing is known. -/
inductive Fault where
  | thrown (x : Exn)
  | overrun
deriving DecidableEq, Repr

namespace BaseSocket

/-- `receive( buf, request, received )`: the error, and the octets that were written to `buf`. -/
def receive (request : Nat) : Comp Socket Fault (SystemError × Str) :=
  .prim fun socket =>
    match socket.receive request with
    | (.ok error, l, socket') => (.ok (error, l), socket')
    | (.error x, _, socket') => (.error (.thrown x), socket')

section Loop

variable {σ : Type}

/-- One pass, on the target of the octets and on `total`. -/
def receiveAllPass (request : Nat) (store : σ → Str → Except Fault σ) :
    σ × Nat → Comp Socket Fault ((σ × Nat) ⊕ (SystemError × σ))
  | (target, total) => do
    let (error, l) ← receive request
    let target ← .prim fun socket => (store target l, socket)
    if error = .ecOK ∧ total + l.length < request then pure (.inl (target, total + l.length))
    else pure (.inr (error, target))

/-- The loop of all `receive…` functions; `store` is what a pass does with the octets it received. -/
def receiveAll (request : Nat) (store : σ → Str → Except Fault σ) (target : σ) :
    Comp Socket Fault (SystemError × σ) :=
  .loop (receiveAllPass request store) (target, 0)

end Loop

/-! ## Integers -/

/-- An integer type of the source, with the conversions between its values and the numbers below `256 ^ width`
    that have the same bits. -/
structure IntegerType (α : Type) where
  width : Nat
  bits : α → Nat
  ofBits : Nat → α
  width_pos : 0 < width
  bits_lt : ∀ v, bits v < 256 ^ width
  ofBits_bits : ∀ v, ofBits (bits v) = v
  bits_ofBits : ∀ n, n < 256 ^ width → bits (ofBits n) = n

def uInt8 : IntegerType UInt8 where
  width := 1
  bits := UInt8.toNat
  ofBits := UInt8.ofNat
  width_pos := by decide
  bits_lt v := v.toNat_lt
  ofBits_bits _ := UInt8.ofNat_toNat
  bits_ofBits _ h := UInt8.toNat_ofNat_of_lt' h

def uInt16 : IntegerType UInt16 where
  width := 2
  bits := UInt16.toNat
  ofBits := UInt16.ofNat
  width_pos := by decide
  bits_lt v := v.toNat_lt
  ofBits_bits _ := UInt16.ofNat_toNat
  bits_ofBits _ h := UInt16.toNat_ofNat_of_lt' h

def uInt32 : IntegerType UInt32 where
  width := 4
  bits := UInt32.toNat
  ofBits := UInt32.ofNat
  width_pos := by decide
  bits_lt v := v.toNat_lt
  ofBits_bits _ := UInt32.ofNat_toNat
  bits_ofBits _ h := UInt32.toNat_ofNat_of_lt' h

def uInt64 : IntegerType UInt64 where
  width := 8
  bits := UInt64.toNat
  ofBits := UInt64.ofNat
  width_pos := by decide
  bits_lt v := v.toNat_lt
  ofBits_bits _ := UInt64.ofNat_toNat
  bits_ofBits _ h := UInt64.toNat_ofNat_of_lt' h

/-- The type with the bits of `T` whose values are read as `γ`. -/
def IntegerType.as {α γ : Type} (T : IntegerType α) (read : α → γ) (back : γ → α) (hread : ∀ v, read (back v) = v)
    (hback : ∀ v, back (read v) = v) : IntegerType γ where
  width := T.width
  bits v := T.bits (back v)
  ofBits n := read (T.ofBits n)
  width_pos := T.width_pos
  bits_lt v := T.bits_lt (back v)
  ofBits_bits v := by rw [T.ofBits_bits, hread]
  bits_ofBits n h := by rw [hback, T.bits_ofBits n h]

def int8 : IntegerType Int8 := uInt8.as UInt8.toInt8 Int8.toUInt8 (fun _ => rfl) (fun _ => rfl)

def int16 : IntegerType Int16 := uInt16.as UInt16.toInt16 Int16.toUInt16 (fun _ => rfl) (fun _ => rfl)

def int32 : IntegerType Int32 := uInt32.as UInt32.toInt32 Int32.toUInt32 (fun _ => rfl) (fun _ => rfl)

def int64 : IntegerType Int64 := uInt64.as UInt64.toInt64 Int64.toUInt64 (fun _ => rfl) (fun _ => rfl)

section Integer

variable {α : Type}

/-- The octets of a value in network order. -/
def sendInteger (T : IntegerType α) (value : α) : Str := toBytes T.width (T.bits value)

/-- The octets `l`, written to the start of the variable `t`. -/
def overlay (t l : Str) : Str := l ++ t.drop l.length

/-- The variable that receives is zero at the start; its octets are read in network order. -/
def receiveInteger (T : IntegerType α) : Comp Socket Fault (SystemError × α) := do
  let (error, t) ← receiveAll T.width (fun t l => .ok (overlay t l)) (List.replicate T.width 0)
  pure (error, if error = .ecOK then T.ofBits (ofBytes t) else T.ofBits 0)

end Integer

def sendUInt8 : UInt8 → Str := sendInteger uInt8
def sendInt8 : Int8 → Str := sendInteger int8
def sendUInt16 : UInt16 → Str := sendInteger uInt16
def sendInt16 : Int16 → Str := sendInteger int16
def sendUInt32 : UInt32 → Str := sendInteger uInt32
def sendInt32 : Int32 → Str := sendInteger int32
def sendUInt64 : UInt64 → Str := sendInteger uInt64
def sendInt64 : Int64 → Str := sendInteger int64

def receiveUInt8 : Comp Socket Fault (SystemError × UInt8) := receiveInteger uInt8
def receiveInt8 : Comp Socket Fault (SystemError × Int8) := receiveInteger int8
def receiveUInt16 : Comp Socket Fault (SystemError × UInt16) := receiveInteger uInt16
def receiveInt16 : Comp Socket Fault (SystemError × Int16) := receiveInteger int16
def receiveUInt32 : Comp Socket Fault (SystemError × UInt32) := receiveInteger uInt32
def receiveInt32 : Comp Socket Fault (SystemError × Int32) := receiveInteger int32
def receiveUInt64 : Comp Socket Fault (SystemError × UInt64) := receiveInteger uInt64
def receiveInt64 : Comp Socket Fault (SystemError × Int64) := receiveInteger int64

/-! ## Strings -/

/-- What the socket is asked for: `getBlocking()` and `getReceiveBufSize()`. -/
structure Options where
  blocking : Bool
  receiveBufSize : Nat
deriving DecidableEq, Repr

/-- The size in front, and then the octets. -/
def sendString (opts : Options) (s : Str) : Except Exn Str :=
  if opts.blocking then .ok (sendUInt64 (UInt64.ofNat s.length) ++ s) else .error .exception

/-- `buf` has `getReceiveBufSize()+1` octets. What was received and a zero octet behind it are written there,
    and it is read as a C string. -/
def appendReceived (opts : Options) (s l : Str) : Except Fault Str :=
  if l.length ≤ opts.receiveBufSize then .ok (s ++ cstr l) else .error .overrun

def receiveString (opts : Options) : Comp Socket Fault (SystemError × Str) :=
  if opts.blocking then do
    let (error, stringsize) ← receiveUInt64
    if error = .ecOK then receiveAll stringsize.toNat (appendReceived opts) [] else pure (error, [])
  else .throw (.thrown .exception)

end BaseSocket
end Dodo.Network
