import Mathlib.Init

/-!
# `Common.SystemError` — error codes and exceptions

`common::SystemError` wraps an `errno` value; the codes the modelled functions name are the constants
below (`ecOK = 0` is the absence of an error). `Exn` lists the C++ exceptions these functions let
escape.
-/

namespace Dodo.Common

/-- `common::SystemError`: a Linux error number. -/
structure SystemError where
  errorcode_ : Int
deriving DecidableEq, Repr

namespace SystemError

def ecOK : SystemError := ⟨0⟩
def ecEAGAIN : SystemError := ⟨11⟩
def ecECONNABORTED : SystemError := ⟨103⟩
def ecECONNRESET : SystemError := ⟨104⟩
def ecENOTCONN : SystemError := ⟨107⟩
def ecECONNREFUSED : SystemError := ⟨111⟩

/-- True when there is no error. -/
def ok (e : SystemError) : Bool := e = ecOK

/-- No error, or only nothing to read for now. -/
def Soft (e : SystemError) : Prop := e = ecOK ∨ e = ecEAGAIN

instance (e : SystemError) : Decidable e.Soft := inferInstanceAs (Decidable (_ ∨ _))

end SystemError

/-- The exceptions that escape the modelled functions. -/
inductive Exn where
  /-- `std::out_of_range`, of `std::string::at` and `std::stoul`. -/
  | outOfRange
  /-- `std::invalid_argument`, of `std::stoul`. -/
  | invalidArgument
  /-- `dodo::common::Exception`. -/
  | exception
  /-- `dodo::common::SystemException`, with its error number. -/
  | systemException (errno : SystemError)
deriving DecidableEq, Repr

end Dodo.Common
