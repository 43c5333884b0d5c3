import Mathlib.Algebra.Group.Nat.Defs
import Mathlib.Data.List.Induction

/-!
# `Lib.NetworkOrder` — numbers as octets, most significant first

`toBytes w n` are the `w` octets of `n` in network order, `ofBytes` is the number that octets denote. Each undoes
the other, for the numbers below `256 ^ w` and the lists of `w` octets.
-/

namespace Dodo.Lib

/-- The `w` octets of `n` in network order; what does not fit is cut off. -/
def toBytes : Nat → Nat → List UInt8
  | 0, _ => []
  | w + 1, n => toBytes w (n / 256) ++ [UInt8.ofNat n]

/-- The number that octets in network order denote. -/
def ofBytes (bs : List UInt8) : Nat := bs.foldl (fun n c => 256 * n + c.toNat) 0

@[simp] theorem length_toBytes (w n : Nat) : (toBytes w n).length = w := by
  induction w generalizing n with
  | zero => rfl
  | succ w ih => simp [toBytes, ih]

theorem ofBytes_concat (bs : List UInt8) (c : UInt8) : ofBytes (bs ++ [c]) = 256 * ofBytes bs + c.toNat := by
  simp [ofBytes, List.foldl_append]

theorem ofBytes_lt (bs : List UInt8) : ofBytes bs < 256 ^ bs.length := by
  induction bs using List.reverseRecOn with
  | nil => simp [ofBytes]
  | append_singleton bs c ih =>
      have hc := c.toNat_lt
      rw [ofBytes_concat, List.length_append, List.length_singleton, Nat.pow_succ]
      omega

theorem ofBytes_toBytes {w n : Nat} (h : n < 256 ^ w) : ofBytes (toBytes w n) = n := by
  induction w generalizing n with
  | zero =>
      rw [Nat.pow_zero] at h
      simp [toBytes, ofBytes]
      omega
  | succ w ih =>
      have hdiv : n / 256 < 256 ^ w := by
        rw [Nat.pow_succ] at h
        omega
      rw [toBytes, ofBytes_concat, ih hdiv, UInt8.toNat_ofNat']
      omega

theorem toBytes_ofBytes (bs : List UInt8) : toBytes bs.length (ofBytes bs) = bs := by
  induction bs using List.reverseRecOn with
  | nil => rfl
  | append_singleton bs c ih =>
      have hc := c.toNat_lt
      rw [List.length_append, List.length_singleton, toBytes, ofBytes_concat]
      congr 1
      · rw [show (256 * ofBytes bs + c.toNat) / 256 = ofBytes bs by omega, ih]
      · congr 1
        apply UInt8.toNat_inj.mp
        rw [UInt8.toNat_ofNat']
        omega

end Dodo.Lib
