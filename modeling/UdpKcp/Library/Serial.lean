import Mathlib.Algebra.Group.Nat.Defs
import Mathlib.Algebra.Ring.Int.Defs
import Mathlib.Data.List.Basic

/-! # Serial arithmetic on 32-bit counters

Sequence numbers and clocks live on a circle of `2 ^ 32` points and are
compared through the signed reading of their difference. The comparison agrees
with the order of the integers as long as the two numbers are less than half
the circle apart; this module states that once and leaves the rest to `omega`.
-/

namespace Serial

/-- Signed reading of the wrapping difference of two counters. -/
def diff (later earlier : UInt32) : Int := (later - earlier).toBitVec.toInt

theorem diff_eq_bmod (a b : UInt32) :
    diff a b = Int.bmod ((a.toNat : Int) - b.toNat) (2 ^ 32) := by
  unfold diff
  rw [UInt32.toBitVec_sub, BitVec.toInt_sub, BitVec.toInt_eq_toNat_bmod,
    BitVec.toInt_eq_toNat_bmod, Int.bmod_sub_bmod, Int.sub_bmod_bmod]
  rfl

theorem sub_add_add (x y a : UInt32) : x + a - (y + a) = x - y := by grind

/-- Turning the circle leaves differences alone. -/
theorem diff_add_add (x y a : UInt32) : diff (x + a) (y + a) = diff x y := by
  unfold diff
  rw [sub_add_add]

/-- Within half the circle the signed difference is the integer difference. -/
theorem diff_of_near {a b : UInt32} (hlo : -(2 ^ 31) ≤ (a.toNat : Int) - b.toNat)
    (hhi : (a.toNat : Int) - b.toNat < 2 ^ 31) : diff a b = (a.toNat : Int) - b.toNat := by
  rw [diff_eq_bmod]
  exact Int.bmod_eq_of_le (by omega) (by omega)

@[simp] theorem diff_self (a : UInt32) : diff a a = 0 := by
  rw [diff_of_near (by omega) (by omega)]
  omega

theorem diff_bounds (a b : UInt32) : -(2 ^ 31) ≤ diff a b ∧ diff a b < 2 ^ 31 := by
  rw [diff_eq_bmod]
  constructor
  · have h := @Int.le_bmod ((a.toNat : Int) - b.toNat) (2 ^ 32) (by decide)
    omega
  · have h := @Int.bmod_lt ((a.toNat : Int) - b.toNat) (2 ^ 32) (by decide)
    omega

/-- Looking back is looking ahead with the sign changed, except from the far point. -/
theorem diff_flip {a b : UInt32} (h : -(2 ^ 31) < diff a b) : diff b a = -diff a b := by
  have hhi := (diff_bounds a b).2
  have hneg : b - a = -(a - b) := UInt32.neg_sub.symm
  unfold diff at *
  rw [hneg, UInt32.toBitVec_neg, BitVec.toInt_neg]
  exact Int.bmod_eq_of_le (by omega) (by omega)

/-- A point is behind what lies less than half the circle after it. -/
theorem diff_self_add {a w : UInt32} (hpos : 0 < w.toNat) (hw : w.toNat < 2 ^ 31) :
    diff a (a + w) < 0 := by
  have hsub : a + w - a = w := by
    rw [UInt32.add_comm]
    exact UInt32.add_sub_cancel w a
  have hadd : diff (a + w) a = w.toNat := by
    unfold diff
    rw [hsub]
    exact BitVec.toInt_eq_toNat_of_lt (show 2 * w.toNat < 2 ^ 32 by omega)
  have hflip : diff a (a + w) = -diff (a + w) a := diff_flip (by omega)
  omega

/-- Counters below half the circle are ordered as numbers. -/
theorem diff_of_lt_half {a b : UInt32} (ha : a.toNat < 2 ^ 31) (hb : b.toNat < 2 ^ 31) :
    diff a b = (a.toNat : Int) - b.toNat :=
  diff_of_near (by omega) (by omega)

end Serial
