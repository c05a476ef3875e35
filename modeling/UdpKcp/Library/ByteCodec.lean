import Mathlib.Algebra.Group.Nat.Defs
import Mathlib.Data.List.Basic

/-! # Little-endian byte codecs

Base-256 digits of a natural number, least significant byte first, and their
reading back. The width is explicit on the writing side and is the length of
the byte string on the reading side, so a copy of fewer bytes than the width
reads as the number with its high bytes zero.
-/

namespace ByteCodec

abbrev Bytes := List UInt8

/-- The `width` low-order base-256 digits of `n`, least significant first. -/
def encodeLE : Nat → Nat → Bytes
  | 0, _ => []
  | width + 1, n => UInt8.ofNat n :: encodeLE width (n / 256)

def decodeLE : Bytes → Nat
  | [] => 0
  | b :: rest => b.toNat + 256 * decodeLE rest

@[simp] theorem encodeLE_length (width n : Nat) : (encodeLE width n).length = width := by
  induction width generalizing n with
  | zero => rfl
  | succ width ih => simp [encodeLE, ih]

@[simp] theorem decodeLE_nil : decodeLE [] = 0 := rfl

/-- Writing then reading recovers every number that the width can hold. -/
theorem decodeLE_encodeLE {width n : Nat} (h : n < 256 ^ width) :
    decodeLE (encodeLE width n) = n := by
  induction width generalizing n with
  | zero =>
      simp only [Nat.pow_zero] at h
      simp only [encodeLE, decodeLE]
      omega
  | succ width ih =>
      have hdiv : n / 256 < 256 ^ width := by
        rw [Nat.pow_succ] at h
        omega
      simp only [encodeLE, decodeLE, ih hdiv, UInt8.toNat_ofNat']
      omega

/-- The encoding of a number is cut off a longer string by its width. -/
theorem decodeLE_take_encodeLE {width n : Nat} (h : n < 256 ^ width) (tail : Bytes) :
    decodeLE ((encodeLE width n ++ tail).take width) = n := by
  rw [List.take_append_of_le_length (by simp)]
  rw [List.take_of_length_le (by simp), decodeLE_encodeLE h]

/-- Reading then writing at the same width recovers the bytes. -/
theorem encodeLE_decodeLE (data : Bytes) : encodeLE data.length (decodeLE data) = data := by
  induction data with
  | nil => rfl
  | cons b rest ih =>
      have hb := b.toNat_lt
      have hhead : UInt8.ofNat (b.toNat + 256 * decodeLE rest) = b := by
        apply UInt8.toNat_inj.mp
        rw [UInt8.toNat_ofNat']
        omega
      have htail : (b.toNat + 256 * decodeLE rest) / 256 = decodeLE rest := by omega
      rw [decodeLE, List.length_cons, encodeLE, hhead, htail, ih]

theorem decodeLE_lt (data : Bytes) : decodeLE data < 256 ^ data.length := by
  induction data with
  | nil => simp
  | cons b rest ih =>
      have hb := b.toNat_lt
      rw [decodeLE, List.length_cons, Nat.pow_succ]
      omega

theorem drop_encodeLE (width n : Nat) (tail : Bytes) :
    (encodeLE width n ++ tail).drop width = tail := by
  simp

end ByteCodec
