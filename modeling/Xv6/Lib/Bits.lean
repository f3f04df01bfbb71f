import Mathlib.Data.UInt
import Mathlib.Logic.Function.Basic

/-!
# Bits in a byte array

A byte array of fixed length as an array of bits, the least significant bit of each byte first, read
and written with masks.
-/

namespace Bits

variable {len : Nat}

/-- The mask `1 << k % 8` of a bit in its byte. -/
def mask (k : Nat) : UInt8 := UInt8.ofBitVec (1#8 <<< (k % 8))

/-- The bit with index `k`. -/
def bit (a : Fin len → UInt8) (k : Nat) : Bool :=
  if h : k / 8 < len then a ⟨k / 8, h⟩ &&& mask k != 0 else false

def setBit (a : Fin len → UInt8) (k : Nat) : Fin len → UInt8 := fun i =>
  if i.val = k / 8 then a i ||| mask k else a i

def clearBit (a : Fin len → UInt8) (k : Nat) : Fin len → UInt8 := fun i =>
  if i.val = k / 8 then a i &&& ~~~mask k else a i

/-! ## One byte -/

theorem mask_getLsbD (k i : Nat) : (mask k).toBitVec.getLsbD i = decide (i = k % 8) := by
  have hk : k % 8 < 8 := Nat.mod_lt _ (by decide)
  unfold mask
  rw [UInt8.toBitVec_ofBitVec, BitVec.getLsbD_shiftLeft, BitVec.getLsbD_one]
  by_cases hi : i = k % 8
  · simp [hi, hk]
  · have hne : i < k % 8 ∨ i - k % 8 ≠ 0 := by omega
    rcases hne with hlt | hne
    · simp [hi, hlt]
    · simp [hi, hne]

theorem and_mask (x : UInt8) (k : Nat) : (x &&& mask k != 0) = x.toBitVec.getLsbD (k % 8) := by
  have hk : k % 8 < 8 := Nat.mod_lt _ (by decide)
  rw [Bool.eq_iff_iff, bne_iff_ne, ne_eq, ← UInt8.toBitVec_inj, UInt8.toBitVec_and]
  constructor
  · intro hne
    by_contra hbit
    apply hne
    apply BitVec.eq_of_getLsbD_eq
    intro i _
    rw [BitVec.getLsbD_and, mask_getLsbD]
    by_cases hi : i = k % 8
    · subst hi
      simp [Bool.eq_false_iff.mpr hbit]
    · simp [hi]
  · intro hbit heq
    have := congrArg (fun v => v.getLsbD (k % 8)) heq
    simp [mask_getLsbD, hbit] at this

theorem or_mask_getLsbD (x : UInt8) (k i : Nat) :
    (x ||| mask k).toBitVec.getLsbD i = (x.toBitVec.getLsbD i || decide (i = k % 8)) := by
  rw [UInt8.toBitVec_or, BitVec.getLsbD_or, mask_getLsbD]

theorem and_not_mask_getLsbD (x : UInt8) (k : Nat) {i : Nat} (hi : i < 8) :
    (x &&& ~~~mask k).toBitVec.getLsbD i = (x.toBitVec.getLsbD i && !decide (i = k % 8)) := by
  rw [UInt8.toBitVec_and, BitVec.getLsbD_and, UInt8.toBitVec_not, BitVec.getLsbD_not, mask_getLsbD]
  simp [hi]

/-! ## The array -/

theorem bit_eq {a : Fin len → UInt8} {k : Nat} (h : k / 8 < len) :
    bit a k = (a ⟨k / 8, h⟩).toBitVec.getLsbD (k % 8) := by
  unfold bit
  rw [dif_pos h, and_mask]

theorem bit_setBit_self (a : Fin len → UInt8) {k : Nat} (h : k / 8 < len) :
    bit (setBit a k) k = true := by
  rw [bit_eq h]
  unfold setBit
  rw [if_pos rfl, or_mask_getLsbD]
  simp

theorem bit_setBit_of_ne (a : Fin len → UInt8) {k j : Nat} (hj : j ≠ k) :
    bit (setBit a k) j = bit a j := by
  by_cases h : j / 8 < len
  · rw [bit_eq h, bit_eq h]
    unfold setBit
    by_cases hb : j / 8 = k / 8
    · have hm : j % 8 ≠ k % 8 := by omega
      rw [if_pos hb, or_mask_getLsbD]
      simp [hm]
    · rw [if_neg hb]
  · simp [bit, h]

theorem bit_clearBit_self (a : Fin len → UInt8) (k : Nat) : bit (clearBit a k) k = false := by
  by_cases h : k / 8 < len
  · rw [bit_eq h]
    unfold clearBit
    rw [if_pos rfl, and_not_mask_getLsbD _ _ (Nat.mod_lt _ (by decide))]
    simp
  · simp [bit, h]

theorem bit_clearBit_of_ne (a : Fin len → UInt8) {k j : Nat} (hj : j ≠ k) :
    bit (clearBit a k) j = bit a j := by
  by_cases h : j / 8 < len
  · rw [bit_eq h, bit_eq h]
    unfold clearBit
    by_cases hb : j / 8 = k / 8
    · have hm : j % 8 ≠ k % 8 := by omega
      rw [if_pos hb, and_not_mask_getLsbD _ _ (Nat.mod_lt _ (by decide))]
      simp [hm]
    · rw [if_neg hb]
  · simp [bit, h]

end Bits
