import Mathlib.Algebra.Ring.Nat
import Mathlib.Data.Nat.Log

/-!
# Conversion of a float to a double

`read_field_value` reads the bits of a double, takes the first four bytes of the word for a float, and converts that to a
double. On a little-endian host, which is what the model describes here, these four bytes are the low half of the word. Floats
and doubles are bit patterns: a sign, 8 and 23 bits of exponent and fraction for a float, 11 and 52 for a double.
-/

namespace Amqpp

/-- The conversion of a float to a double, exact for every finite float. A signaling NaN becomes quiet. -/
def floatToDouble (f : UInt32) : UInt64 :=
  let sign := f.toNat / 2 ^ 31
  let exp := f.toNat / 2 ^ 23 % 2 ^ 8
  let frac := f.toNat % 2 ^ 23
  let magnitude :=
    if exp = 255 then
      if frac = 0 then 2047 * 2 ^ 52
      else 2047 * 2 ^ 52 + (if frac < 2 ^ 22 then frac + 2 ^ 22 else frac) * 2 ^ 29
    else if exp = 0 then
      -- A subnormal float is `frac * 2 ^ (-149)`; as a double it is normal.
      if frac = 0 then 0 else (874 + Nat.log2 frac) * 2 ^ 52 + (frac - 2 ^ Nat.log2 frac) * 2 ^ (52 - Nat.log2 frac)
    else (exp + 896) * 2 ^ 52 + frac * 2 ^ 29
  UInt64.ofNat (sign * 2 ^ 63 + magnitude)

example : floatToDouble 0x3F800000 = 0x3FF0000000000000 := by decide

/-- The fraction of a float is 29 bits shorter than that of a double. -/
theorem floatToDouble_mod (f : UInt32) : (floatToDouble f).toNat % 2 ^ 29 = 0 := by
  have hlog : Nat.log2 (f.toNat % 2 ^ 23) ≤ 22 := by
    by_cases h0 : f.toNat % 2 ^ 23 = 0
    · rw [h0]
      decide
    · have := (Nat.log2_lt h0).mpr (Nat.mod_lt f.toNat (show 0 < 2 ^ 23 by decide))
      omega
  have hpow : 2 ^ (52 - Nat.log2 (f.toNat % 2 ^ 23)) = 2 ^ (23 - Nat.log2 (f.toNat % 2 ^ 23)) * 2 ^ 29 := by
    rw [← Nat.pow_add]
    congr 1
    omega
  unfold floatToDouble
  simp only [hpow, ← Nat.mul_assoc]
  generalize (f.toNat % 2 ^ 23 - 2 ^ Nat.log2 (f.toNat % 2 ^ 23)) * 2 ^ (23 - Nat.log2 (f.toNat % 2 ^ 23)) = x
  rw [UInt64.toNat_ofNat']
  split_ifs <;> omega

/-- Reading back the low half of a double as a float gives the double only when it is `+0.0`. -/
theorem floatToDouble_toUInt32_eq_iff (b : UInt64) : floatToDouble b.toUInt32 = b ↔ b = 0 := by
  constructor
  · intro h
    have hmod := floatToDouble_mod b.toUInt32
    rw [h] at hmod
    have hlow : b.toUInt32.toNat = b.toNat % 2 ^ 32 := UInt64.toNat_toUInt32 b
    -- The low half is a multiple of `2 ^ 29` below `2 ^ 32`: one of eight words, and only zero is mapped to itself.
    have hcases : b.toUInt32 = 0 ∨ b.toUInt32 = 0x20000000 ∨ b.toUInt32 = 0x40000000 ∨ b.toUInt32 = 0x60000000 ∨
        b.toUInt32 = 0x80000000 ∨ b.toUInt32 = 0xA0000000 ∨ b.toUInt32 = 0xC0000000 ∨ b.toUInt32 = 0xE0000000 := by
      simp only [← UInt32.toNat_inj, hlow]
      change b.toNat % 2 ^ 32 = 0 ∨ b.toNat % 2 ^ 32 = 0x20000000 ∨ b.toNat % 2 ^ 32 = 0x40000000 ∨
        b.toNat % 2 ^ 32 = 0x60000000 ∨ b.toNat % 2 ^ 32 = 0x80000000 ∨ b.toNat % 2 ^ 32 = 0xA0000000 ∨
        b.toNat % 2 ^ 32 = 0xC0000000 ∨ b.toNat % 2 ^ 32 = 0xE0000000
      omega
    rcases hcases with hb | hb | hb | hb | hb | hb | hb | hb
    · rw [hb] at h
      exact h.symm.trans (by decide)
    all_goals
      have hfix : (floatToDouble b.toUInt32).toUInt32 = b.toUInt32 := congrArg UInt64.toUInt32 h
      rw [hb] at hfix
      exact absurd hfix (by decide)
  · rintro rfl
    decide

end Amqpp
