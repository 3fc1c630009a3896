import Mathlib.Algebra.Ring.Nat
import Mathlib.Data.List.Basic

/-!
# Numbers as byte strings

The base-256 digits of a number, least significant first, as a little-endian host lays an unsigned integer out in memory,
and the number a byte string stands for. On strings of a fixed length and numbers below the corresponding power the two are
inverse to each other, so reading the bytes in the other order is a permutation of the numbers of that width. With the bytes
as lanes of bits, that permutation moves each lane to the other end (`swap_succ`).
-/

namespace Bytes

/-- The `n` low bytes of `v`, least significant first. -/
def ofNat : Nat → Nat → List UInt8
  | 0, _ => []
  | n + 1, v => UInt8.ofNat v :: ofNat n (v / 256)

/-- The number whose bytes are these, least significant first. -/
def toNat : List UInt8 → Nat
  | [] => 0
  | b :: bs => b.toNat + 256 * toNat bs

@[simp] theorem length_ofNat (n v : Nat) : (ofNat n v).length = n := by
  induction n generalizing v with
  | zero => rfl
  | succ n ih => simp [ofNat, ih]

theorem toNat_lt (bs : List UInt8) : toNat bs < 256 ^ bs.length := by
  induction bs with
  | nil => simp [toNat]
  | cons b bs ih =>
    have hb : b.toNat < 256 := b.toNat_lt
    rw [toNat, List.length_cons, Nat.pow_succ]
    omega

/-- The bytes of a number stand for it, up to the bytes that are cut off. -/
theorem toNat_ofNat (n v : Nat) : toNat (ofNat n v) = v % 256 ^ n := by
  induction n generalizing v with
  | zero => simp [ofNat, toNat, Nat.mod_one]
  | succ n ih =>
    have hpow : 256 ^ (n + 1) = 256 * 256 ^ n := by rw [Nat.pow_succ, Nat.mul_comm]
    rw [ofNat, toNat, ih, UInt8.toNat_ofNat', hpow, Nat.mod_mul]

/-- A number that fits in `n` bytes is recovered from them. -/
theorem toNat_ofNat_of_lt {n v : Nat} (h : v < 256 ^ n) : toNat (ofNat n v) = v := by
  rw [toNat_ofNat, Nat.mod_eq_of_lt h]

/-- A byte string is the bytes of the number it stands for. -/
theorem ofNat_toNat (bs : List UInt8) : ofNat bs.length (toNat bs) = bs := by
  induction bs with
  | nil => rfl
  | cons b bs ih =>
    have hb : b.toNat < 256 := b.toNat_lt
    have hdiv : (b.toNat + 256 * toNat bs) / 256 = toNat bs := by omega
    have hmod : UInt8.ofNat (b.toNat + 256 * toNat bs) = b := by
      apply UInt8.toNat_inj.mp
      rw [UInt8.toNat_ofNat']
      omega
    rw [List.length_cons, ofNat, toNat, hdiv, hmod, ih]

/-- The number with the same `n` bytes in the other order. -/
def swap (n v : Nat) : Nat := toNat (ofNat n v).reverse

theorem swap_lt (n v : Nat) : swap n v < 256 ^ n := by
  have := toNat_lt (ofNat n v).reverse
  rwa [List.length_reverse, length_ofNat] at this

/-- The bytes of the swapped number are the bytes in the other order. -/
theorem ofNat_swap (n v : Nat) : ofNat n (swap n v) = (ofNat n v).reverse := by
  have := ofNat_toNat (ofNat n v).reverse
  rwa [List.length_reverse, length_ofNat] at this

/-- Swapping twice changes nothing. -/
theorem swap_swap {n v : Nat} (h : v < 256 ^ n) : swap n (swap n v) = v := by
  rw [swap, ofNat_swap, List.reverse_reverse, toNat_ofNat_of_lt h]

/-! ## Bytes in their lanes -/

/-- A byte behind the others is a lane above them. -/
theorem toNat_append_singleton (bs : List UInt8) (b : UInt8) :
    toNat (bs ++ [b]) = toNat bs ||| b.toNat <<< (8 * bs.length) := by
  have hlt : toNat bs < 2 ^ (8 * bs.length) := by
    rw [Nat.pow_mul]
    exact toNat_lt bs
  have hsum : toNat (bs ++ [b]) = b.toNat <<< (8 * bs.length) + toNat bs := by
    clear hlt
    induction bs with
    | nil => simp [toNat]
    | cons c bs ih =>
      have hpow : 2 ^ (8 * (bs.length + 1)) = 256 * 2 ^ (8 * bs.length) := by rw [Nat.mul_succ, Nat.pow_add, Nat.mul_comm]
      rw [Nat.shiftLeft_eq] at ih ⊢
      rw [List.cons_append, toNat, toNat, ih, List.length_cons, hpow, Nat.mul_add, Nat.mul_left_comm]
      omega
  rw [hsum, Nat.shiftLeft_add_eq_or_of_lt hlt, Nat.or_comm]

theorem swap_zero (v : Nat) : swap 0 v = 0 := rfl

/-- The lowest byte goes to the top, and the others are swapped below it. -/
theorem swap_succ (n v : Nat) : swap (n + 1) v = (v &&& 255) <<< (8 * n) ||| swap n (v >>> 8) := by
  have hbyte : (UInt8.ofNat v).toNat = v &&& 255 := by
    rw [UInt8.toNat_ofNat', Nat.and_two_pow_sub_one_eq_mod v 8]
  rw [swap, ofNat, List.reverse_cons, toNat_append_singleton, hbyte, List.length_reverse, length_ofNat,
    Nat.shiftRight_eq_div_pow, Nat.or_comm]
  rfl

/-- A mask on the byte at bit `k` takes that byte out and leaves it in its lane. -/
theorem mask_and (k v : Nat) : 255 <<< k &&& v = (v >>> k &&& 255) <<< k := by
  refine Nat.eq_of_testBit_eq fun i => ?_
  rw [Nat.testBit_and, Nat.testBit_shiftLeft, Nat.testBit_shiftLeft, Nat.testBit_and, Nat.testBit_shiftRight]
  by_cases h : k ≤ i
  · rw [Nat.add_sub_cancel' h, Bool.and_assoc, Bool.and_comm (Nat.testBit 255 _)]
  · simp [h]

theorem mask_shiftLeft (k s v : Nat) : (255 <<< k &&& v) <<< s = (v >>> k &&& 255) <<< (k + s) := by
  rw [mask_and, ← Nat.shiftLeft_add]

theorem mask_shiftRight (k s v : Nat) : (255 <<< (k + s) &&& v) >>> s = (v >>> (k + s) &&& 255) <<< k := by
  rw [mask_and, Nat.shiftLeft_add, Nat.shiftLeft_shiftRight]

/-- A byte in its lane is below the next one. -/
theorem lane_lt (v k : Nat) : (v &&& 255) <<< k < 2 ^ (k + 8) := by
  have hlt : v &&& 255 < 2 ^ 8 := Nat.and_lt_two_pow v (by decide)
  rw [Nat.shiftLeft_eq, Nat.pow_add, Nat.mul_comm]
  exact Nat.mul_lt_mul_of_pos_left hlt (Nat.two_pow_pos k)

end Bytes
