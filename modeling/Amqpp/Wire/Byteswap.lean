import Amqpp.Wire.Uint

/-!
# The variants of byteswap

byteswap.h chooses by the byte order of the host and by the compiler: the word itself on a big-endian host, on a
little-endian one a built-in, `swab`, or shifts and masks. `write_uintN` and `read_uintN` copy the word as it lies in the
memory of the host. `Build.memory_swap` and `Build.swap_word` say that order and swap cancel out: what is on the wire does
not depend on the build.
-/

namespace Amqpp

/-! ## Builds -/

/-- The branches of byteswap.h on a little-endian host. -/
inductive Compiler where
  /-- `_MSC_VER`. -/
  | msvc
  /-- `__GNUC__`. -/
  | gnuc
  | other
  deriving DecidableEq, Repr

/-- The branches of byteswap.h. -/
inductive Build where
  /-- `BOOST_BIG_ENDIAN`. -/
  | bigEndian
  /-- `BOOST_LITTLE_ENDIAN`. -/
  | littleEndian (compiler : Compiler)
  deriving DecidableEq, Repr

namespace Build

/-- An `n`-byte word as it lies in memory. -/
def memory : Build → Nat → Nat → List UInt8
  | bigEndian, n, v => (Bytes.ofNat n v).reverse
  | littleEndian _, n, v => Bytes.ofNat n v

/-- The word that lies in memory as these bytes. -/
def word : Build → List UInt8 → Nat
  | bigEndian, b => Bytes.toNat b.reverse
  | littleEndian _, b => Bytes.toNat b

end Build

/-! ## byteswap.h -/

/-- `swab`: the bytes of each pair change places. -/
def swab : List UInt8 → List UInt8
  | a :: b :: s => b :: a :: swab s
  | _ => []

/-- The shifts and masks for 16 bits. The operands are promoted to `int`, which holds them without a sign. -/
def byteswapPortable16 (v : UInt16) : UInt16 :=
  (((0x00FF &&& v.toUInt32) <<< 8) |||
   ((0xFF00 &&& v.toUInt32) >>> 8)).toUInt16

def byteswapPortable32 (v : UInt32) : UInt32 :=
  ((0x000000FF &&& v) <<< 24) |||
  ((0x0000FF00 &&& v) <<< 8) |||
  ((0x00FF0000 &&& v) >>> 8) |||
  ((0xFF000000 &&& v) >>> 24)

def byteswapPortable64 (v : UInt64) : UInt64 :=
  ((0x00000000000000FF &&& v) <<< 56) |||
  ((0x000000000000FF00 &&& v) <<< 40) |||
  ((0x0000000000FF0000 &&& v) <<< 24) |||
  ((0x00000000FF000000 &&& v) <<< 8) |||
  ((0x000000FF00000000 &&& v) >>> 8) |||
  ((0x0000FF0000000000 &&& v) >>> 24) |||
  ((0x00FF000000000000 &&& v) >>> 40) |||
  ((0xFF00000000000000 &&& v) >>> 56)

namespace Build

/-- `byteswap(uint16_t)`: `_byteswap_ushort`, `swab` over the two bytes in memory, or the shifts and masks. -/
def byteswap16 : Build → UInt16 → UInt16
  | bigEndian, v => v
  | littleEndian .msvc, v => UInt16.ofNat (Bytes.swap 2 v.toNat)
  | littleEndian .gnuc, v => UInt16.ofNat (Bytes.toNat (swab (Bytes.ofNat 2 v.toNat)))
  | littleEndian .other, v => byteswapPortable16 v

/-- `byteswap(uint32_t)`: `_byteswap_ulong`, `__builtin_bswap32`, or the shifts and masks. -/
def byteswap32 : Build → UInt32 → UInt32
  | bigEndian, v => v
  | littleEndian .msvc, v => UInt32.ofNat (Bytes.swap 4 v.toNat)
  | littleEndian .gnuc, v => UInt32.ofNat (Bytes.swap 4 v.toNat)
  | littleEndian .other, v => byteswapPortable32 v

/-- `byteswap(uint64_t)`: `_byteswap_uint64`, `__builtin_bswap64`, or the shifts and masks. -/
def byteswap64 : Build → UInt64 → UInt64
  | bigEndian, v => v
  | littleEndian .msvc, v => UInt64.ofNat (Bytes.swap 8 v.toNat)
  | littleEndian .gnuc, v => UInt64.ofNat (Bytes.swap 8 v.toNat)
  | littleEndian .other, v => byteswapPortable64 v

/-! ## wireformat.h -/

variable (h : Build)

def writeUint16 (i : UInt16) : List UInt8 := h.memory 2 (h.byteswap16 i).toNat
def writeUint32 (i : UInt32) : List UInt8 := h.memory 4 (h.byteswap32 i).toNat
def writeUint64 (i : UInt64) : List UInt8 := h.memory 8 (h.byteswap64 i).toNat

def readUint16 : Reader Exception UInt16 := do
  let b ← Reader.exactly 2 (.runtimeError "Unable to read uint16")
  return h.byteswap16 (UInt16.ofNat (h.word b))
def readUint32 : Reader Exception UInt32 := do
  let b ← Reader.exactly 4 (.runtimeError "Unable to read uint32")
  return h.byteswap32 (UInt32.ofNat (h.word b))
def readUint64 : Reader Exception UInt64 := do
  let b ← Reader.exactly 8 (.runtimeError "Unable to read uint64")
  return h.byteswap64 (UInt64.ofNat (h.word b))

end Build

/-! ## The shifts and masks reverse the bytes -/

/-- A byte that is masked and shifted up, in a word of 32 bits: it moves from bit `k` to bit `k + s`. -/
theorem toNat_mask_shiftLeft32 (v mask shift : UInt32) (k s : Nat) (hmask : mask.toNat = 255 <<< k) (hshift : shift.toNat = s)
    (hle : k + s + 8 ≤ 32) : ((mask &&& v) <<< shift).toNat = (v.toNat >>> k &&& 255) <<< (k + s) := by
  have hlt := Nat.lt_of_lt_of_le (Bytes.lane_lt (v.toNat >>> k) (k + s)) (Nat.pow_le_pow_right (by decide) hle)
  rw [UInt32.toNat_shiftLeft, UInt32.toNat_and, hmask, hshift, Nat.mod_eq_of_lt (show s < 32 by omega), Bytes.mask_shiftLeft,
    Nat.mod_eq_of_lt hlt]

/-- A byte that is masked and shifted down: it moves from bit `k + s` to bit `k`. -/
theorem toNat_mask_shiftRight32 (v mask shift : UInt32) (k s : Nat) (hmask : mask.toNat = 255 <<< (k + s))
    (hshift : shift.toNat = s) (hlt : s < 32) : ((mask &&& v) >>> shift).toNat = (v.toNat >>> (k + s) &&& 255) <<< k := by
  rw [UInt32.toNat_shiftRight, UInt32.toNat_and, hmask, hshift, Nat.mod_eq_of_lt hlt, Bytes.mask_shiftRight]

theorem toNat_mask_shiftLeft64 (v mask shift : UInt64) (k s : Nat) (hmask : mask.toNat = 255 <<< k) (hshift : shift.toNat = s)
    (hle : k + s + 8 ≤ 64) : ((mask &&& v) <<< shift).toNat = (v.toNat >>> k &&& 255) <<< (k + s) := by
  have hlt := Nat.lt_of_lt_of_le (Bytes.lane_lt (v.toNat >>> k) (k + s)) (Nat.pow_le_pow_right (by decide) hle)
  rw [UInt64.toNat_shiftLeft, UInt64.toNat_and, hmask, hshift, Nat.mod_eq_of_lt (show s < 64 by omega), Bytes.mask_shiftLeft,
    Nat.mod_eq_of_lt hlt]

theorem toNat_mask_shiftRight64 (v mask shift : UInt64) (k s : Nat) (hmask : mask.toNat = 255 <<< (k + s))
    (hshift : shift.toNat = s) (hlt : s < 64) : ((mask &&& v) >>> shift).toNat = (v.toNat >>> (k + s) &&& 255) <<< k := by
  rw [UInt64.toNat_shiftRight, UInt64.toNat_and, hmask, hshift, Nat.mod_eq_of_lt hlt, Bytes.mask_shiftRight]

/-- The bytes in the other order, lane by lane. -/
theorem swap_two (v : Nat) : Bytes.swap 2 v = (v >>> 0 &&& 255) <<< 8 ||| (v >>> 8 &&& 255) <<< 0 := by
  simp only [Bytes.swap_succ, Bytes.swap_zero, ← Nat.shiftRight_add, Nat.or_zero, Nat.shiftRight_zero]

theorem swap_four (v : Nat) : Bytes.swap 4 v =
    (v >>> 0 &&& 255) <<< 24 ||| (v >>> 8 &&& 255) <<< 16 ||| (v >>> 16 &&& 255) <<< 8 ||| (v >>> 24 &&& 255) <<< 0 := by
  simp only [Bytes.swap_succ, Bytes.swap_zero, ← Nat.shiftRight_add, Nat.or_zero, Nat.shiftRight_zero, Nat.or_assoc]

theorem swap_eight (v : Nat) : Bytes.swap 8 v =
    (v >>> 0 &&& 255) <<< 56 ||| (v >>> 8 &&& 255) <<< 48 ||| (v >>> 16 &&& 255) <<< 40 ||| (v >>> 24 &&& 255) <<< 32 |||
    (v >>> 32 &&& 255) <<< 24 ||| (v >>> 40 &&& 255) <<< 16 ||| (v >>> 48 &&& 255) <<< 8 ||| (v >>> 56 &&& 255) <<< 0 := by
  simp only [Bytes.swap_succ, Bytes.swap_zero, ← Nat.shiftRight_add, Nat.or_zero, Nat.shiftRight_zero, Nat.or_assoc]

theorem toNat_byteswapPortable16 (v : UInt16) : (byteswapPortable16 v).toNat = Bytes.swap 2 v.toNat := by
  have hlt := Bytes.swap_lt 2 v.toNat
  have hor : (((0x00FF &&& v.toUInt32) <<< 8) ||| ((0xFF00 &&& v.toUInt32) >>> 8)).toNat = Bytes.swap 2 v.toNat := by
    rw [UInt32.toNat_or, toNat_mask_shiftLeft32 v.toUInt32 0x00FF 8 0 8 rfl rfl (by decide),
      toNat_mask_shiftRight32 v.toUInt32 0xFF00 8 0 8 rfl rfl (by decide), UInt16.toNat_toUInt32, swap_two]
  rw [byteswapPortable16, UInt32.toNat_toUInt16, hor]
  exact Nat.mod_eq_of_lt hlt

theorem toNat_byteswapPortable32 (v : UInt32) : (byteswapPortable32 v).toNat = Bytes.swap 4 v.toNat := by
  rw [byteswapPortable32, UInt32.toNat_or, UInt32.toNat_or, UInt32.toNat_or,
    toNat_mask_shiftLeft32 v 0x000000FF 24 0 24 rfl rfl (by decide),
    toNat_mask_shiftLeft32 v 0x0000FF00 8 8 8 rfl rfl (by decide),
    toNat_mask_shiftRight32 v 0x00FF0000 8 8 8 rfl rfl (by decide),
    toNat_mask_shiftRight32 v 0xFF000000 24 0 24 rfl rfl (by decide), swap_four]

theorem toNat_byteswapPortable64 (v : UInt64) : (byteswapPortable64 v).toNat = Bytes.swap 8 v.toNat := by
  rw [byteswapPortable64, UInt64.toNat_or, UInt64.toNat_or, UInt64.toNat_or, UInt64.toNat_or, UInt64.toNat_or,
    UInt64.toNat_or, UInt64.toNat_or,
    toNat_mask_shiftLeft64 v 0x00000000000000FF 56 0 56 rfl rfl (by decide),
    toNat_mask_shiftLeft64 v 0x000000000000FF00 40 8 40 rfl rfl (by decide),
    toNat_mask_shiftLeft64 v 0x0000000000FF0000 24 16 24 rfl rfl (by decide),
    toNat_mask_shiftLeft64 v 0x00000000FF000000 8 24 8 rfl rfl (by decide),
    toNat_mask_shiftRight64 v 0x000000FF00000000 8 24 8 rfl rfl (by decide),
    toNat_mask_shiftRight64 v 0x0000FF0000000000 24 16 24 rfl rfl (by decide),
    toNat_mask_shiftRight64 v 0x00FF000000000000 40 8 40 rfl rfl (by decide),
    toNat_mask_shiftRight64 v 0xFF00000000000000 56 0 56 rfl rfl (by decide), swap_eight]

/-! ## Every build -/

namespace Build

/-- What `byteswap` does to an `n`-byte word. -/
def swap : Build → Nat → Nat → Nat
  | bigEndian, _, v => v
  | littleEndian _, n, v => Bytes.swap n v

/-- A swapped word lies in memory with its most significant byte first. -/
theorem memory_swap (h : Build) (n v : Nat) : h.memory n (h.swap n v) = writeUint n v := by
  rw [writeUint_eq]
  cases h with
  | bigEndian => rfl
  | littleEndian c => exact Bytes.ofNat_swap n v

/-- The word that lies in memory as these bytes fits, and swapped it has the first of them as its most significant byte. -/
theorem swap_word (h : Build) {n : Nat} {b : List UInt8} (hb : b.length = n) :
    h.word b < 256 ^ n ∧ h.swap n (h.word b) = byteswap n (Bytes.toNat b) := by
  obtain rfl := hb
  cases h with
  | bigEndian =>
    have hlt := Bytes.toNat_lt b.reverse
    rw [List.length_reverse] at hlt
    refine ⟨hlt, ?_⟩
    rw [byteswap, Bytes.swap, Bytes.ofNat_toNat]
    rfl
  | littleEndian c => exact ⟨Bytes.toNat_lt b, rfl⟩

theorem toNat_byteswap16 (h : Build) (v : UInt16) : (h.byteswap16 v).toNat = h.swap 2 v.toNat := by
  match h with
  | bigEndian => rfl
  | littleEndian .msvc => exact Nat.mod_eq_of_lt (Bytes.swap_lt 2 v.toNat)
  | littleEndian .gnuc => exact Nat.mod_eq_of_lt (Bytes.swap_lt 2 v.toNat)
  | littleEndian .other => exact toNat_byteswapPortable16 v

theorem toNat_byteswap32 (h : Build) (v : UInt32) : (h.byteswap32 v).toNat = h.swap 4 v.toNat := by
  match h with
  | bigEndian => rfl
  | littleEndian .msvc => exact Nat.mod_eq_of_lt (Bytes.swap_lt 4 v.toNat)
  | littleEndian .gnuc => exact Nat.mod_eq_of_lt (Bytes.swap_lt 4 v.toNat)
  | littleEndian .other => exact toNat_byteswapPortable32 v

theorem toNat_byteswap64 (h : Build) (v : UInt64) : (h.byteswap64 v).toNat = h.swap 8 v.toNat := by
  match h with
  | bigEndian => rfl
  | littleEndian .msvc => exact Nat.mod_eq_of_lt (Bytes.swap_lt 8 v.toNat)
  | littleEndian .gnuc => exact Nat.mod_eq_of_lt (Bytes.swap_lt 8 v.toNat)
  | littleEndian .other => exact toNat_byteswapPortable64 v

/-- Every build writes what the others write. -/
theorem writeUint16_eq (h : Build) (i : UInt16) : h.writeUint16 i = Amqpp.writeUint16 i := by
  rw [writeUint16, toNat_byteswap16, memory_swap, Amqpp.writeUint16]

theorem writeUint32_eq (h : Build) (i : UInt32) : h.writeUint32 i = Amqpp.writeUint32 i := by
  rw [writeUint32, toNat_byteswap32, memory_swap, Amqpp.writeUint32]

theorem writeUint64_eq (h : Build) (i : UInt64) : h.writeUint64 i = Amqpp.writeUint64 i := by
  rw [writeUint64, toNat_byteswap64, memory_swap, Amqpp.writeUint64]

/-- The word made of the bytes that were read, swapped, is the one every build makes of them. -/
theorem byteswap16_word (h : Build) {b : List UInt8} (hb : b.length = 2) :
    h.byteswap16 (UInt16.ofNat (h.word b)) = UInt16.ofNat (byteswap 2 (Bytes.toNat b)) := by
  obtain ⟨hlt, hword⟩ := h.swap_word hb
  rw [← UInt16.toNat_inj, toNat_byteswap16, UInt16.toNat_ofNat_of_lt' hlt, hword]
  exact (UInt16.toNat_ofNat_of_lt' (Bytes.swap_lt 2 _)).symm

theorem byteswap32_word (h : Build) {b : List UInt8} (hb : b.length = 4) :
    h.byteswap32 (UInt32.ofNat (h.word b)) = UInt32.ofNat (byteswap 4 (Bytes.toNat b)) := by
  obtain ⟨hlt, hword⟩ := h.swap_word hb
  rw [← UInt32.toNat_inj, toNat_byteswap32, UInt32.toNat_ofNat_of_lt' hlt, hword]
  exact (UInt32.toNat_ofNat_of_lt' (Bytes.swap_lt 4 _)).symm

theorem byteswap64_word (h : Build) {b : List UInt8} (hb : b.length = 8) :
    h.byteswap64 (UInt64.ofNat (h.word b)) = UInt64.ofNat (byteswap 8 (Bytes.toNat b)) := by
  obtain ⟨hlt, hword⟩ := h.swap_word hb
  rw [← UInt64.toNat_inj, toNat_byteswap64, UInt64.toNat_ofNat_of_lt' hlt, hword]
  exact (UInt64.toNat_ofNat_of_lt' (Bytes.swap_lt 8 _)).symm

/-- Two readers of a word that make the same of every `n` bytes. -/
theorem exactly_congr {α : Type} {n : Nat} {e : Exception} {f g : List UInt8 → α} (hfg : ∀ b, b.length = n → f b = g b) :
    (Reader.exactly n e >>= fun b => pure (f b)) = Reader.exactly n e >>= fun b => (pure (g b) : Reader Exception α) := by
  funext s
  cases hs : Reader.exactly n e s with
  | error e' => rw [Reader.bind_of_error hs, Reader.bind_of_error hs]
  | ok r => rw [Reader.bind_of_ok hs, Reader.bind_of_ok hs, hfg r.1 (Reader.length_of_exactly hs)]

/-- Every build reads what the others read. -/
theorem readUint16_eq (h : Build) : h.readUint16 = Amqpp.readUint16 := by
  rw [readUint16, Amqpp.readUint16, readUint, bind_assoc]
  exact exactly_congr fun _ => h.byteswap16_word

theorem readUint32_eq (h : Build) : h.readUint32 = Amqpp.readUint32 := by
  rw [readUint32, Amqpp.readUint32, readUint, bind_assoc]
  exact exactly_congr fun _ => h.byteswap32_word

theorem readUint64_eq (h : Build) : h.readUint64 = Amqpp.readUint64 := by
  rw [readUint64, Amqpp.readUint64, readUint, bind_assoc]
  exact exactly_congr fun _ => h.byteswap64_word

end Build

end Amqpp
