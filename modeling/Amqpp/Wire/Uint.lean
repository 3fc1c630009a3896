import Amqpp.Exception
import Amqpp.Lib.Bytes
import Amqpp.Lib.IStream

/-!
# Integers on the wire

`byteswap` of byteswap.h and the `write_uintN` and `read_uintN` of wireformat.h. The host is little-endian: `o.write` and
`i.read` copy a word as it lies in memory, so a word is swapped before it is written and after it is read. The swap is the
compiler built-in (`swab` for 16 bits), which reverses the bytes of its argument. `Amqpp.Wire.Byteswap` has the other builds.
-/

namespace Amqpp

/-- `byteswap` of an `n`-byte word. -/
def byteswap (n v : Nat) : Nat := Bytes.swap n v

/-- `write_uintN`, `N = 8 * n`: swap, and write the word as it lies in memory. -/
def writeUint (n v : Nat) : List UInt8 := Bytes.ofNat n (byteswap n v)

/-- `read_uintN`, `N = 8 * n`: read the word as it lies in memory, check the stream, and swap. -/
def readUint (n : Nat) (what : String) : Reader Exception Nat := do
  let b ← Reader.exactly n (.runtimeError what)
  return byteswap n (Bytes.toNat b)

def writeUint8 (i : UInt8) : List UInt8 := [i]
def writeUint16 (i : UInt16) : List UInt8 := writeUint 2 i.toNat
def writeUint32 (i : UInt32) : List UInt8 := writeUint 4 i.toNat
def writeUint64 (i : UInt64) : List UInt8 := writeUint 8 i.toNat

def readUint8 : Reader Exception UInt8 := do
  return UInt8.ofNat (Bytes.toNat (← Reader.exactly 1 (.runtimeError "Unable to read uint8")))
def readUint16 : Reader Exception UInt16 := do return UInt16.ofNat (← readUint 2 "Unable to read uint16")
def readUint32 : Reader Exception UInt32 := do return UInt32.ofNat (← readUint 4 "Unable to read uint32")
def readUint64 : Reader Exception UInt64 := do return UInt64.ofNat (← readUint 8 "Unable to read uint64")

@[simp] theorem length_writeUint (n v : Nat) : (writeUint n v).length = n := Bytes.length_ofNat _ _
@[simp] theorem length_writeUint8 (i : UInt8) : (writeUint8 i).length = 1 := rfl
@[simp] theorem length_writeUint16 (i : UInt16) : (writeUint16 i).length = 2 := length_writeUint _ _
@[simp] theorem length_writeUint32 (i : UInt32) : (writeUint32 i).length = 4 := length_writeUint _ _
@[simp] theorem length_writeUint64 (i : UInt64) : (writeUint64 i).length = 8 := length_writeUint _ _

/-- The most significant byte goes first. -/
theorem writeUint_eq (n v : Nat) : writeUint n v = (Bytes.ofNat n v).reverse := Bytes.ofNat_swap n v

/-- `read_uintN` undoes `write_uintN`. -/
theorem reads_readUint {n v : Nat} (what : String) (h : v < 256 ^ n) : Reader.Reads (readUint n what) (writeUint n v) v := by
  have := (Reader.Reads.exactly (length_writeUint n v) (Exception.runtimeError what)).map
    (fun b => byteswap n (Bytes.toNat b))
  have hv : byteswap n (Bytes.toNat (writeUint n v)) = v := by
    rw [writeUint, byteswap, byteswap, Bytes.toNat_ofNat_of_lt (Bytes.swap_lt n v), Bytes.swap_swap h]
  rwa [hv] at this

/-- What `read_uintN` accepts are the bytes `write_uintN` writes. -/
theorem parses_readUint (n : Nat) (what : String) :
    Reader.Parses (readUint n what) (fun p v => p = writeUint n v ∧ v < 256 ^ n) := by
  refine ((Reader.Parses.exactly n (Exception.runtimeError what)).bind (fun b => Reader.Parses.pure _)).mono ?_
  rintro p v ⟨p₁, b, p₂, rfl, ⟨rfl, hlen⟩, rfl, rfl⟩
  have hlt : Bytes.toNat p₁ < 256 ^ n := hlen ▸ Bytes.toNat_lt p₁
  refine ⟨?_, Bytes.swap_lt n _⟩
  rw [List.append_nil, writeUint, byteswap, byteswap, Bytes.swap_swap hlt]
  exact hlen ▸ (Bytes.ofNat_toNat p₁).symm

/-! ## The four widths -/

theorem reads_readUint8 (i : UInt8) : Reader.Reads readUint8 (writeUint8 i) i := by
  have := (Reader.Reads.exactly (length_writeUint8 i) (Exception.runtimeError "Unable to read uint8")).map
    (fun b => UInt8.ofNat (Bytes.toNat b))
  simpa [writeUint8, Bytes.toNat, readUint8] using this

theorem reads_readUint16 (i : UInt16) : Reader.Reads readUint16 (writeUint16 i) i := by
  have := (reads_readUint "Unable to read uint16" (show i.toNat < 256 ^ 2 from i.toNat_lt)).map UInt16.ofNat
  rw [UInt16.ofNat_toNat] at this
  exact this

theorem reads_readUint32 (i : UInt32) : Reader.Reads readUint32 (writeUint32 i) i := by
  have := (reads_readUint "Unable to read uint32" (show i.toNat < 256 ^ 4 from i.toNat_lt)).map UInt32.ofNat
  rw [UInt32.ofNat_toNat] at this
  exact this

theorem reads_readUint64 (i : UInt64) : Reader.Reads readUint64 (writeUint64 i) i := by
  have := (reads_readUint "Unable to read uint64" (show i.toNat < 256 ^ 8 from i.toNat_lt)).map UInt64.ofNat
  rw [UInt64.ofNat_toNat] at this
  exact this

/-- Different words are written differently. -/
theorem writeUint16_injective : Function.Injective writeUint16 := by
  intro i j h
  have hi := reads_readUint16 i []
  rw [h, reads_readUint16 j []] at hi
  exact (congrArg Prod.fst (Except.ok.inj hi)).symm

theorem parses_readUint8 : Reader.Parses readUint8 (fun p i => p = writeUint8 i) := by
  refine ((Reader.Parses.exactly 1 (Exception.runtimeError "Unable to read uint8")).bind
    (fun b => Reader.Parses.pure _)).mono ?_
  rintro p v ⟨p₁, b, p₂, rfl, ⟨rfl, hlen⟩, rfl, rfl⟩
  obtain ⟨x, rfl⟩ := List.length_eq_one_iff.mp hlen
  simp [writeUint8, Bytes.toNat]

theorem parses_readUint16 : Reader.Parses readUint16 (fun p i => p = writeUint16 i) := by
  refine ((parses_readUint 2 "Unable to read uint16").bind (fun v => Reader.Parses.pure _)).mono ?_
  rintro p i ⟨p₁, v, p₂, rfl, ⟨rfl, hv⟩, rfl, rfl⟩
  rw [List.append_nil, writeUint16, UInt16.toNat_ofNat_of_lt' hv]

theorem parses_readUint32 : Reader.Parses readUint32 (fun p i => p = writeUint32 i) := by
  refine ((parses_readUint 4 "Unable to read uint32").bind (fun v => Reader.Parses.pure _)).mono ?_
  rintro p i ⟨p₁, v, p₂, rfl, ⟨rfl, hv⟩, rfl, rfl⟩
  rw [List.append_nil, writeUint32, UInt32.toNat_ofNat_of_lt' hv]

theorem parses_readUint64 : Reader.Parses readUint64 (fun p i => p = writeUint64 i) := by
  refine ((parses_readUint 8 "Unable to read uint64").bind (fun v => Reader.Parses.pure _)).mono ?_
  rintro p i ⟨p₁, v, p₂, rfl, ⟨rfl, hv⟩, rfl, rfl⟩
  rw [List.append_nil, writeUint64, UInt64.toNat_ofNat_of_lt' hv]

theorem local_readUint8 : Reader.Local readUint8 := .of_parses parses_readUint8 fun _ i hp => hp ▸ reads_readUint8 i
theorem local_readUint16 : Reader.Local readUint16 := .of_parses parses_readUint16 fun _ i hp => hp ▸ reads_readUint16 i
theorem local_readUint32 : Reader.Local readUint32 := .of_parses parses_readUint32 fun _ i hp => hp ▸ reads_readUint32 i
theorem local_readUint64 : Reader.Local readUint64 := .of_parses parses_readUint64 fun _ i hp => hp ▸ reads_readUint64 i

section ends

variable {n : Nat}

theorem ends_readUint8 : Reader.Ends .stuck n readUint8 := (Reader.Ends.exactly (by decide) _).map _
theorem ends_readUint16 : Reader.Ends .stuck n readUint16 := ((Reader.Ends.exactly (by decide) _).map _).map _
theorem ends_readUint32 : Reader.Ends .stuck n readUint32 := ((Reader.Ends.exactly (by decide) _).map _).map _
theorem ends_readUint64 : Reader.Ends .stuck n readUint64 := ((Reader.Ends.exactly (by decide) _).map _).map _

end ends

end Amqpp
