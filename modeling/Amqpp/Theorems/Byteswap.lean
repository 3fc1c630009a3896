import Amqpp.Wire.Byteswap

/-!
# One order on the wire

The shifts and masks of byteswap.h reverse the bytes of a word, as the built-ins do. With or without the swap, a word goes
out with its most significant byte first, and every build reads back what any build wrote.
-/

namespace Amqpp

/-- The variants of `byteswap` for words of `n` bytes, and the functions of wireformat.h that use them. -/
structure SwapVariants (n : Nat) (α : Type) where
  toNat : α → Nat
  portable : α → α
  byteswap : Build → α → α
  write : Build → α → List UInt8
  read : Build → Reader Exception α

/-- The variants are one function, which reverses the bytes and undoes itself, and the wire does not show which was used. -/
structure SwapVariants.Agree {n : Nat} {α : Type} (S : SwapVariants n α) : Prop where
  /-- The bytes of the swapped word are those of the word in the other order. -/
  reverses : ∀ v, Bytes.ofNat n (S.toNat (S.portable v)) = (Bytes.ofNat n (S.toNat v)).reverse
  /-- On a little-endian host every compiler's variant is this function. -/
  variants : ∀ compiler v, S.byteswap (.littleEndian compiler) v = S.portable v
  involutive : ∀ v, S.portable (S.portable v) = v
  /-- The most significant byte goes first, on either kind of host. -/
  write_eq : ∀ h v, S.write h v = (Bytes.ofNat n (S.toNat v)).reverse
  /-- What one peer wrote the other reads, whatever follows. -/
  read_write : ∀ h h' v rest, S.read h' (.ofString (S.write h v ++ rest)) = .ok (v, .ofString rest)

def swapVariants16 : SwapVariants 2 UInt16 :=
  ⟨UInt16.toNat, byteswapPortable16, Build.byteswap16, Build.writeUint16, Build.readUint16⟩

def swapVariants32 : SwapVariants 4 UInt32 :=
  ⟨UInt32.toNat, byteswapPortable32, Build.byteswap32, Build.writeUint32, Build.readUint32⟩

def swapVariants64 : SwapVariants 8 UInt64 :=
  ⟨UInt64.toNat, byteswapPortable64, Build.byteswap64, Build.writeUint64, Build.readUint64⟩

namespace ByteswapAux

/-- Variants agree when they swap the word they stand for, and write and read that word. -/
theorem agree_of_swap {n : Nat} {α : Type} {S : SwapVariants n α} (hinj : ∀ u v, S.toNat u = S.toNat v → u = v)
    (hlt : ∀ v, S.toNat v < 256 ^ n) (hportable : ∀ v, S.toNat (S.portable v) = Bytes.swap n (S.toNat v))
    (hswap : ∀ h v, S.toNat (S.byteswap h v) = h.swap n (S.toNat v)) (hwrite : ∀ h v, S.write h v = writeUint n (S.toNat v))
    (hread : ∀ h v, Reader.Reads (S.read h) (writeUint n (S.toNat v)) v) : S.Agree where
  reverses v := by rw [hportable, Bytes.ofNat_swap]
  variants compiler v := hinj _ _ ((hswap _ v).trans (hportable v).symm)
  involutive v := hinj _ _ (by rw [hportable, hportable, Bytes.swap_swap (hlt v)])
  write_eq h v := by rw [hwrite, writeUint_eq]
  read_write h h' v rest := by
    rw [hwrite]
    exact hread h' v rest

end ByteswapAux

open ByteswapAux

/-- For 16, 32 and 64 bits, all variants of `byteswap` on little-endian hosts are the reversal of the bytes, which is its
own inverse. So every build writes the most significant byte first, and every build reads back what any build wrote. -/
theorem byteswap_variants_agree : swapVariants16.Agree ∧ swapVariants32.Agree ∧ swapVariants64.Agree := by
  refine ⟨?_, ?_, ?_⟩
  · refine agree_of_swap (fun _ _ => UInt16.toNat_inj.mp) UInt16.toNat_lt toNat_byteswapPortable16 Build.toNat_byteswap16
      Build.writeUint16_eq fun h v => ?_
    change Reader.Reads h.readUint16 _ _
    rw [h.readUint16_eq]
    exact reads_readUint16 v
  · refine agree_of_swap (fun _ _ => UInt32.toNat_inj.mp) UInt32.toNat_lt toNat_byteswapPortable32 Build.toNat_byteswap32
      Build.writeUint32_eq fun h v => ?_
    change Reader.Reads h.readUint32 _ _
    rw [h.readUint32_eq]
    exact reads_readUint32 v
  · refine agree_of_swap (fun _ _ => UInt64.toNat_inj.mp) UInt64.toNat_lt toNat_byteswapPortable64 Build.toNat_byteswap64
      Build.writeUint64_eq fun h v => ?_
    change Reader.Reads h.readUint64 _ _
    rw [h.readUint64_eq]
    exact reads_readUint64 v

/-- The word of the test: its bytes in memory, as it stands and swapped. -/
example : Bytes.ofNat 4 (0x41424344 : UInt32).toNat = [0x44, 0x43, 0x42, 0x41] ∧
    Bytes.ofNat 4 (byteswapPortable32 0x41424344).toNat = [0x41, 0x42, 0x43, 0x44] := by decide

end Amqpp
