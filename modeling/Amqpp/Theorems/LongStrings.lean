import Amqpp.Wire.Strings

/-!
# Long strings in chunks

`read_longstring` against one read of the announced length. After `n` passes of its loop the counter is the announced length
or `1024 * n`, whichever is less, and the string is that much of the stream: this ties the counter, the string and the
stream together at every test of the loop.
-/

namespace Amqpp

/-- The chunks a string of the announced length is read in: as many as it has full ones, and one for what is left. -/
def chunkCount (len : UInt32) : Nat := (len.toNat + 1023) / 1024

/-- `Passes len buf n readBytes s st`: on a stream over `buf`, the loop comes to its test with this counter, string and
stream after `n` passes. -/
inductive Passes (len : UInt32) (buf : List UInt8) : Nat → UInt32 → List UInt8 → IStream → Prop where
  | start : Passes len buf 0 0 [] (.ofString buf)
  | pass {n : Nat} {readBytes readBytes' : UInt32} {s s' : List UInt8} {st st' : IStream} (h : Passes len buf n readBytes s st)
      (hlt : readBytes < len) (hpass : readLongstringPass len readBytes s st = .ok ((readBytes', s'), st')) :
      Passes len buf (n + 1) readBytes' s' st'

/-- The counters at a test of the loop: nothing is read past the length, the bytes that are missing are their difference,
and the next chunk does not carry the counter over 32 bits. -/
structure CountersExact (len readBytes : UInt32) : Prop where
  le : readBytes.toNat ≤ len.toNat
  sub : (len - readBytes).toNat = len.toNat - readBytes.toNat
  add : (readBytes + toRead len readBytes).toNat = readBytes.toNat + (toRead len readBytes).toNat

namespace LongStringsAux

variable {len : UInt32} {buf : List UInt8}

theorem countersExact_of_le {readBytes : UInt32} (h : readBytes.toNat ≤ len.toNat) : CountersExact len readBytes :=
  ⟨h, toNat_len_sub h, toNat_add_toRead h⟩

/-- Below the length there is a chunk to go, and there only. -/
theorem lt_iff_lt_chunkCount {n : Nat} {readBytes : UInt32} (h : readBytes.toNat = min len.toNat (1024 * n)) :
    readBytes < len ↔ n < chunkCount len := by
  rw [UInt32.lt_iff_toNat_lt, chunkCount]
  omega

/-- The counter, the string and the stream after `n` passes. -/
theorem passes_invariant {n : Nat} {readBytes : UInt32} {s : List UInt8} {st : IStream} (h : Passes len buf n readBytes s st) :
    n ≤ chunkCount len ∧ readBytes.toNat = min len.toNat (1024 * n) ∧ readBytes.toNat ≤ buf.length ∧
      s = buf.take readBytes.toNat ∧ st = .ofString (buf.drop readBytes.toNat) := by
  induction h with
  | start => exact ⟨Nat.zero_le _, by simp, Nat.zero_le _, rfl, rfl⟩
  | @pass n readBytes readBytes' s s' st st' _ hlt hpass ih =>
    obtain ⟨-, hcount, hle, rfl, rfl⟩ := ih
    have hlen : readBytes.toNat ≤ len.toNat := by omega
    have hread := toNat_toRead hlen
    have hadd := toNat_add_toRead hlen
    rw [readLongstringPass_ofString] at hpass
    split at hpass
    · rename_i hbuf
      cases hpass
      rw [List.length_drop] at hbuf
      have hn := (lt_iff_lt_chunkCount hcount).mp hlt
      refine ⟨hn, ?_, by omega, ?_, ?_⟩
      · rw [hadd, hread, hcount]
        omega
      · rw [hadd, List.take_add]
      · rw [hadd, List.drop_drop]
    · cases hpass

/-- With bytes enough the loop gets to its last test. -/
theorem exists_passes (hlen : len.toNat ≤ buf.length) :
    ∀ n, n ≤ chunkCount len → ∃ readBytes s st, Passes len buf n readBytes s st := by
  intro n
  induction n with
  | zero => exact fun _ => ⟨_, _, _, Passes.start⟩
  | succ n ih =>
    intro hn
    obtain ⟨readBytes, s, st, h⟩ := ih (Nat.le_of_succ_le hn)
    obtain ⟨-, hcount, -, -, rfl⟩ := passes_invariant h
    have hle : readBytes.toNat ≤ len.toNat := by omega
    have hread := toNat_toRead hle
    have hpass := readLongstringPass_ofString len readBytes s (buf.drop readBytes.toNat)
    rw [if_pos (by rw [List.length_drop]; omega)] at hpass
    exact ⟨_, _, _, Passes.pass h ((lt_iff_lt_chunkCount hcount).mpr hn) hpass⟩

/-- The passes are those of `read_longstring`: what is left of its loop goes on from them. -/
theorem readLongstring_of_passes {n : Nat} {readBytes : UInt32} {s : List UInt8} {st : IStream}
    (h : Passes len buf n readBytes s st) :
    readLongstring (.ofString (writeUint32 len ++ buf)) =
      readLongstringLoop len (len.toNat / 1024 + 2 - n) readBytes s st := by
  induction h with
  | start =>
    rw [readLongstring, Reader.bind_of_ok (reads_readUint32 len buf), Reader.bind_of_ok (Reader.check_ofString _ _)]
    rfl
  | @pass n readBytes readBytes' s s' st st' h hlt hpass ih =>
    obtain ⟨hn, -⟩ := passes_invariant (Passes.pass h hlt hpass)
    unfold chunkCount at hn
    have hsucc : len.toNat / 1024 + 2 - n = (len.toNat / 1024 + 2 - (n + 1)) + 1 := by omega
    rw [ih, hsucc, readLongstringLoop_succ, if_pos hlt, Reader.bind_of_ok hpass]

/-- `read_longstring` behind its length is one read. -/
theorem readLongstring_writeUint32 (len : UInt32) (buf : List UInt8) :
    readLongstring (.ofString (writeUint32 len ++ buf)) =
      if len.toNat ≤ buf.length then .ok (buf.take len.toNat, .ofString (buf.drop len.toNat))
      else .error (.runtimeError "Failure to read longstring data") := by
  rw [readLongstring_ofString, Reader.bind_of_ok (reads_readUint32 len buf), Reader.exactly_ofString]

end LongStringsAux

open LongStringsAux

/-- `read_longstring` on any announced length and any bytes is one read of that many bytes, or throws when there are fewer.
At each test of its loop the counters are exact and the string and the rest of the stream are the bytes before and after the
counter; the loop goes on exactly until all chunks are read, and with bytes enough it gets there. What `write_longstring`
wrote, for every string of less than `2 ^ 32` bytes, is read back whatever follows it. -/
theorem longstring_chunks_exact :
    (∀ (len : UInt32) (buf : List UInt8), readLongstring (.ofString (writeUint32 len ++ buf)) =
      if len.toNat ≤ buf.length then .ok (buf.take len.toNat, .ofString (buf.drop len.toNat))
      else .error (.runtimeError "Failure to read longstring data")) ∧
    (∀ (len : UInt32) (buf : List UInt8) (n : Nat) (readBytes : UInt32) (s : List UInt8) (st : IStream),
      Passes len buf n readBytes s st →
      readLongstring (.ofString (writeUint32 len ++ buf)) =
        readLongstringLoop len (len.toNat / 1024 + 2 - n) readBytes s st ∧
      CountersExact len readBytes ∧ readBytes.toNat = min len.toNat (1024 * n) ∧ s.length = readBytes.toNat ∧
      (∃ rest, buf = s ++ rest ∧ st = .ofString rest) ∧ n ≤ chunkCount len ∧ (readBytes < len ↔ n < chunkCount len)) ∧
    (∀ (len : UInt32) (buf : List UInt8), len.toNat ≤ buf.length →
      ∀ n, n ≤ chunkCount len → ∃ readBytes s st, Passes len buf n readBytes s st) ∧
    ∀ s : List UInt8, s.length ≤ 4294967295 → ∃ bs, writeLongstring s = .ok bs ∧
      ∀ rest, readLongstring (.ofString (bs ++ rest)) = .ok (s, .ofString rest) := by
  refine ⟨readLongstring_writeUint32, ?_, fun _ _ => exists_passes, ?_⟩
  · intro len buf n readBytes s st h
    obtain ⟨hn, hcount, hle, rfl, rfl⟩ := passes_invariant h
    exact ⟨readLongstring_of_passes h, countersExact_of_le (by omega), hcount, List.length_take_of_le hle,
      ⟨_, (List.take_append_drop _ _).symm, rfl⟩, hn, lt_iff_lt_chunkCount hcount⟩
  · intro s hs
    have hlt : s.length < 2 ^ 32 := by omega
    exact ⟨_, writeLongstring_eq_ok.mpr ⟨hlt, rfl⟩, reads_readLongstring hlt⟩

/-- A string of 1025 bytes is read in two passes, the second for its last byte. -/
theorem longstring_chunks_exact_1025 :
    chunkCount 1025 = 2 ∧
    (∃ readBytes s st, Passes 1025 (List.replicate 1025 7) 2 readBytes s st ∧ readBytes = 1025) ∧
    ∃ bs, writeLongstring (List.replicate 1025 7) = .ok bs ∧
      readLongstring (.ofString (bs ++ [1])) = .ok (List.replicate 1025 7, .ofString [1]) := by
  obtain ⟨-, hpasses, hexists, hround⟩ := longstring_chunks_exact
  have hlen : (List.replicate 1025 (7 : UInt8)).length = 1025 := List.length_replicate
  obtain ⟨readBytes, s, st, h⟩ := hexists 1025 (List.replicate 1025 7) (Nat.le_of_eq hlen.symm) 2 (by decide)
  obtain ⟨bs, hbs, hread⟩ := hround (List.replicate 1025 7) (by omega)
  refine ⟨by decide, ⟨readBytes, s, st, h, ?_⟩, bs, hbs, hread [1]⟩
  exact UInt32.toNat_inj.mp (hpasses _ _ _ _ _ _ h).2.2.1

end Amqpp
