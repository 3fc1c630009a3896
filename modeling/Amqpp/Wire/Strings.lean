import Amqpp.Wire.Uint

/-!
# Strings on the wire

The short strings (one length byte) and long strings (four length bytes) of wireformat.cpp and string_utils.h. A
`std::string` is the list of its bytes. `read_longstring` reads in chunks of 1024 bytes with 32-bit counters;
`readLongstring_ofString` says it is one read of the announced length.
-/

namespace Amqpp

/-! ## string_utils.h -/

/-- `validate_shortstring`. -/
def validateShortstring (s : List UInt8) : Except Exception Unit :=
  if s.length > 255 then .error (.runtimeError "Short string is longer than 255 bytes in length")
  else if 0 ∈ s then .error (.runtimeError "Short string may not contain any embedded '\\0' characters")
  else .ok ()

/-- `validate_longstring`. -/
def validateLongstring (s : List UInt8) : Except Exception Unit :=
  if s.length > 4294967295 then .error (.runtimeError "Long string cannot be longer than UINT_MAX bytes in length")
  else .ok ()

/-- `wireformat_size_shortstring`. -/
def wireformatSizeShortstring (s : List UInt8) : UInt32 := 1 + UInt32.ofNat s.length

/-- `wireformat_size_longstring`. -/
def wireformatSizeLongstring (s : List UInt8) : UInt32 := 4 + UInt32.ofNat s.length

/-! ## wireformat.cpp -/

/-- `write_shortstring`. -/
def writeShortstring (s : List UInt8) : Except Exception (List UInt8) :=
  if s.length > 255 then .error (.logicError "AMQPP: short strings can only be 255 bytes long")
  else .ok (writeUint8 (UInt8.ofNat s.length) ++ s)

/-- `read_shortstring`. -/
def readShortstring : Reader Exception (List UInt8) := do
  let len ← readUint8
  Reader.check (.runtimeError "Failure to read short string length")
  Reader.exactly len.toNat (.runtimeError "Failure to read short string data")

/-- `write_longstring`. -/
def writeLongstring (s : List UInt8) : Except Exception (List UInt8) :=
  if s.length > 4294967295 then .error (.logicError "AMQPP: long strings can only be UINT32_MAX bytes long")
  else .ok (writeUint32 (UInt32.ofNat s.length) ++ s)

/-- The loop of `read_longstring`: `readBytes` counts the bytes gathered in `s`, and a pass reads at most `BUFFER_LENGTH`
more. -/
def readLongstringLoop (len : UInt32) : Nat → UInt32 → List UInt8 → Reader Exception (List UInt8)
  | 0, _, _ => throw .stuck
  | k + 1, readBytes, s =>
    if readBytes < len then do
      let toRead := if len - readBytes > 1024 then 1024 else len - readBytes
      let buffer ← Reader.exactly toRead.toNat (.runtimeError "Failure to read longstring data")
      readLongstringLoop len k (readBytes + toRead) (s ++ buffer)
    else return s

/-- `read_longstring`. The loop is given one pass for each chunk and one for the last test. -/
def readLongstring : Reader Exception (List UInt8) := do
  let len ← readUint32
  Reader.check (.runtimeError "Failure to read longstring length")
  readLongstringLoop len (len.toNat / 1024 + 2) 0 []

/-! ## Short strings -/

/-- What `write_shortstring` accepts, and what it writes. -/
theorem writeShortstring_eq_ok {s bs : List UInt8} :
    writeShortstring s = .ok bs ↔ s.length ≤ 255 ∧ bs = writeUint8 (UInt8.ofNat s.length) ++ s := by
  unfold writeShortstring
  split
  · rename_i h
    simp only [reduceCtorEq, false_iff, not_and]
    omega
  · rename_i h
    simp only [Except.ok.injEq]
    exact ⟨fun hb => ⟨by omega, hb.symm⟩, fun hb => hb.2.symm⟩

theorem reads_readShortstring {s : List UInt8} (h : s.length ≤ 255) :
    Reader.Reads readShortstring (writeUint8 (UInt8.ofNat s.length) ++ s) s := by
  have hlen : s.length = (UInt8.ofNat s.length).toNat := by
    rw [UInt8.toNat_ofNat_of_lt' (show s.length < 256 by omega)]
  exact (reads_readUint8 _).bind ((Reader.Reads.check _).bind (Reader.Reads.exactly hlen _))

theorem parses_readShortstring :
    Reader.Parses readShortstring (fun p s => s.length ≤ 255 ∧ p = writeUint8 (UInt8.ofNat s.length) ++ s) := by
  refine (parses_readUint8.bind fun len => (Reader.Parses.check _).bind fun _ => Reader.Parses.exactly len.toNat _).mono ?_
  rintro p s ⟨_, len, _, rfl, rfl, _, _, _, rfl, rfl, rfl, hlen⟩
  have hlt := len.toNat_lt
  exact ⟨by omega, by rw [List.nil_append, hlen, UInt8.ofNat_toNat]⟩

theorem local_readShortstring : Reader.Local readShortstring :=
  .of_parses parses_readShortstring fun _ _ hp => hp.2 ▸ reads_readShortstring hp.1

theorem ends_readShortstring {n : Nat} : Reader.Ends .stuck n readShortstring :=
  ends_readUint8.bind parses_readUint8 fun _ _ _ _ =>
    (Reader.Ends.check _).bind (Reader.Parses.check _) fun _ _ _ _ => Reader.Ends.exactly (by decide) _

/-! ## Long strings -/

/-- What `write_longstring` accepts, and what it writes. -/
theorem writeLongstring_eq_ok {s bs : List UInt8} :
    writeLongstring s = .ok bs ↔ s.length < 2 ^ 32 ∧ bs = writeUint32 (UInt32.ofNat s.length) ++ s := by
  unfold writeLongstring
  split
  · rename_i h
    simp only [reduceCtorEq, false_iff, not_and]
    omega
  · rename_i h
    simp only [Except.ok.injEq]
    exact ⟨fun hb => ⟨by omega, hb.symm⟩, fun hb => hb.2.symm⟩

/-- `to_read` in a pass of `read_longstring`. -/
def toRead (len readBytes : UInt32) : UInt32 := if len - readBytes > 1024 then 1024 else len - readBytes

/-- One pass of the loop of `read_longstring`: the counter and the string after it. -/
def readLongstringPass (len readBytes : UInt32) (s : List UInt8) : Reader Exception (UInt32 × List UInt8) := do
  let buffer ← Reader.exactly (toRead len readBytes).toNat (.runtimeError "Failure to read longstring data")
  return (readBytes + toRead len readBytes, s ++ buffer)

/-- The loop of `read_longstring` is its passes. -/
theorem readLongstringLoop_succ (len : UInt32) (k : Nat) (readBytes : UInt32) (s : List UInt8) :
    readLongstringLoop len (k + 1) readBytes s =
      if readBytes < len then readLongstringPass len readBytes s >>= fun x => readLongstringLoop len k x.1 x.2
      else return s := by
  rw [readLongstringLoop, readLongstringPass, bind_assoc]
  rfl

section toRead

variable {len readBytes : UInt32}

/-- The bytes that are missing do not underflow. -/
theorem toNat_len_sub (h : readBytes.toNat ≤ len.toNat) : (len - readBytes).toNat = len.toNat - readBytes.toNat :=
  UInt32.toNat_sub_of_le _ _ (UInt32.le_iff_toNat_le.mpr h)

theorem toNat_toRead (h : readBytes.toNat ≤ len.toNat) :
    (toRead len readBytes).toNat = min 1024 (len.toNat - readBytes.toNat) := by
  have hsub := toNat_len_sub h
  unfold toRead
  split
  · rename_i hgt
    have hgt' := UInt32.lt_iff_toNat_lt.mp hgt
    change 1024 < _ at hgt'
    change 1024 = _
    omega
  · rename_i hgt
    rw [gt_iff_lt, UInt32.lt_iff_toNat_lt] at hgt
    change ¬1024 < _ at hgt
    omega

/-- The counter does not overflow. -/
theorem toNat_add_toRead (h : readBytes.toNat ≤ len.toNat) :
    (readBytes + toRead len readBytes).toNat = readBytes.toNat + (toRead len readBytes).toNat := by
  have hlen := len.toNat_lt
  have hread := toNat_toRead h
  rw [UInt32.toNat_add]
  omega

end toRead

/-- A pass on a good stream takes a chunk off it, or throws. -/
theorem readLongstringPass_ofString (len readBytes : UInt32) (s buf : List UInt8) :
    readLongstringPass len readBytes s (.ofString buf) =
      if (toRead len readBytes).toNat ≤ buf.length then
        .ok ((readBytes + toRead len readBytes, s ++ buf.take (toRead len readBytes).toNat),
          .ofString (buf.drop (toRead len readBytes).toNat))
      else .error (.runtimeError "Failure to read longstring data") := by
  rw [readLongstringPass, Reader.bind_apply, Reader.exactly_ofString]
  by_cases h : (toRead len readBytes).toNat ≤ buf.length
  · rw [if_pos h, if_pos h]
    rfl
  · rw [if_neg h, if_neg h]

/-- The loop of `read_longstring`, with `j` chunks to go, is one read of the bytes that are missing. -/
theorem readLongstringLoop_ofString (len : UInt32) :
    ∀ (j : Nat) (readBytes : UInt32) (s buf : List UInt8), readBytes.toNat ≤ len.toNat →
      len.toNat - readBytes.toNat ≤ 1024 * j →
      readLongstringLoop len (j + 1) readBytes s (.ofString buf) =
        (Reader.exactly (len.toNat - readBytes.toNat) (.runtimeError "Failure to read longstring data") >>=
          fun b => pure (s ++ b)) (.ofString buf) := by
  have hdone : ∀ (k : Nat) (readBytes : UInt32) (s buf : List UInt8), ¬readBytes < len →
      readLongstringLoop len (k + 1) readBytes s (.ofString buf) =
        (Reader.exactly (len.toNat - readBytes.toNat) (.runtimeError "Failure to read longstring data") >>=
          fun b => pure (s ++ b)) (.ofString buf) := by
    intro k readBytes s buf hlt
    have h0 : len.toNat - readBytes.toNat = 0 := by
      rw [UInt32.lt_iff_toNat_lt] at hlt
      omega
    rw [readLongstringLoop, if_neg hlt, h0, Reader.bind_apply, Reader.exactly_ofString, if_pos (Nat.zero_le _)]
    simp
  intro j
  induction j with
  | zero =>
    intro readBytes s buf hle hj
    exact hdone 0 readBytes s buf (by rw [UInt32.lt_iff_toNat_lt]; omega)
  | succ j ih =>
    intro readBytes s buf hle hj
    by_cases hlt : readBytes < len
    · have hread := toNat_toRead hle
      have hadd := toNat_add_toRead hle
      -- One pass reads a chunk; what is left is shorter by that chunk.
      have hsplit : len.toNat - readBytes.toNat =
          (toRead len readBytes).toNat + (len.toNat - (readBytes + toRead len readBytes).toNat) := by omega
      rw [readLongstringLoop_succ, if_pos hlt, Reader.bind_apply, readLongstringPass_ofString, Reader.bind_apply, hsplit,
        Reader.exactly_add, Reader.bind_apply, Reader.exactly_ofString]
      by_cases hbuf : (toRead len readBytes).toNat ≤ buf.length
      · rw [if_pos hbuf, if_pos hbuf]
        simp only
        rw [ih _ _ _ (by omega) (by omega), Reader.bind_apply, Reader.bind_apply]
        cases Reader.exactly (len.toNat - (readBytes + toRead len readBytes).toNat)
          (Exception.runtimeError "Failure to read longstring data") (.ofString (buf.drop (toRead len readBytes).toNat)) with
        | error e => rfl
        | ok r => simp
      · rw [if_neg hbuf, if_neg hbuf]
    · exact hdone (j + 1) readBytes s buf hlt

/-- `read_longstring` on a good stream: the length, and then one read of that many bytes. -/
theorem readLongstring_ofString (buf : List UInt8) :
    readLongstring (.ofString buf) =
      (readUint32 >>= fun len => Reader.exactly len.toNat (.runtimeError "Failure to read longstring data"))
        (.ofString buf) := by
  rcases h : readUint32 (.ofString buf) with e | ⟨len, s⟩
  · rw [readLongstring, Reader.bind_of_error h, Reader.bind_of_error h]
  · obtain ⟨p, rest, -, rfl, -⟩ := parses_readUint32 _ _ _ h
    rw [readLongstring, Reader.bind_of_ok h, Reader.bind_of_ok h, Reader.bind_of_ok (Reader.check_ofString _ _),
      readLongstringLoop_ofString len _ 0 [] rest (Nat.zero_le _) (by change len.toNat - 0 ≤ _; omega)]
    change (Reader.exactly len.toNat _ >>= fun b => pure b) _ = _
    rw [bind_pure]

theorem reads_readLongstring {s : List UInt8} (h : s.length < 2 ^ 32) :
    Reader.Reads readLongstring (writeUint32 (UInt32.ofNat s.length) ++ s) s := by
  have hlen : s.length = (UInt32.ofNat s.length).toNat := by rw [UInt32.toNat_ofNat_of_lt' h]
  intro rest
  rw [readLongstring_ofString]
  exact ((reads_readUint32 _).bind (Reader.Reads.exactly hlen _)) rest

/-- The loop of `read_longstring` has passes enough. -/
theorem ends_readLongstring {n : Nat} : Reader.Ends .stuck n readLongstring := by
  intro buf hb
  rw [readLongstring_ofString]
  exact (ends_readUint32.bind parses_readUint32 fun _ _ _ _ => Reader.Ends.exactly (by decide) _) buf hb

theorem parses_readLongstring :
    Reader.Parses readLongstring (fun p s => s.length < 2 ^ 32 ∧ p = writeUint32 (UInt32.ofNat s.length) ++ s) := by
  intro buf s t h
  rw [readLongstring_ofString] at h
  obtain ⟨p, rest, hb, ht, _, len, _, rfl, rfl, rfl, hlen⟩ :=
    (parses_readUint32.bind fun len => Reader.Parses.exactly len.toNat _) buf s t h
  have hlt := len.toNat_lt
  exact ⟨_, rest, hb, ht, by omega, by rw [hlen, UInt32.ofNat_toNat]⟩

theorem local_readLongstring : Reader.Local readLongstring :=
  .of_parses parses_readLongstring fun _ _ hp => hp.2 ▸ reads_readLongstring hp.1

end Amqpp
