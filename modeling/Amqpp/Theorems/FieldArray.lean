import Amqpp.Table.Local

/-!
# Reading an array

The loop over an array tests the end-of-file flag, and no element that is read raises it. So the loop goes on when the
string is used up, and `read_field_value` throws what `read_uint8` throws there: no array is ever decoded.
-/

namespace Amqpp

/-- The bytes of an array with the elements `bs`, and what follows it. -/
def arrayBytes (bs : List (List UInt8)) (rest : List UInt8) : List UInt8 :=
  writeUint8 FieldType.fieldarray.code ++ (writeUint32 (UInt32.ofNat bs.flatten.length) ++ bs.flatten ++ rest)

/-- `read_field_value` takes each of `bs`, whatever follows it, and returns the one of `vs` at its place. -/
def ElementsRead (bs : List (List UInt8)) (vs : List FieldValue) : Prop :=
  List.Forall₂ (Reader.Reads readFieldValue) bs vs

/-- The array is decoded element by element to its end. -/
def DecodesArray (bs : List (List UInt8)) (vs : List FieldValue) (rest : List UInt8) : Prop :=
  readFieldValue (.ofString (arrayBytes bs rest)) = .ok (.fieldarray vs, .ofString rest)

namespace FieldArrayAux

/-- What is thrown at the end of a string. -/
def endOfArray : Exception := .runtimeError "Unable to read uint8"

theorem readFieldValueN_nil (n : Nat) : readFieldValueN (n + 1) (.ofString []) = .error endOfArray := rfl

/-- The loop reads all elements, and then one more. -/
theorem readArray_eq_error {bs : List (List UInt8)} {vs : List FieldValue} (h : ElementsRead bs vs) {n : Nat}
    (hn : bs.flatten.length ≤ n) :
    Reader.whileM IStream.notEof (readArrayBody (readFieldValueN (n + 1))) .stuck (bs.flatten.length + 1) []
      (.ofString bs.flatten) = .error endOfArray := by
  have hend (acc : List FieldValue) : readArrayBody (readFieldValueN (n + 1)) acc (.ofString []) = .error endOfArray :=
    Reader.bind_of_error (readFieldValueN_nil n)
  have hread (acc : List FieldValue) {b : List UInt8} {v : FieldValue} (hb : b ∈ bs) (hv : Reader.Reads readFieldValue b v) :
      b ≠ [] ∧ Reader.Reads (readArrayBody (readFieldValueN (n + 1)) acc) b (acc ++ [v]) := by
    have hle : b.length ≤ bs.flatten.length := (List.sublist_flatten_of_mem hb).length_le
    have hreadN := reads_readFieldValueN_of_lt hv (n := n + 1) (by omega)
    refine ⟨?_, hreadN.map fun v => acc ++ [v]⟩
    rintro rfl
    obtain ⟨p, rest, hbuf, -, hne⟩ := parses_readFieldValueN_ne_nil _ _ _ _ (hreadN [])
    exact hne (List.append_eq_nil_iff.mp hbuf.symm).1
  have helements : List.Forall₂ (fun b v => b ≠ [] ∧
      ∀ acc, Reader.Reads (readArrayBody (readFieldValueN (n + 1)) acc) b (acc ++ [v])) bs vs := by
    refine List.forall₂_iff_zip.mpr ⟨h.length_eq, fun {b v} hmem => ?_⟩
    have hv : Reader.Reads readFieldValue b v := (List.forall₂_iff_zip.mp h).2 hmem
    have hb : b ∈ bs := (List.of_mem_zip hmem).1
    exact ⟨(hread [] hb hv).1, fun acc => (hread acc hb hv).2⟩
  exact Reader.whileM_notEof_eq_error hend helements _ _ (Nat.lt_succ_self _)

/-- Whatever the bytes, no array is returned. -/
theorem not_decodesArray (bs : List (List UInt8)) (vs : List FieldValue) (rest : List UInt8) : ¬DecodesArray bs vs rest := by
  intro h
  obtain ⟨p, _, _, _, hp⟩ := parses_readFieldValueN _ _ _ _ h
  exact hp.2.1

/-- An array whose elements are all read. -/
theorem readFieldValue_array {bs : List (List UInt8)} {vs : List FieldValue} (h : ElementsRead bs vs)
    (hlen : bs.flatten.length < 2 ^ 32) (rest : List UInt8) :
    readFieldValue (.ofString (arrayBytes bs rest)) = .error endOfArray := by
  have hsize : (arrayBytes bs rest).length = bs.flatten.length + rest.length + 4 + 1 := by
    rw [arrayBytes, List.length_append, List.length_append, List.length_append, length_writeUint8, length_writeUint32]
    omega
  have hloop := readArray_eq_error h (n := bs.flatten.length + rest.length + 4) (by omega)
  rw [readFieldValue, IStream.ofString, hsize, ← IStream.ofString, readFieldValueN, arrayBytes,
    Reader.bind_of_ok (reads_readUint8 _ _), readCase, FieldType.ofCode_code]
  refine (Reader.bind_of_ok (reads_readLongstring hlen rest)).trans (Reader.bind_of_error ?_)
  rw [Reader.onString, hloop]

end FieldArrayAux

open FieldArrayAux

/-- No array is decoded, whatever its elements: an array whose elements are all read is answered by the exception of a read
past the end. -/
theorem fieldarray_never_decodes (bs : List (List UInt8)) (vs : List FieldValue) (rest : List UInt8) :
    ¬DecodesArray bs vs rest ∧
      (ElementsRead bs vs → bs.flatten.length < 2 ^ 32 →
        readFieldValue (.ofString (arrayBytes bs rest)) = .error (.runtimeError "Unable to read uint8")) :=
  ⟨not_decodesArray bs vs rest, fun h hlen => readFieldValue_array h hlen rest⟩

/-- The element of a void. -/
theorem reads_void : Reader.Reads readFieldValue (writeUint8 FieldType.void.code) .void := fun _ => rfl

/-- The array `[void]` is two reads of a byte, of which the second fails. -/
theorem array_of_void_throws :
    readFieldValue (.ofString (arrayBytes [writeUint8 FieldType.void.code] [])) = .error (.runtimeError "Unable to read uint8") :=
  (fieldarray_never_decodes [writeUint8 FieldType.void.code] [.void] []).2 (.cons reads_void .nil) (by decide)

/-- The element of the array `[void]` is read, and the array is not. -/
theorem array_of_void_not_decoded :
    ElementsRead [writeUint8 FieldType.void.code] [.void] ∧ [writeUint8 FieldType.void.code].flatten.length < 2 ^ 32 ∧
      ¬DecodesArray [writeUint8 FieldType.void.code] [.void] [] :=
  ⟨.cons reads_void .nil, by decide, not_decodesArray _ _ _⟩

end Amqpp
