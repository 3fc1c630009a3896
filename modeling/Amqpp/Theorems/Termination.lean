import Amqpp.Table.Depth

/-!
# Decoding a table ends

Whatever the bytes, the readers of tables, entries and values come to an end. Each pass of their loops takes bytes of the
stream it runs on, so their number is bounded by the length of the body; and so is, by the length of the whole string, how
deep the bodies stand in each other.
-/

namespace Amqpp

namespace TerminationAux

/-- An entry takes a byte for the length of its key and one for the type of its value. -/
theorem parses_readTableEntryWith_two (n : Nat) :
    Reader.Parses (readTableEntryWith (readFieldValueN n)) fun p _ => 2 ≤ p.length := by
  refine (parses_readShortstring.bind fun _ => (parses_readFieldValueN_ne_nil n).bind fun _ => Reader.Parses.lift _).mono ?_
  rintro _ e ⟨_, key, _, rfl, ⟨-, rfl⟩, p, v, _, rfl, hne, -⟩
  have hpos := List.length_pos_iff.mpr hne
  simp only [List.length_append, length_writeUint8]
  omega

theorem parses_readTableBody (n : Nat) (t : TableMap) :
    Reader.Parses (readTableBody (readFieldValueN n) t) fun p _ => 2 ≤ p.length := by
  refine ((parses_readTableEntryWith_two n).bind fun _ => Reader.Parses.pure _).mono ?_
  rintro _ _ ⟨p, e, _, rfl, hle, rfl, -⟩
  rwa [List.append_nil]

/-- An element takes the byte of its type. -/
theorem parses_readArrayBody (n : Nat) (a : List FieldValue) :
    Reader.Parses (readArrayBody (readFieldValueN n) a) fun p _ => 1 ≤ p.length := by
  refine ((parses_readFieldValueN_ne_nil n).bind fun _ => Reader.Parses.pure _).mono ?_
  rintro _ _ ⟨p, v, _, rfl, hne, rfl, -⟩
  rw [List.append_nil]
  exact List.length_pos_iff.mpr hne

theorem ends_readTableBody {n m : Nat} (hm : m < n) (t : TableMap) : Reader.Ends .stuck m (readTableBody (readFieldValueN n) t) :=
  (ends_readTableEntryWith (parses_readFieldValueN n) (ends_readFieldValueN n m hm)).map _

/-- An insertion adds at most one entry. -/
theorem length_insert_le (t : TableMap) (e : TableEntry) : (t.insert e).length ≤ t.length + 1 := by
  unfold TableMap.insert
  induction t with
  | nil => exact Nat.le_refl _
  | cons x t ih =>
    rw [SortedMap.insertBy]
    split
    · exact Nat.le_refl _
    · split
      · exact Nat.succ_le_succ ih
      · exact Nat.le_succ _

/-- Two bytes of the body for each entry. -/
theorem length_of_loop {n k : Nat} {body : List UInt8} {t : TableMap} {s : IStream}
    (h : Reader.whileM IStream.peek (readTableBody (readFieldValueN n)) .stuck k [] (.ofString body) = .ok (t, s)) :
    t.length ≤ body.length / 2 := by
  have hinv := Reader.whileM_invariant IStream.tests_peek (fun left (acc : TableMap) => 2 * acc.length + left.length ≤ body.length) ?_
    k [] (.ofString body) t s (by simp [IStream.ofString]) h
  · omega
  · intro acc buf acc' s' hacc hpass
    obtain ⟨p, rest, rfl, rfl, hp⟩ := parses_readTableBody n acc buf acc' s' hpass
    obtain ⟨e, _, -, hins⟩ := Reader.bind_eq_ok.mp hpass
    obtain ⟨rfl, -⟩ := Prod.mk.inj (Except.ok.inj hins)
    have hlen := length_insert_le acc e
    rw [List.length_append] at hacc
    change 2 * _ + rest.length ≤ _
    omega

end TerminationAux

open TerminationAux

/-- The readers of tables, entries and values end on every string, with a value or with an exception. A pass of the loop
over a table takes at least two bytes of the body and one of the loop over an array at least one, or it throws; so a body of
`N` bytes is through after `N / 2` or `N` passes, and a table has at most `N / 2` entries. With room for `1 + n / 5` open
bodies the readers are the same on a string of `n` bytes. -/
theorem table_decoding_terminates :
    (∀ buf, readTable (.ofString buf) ≠ .error .stuck ∧ readTableEntry (.ofString buf) ≠ .error .stuck ∧
      readFieldValue (.ofString buf) ≠ .error .stuck) ∧
    (∀ n t, Reader.Parses (readTableBody (readFieldValueN n) t) fun p _ => 2 ≤ p.length) ∧
    (∀ n a, Reader.Parses (readArrayBody (readFieldValueN n) a) fun p _ => 1 ≤ p.length) ∧
    (∀ n body, body.length < n →
      Reader.whileM IStream.peek (readTableBody (readFieldValueN n)) .stuck (body.length / 2 + 1) [] (.ofString body) ≠ .error .stuck ∧
      Reader.whileM IStream.notEof (readArrayBody (readFieldValueN n)) .stuck (body.length + 1) [] (.ofString body) ≠ .error .stuck) ∧
    (∀ body rest t s, body.length < 2 ^ 32 →
      readTable (.ofString (writeUint32 (UInt32.ofNat body.length) ++ body ++ rest)) = .ok (t, s) → t.length ≤ body.length / 2) ∧
    (∀ buf, readTableIn (1 + buf.length / 5) (.ofString buf) = readTable (.ofString buf) ∧
      readTableEntryIn (1 + buf.length / 5) (.ofString buf) = readTableEntry (.ofString buf) ∧
      readFieldValueIn (1 + buf.length / 5) (.ofString buf) = readFieldValue (.ofString buf)) := by
  have hends : ∀ buf, readTable (.ofString buf) ≠ .error .stuck ∧ readTableEntry (.ofString buf) ≠ .error .stuck ∧
      readFieldValue (.ofString buf) ≠ .error .stuck := fun buf =>
    ⟨readTable_ne_stuck buf,
      ends_readTableEntryWith (parses_readFieldValueN _) (ends_readFieldValueN _ _ (Nat.lt_succ_self _)) buf le_rfl,
      ends_readFieldValueN _ _ (Nat.lt_succ_self _) buf le_rfl⟩
  refine ⟨hends, parses_readTableBody, parses_readArrayBody, ?_, ?_, ?_⟩
  · intro n body hn
    have htable := Reader.ends_whileM_of_le IStream.tests_peek (ends_readTableBody hn) (parses_readTableBody n)
      (k := body.length / 2 + 1) (by omega) []
    have harray := Reader.ends_whileM_of_le IStream.tests_notEof (fun a => (ends_readFieldValueN n _ hn).map _) (parses_readArrayBody n)
      (k := body.length + 1) (by omega) []
    exact ⟨htable body le_rfl, harray body le_rfl⟩
  · intro body rest t s hlen h
    have hread := reads_readLongstring hlen rest
    rw [readTable, readTableWith, Reader.bind_of_ok hread, Reader.onString] at h
    split at h
    · rename_i a t' hloop
      cases h
      exact length_of_loop hloop
    · cases h
  · intro buf
    obtain ⟨htable, hentry, hvalue⟩ := hends buf
    -- Each of the three has room enough, and does what the reader with enough passes does.
    refine ⟨?_, ?_, ?_⟩
    · rw [Nat.add_comm]
      have hroom := ends_readTableWith (n := buf.length) (parses_readFieldValueIn _)
        (ends_readFieldValueIn (buf.length / 5) (buf.length - 4) (by omega))
      exact eq_of_extends (fun n => extends_readTableWith (extends_readFieldValueN n))
        (extends_readTableWith (extends_readFieldValueIn _)) (hroom buf le_rfl) rfl htable
    · have hroom := ends_readTableEntryWith (n := buf.length) (parses_readFieldValueIn _)
        (ends_readFieldValueIn (1 + buf.length / 5) buf.length (by omega))
      exact eq_of_extends (fun n => extends_readTableEntryWith (extends_readFieldValueN n))
        (extends_readTableEntryWith (extends_readFieldValueIn _)) (hroom buf le_rfl) rfl hentry
    · exact eq_of_extends extends_readFieldValueN (extends_readFieldValueIn _)
        (ends_readFieldValueIn (1 + buf.length / 5) buf.length (by omega) buf le_rfl) rfl hvalue

/-- The table with one void entry `k` has a body of three bytes. -/
theorem void_entry_bounded :
    ∃ t s, readTable (.ofString (writeUint32 3 ++ [1, 107, 86] ++ [])) = .ok (t, s) ∧ t.length ≤ 1 :=
  ⟨_, _, rfl, table_decoding_terminates.2.2.2.2.1 [1, 107, 86] [] _ _ (by decide) rfl⟩

end Amqpp
