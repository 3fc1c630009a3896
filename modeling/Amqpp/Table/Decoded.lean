import Amqpp.Table.RoundTrip

/-!
# Tables that were read

What the readers make of any bytes at all could have been built by `table::insert` from valid entries, at every depth. It is
written without an exception, in no more bytes than it was read from.
-/

namespace Amqpp

section valid

variable {rfv : Reader Exception FieldValue} (h : ∀ {s t : IStream} {v : FieldValue}, rfv s = .ok (v, t) → v.Valid)

include h

/-- An entry is read with a key that passes `validate_key_name`. -/
theorem exists_entry_of_read {s t : IStream} {e : TableEntry} (he : readTableEntryWith rfv s = .ok (e, t)) :
    ∃ x : Entry, x.entry = e := by
  obtain ⟨key, s₁, -, he⟩ := Reader.bind_eq_ok.mp he
  obtain ⟨v, s₂, hv, he⟩ := Reader.bind_eq_ok.mp he
  rcases hcreate : TableEntry.create key v with ex | e'
  · rw [hcreate] at he
    cases he
  · rw [hcreate] at he
    cases he
    obtain ⟨hkey, rfl⟩ := TableEntry.create_eq_ok.mp hcreate
    exact ⟨⟨.mk key v, hkey, h hv⟩, rfl⟩

/-- The loop of `read_table` inserts one entry after another. -/
theorem exists_table_of_read {s t : IStream} {m : TableMap} (hm : readTableWith rfv s = .ok (m, t)) :
    ∃ T : Table, T.map = m := by
  obtain ⟨body, s₁, -, hm⟩ := Reader.bind_eq_ok.mp hm
  rw [Reader.onString] at hm
  rcases hloop : Reader.whileM IStream.peek (readTableBody rfv) .stuck (body.length + 1) [] (.ofString body) with ex | ⟨m', s₂⟩
  · rw [hloop] at hm
    cases hm
  · rw [hloop] at hm
    cases hm
    refine Reader.whileM_invariant IStream.tests_peek (fun _ (acc : TableMap) => ∃ T : Table, T.map = acc) ?_
      (body.length + 1) [] (.ofString body) m s₂ ⟨Table.empty, rfl⟩ hloop
    rintro acc buf acc' s' ⟨T, rfl⟩ hbody
    obtain ⟨e, s'', he, hins⟩ := Reader.bind_eq_ok.mp hbody
    cases hins
    obtain ⟨x, rfl⟩ := exists_entry_of_read h he
    exact ⟨T.insert x, rfl⟩

/-- What is read after a type byte. -/
theorem valid_of_readPayload (hp : Reader.Parses rfv (FieldValue.TakenFrom 0)) (ty : FieldType) {s t : IStream} {v : FieldValue}
    (hv : readPayload rfv ty s = .ok (v, t)) : v.Valid := by
  cases ty with
  | fieldtable =>
    obtain ⟨m, s₁, hm, hret⟩ := Reader.bind_eq_ok.mp hv
    cases hret
    obtain ⟨T, rfl⟩ := exists_table_of_read h hm
    exact (FieldValue.all_fieldtable _).mpr ⟨⟨T.sorted, T.key_le⟩, T.valid⟩
  | fieldarray =>
    obtain ⟨body, s₁, -, hv⟩ := Reader.bind_eq_ok.mp hv
    obtain ⟨a, s₂, ha, -⟩ := Reader.bind_eq_ok.mp hv
    rw [Reader.onString] at ha
    rcases hloop : Reader.whileM IStream.notEof (readArrayBody rfv) .stuck (body.length + 1) [] (.ofString body) with ex | r
    · rw [hloop] at ha
      cases ha
    · exact (readArray_ne_ok hp _ _ _ hloop).elim
  | decimal =>
    obtain ⟨mag, s₁, -, hv⟩ := Reader.bind_eq_ok.mp hv
    obtain ⟨val, s₂, -, hret⟩ := Reader.bind_eq_ok.mp hv
    cases hret
    exact trivial
  | bytes =>
    obtain ⟨size, s₁, -, hv⟩ := Reader.bind_eq_ok.mp hv
    obtain ⟨val, s₂, -, hret⟩ := Reader.bind_eq_ok.mp hv
    cases hret
    exact trivial
  | void =>
    cases hv
    exact trivial
  | _ =>
    obtain ⟨x, s₁, -, hret⟩ := Reader.bind_eq_ok.mp hv
    cases hret
    exact trivial

end valid

/-- Every value that is read is valid. -/
theorem valid_of_readFieldValueN (n : Nat) {s t : IStream} {v : FieldValue} (hv : readFieldValueN n s = .ok (v, t)) : v.Valid := by
  induction n generalizing s t v with
  | zero => cases hv
  | succ n ih =>
    obtain ⟨code, s₁, -, hv⟩ := Reader.bind_eq_ok.mp hv
    unfold readCase at hv
    cases hty : FieldType.ofCode code with
    | none =>
      rw [hty] at hv
      cases hv
    | some ty =>
      rw [hty] at hv
      exact valid_of_readPayload ih (parses_readFieldValueN n) ty hv

/-! ## Types -/

theorem getType_of_readPayload {rfv : Reader Exception FieldValue} (ty : FieldType) {s t : IStream} {v : FieldValue}
    (hv : readPayload rfv ty s = .ok (v, t)) : v.getType = ty := by
  cases ty with
  | fieldarray =>
    obtain ⟨body, s₁, -, hv⟩ := Reader.bind_eq_ok.mp hv
    obtain ⟨a, s₂, -, hret⟩ := Reader.bind_eq_ok.mp hv
    cases hret
    rfl
  | decimal =>
    obtain ⟨mag, s₁, -, hv⟩ := Reader.bind_eq_ok.mp hv
    obtain ⟨val, s₂, -, hret⟩ := Reader.bind_eq_ok.mp hv
    cases hret
    rfl
  | bytes =>
    obtain ⟨size, s₁, -, hv⟩ := Reader.bind_eq_ok.mp hv
    obtain ⟨val, s₂, -, hret⟩ := Reader.bind_eq_ok.mp hv
    cases hret
    rfl
  | void =>
    cases hv
    rfl
  | _ =>
    obtain ⟨x, s₁, -, hret⟩ := Reader.bind_eq_ok.mp hv
    cases hret
    rfl

/-- The byte that a value is read from first is its type. -/
theorem code_of_readFieldValueN (n : Nat) {code : UInt8} {s : List UInt8} {t : IStream} {v : FieldValue}
    (hv : readFieldValueN n (.ofString (code :: s)) = .ok (v, t)) : v.getType.code = code := by
  cases n with
  | zero => cases hv
  | succ n =>
    obtain ⟨code', s₁, hcode, hv⟩ := Reader.bind_eq_ok.mp hv
    cases (reads_readUint8 code s).symm.trans hcode
    unfold readCase at hv
    cases hty : FieldType.ofCode code with
    | none =>
      rw [hty] at hv
      cases hv
    | some ty =>
      rw [hty] at hv
      rw [getType_of_readPayload ty hv]
      exact FieldType.code_of_ofCode hty

/-- The byte that is written first is the type. -/
theorem code_of_writeTableValue {v : FieldValue} {bs : List UInt8} (h : writeTableValue v = .ok bs) :
    ∃ body, bs = v.getType.code :: body := by
  cases v with
  | longstring s =>
    obtain ⟨b, -, hret⟩ := Except.bind_eq_ok.mp h
    cases hret
    exact ⟨_, rfl⟩
  | fieldarray a =>
    obtain ⟨body, -, rfl⟩ := writeTableValue_fieldarray.mp h
    exact ⟨_, rfl⟩
  | fieldtable t =>
    obtain ⟨b, -, rfl⟩ := writeTableValue_fieldtable.mp h
    exact ⟨_, rfl⟩
  | _ =>
    cases h
    exact ⟨_, rfl⟩

/-! ## Writing them -/

/-- No byte more is written for a value than is read for it. -/
theorem FieldValue.emitted_le_taken (v : FieldValue) : v.emitted ≤ v.taken := by
  cases v <;> simp only [FieldValue.here] <;> omega

/-- A table that was read, and the entries written again. -/
theorem exists_writeEntries_of_read {s : List UInt8} {m : TableMap} {t : IStream} (hm : readTable (.ofString s) = .ok (m, t)) :
    ∃ (T : Table) (body : List UInt8), T.map = m ∧ m.All FieldValue.isNotArray ∧ writeEntries m = .ok body ∧
      body.length < 2 ^ 32 ∧ ∃ p, s = p ++ t.buf ∧ 4 + body.length ≤ p.length := by
  obtain ⟨T, rfl⟩ := exists_table_of_read (fun h => valid_of_readFieldValueN _ h) hm
  obtain ⟨p, rest, hs, rfl, read, rfl, hlen, htaken, harr⟩ := parses_readTableWith (parses_readFieldValueN _) _ _ _ hm
  have hle := TableMap.total_le_total FieldValue.emitted_le_taken T.map
  unfold TableMap.taken at htaken
  obtain ⟨body, hbody⟩ := exists_writeEntries T.key_le fun e he => by
    have hmem := TableMap.total_le_of_mem (w := FieldValue.emitted) he
    exact exists_writeTableValue (T.valid e he) (by omega)
  have hemitted := writeEntries_length hbody
  refine ⟨T, body, rfl, harr, hbody, by omega, _, hs, ?_⟩
  rw [List.length_append, length_writeUint32]
  omega

/-- The entries of a table are read back, however close to `2 ^ 32` bytes they come. -/
theorem reads_readTable_of_writeEntries {T : Table} (hT : T.map.All FieldValue.sizedAsWritten) {body : List UInt8}
    (h : writeEntries T.map = .ok body) (hlen : body.length < 2 ^ 32) :
    Reader.Reads readTable (writeUint32 (entriesSize T.map) ++ body) T.map.readBack := by
  intro rest
  refine reads_writeEntries T.sorted T.key_le hT h hlen (fun e he b hb hle => ?_) rest
  refine reads_readFieldValueN (hT e he) (T.valid e he) hb (by omega) ?_
  change b.length ≤ (_ ++ rest).length + 1
  rw [List.length_append, List.length_append]
  omega

end Amqpp
