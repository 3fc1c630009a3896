import Amqpp.Table.Read

/-!
# Reading back what was written

A value with no decimal, array or byte string in it is written with exact lengths, and the reader stays in step with the
writer. What it returns is `readBack`: the value, with every double replaced by the double it makes of the low half.
-/

namespace Amqpp

mutual

/-- What the reader makes of a value it stays in step with. -/
def FieldValue.readBack : FieldValue → FieldValue
  | .double bits => .double (floatToDouble bits.toUInt32)
  | .fieldtable t => .fieldtable (readBackEntries t)
  | v => v

def readBackEntries : List TableEntry → List TableEntry
  | [] => []
  | .mk key v :: es => .mk key v.readBack :: readBackEntries es

end

/-- What the reader makes of an entry. -/
def TableEntry.readBack (e : TableEntry) : TableEntry := .mk e.getKey e.getData.readBack

/-- What the reader makes of a table. -/
def TableMap.readBack (t : TableMap) : TableMap := t.map TableEntry.readBack

theorem readBackEntries_eq (t : TableMap) : readBackEntries t = t.readBack := by
  induction t with
  | nil => rfl
  | cons e es ih =>
    obtain ⟨key, v⟩ := e
    rw [readBackEntries, ih]
    rfl

/-- The keys, and so the order of the entries, stay as they are. -/
theorem TableMap.sorted_readBack {t : TableMap} (h : SortedMap.Sorted TableEntry.getKey t) :
    SortedMap.Sorted TableEntry.getKey t.readBack :=
  List.pairwise_map.mpr h

/-- Every double in it is `+0.0`. -/
def FieldValue.doubleIsZero : FieldValue → Prop
  | .double bits => bits = 0
  | _ => True

/-- The reader returns an entry as it was exactly when it returns its value as it was. -/
theorem TableEntry.readBack_eq_iff (e : TableEntry) : e.readBack = e ↔ e.getData.readBack = e.getData := by
  obtain ⟨key, v⟩ := e
  constructor
  · intro h
    exact (TableEntry.mk.inj h).2
  · intro h
    rw [readBack, h]
    rfl

theorem TableMap.readBack_eq_iff (t : TableMap) : t.readBack = t ↔ ∀ e ∈ t, e.getData.readBack = e.getData := by
  induction t with
  | nil => simp [readBack]
  | cons e es ih =>
    rw [readBack, List.map_cons, List.cons.injEq, TableEntry.readBack_eq_iff, List.forall_mem_cons]
    exact and_congr_right fun _ => ih

/-- The reader returns a value as it was exactly when every double in it is `+0.0` (arrays, which it does not return,
aside). -/
theorem FieldValue.readBack_eq_iff {v : FieldValue} (hv : v.All FieldValue.sizedAsWritten) :
    v.readBack = v ↔ v.All FieldValue.doubleIsZero := by
  induction v using FieldValue.induction with
  | scalar v hs =>
    rw [FieldValue.all_of_isScalar hs]
    cases v with
    | double bits => rw [readBack, FieldValue.double.injEq, floatToDouble_toUInt32_eq_iff, doubleIsZero]
    | fieldarray a => cases hs
    | fieldtable t => cases hs
    | _ => simp [readBack, doubleIsZero]
  | array a _ => exact hv.self.elim
  | table t ih =>
    obtain ⟨-, ht⟩ := (FieldValue.all_fieldtable t).mp hv
    rw [readBack, readBackEntries_eq, FieldValue.fieldtable.injEq, TableMap.readBack_eq_iff, FieldValue.all_fieldtable]
    constructor
    · intro h
      exact ⟨trivial, fun e he => (ih e he (ht e he)).mp (h e he)⟩
    · intro h e he
      exact (ih e he (ht e he)).mpr (h.2 e he)

/-! ## The reader in step with the writer -/

section reads

variable {rfv : Reader Exception FieldValue}

/-- A type byte and what is read after it. -/
theorem reads_readFieldValueN_succ (ty : FieldType) {n : Nat} {p : List UInt8} {v : FieldValue}
    (h : Reader.Reads (readPayload (readFieldValueN n) ty) p v) :
    Reader.Reads (readFieldValueN (n + 1)) (writeUint8 ty.code ++ p) v := by
  refine (reads_readUint8 ty.code).bind ?_
  unfold readCase
  rw [FieldType.ofCode_code]
  exact h

/-- An entry is read from its key and its value. -/
theorem reads_readTableEntryWith {key b : List UInt8} {v : FieldValue} (hkey : key.length ≤ 128)
    (h : Reader.Reads rfv b v) :
    Reader.Reads (readTableEntryWith rfv) ((writeUint8 (UInt8.ofNat key.length) ++ key) ++ b) (.mk key v) := by
  have hread := (reads_readShortstring (show key.length ≤ 255 by omega)).bind
    (f := fun fieldName => rfv >>= fun fieldValue => Reader.lift (TableEntry.create fieldName fieldValue))
    (h.bind (Reader.Reads.lift (TableEntry.create_eq_ok.mpr ⟨hkey, rfl⟩)))
  rwa [List.append_nil] at hread

/-- A table is read from its length and its entries, each from its own chunk, and holds what was inserted. -/
theorem reads_readTableWith_insert {es : List TableEntry} {chunks : List (List UInt8)}
    (h : List.Forall₂ (fun e c => c ≠ [] ∧ Reader.Reads (readTableEntryWith rfv) c e) es chunks)
    (hlen : chunks.flatten.length < 2 ^ 32) :
    Reader.Reads (readTableWith rfv) (writeUint32 (UInt32.ofNat chunks.flatten.length) ++ chunks.flatten)
      (es.foldl TableMap.insert []) := by
  have hbody : List.Forall₂ (fun e c => c ≠ [] ∧ ∀ acc, Reader.Reads (readTableBody rfv acc) c (TableMap.insert acc e))
      es chunks := h.imp fun e c hc => ⟨hc.1, fun acc => hc.2.map (TableMap.insert acc)⟩
  have hloop : Reader.whileM IStream.peek (readTableBody rfv) .stuck (chunks.flatten.length + 1) []
      (.ofString chunks.flatten) = .ok (es.foldl TableMap.insert [], ⟨[], true⟩) :=
    Reader.whileM_peek_eq hbody _ [] (Nat.lt_succ_self _)
  have hread := (reads_readLongstring hlen).bind (f := fun is => Reader.onString is
    (Reader.whileM IStream.peek (readTableBody rfv) .stuck (is.length + 1) [])) (Reader.Reads.onString hloop)
  rwa [List.append_nil] at hread

/-- Entries in key order are the table. -/
theorem reads_readTableWith {t : TableMap} {chunks : List (List UInt8)} (hsorted : SortedMap.Sorted TableEntry.getKey t)
    (h : List.Forall₂ (fun e c => c ≠ [] ∧ Reader.Reads (readTableEntryWith rfv) c e) t chunks)
    (hlen : chunks.flatten.length < 2 ^ 32) :
    Reader.Reads (readTableWith rfv) (writeUint32 (UInt32.ofNat chunks.flatten.length) ++ chunks.flatten) t := by
  have hinsert : t.foldl TableMap.insert [] = t := SortedMap.foldl_insertBy t [] hsorted
  have hread := reads_readTableWith_insert h hlen
  rwa [hinsert] at hread

/-- The entries the writer wrote are read back, when each of their values is. -/
theorem reads_writeEntries {t : TableMap} {body : List UInt8} (hsorted : SortedMap.Sorted TableEntry.getKey t)
    (hkey : ∀ e ∈ t, e.getKey.length ≤ 128) (ht : t.All FieldValue.sizedAsWritten) (h : writeEntries t = .ok body)
    (hlen : body.length < 2 ^ 32)
    (hvalue : ∀ e ∈ t, ∀ b, writeTableValue e.getData = .ok b → b.length ≤ body.length →
      Reader.Reads rfv b e.getData.readBack) :
    Reader.Reads (readTableWith rfv) (writeUint32 (entriesSize t) ++ body) t.readBack := by
  rw [entriesSize_eq_length ht h]
  obtain ⟨chunks, hc, rfl⟩ := writeEntries_eq_ok h
  refine reads_readTableWith (TableMap.sorted_readBack hsorted) (List.forall₂_map_left_iff.mpr ?_) hlen
  refine (forall₂_chunks hc).imp fun e c hec => ?_
  obtain ⟨hwrite, he, hle⟩ := hec
  obtain ⟨-, b, hb, rfl⟩ := writeTableEntry_eq_ok.mp hwrite
  rw [List.length_append] at hle
  exact ⟨List.cons_ne_nil _ _, reads_readTableEntryWith (hkey e he) (hvalue e he b hb (by omega))⟩

end reads

/-- A written value is read back, by a reader given a level for each of its bytes. -/
theorem reads_readFieldValueN {v : FieldValue} (hv : v.All FieldValue.sizedAsWritten) (hvalid : v.Valid)
    {bs : List UInt8} (h : writeTableValue v = .ok bs) (hlen : bs.length < 2 ^ 32) {n : Nat} (hn : bs.length ≤ n) :
    Reader.Reads (readFieldValueN n) bs v.readBack := by
  induction v using FieldValue.induction generalizing bs n with
  | scalar v hs =>
    obtain ⟨n, rfl⟩ : ∃ m, n = m + 1 := by
      have hpos : 0 < bs.length := by
        rw [writeTableValue_length h, FieldValue.total_of_isScalar hs]
        cases v <;> simp [FieldValue.here]
      exact ⟨n - 1, by omega⟩
    cases v with
    | boolean v =>
      cases h
      cases v <;> exact reads_readFieldValueN_succ .boolean ((reads_readUint8 _).map _)
    | int8 v =>
      cases h
      exact reads_readFieldValueN_succ .int8 ((reads_readUint8 _).map _)
    | int16 v =>
      cases h
      exact reads_readFieldValueN_succ .int16 ((reads_readUint16 _).map _)
    | int32 v =>
      cases h
      exact reads_readFieldValueN_succ .int32 ((reads_readUint32 _).map _)
    | int64 v =>
      cases h
      exact reads_readFieldValueN_succ .int64 ((reads_readUint64 _).map _)
    | float bits =>
      cases h
      exact reads_readFieldValueN_succ .float ((reads_readUint32 _).map _)
    | double bits =>
      cases h
      exact reads_readFieldValueN_succ .double ((reads_readUint64 _).map _)
    | timestamp t =>
      cases h
      exact reads_readFieldValueN_succ .timestamp ((reads_readUint64 _).map _)
    | longstring s =>
      rw [writeTableValue] at h
      obtain ⟨b, hb, h⟩ := Except.bind_eq_ok.mp h
      obtain ⟨hs, rfl⟩ := writeLongstring_eq_ok.mp hb
      cases h
      exact reads_readFieldValueN_succ .longstring ((reads_readLongstring hs).map _)
    | void =>
      cases h
      exact reads_readFieldValueN_succ .void (Reader.Reads.pure _)
    | decimal mag val => exact hv.self.elim
    | bytes b => exact hv.self.elim
    | fieldarray a => cases hs
    | fieldtable t => cases hs
  | array a _ => exact hv.self.elim
  | table t ih =>
    obtain ⟨-, ht⟩ := (FieldValue.all_fieldtable t).mp hv
    obtain ⟨⟨hsorted, hkey⟩, hvalues⟩ := (FieldValue.all_fieldtable t).mp hvalid
    obtain ⟨b, hb, rfl⟩ := writeTableValue_fieldtable.mp h
    obtain ⟨body, hbody, rfl⟩ := writeTable_eq_ok.mp hb
    rw [List.length_append, List.length_append, length_writeUint8, length_writeUint32] at hlen hn
    obtain ⟨n, rfl⟩ : ∃ m, n = m + 1 := ⟨n - 1, by omega⟩
    rw [FieldValue.readBack, readBackEntries_eq]
    refine reads_readFieldValueN_succ .fieldtable (Reader.Reads.map (reads_writeEntries hsorted hkey ht hbody (by omega) ?_) _)
    intro e he b hb hle
    exact ih e he (ht e he) (hvalues e he) hb (by omega) (by omega)

/-- A written table is read back. -/
theorem reads_readTable {t : Table} (ht : t.map.All FieldValue.sizedAsWritten) {bs : List UInt8}
    (h : writeTable t.map = .ok bs) (hlen : bs.length < 2 ^ 32) : Reader.Reads readTable bs t.map.readBack := by
  intro rest
  obtain ⟨body, hbody, rfl⟩ := writeTable_eq_ok.mp h
  rw [List.length_append, length_writeUint32] at hlen
  refine reads_writeEntries t.sorted t.key_le ht hbody (by omega) (fun e he b hb hle => ?_) rest
  refine reads_readFieldValueN (ht e he) (t.valid e he) hb (by omega) ?_
  change b.length ≤ (_ ++ rest).length + 1
  rw [List.length_append, List.length_append]
  omega

end Amqpp
