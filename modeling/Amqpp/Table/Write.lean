import Amqpp.Table.Size

/-!
# Writing tables

`write_table`, `write_table_entry`, `write_table_value` and `table_value_writer`. A writer returns the bytes it appends or
throws; the stream it writes to is always good here (the capacity of a frame's buffer is checked where the frame is made).
The number of bytes a value takes is the sum of `emitted` over it and everything inside it.
-/

namespace Amqpp

mutual

/-- `write_table_value`: `table_value_writer`, one case for each alternative. -/
def writeTableValue : FieldValue → Except Exception (List UInt8)
  | .boolean v => return writeUint8 FieldType.boolean.code ++ writeUint8 (if v then 1 else 0)
  | .int8 v => return writeUint8 FieldType.int8.code ++ writeUint8 v.toUInt8
  | .int16 v => return writeUint8 FieldType.int16.code ++ writeUint16 v.toUInt16
  | .int32 v => return writeUint8 FieldType.int32.code ++ writeUint32 v.toUInt32
  | .int64 v => return writeUint8 FieldType.int64.code ++ writeUint64 v.toUInt64
  | .float bits => return writeUint8 FieldType.float.code ++ writeUint32 bits
  | .double bits => return writeUint8 FieldType.double.code ++ writeUint64 bits
  | .decimal mag val => return writeUint8 FieldType.decimal.code ++ (writeUint8 mag ++ writeUint32 val.toUInt32)
  | .longstring s => do
    let b ← writeLongstring s
    return writeUint8 FieldType.longstring.code ++ b
  | .fieldarray a => do
    let body ← writeValues a
    return writeUint8 FieldType.fieldarray.code ++ (writeUint32 (valuesSize a) ++ body)
  | .timestamp t => return writeUint8 FieldType.timestamp.code ++ writeUint64 t
  | .fieldtable t => do
    let body ← writeEntries t
    return writeUint8 FieldType.fieldtable.code ++ (writeUint32 (TableMap.wireformatSize t - 4) ++ body)
  | .void => return writeUint8 FieldType.void.code
  -- The bytes go out with no length in front of them.
  | .bytes b => return writeUint8 FieldType.bytes.code ++ b

/-- The loop that writes the elements of an array. -/
def writeValues : List FieldValue → Except Exception (List UInt8)
  | [] => return []
  | v :: vs => do
    let b ← writeTableValue v
    let bs ← writeValues vs
    return b ++ bs

/-- The loop that writes the entries of a map, each as `write_table_entry` does. -/
def writeEntries : List TableEntry → Except Exception (List UInt8)
  | [] => return []
  | .mk key v :: es => do
    let k ← writeShortstring key
    let b ← writeTableValue v
    let bs ← writeEntries es
    return (k ++ b) ++ bs

end

/-- `write_table_entry`. -/
def writeTableEntry (e : TableEntry) : Except Exception (List UInt8) := do
  let k ← writeShortstring e.getKey
  let b ← writeTableValue e.getData
  return k ++ b

/-- `write_table`. -/
def writeTable (t : TableMap) : Except Exception (List UInt8) := do
  let body ← writeEntries t
  return writeUint32 (TableMap.wireformatSize t - 4) ++ body

/-! ## What a successful write is made of -/

/-- A written table is its length and its entries. -/
theorem writeTable_eq_ok {t : TableMap} {bs : List UInt8} :
    writeTable t = .ok bs ↔ ∃ body, writeEntries t = .ok body ∧ bs = writeUint32 (entriesSize t) ++ body := by
  rw [writeTable, Except.bind_eq_ok, TableMap.wireformatSize_sub]
  simp only [pure, Except.pure, Except.ok.injEq, eq_comm]

/-- A nested table is its type byte and the table. -/
theorem writeTableValue_fieldtable {t : TableMap} {bs : List UInt8} :
    writeTableValue (.fieldtable t) = .ok bs ↔
      ∃ b, writeTable t = .ok b ∧ bs = writeUint8 FieldType.fieldtable.code ++ b := by
  rw [writeTableValue, Except.bind_eq_ok, TableMap.wireformatSize_sub]
  simp only [writeTable_eq_ok, pure, Except.pure, Except.ok.injEq]
  constructor
  · rintro ⟨body, h, rfl⟩
    exact ⟨_, ⟨body, h, rfl⟩, rfl⟩
  · rintro ⟨_, ⟨body, h, rfl⟩, rfl⟩
    exact ⟨body, h, rfl⟩

/-- A written array is its type byte, the announced size and its elements. -/
theorem writeTableValue_fieldarray {a : List FieldValue} {bs : List UInt8} :
    writeTableValue (.fieldarray a) = .ok bs ↔ ∃ body, writeValues a = .ok body ∧
      bs = writeUint8 FieldType.fieldarray.code ++ (writeUint32 (valuesSize a) ++ body) := by
  rw [writeTableValue, Except.bind_eq_ok]
  simp only [pure, Except.pure, Except.ok.injEq, eq_comm]

/-- A written entry is its key and its value. -/
theorem writeTableEntry_eq_ok {e : TableEntry} {bs : List UInt8} :
    writeTableEntry e = .ok bs ↔ e.getKey.length ≤ 255 ∧ ∃ b, writeTableValue e.getData = .ok b ∧
      bs = (writeUint8 (UInt8.ofNat e.getKey.length) ++ e.getKey) ++ b := by
  rw [writeTableEntry]
  simp only [Except.bind_eq_ok, writeShortstring_eq_ok, pure, Except.pure, Except.ok.injEq]
  constructor
  · rintro ⟨_, ⟨hk, rfl⟩, b, hb, rfl⟩
    exact ⟨hk, b, hb, rfl⟩
  · rintro ⟨hk, b, hb, rfl⟩
    exact ⟨_, ⟨hk, rfl⟩, b, hb, rfl⟩

/-- The written elements of an array, one string for each. -/
theorem writeValues_eq_ok {a : List FieldValue} {bs : List UInt8} (h : writeValues a = .ok bs) :
    ∃ chunks, List.Forall₂ (fun v c => writeTableValue v = .ok c) a chunks ∧ bs = chunks.flatten := by
  induction a generalizing bs with
  | nil =>
    rw [writeValues] at h
    cases h
    exact ⟨[], List.Forall₂.nil, rfl⟩
  | cons v vs ih =>
    rw [writeValues] at h
    obtain ⟨b, hb, h⟩ := Except.bind_eq_ok.mp h
    obtain ⟨bs', hbs, h⟩ := Except.bind_eq_ok.mp h
    cases h
    obtain ⟨chunks, hc, rfl⟩ := ih hbs
    exact ⟨b :: chunks, List.Forall₂.cons hb hc, rfl⟩

theorem writeEntries_cons (e : TableEntry) (es : List TableEntry) :
    writeEntries (e :: es) = (do
      let b ← writeTableEntry e
      let bs ← writeEntries es
      return b ++ bs) := by
  obtain ⟨key, v⟩ := e
  rw [writeEntries, writeTableEntry, bind_assoc]
  simp only [bind_assoc, pure_bind, TableEntry.getKey_mk, TableEntry.getData_mk]

/-- The written entries of a map, one string for each. -/
theorem writeEntries_eq_ok {t : TableMap} {bs : List UInt8} (h : writeEntries t = .ok bs) :
    ∃ chunks, List.Forall₂ (fun e c => writeTableEntry e = .ok c) t chunks ∧ bs = chunks.flatten := by
  induction t generalizing bs with
  | nil =>
    rw [writeEntries] at h
    cases h
    exact ⟨[], List.Forall₂.nil, rfl⟩
  | cons e es ih =>
    rw [writeEntries_cons] at h
    obtain ⟨b, hb, h⟩ := Except.bind_eq_ok.mp h
    obtain ⟨bs', hbs, h⟩ := Except.bind_eq_ok.mp h
    cases h
    obtain ⟨chunks, hc, rfl⟩ := ih hbs
    exact ⟨b :: chunks, List.Forall₂.cons hb hc, rfl⟩

/-! ## How many bytes are written -/

namespace FieldValue

/-- What `table_value_writer` writes: five bytes for a decimal, a length prefix for an array, none for a byte string. -/
abbrev emitted : FieldValue → Nat := here 6 5 1

/-- The bytes `datatype_size_counter` counts and the writer leaves out: the padding of a decimal, the prefix of a byte
string. -/
def surplus : FieldValue → Nat
  | .decimal _ _ => 3
  | .bytes _ => 4
  | _ => 0

/-- The bytes the writer adds and `datatype_size_counter` does not count: the prefix of an array. -/
def deficit : FieldValue → Nat
  | .fieldarray _ => 4
  | _ => 0

/-- Announced and written bytes differ by the surplus and the deficit of the value and of everything inside it. -/
theorem total_announced (v : FieldValue) : v.total announced + v.total deficit = v.total emitted + v.total surplus := by
  have hhere : (fun x => announced x + deficit x) = fun x => emitted x + surplus x := by
    funext x
    cases x <;> simp only [here, deficit, surplus]
    omega
  rw [← total_add, ← total_add, hhere]

end FieldValue

/-- The elements of an array together, when each takes its sum. -/
theorem writeValues_length_of {a : List FieldValue}
    (h : ∀ v ∈ a, ∀ bs, writeTableValue v = .ok bs → bs.length = v.total FieldValue.emitted) {bs : List UInt8}
    (hbs : writeValues a = .ok bs) : bs.length = (a.map (·.total FieldValue.emitted)).sum := by
  obtain ⟨chunks, hc, rfl⟩ := writeValues_eq_ok hbs
  clear hbs
  induction hc with
  | nil => rfl
  | cons hb _ ih =>
    rw [List.flatten_cons, List.length_append, List.map_cons, List.sum_cons, h _ List.mem_cons_self _ hb,
      ih fun v hv => h v (List.mem_cons_of_mem _ hv)]

/-- The entries of a map together, when each value takes its sum. -/
theorem writeEntries_length_of {t : TableMap}
    (h : ∀ e ∈ t, ∀ bs, writeTableValue e.getData = .ok bs → bs.length = e.getData.total FieldValue.emitted)
    {bs : List UInt8} (hbs : writeEntries t = .ok bs) :
    bs.length = keysSize t + TableMap.total FieldValue.emitted t := by
  obtain ⟨chunks, hc, rfl⟩ := writeEntries_eq_ok hbs
  clear hbs
  induction hc with
  | nil => rfl
  | @cons e c es cs hb _ ih =>
    obtain ⟨-, b, hv, rfl⟩ := writeTableEntry_eq_ok.mp hb
    have hes := ih fun x hx => h x (List.mem_cons_of_mem _ hx)
    have hlen := h e List.mem_cons_self b hv
    rw [TableMap.total] at hes ⊢
    rw [List.flatten_cons, List.length_append, hes, keysSize_cons, List.map_cons, List.sum_cons, List.length_append,
      List.length_append, length_writeUint8, hlen]
    omega

/-- A value takes the sum of `emitted` over itself and everything inside it. -/
theorem writeTableValue_length {v : FieldValue} {bs : List UInt8} (h : writeTableValue v = .ok bs) :
    bs.length = v.total FieldValue.emitted := by
  induction v using FieldValue.induction generalizing bs with
  | scalar v hs =>
    rw [FieldValue.total_of_isScalar hs]
    cases v with
    | longstring s =>
      rw [writeTableValue] at h
      obtain ⟨b, hb, h⟩ := Except.bind_eq_ok.mp h
      obtain ⟨-, rfl⟩ := writeLongstring_eq_ok.mp hb
      cases h
      simp only [List.length_append, length_writeUint8, length_writeUint32, FieldValue.here]
      omega
    | fieldarray a => cases hs
    | fieldtable t => cases hs
    | _ =>
      cases h
      simp only [List.length_append, length_writeUint8, length_writeUint16, length_writeUint32, length_writeUint64,
        FieldValue.here]
  | array a ih =>
    obtain ⟨body, hbody, rfl⟩ := writeTableValue_fieldarray.mp h
    have hlen := writeValues_length_of ih hbody
    have hhere : FieldValue.emitted (.fieldarray a) = 5 := rfl
    rw [FieldValue.total_fieldarray, hhere, List.length_append, List.length_append, length_writeUint8, length_writeUint32,
      hlen]
    omega
  | table t ih =>
    obtain ⟨b, hb, rfl⟩ := writeTableValue_fieldtable.mp h
    obtain ⟨body, hbody, rfl⟩ := writeTable_eq_ok.mp hb
    have hlen := writeEntries_length_of ih hbody
    have hhere : FieldValue.emitted (.fieldtable t) = 5 + keysSize t := rfl
    rw [FieldValue.total_fieldtable, hhere, List.length_append, List.length_append, length_writeUint8, length_writeUint32,
      hlen, TableMap.total]
    omega

theorem writeValues_length {a : List FieldValue} {bs : List UInt8} (h : writeValues a = .ok bs) :
    bs.length = (a.map (·.total FieldValue.emitted)).sum :=
  writeValues_length_of (fun _ _ _ => writeTableValue_length) h

theorem writeEntries_length {t : TableMap} {bs : List UInt8} (h : writeEntries t = .ok bs) :
    bs.length = keysSize t + TableMap.total FieldValue.emitted t :=
  writeEntries_length_of (fun _ _ _ => writeTableValue_length) h

theorem writeTableEntry_length {e : TableEntry} {bs : List UInt8} (h : writeTableEntry e = .ok bs) :
    bs.length = 1 + e.getKey.length + e.getData.total FieldValue.emitted := by
  obtain ⟨-, b, hv, rfl⟩ := writeTableEntry_eq_ok.mp h
  rw [List.length_append, List.length_append, length_writeUint8, writeTableValue_length hv]

theorem writeTable_length {t : TableMap} {bs : List UInt8} (h : writeTable t = .ok bs) :
    bs.length = 4 + (keysSize t + TableMap.total FieldValue.emitted t) := by
  obtain ⟨body, hbody, rfl⟩ := writeTable_eq_ok.mp h
  rw [List.length_append, length_writeUint32, writeEntries_length hbody]

/-! ## What the writers throw is an exception of the code -/

theorem writeShortstring_ne_stuck (s : List UInt8) : writeShortstring s ≠ .error .stuck := by
  unfold writeShortstring
  split <;> simp

theorem writeLongstring_ne_stuck (s : List UInt8) : writeLongstring s ≠ .error .stuck := by
  unfold writeLongstring
  split <;> simp

theorem writeValues_ne_stuck {a : List FieldValue} (h : ∀ v ∈ a, writeTableValue v ≠ .error .stuck) :
    writeValues a ≠ .error .stuck := by
  induction a with
  | nil => simp [writeValues, pure, Except.pure]
  | cons v vs ih =>
    obtain ⟨hv, hvs⟩ := List.forall_mem_cons.mp h
    rw [writeValues]
    exact Except.bind_ne_error hv fun b => Except.bind_ne_error (ih hvs) fun bs => by simp [pure, Except.pure]

theorem writeEntries_ne_stuck {t : TableMap} (h : ∀ e ∈ t, writeTableValue e.getData ≠ .error .stuck) :
    writeEntries t ≠ .error .stuck := by
  induction t with
  | nil => simp [writeEntries, pure, Except.pure]
  | cons e es ih =>
    obtain ⟨he, hes⟩ := List.forall_mem_cons.mp h
    rw [writeEntries_cons, writeTableEntry]
    refine Except.bind_ne_error ?_ fun b => Except.bind_ne_error (ih hes) fun bs => by simp [pure, Except.pure]
    exact Except.bind_ne_error (writeShortstring_ne_stuck _) fun k => Except.bind_ne_error he fun b => by simp [pure, Except.pure]

theorem writeTableValue_ne_stuck (v : FieldValue) : writeTableValue v ≠ .error .stuck := by
  induction v using FieldValue.induction with
  | scalar v hs =>
    cases v with
    | longstring s =>
      rw [writeTableValue]
      exact Except.bind_ne_error (writeLongstring_ne_stuck s) fun b => by simp [pure, Except.pure]
    | fieldarray a => cases hs
    | fieldtable t => cases hs
    | _ => simp [writeTableValue, pure, Except.pure]
  | array a ih =>
    rw [writeTableValue]
    exact Except.bind_ne_error (writeValues_ne_stuck ih) fun b => by simp [pure, Except.pure]
  | table t ih =>
    rw [writeTableValue]
    exact Except.bind_ne_error (writeEntries_ne_stuck ih) fun b => by simp [pure, Except.pure]

theorem writeTable_ne_stuck (t : TableMap) : writeTable t ≠ .error .stuck :=
  Except.bind_ne_error (writeEntries_ne_stuck fun e _ => writeTableValue_ne_stuck e.getData) fun b => by simp [pure, Except.pure]

/-! ## What is written at all -/

theorem exists_writeValues {a : List FieldValue} (h : ∀ v ∈ a, ∃ b, writeTableValue v = .ok b) :
    ∃ bs, writeValues a = .ok bs := by
  induction a with
  | nil => exact ⟨[], rfl⟩
  | cons v vs ih =>
    obtain ⟨b, hb⟩ := h v List.mem_cons_self
    obtain ⟨bs, hbs⟩ := ih fun x hx => h x (List.mem_cons_of_mem _ hx)
    exact ⟨b ++ bs, by rw [writeValues, hb, hbs]; rfl⟩

theorem exists_writeEntries {t : TableMap} (hkey : ∀ e ∈ t, e.getKey.length ≤ 128)
    (h : ∀ e ∈ t, ∃ b, writeTableValue e.getData = .ok b) : ∃ bs, writeEntries t = .ok bs := by
  induction t with
  | nil => exact ⟨[], rfl⟩
  | cons e es ih =>
    obtain ⟨b, hb⟩ := h e List.mem_cons_self
    obtain ⟨bs, hbs⟩ := ih (fun x hx => hkey x (List.mem_cons_of_mem _ hx)) fun x hx => h x (List.mem_cons_of_mem _ hx)
    have hk := hkey e List.mem_cons_self
    have he : writeTableEntry e = .ok _ := writeTableEntry_eq_ok.mpr ⟨by omega, b, hb, rfl⟩
    exact ⟨_, by rw [writeEntries_cons, he, hbs]; rfl⟩

/-- A valid value that takes less than `2 ^ 32` bytes is written. -/
theorem exists_writeTableValue {v : FieldValue} (hv : v.Valid) (hlen : v.total FieldValue.emitted < 2 ^ 32) :
    ∃ bs, writeTableValue v = .ok bs := by
  induction v using FieldValue.induction with
  | scalar v hs =>
    rw [FieldValue.total_of_isScalar hs] at hlen
    cases v with
    | longstring s =>
      have hs : s.length < 2 ^ 32 := by
        simp only [FieldValue.here] at hlen
        omega
      exact ⟨_, by rw [writeTableValue, writeLongstring_eq_ok.mpr ⟨hs, rfl⟩]; rfl⟩
    | fieldarray a => cases hs
    | fieldtable t => cases hs
    | _ => exact ⟨_, rfl⟩
  | array a ih =>
    obtain ⟨-, ha⟩ := (FieldValue.all_fieldarray a).mp hv
    rw [FieldValue.total_fieldarray] at hlen
    obtain ⟨body, hbody⟩ := exists_writeValues fun v hm => by
      have hle : v.total FieldValue.emitted ≤ (a.map (·.total FieldValue.emitted)).sum :=
        List.le_sum_of_mem (List.mem_map_of_mem hm)
      exact ih v hm (ha v hm) (by omega)
    exact ⟨_, writeTableValue_fieldarray.mpr ⟨body, hbody, rfl⟩⟩
  | table t ih =>
    obtain ⟨⟨-, hkey⟩, ht⟩ := (FieldValue.all_fieldtable t).mp hv
    rw [FieldValue.total_fieldtable] at hlen
    change _ + TableMap.total FieldValue.emitted t < _ at hlen
    obtain ⟨body, hbody⟩ := exists_writeEntries hkey fun e he => by
      have hle := TableMap.total_le_of_mem (w := FieldValue.emitted) he
      exact ih e he (ht e he) (by omega)
    exact ⟨_, writeTableValue_fieldtable.mpr ⟨_, writeTable_eq_ok.mpr ⟨body, hbody, rfl⟩, rfl⟩⟩

/-- A table that takes less than `2 ^ 32` bytes is written. -/
theorem Table.exists_writeTable (t : Table) (hlen : 4 + (keysSize t.map + t.map.total FieldValue.emitted) < 2 ^ 32) :
    ∃ bs, writeTable t.map = .ok bs := by
  obtain ⟨body, hbody⟩ := exists_writeEntries t.key_le fun e he => by
    have hle := TableMap.total_le_of_mem (w := FieldValue.emitted) he
    exact exists_writeTableValue (t.valid e he) (by omega)
  exact ⟨_, writeTable_eq_ok.mpr ⟨body, hbody, rfl⟩⟩

/-! ## What is written inside a table -/

/-- The chunk of each element is no longer than the chunks together. -/
theorem forall₂_chunks {α : Type} {R : α → List UInt8 → Prop} {xs : List α} {chunks : List (List UInt8)}
    (h : List.Forall₂ R xs chunks) :
    List.Forall₂ (fun x c => R x c ∧ x ∈ xs ∧ c.length ≤ chunks.flatten.length) xs chunks := by
  induction h with
  | nil => exact List.Forall₂.nil
  | cons hc _ ih =>
    simp only [List.flatten_cons, List.length_append, List.mem_cons]
    refine List.Forall₂.cons ⟨hc, Or.inl rfl, by omega⟩ (ih.imp fun x c hx => ⟨hx.1, Or.inr hx.2.1, ?_⟩)
    have hle := hx.2.2
    omega

/-- Every element has a chunk. -/
theorem exists_chunk_of_mem {α : Type} {R : α → List UInt8 → Prop} {xs : List α} {chunks : List (List UInt8)}
    (h : List.Forall₂ R xs chunks) {x : α} (hx : x ∈ xs) : ∃ c, R x c := by
  induction h with
  | nil => cases hx
  | cons hc _ ih =>
    rcases List.mem_cons.mp hx with rfl | hx
    · exact ⟨_, hc⟩
    · exact ih hx

/-- Every entry of a written map was written, and so was its value. -/
theorem writeEntries_mem {t : TableMap} {bs : List UInt8} (h : writeEntries t = .ok bs) {e : TableEntry} (he : e ∈ t) :
    ∃ c d, writeTableEntry e = .ok c ∧ writeTableValue e.getData = .ok d ∧ d.length ≤ c.length ∧ c.length ≤ bs.length := by
  obtain ⟨chunks, hc, rfl⟩ := writeEntries_eq_ok h
  obtain ⟨c, hwrite, -, hle⟩ := exists_chunk_of_mem (forall₂_chunks hc) he
  obtain ⟨-, d, hd, hcd⟩ := writeTableEntry_eq_ok.mp hwrite
  refine ⟨c, d, hwrite, hd, ?_, hle⟩
  rw [hcd, List.length_append]
  omega

/-! ## The alternatives sized as written -/

/-- The alternatives whose size is counted as it is written. -/
def FieldValue.sizedAsWritten : FieldValue → Prop
  | .decimal _ _ | .fieldarray _ | .bytes _ => False
  | _ => True

/-- What the visitor counts for such a value is what the writer writes. -/
theorem FieldValue.total_announced_eq {v : FieldValue} (h : v.All sizedAsWritten) : v.total announced = v.total emitted := by
  have hsurplus : v.total surplus = 0 :=
    (total_eq_zero_iff v).mpr (h.mono fun x hx => by cases x <;> first | rfl | exact hx.elim)
  have hdeficit : v.total deficit = 0 :=
    (total_eq_zero_iff v).mpr (h.mono fun x hx => by cases x <;> first | rfl | exact hx.elim)
  have hsum := v.total_announced
  omega

theorem TableMap.total_announced_eq {t : TableMap} (h : t.All FieldValue.sizedAsWritten) :
    t.total FieldValue.announced = t.total FieldValue.emitted := by
  unfold TableMap.total
  exact congrArg List.sum (List.map_congr_left fun e he => FieldValue.total_announced_eq (h e he))

/-- The length in front of such a table is the length of its entries. -/
theorem entriesSize_eq_length {t : TableMap} (ht : t.All FieldValue.sizedAsWritten) {body : List UInt8}
    (h : writeEntries t = .ok body) : entriesSize t = UInt32.ofNat body.length := by
  rw [entriesSize_eq, TableMap.total_announced_eq ht, ← writeEntries_length h]

end Amqpp
