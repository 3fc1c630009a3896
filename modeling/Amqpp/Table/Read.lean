import Amqpp.Table.Write
import Amqpp.Wire.Float

/-!
# Reading tables

`read_table`, `read_table_entry` and `read_field_value`. The three call each other; `readFieldValueN n` is
`read_field_value` with `n` levels of nesting to go, and a stream never holds more levels than bytes (`readTable_ne_stuck`).
-/

namespace Amqpp

section reading

variable (readFieldValue : Reader Exception FieldValue)

/-- `read_table_entry`. -/
def readTableEntryWith : Reader Exception TableEntry := do
  let fieldName ← readShortstring
  let fieldValue ← readFieldValue
  Reader.lift (TableEntry.create fieldName fieldValue)

/-- One pass of the loop of `read_table`. -/
def readTableBody (t : TableMap) : Reader Exception TableMap := do
  return t.insert (← readTableEntryWith readFieldValue)

/-- `read_table`: the loop looks ahead for the end of the string it reads. -/
def readTableWith : Reader Exception TableMap := do
  let is ← readLongstring
  Reader.onString is (Reader.whileM IStream.peek (readTableBody readFieldValue) .stuck (is.length + 1) [])

/-- One pass of the loop over an array. -/
def readArrayBody (val : List FieldValue) : Reader Exception (List FieldValue) := do
  return val ++ [← readFieldValue]

/-- The cases of `read_field_value`. -/
def readPayload : FieldType → Reader Exception FieldValue
  | .boolean => do return .boolean (if 0 = (← readUint8) then false else true)
  | .int8 => do return .int8 (← readUint8).toInt8
  | .int16 => do return .int16 (← readUint16).toInt16
  | .int32 => do return .int32 (← readUint32).toInt32
  | .int64 => do return .int64 (← readUint64).toInt64
  | .float => do return .float (← readUint32)
  -- Eight bytes are read, and the first four of them in memory (the low half of the word on a little-endian host) are taken
  -- for a float.
  | .double => do return .double (floatToDouble (← readUint64).toUInt32)
  | .decimal => do
    let mag ← readUint8
    let val ← readUint32
    return .decimal mag val.toInt32
  | .longstring => do return .longstring (← readLongstring)
  -- The loop over an array tests the flag only, so it reads on at the end of the string.
  | .fieldarray => do
    let fieldarray ← readLongstring
    let val ← Reader.onString fieldarray
      (Reader.whileM IStream.notEof (readArrayBody readFieldValue) .stuck (fieldarray.length + 1) [])
    return .fieldarray val
  | .timestamp => do return .timestamp (← readUint64)
  | .fieldtable => do return .fieldtable (← readTableWith readFieldValue)
  | .void => return .void
  -- A byte string is read with a length in front.
  | .bytes => do
    let size ← readUint32
    let val ← Reader.exactly size.toNat (.runtimeError "Read failed.")
    return .bytes val

/-- The `switch` of `read_field_value`. -/
def readCase (fieldType : UInt8) : Reader Exception FieldValue :=
  match FieldType.ofCode fieldType with
  | some ty => readPayload readFieldValue ty
  | none => throw (.runtimeError "Invalid field table type")

end reading

/-- `read_field_value`, for at most `n` values inside each other. -/
def readFieldValueN : Nat → Reader Exception FieldValue
  | 0 => throw .stuck
  | n + 1 => do readCase (readFieldValueN n) (← readUint8)

/-- `read_field_value`. -/
def readFieldValue : Reader Exception FieldValue := fun s => readFieldValueN (s.buf.length + 1) s

/-- `read_table_entry`. -/
def readTableEntry : Reader Exception TableEntry := fun s => readTableEntryWith (readFieldValueN (s.buf.length + 1)) s

/-- `read_table`. -/
def readTable : Reader Exception TableMap := fun s => readTableWith (readFieldValueN (s.buf.length + 1)) s

/-! ## What is read is no longer than the bytes it is read from -/

/-- What the reader takes: five bytes for a decimal, a length for an array and for a byte string. -/
abbrev FieldValue.taken : FieldValue → Nat := FieldValue.here 6 5 5

/-- Not an array. -/
def FieldValue.isNotArray : FieldValue → Prop
  | .fieldarray _ => False
  | _ => True

/-- What a reader of field values can return from the bytes `p`: a value that takes no more, with no array in it. -/
def FieldValue.TakenFrom (k : Nat) (p : List UInt8) (v : FieldValue) : Prop :=
  v.total FieldValue.taken ≤ k + p.length ∧ v.All FieldValue.isNotArray

/-- The bytes a map was read from, the values inside it included. -/
def TableMap.taken (t : TableMap) : Nat := keysSize t + t.total FieldValue.taken

theorem TableMap.taken_cons (e : TableEntry) (t : TableMap) :
    TableMap.taken (e :: t) = (1 + e.getKey.length + e.getData.total FieldValue.taken) + TableMap.taken t := by
  rw [taken, keysSize_cons, TableMap.total, List.map_cons, List.sum_cons, taken, TableMap.total]
  omega

/-- Inserting an entry adds no more than the entry takes. -/
theorem TableMap.taken_insert_le (t : TableMap) (e : TableEntry) :
    TableMap.taken (t.insert e) ≤ (1 + e.getKey.length + e.getData.total FieldValue.taken) + TableMap.taken t := by
  unfold TableMap.insert
  induction t with
  | nil => exact le_of_eq (taken_cons e [])
  | cons x t ih =>
    rw [SortedMap.insertBy]
    split
    · exact le_of_eq (taken_cons e _)
    · split
      · rw [taken_cons, taken_cons]
        omega
      · omega

section taken

variable {rfv : Reader Exception FieldValue}

/-- An entry is read from its key and its value. -/
theorem parses_readTableEntryWith (h : Reader.Parses rfv (FieldValue.TakenFrom 0)) :
    Reader.Parses (readTableEntryWith rfv) (fun p e =>
      1 + e.getKey.length + e.getData.total FieldValue.taken ≤ p.length ∧ e.getData.All FieldValue.isNotArray) := by
  refine (parses_readShortstring.bind fun _ => h.bind fun _ => Reader.Parses.lift _).mono ?_
  rintro _ e ⟨p₁, key, _, rfl, ⟨-, rfl⟩, p₂, v, _, rfl, ⟨hv, harr⟩, rfl, hcreate⟩
  obtain ⟨-, rfl⟩ := TableEntry.create_eq_ok.mp hcreate
  refine ⟨?_, harr⟩
  simp only [List.length_append, length_writeUint8, List.length_nil, TableEntry.getKey_mk, TableEntry.getData_mk]
  omega

/-- A table is read from its length and its entries. -/
theorem parses_readTableWith (h : Reader.Parses rfv (FieldValue.TakenFrom 0)) :
    Reader.Parses (readTableWith rfv) (fun p t => ∃ body, p = writeUint32 (UInt32.ofNat body.length) ++ body ∧
      body.length < 2 ^ 32 ∧ t.taken ≤ body.length ∧ t.All FieldValue.isNotArray) := by
  refine (parses_readLongstring.bind fun is => Reader.Parses.onString is _).mono ?_
  rintro _ t ⟨_, body, _, rfl, ⟨hlen, rfl⟩, rfl, s, hloop⟩
  refine ⟨body, by rw [List.append_nil], hlen, ?_⟩
  -- The entries gathered and the bytes left never exceed the string.
  have hinv := Reader.whileM_invariant IStream.tests_peek
    (fun left (acc : TableMap) => acc.taken + left.length ≤ body.length ∧ acc.All FieldValue.isNotArray) ?_
    (body.length + 1) [] (.ofString body) t s ⟨by simp [IStream.ofString, TableMap.taken, keysSize, TableMap.total],
      by simp [TableMap.All]⟩ hloop
  · exact ⟨by omega, hinv.2⟩
  · intro acc buf acc' s' hacc hbody
    obtain ⟨e, s'', he, hins⟩ := Reader.bind_eq_ok.mp hbody
    cases hins
    obtain ⟨p, rest, rfl, rfl, hle, harr⟩ := parses_readTableEntryWith h _ _ _ he
    have hins := TableMap.taken_insert_le acc e
    rw [List.length_append] at hacc
    refine ⟨?_, fun x hx => ?_⟩
    · change _ + rest.length ≤ _
      omega
    · rcases SortedMap.mem_of_mem_insertBy hx with rfl | hx
      · exact harr
      · exact hacc.2 x hx

/-- An array is never returned: the loop ends only by an exception. -/
theorem readArray_ne_ok (h : Reader.Parses rfv (FieldValue.TakenFrom 0)) (k : Nat) (buf : List UInt8)
    (r : List FieldValue × IStream) :
    Reader.whileM IStream.notEof (readArrayBody rfv) .stuck k [] (.ofString buf) ≠ .ok r := by
  refine Reader.whileM_notEof_ne_ok ?_ k [] buf r
  intro acc buf acc' s' hbody
  obtain ⟨v, s'', hv, hret⟩ := Reader.bind_eq_ok.mp hbody
  cases hret
  obtain ⟨_, rest, -, rfl, -⟩ := h _ _ _ hv
  rfl

/-- A scalar that takes no more bytes than there are. -/
theorem FieldValue.takenFrom_of_isScalar {k : Nat} {p : List UInt8} {v : FieldValue} (hs : v.isScalar = true)
    (hle : v.taken ≤ k + p.length) : v.TakenFrom k p := by
  refine ⟨by rwa [FieldValue.total_of_isScalar hs], (FieldValue.all_of_isScalar hs).mpr ?_⟩
  cases v <;> trivial

/-- A scalar read as one word. -/
theorem parses_word {α : Type} {r : Reader Exception α} {w : α → List UInt8} (h : Reader.Parses r (fun p i => p = w i))
    (f : α → FieldValue) (hs : ∀ i, (f i).isScalar = true) (hle : ∀ i, (f i).taken ≤ 1 + (w i).length) :
    Reader.Parses (r >>= fun i => pure (f i)) (FieldValue.TakenFrom 1) := by
  refine (h.bind fun i => Reader.Parses.pure _).mono ?_
  rintro _ v ⟨_, i, _, rfl, rfl, rfl, rfl⟩
  rw [List.append_nil]
  exact FieldValue.takenFrom_of_isScalar (hs i) (hle i)

/-- What is read after a type byte. -/
theorem parses_readPayload (h : Reader.Parses rfv (FieldValue.TakenFrom 0)) (ty : FieldType) :
    Reader.Parses (readPayload rfv ty) (FieldValue.TakenFrom 1) := by
  cases ty with
  | boolean => exact parses_word parses_readUint8 _ (fun _ => rfl) fun _ => le_rfl
  | int8 => exact parses_word parses_readUint8 _ (fun _ => rfl) fun _ => le_rfl
  | int16 => exact parses_word parses_readUint16 _ (fun _ => rfl) fun _ => by rw [length_writeUint16]; exact le_rfl
  | int32 => exact parses_word parses_readUint32 _ (fun _ => rfl) fun _ => by rw [length_writeUint32]; exact le_rfl
  | int64 => exact parses_word parses_readUint64 _ (fun _ => rfl) fun _ => by rw [length_writeUint64]; exact le_rfl
  | float => exact parses_word parses_readUint32 _ (fun _ => rfl) fun _ => by rw [length_writeUint32]; exact le_rfl
  | double => exact parses_word parses_readUint64 _ (fun _ => rfl) fun _ => by rw [length_writeUint64]; exact le_rfl
  | timestamp => exact parses_word parses_readUint64 _ (fun _ => rfl) fun _ => by rw [length_writeUint64]; exact le_rfl
  | decimal =>
    refine (parses_readUint8.bind fun _ => parses_readUint32.bind fun _ => Reader.Parses.pure _).mono ?_
    rintro _ v ⟨_, mag, _, rfl, rfl, _, val, _, rfl, rfl, rfl, rfl⟩
    refine FieldValue.takenFrom_of_isScalar rfl ?_
    simp only [FieldValue.here, List.length_append, length_writeUint8, length_writeUint32]
    omega
  | longstring =>
    refine (parses_readLongstring.bind fun _ => Reader.Parses.pure _).mono ?_
    rintro _ v ⟨_, s, _, rfl, ⟨-, rfl⟩, rfl, rfl⟩
    refine FieldValue.takenFrom_of_isScalar rfl ?_
    simp only [FieldValue.here, List.length_append, length_writeUint32]
    omega
  | fieldarray =>
    refine (parses_readLongstring.bind fun _ => (Reader.Parses.onString _ _).bind fun _ => Reader.Parses.pure _).mono ?_
    rintro _ v ⟨_, _, _, rfl, -, _, a, _, rfl, ⟨-, s, hloop⟩, -⟩
    exact (readArray_ne_ok h _ _ _ hloop).elim
  | fieldtable =>
    refine ((parses_readTableWith h).bind fun _ => Reader.Parses.pure _).mono ?_
    rintro _ v ⟨_, t, _, rfl, ⟨body, rfl, -, hle, harr⟩, rfl, rfl⟩
    have hhere : FieldValue.taken (.fieldtable t) = 5 + keysSize t := rfl
    refine ⟨?_, (FieldValue.all_fieldtable t).mpr ⟨trivial, harr⟩⟩
    rw [TableMap.taken, TableMap.total] at hle
    rw [FieldValue.total_fieldtable, hhere, List.append_nil, List.length_append, length_writeUint32]
    omega
  | void =>
    refine (Reader.Parses.pure _).mono ?_
    rintro _ v ⟨rfl, rfl⟩
    exact FieldValue.takenFrom_of_isScalar rfl le_rfl
  | bytes =>
    refine (parses_readUint32.bind fun _ => (Reader.Parses.exactly _ _).bind fun _ => Reader.Parses.pure _).mono ?_
    rintro _ v ⟨_, size, _, rfl, rfl, b, _, _, rfl, ⟨rfl, -⟩, rfl, rfl⟩
    refine FieldValue.takenFrom_of_isScalar rfl ?_
    simp only [FieldValue.here, List.length_append, length_writeUint32]
    omega

theorem parses_readCase (h : Reader.Parses rfv (FieldValue.TakenFrom 0)) (fieldType : UInt8) :
    Reader.Parses (readCase rfv fieldType) (FieldValue.TakenFrom 1) := by
  unfold readCase
  cases FieldType.ofCode fieldType with
  | none => exact Reader.Parses.throw _ _
  | some ty => exact parses_readPayload h ty

/-- A value that is read takes no more than the bytes it is read from, and has no array in it. -/
theorem parses_readFieldValueN (n : Nat) : Reader.Parses (readFieldValueN n) (FieldValue.TakenFrom 0) := by
  induction n with
  | zero => exact Reader.Parses.throw _ _
  | succ n ih =>
    refine (parses_readUint8.bind (parses_readCase ih)).mono ?_
    rintro _ v ⟨_, code, p, rfl, rfl, hle, harr⟩
    refine ⟨?_, harr⟩
    rw [List.length_append, length_writeUint8]
    omega

end taken

/-! ## The readers return or throw -/

theorem TableEntry.create_ne_stuck (key : List UInt8) (data : FieldValue) : create key data ≠ .error .stuck := by
  unfold create
  split <;> simp

section ends

variable {rfv : Reader Exception FieldValue} {n : Nat}

theorem ends_readTableEntryWith (hp : Reader.Parses rfv (FieldValue.TakenFrom 0)) (h : Reader.Ends .stuck n rfv) :
    Reader.Ends .stuck n (readTableEntryWith rfv) := by
  refine ends_readShortstring.bind parses_readShortstring fun _ _ _ _ => ?_
  refine (h.mono (Nat.sub_le _ _)).bind hp fun _ _ _ _ => ?_
  exact Reader.Ends.lift (TableEntry.create_ne_stuck _ _)

/-- The length in front of a table is no part of what its values are read from. -/
theorem ends_readTableWith (hp : Reader.Parses rfv (FieldValue.TakenFrom 0)) (h : Reader.Ends .stuck (n - 4) rfv) :
    Reader.Ends .stuck n (readTableWith rfv) := by
  refine ends_readLongstring.bind parses_readLongstring fun p is his hle => Reader.Ends.onString ?_
  have hlen : is.length ≤ n - 4 := by
    rw [his.2, List.length_append, length_writeUint32] at hle
    omega
  refine Reader.ends_whileM IStream.tests_peek (fun acc => ?_) (fun acc => ?_) (Nat.lt_succ_self _) []
  · exact (ends_readTableEntryWith hp (h.mono hlen)).map _
  · refine ((parses_readTableEntryWith hp).bind fun _ => Reader.Parses.pure _).mono ?_
    rintro _ t ⟨p, e, _, rfl, ⟨hlen, -⟩, rfl, -⟩ hnil
    rw [List.append_nil] at hnil
    rw [hnil, List.length_nil] at hlen
    omega

/-- Nor is that in front of an array. -/
theorem ends_readPayload (hp : Reader.Parses rfv (FieldValue.TakenFrom 0)) (hne : Reader.Parses rfv fun p _ => p ≠ [])
    (h : Reader.Ends .stuck (n - 4) rfv) (ty : FieldType) : Reader.Ends .stuck n (readPayload rfv ty) := by
  cases ty with
  | boolean => exact ends_readUint8.map _
  | int8 => exact ends_readUint8.map _
  | int16 => exact ends_readUint16.map _
  | int32 => exact ends_readUint32.map _
  | int64 => exact ends_readUint64.map _
  | float => exact ends_readUint32.map _
  | double => exact ends_readUint64.map _
  | timestamp => exact ends_readUint64.map _
  | decimal => exact ends_readUint8.bind parses_readUint8 fun _ _ _ _ => ends_readUint32.map _
  | longstring => exact ends_readLongstring.map _
  | fieldarray =>
    refine ends_readLongstring.bind parses_readLongstring fun p is his hle => Reader.Ends.map (Reader.Ends.onString ?_) _
    have hlen : is.length ≤ n - 4 := by
      rw [his.2, List.length_append, length_writeUint32] at hle
      omega
    refine Reader.ends_whileM IStream.tests_notEof (fun acc => (h.mono hlen).map _) (fun acc => ?_) (Nat.lt_succ_self _) []
    refine (hne.bind fun _ => Reader.Parses.pure _).mono ?_
    rintro _ a ⟨p, v, _, rfl, hp, rfl, -⟩
    rwa [List.append_nil]
  | fieldtable => exact (ends_readTableWith hp h).map _
  | void => exact Reader.Ends.pure _
  | bytes =>
    exact ends_readUint32.bind parses_readUint32 fun _ _ _ _ => (Reader.Ends.exactly (by decide) _).map _

/-- A value is read from at least its type byte. -/
theorem parses_readFieldValueN_ne_nil (n : Nat) : Reader.Parses (readFieldValueN n) (fun p _ => p ≠ []) := by
  cases n with
  | zero => exact Reader.Parses.throw _ _
  | succ n =>
    refine (parses_readUint8.bind (parses_readCase (parses_readFieldValueN n))).mono ?_
    rintro _ v ⟨_, code, p, rfl, rfl, -⟩
    exact List.cons_ne_nil _ _

/-- The nesting never exceeds the bytes: each level takes a type byte. -/
theorem ends_readFieldValueN (n m : Nat) (hm : m < n) : Reader.Ends .stuck m (readFieldValueN n) := by
  induction n generalizing m with
  | zero => omega
  | succ n ih =>
    refine ends_readUint8.bind parses_readUint8 fun p code hp hle => ?_
    have hlen : p.length = 1 := hp ▸ length_writeUint8 code
    unfold readCase
    cases FieldType.ofCode code with
    | none => exact Reader.Ends.throw (by decide)
    | some ty =>
      exact ends_readPayload (parses_readFieldValueN n) (parses_readFieldValueN_ne_nil n) (ih _ (by omega)) ty

end ends

/-- `read_table` returns a table or throws one of its exceptions, whatever the bytes. -/
theorem readTable_ne_stuck (buf : List UInt8) : readTable (.ofString buf) ≠ .error .stuck :=
  ends_readTableWith (parses_readFieldValueN _) (ends_readFieldValueN _ _ (show buf.length - 4 < buf.length + 1 by omega)) buf le_rfl

end Amqpp
