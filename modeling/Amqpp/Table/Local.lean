import Amqpp.Table.Read

/-!
# What a decoded table depends on

The readers of tables look at the bytes they take and at no others: a string read from the stream is parsed on its own, and
each level of nesting gets its passes from the bytes it has.
-/

namespace Amqpp

section nested

variable {rfv rfv' : Reader Exception FieldValue} {e : Exception}

theorem local_readTableEntryWith (h : Reader.Local rfv) : Reader.Local (readTableEntryWith rfv) :=
  local_readShortstring.bind fun _ => h.bind fun _ => Reader.Local.lift _

theorem local_readTableWith (rfv : Reader Exception FieldValue) : Reader.Local (readTableWith rfv) :=
  local_readLongstring.bind fun _ => Reader.Local.onString _ _

/-- What is read after a type byte. -/
theorem local_readPayload (rfv : Reader Exception FieldValue) (ty : FieldType) : Reader.Local (readPayload rfv ty) := by
  cases ty with
  | boolean => exact local_readUint8.map _
  | int8 => exact local_readUint8.map _
  | int16 => exact local_readUint16.map _
  | int32 => exact local_readUint32.map _
  | int64 => exact local_readUint64.map _
  | float => exact local_readUint32.map _
  | double => exact local_readUint64.map _
  | decimal => exact local_readUint8.bind fun _ => local_readUint32.map _
  | longstring => exact local_readLongstring.map _
  | fieldarray => exact local_readLongstring.bind fun _ => (Reader.Local.onString _ _).map _
  | timestamp => exact local_readUint64.map _
  | fieldtable => exact (local_readTableWith rfv).map _
  | void => exact Reader.Local.pure _
  | bytes => exact local_readUint32.bind fun _ => (Reader.Local.exactly _ _).map _

theorem local_readCase (rfv : Reader Exception FieldValue) (fieldType : UInt8) : Reader.Local (readCase rfv fieldType) := by
  unfold readCase
  cases FieldType.ofCode fieldType with
  | none => exact Reader.Local.throw _
  | some ty => exact local_readPayload rfv ty

/-! ## More levels of nesting -/

theorem extends_readTableEntryWith (h : Reader.Extends e rfv rfv') :
    Reader.Extends e (readTableEntryWith rfv) (readTableEntryWith rfv') :=
  (Reader.Extends.refl _).bind fun _ => h.bind fun _ => Reader.Extends.refl _

theorem extends_readTableWith (h : Reader.Extends e rfv rfv') :
    Reader.Extends e (readTableWith rfv) (readTableWith rfv') :=
  (Reader.Extends.refl _).bind fun _ =>
    Reader.Extends.onString _ (Reader.Extends.whileM (fun _ => (extends_readTableEntryWith h).map _) _ _)

/-- Only the values inside a value depend on the levels to go. -/
theorem extends_readPayload (h : Reader.Extends e rfv rfv') (ty : FieldType) :
    Reader.Extends e (readPayload rfv ty) (readPayload rfv' ty) := by
  cases ty with
  | fieldarray =>
    exact (Reader.Extends.refl _).bind fun _ =>
      (Reader.Extends.onString _ (Reader.Extends.whileM (fun _ => h.map _) _ _)).map _
  | fieldtable => exact (extends_readTableWith h).map _
  | _ => exact Reader.Extends.refl _

end nested

theorem local_readFieldValueN (n : Nat) : Reader.Local (readFieldValueN n) := by
  cases n with
  | zero => exact Reader.Local.throw _
  | succ n => exact local_readUint8.bind fun _ => local_readCase _ _

/-- One level more changes nothing, unless the levels there are were too few. -/
theorem extends_readFieldValueN (n : Nat) : Reader.Extends .stuck (readFieldValueN n) (readFieldValueN (n + 1)) := by
  induction n with
  | zero => exact Reader.Extends.throw _
  | succ n ih =>
    refine (Reader.Extends.refl _).bind fun fieldType => ?_
    unfold readCase
    cases FieldType.ofCode fieldType with
    | none => exact Reader.Extends.refl _
    | some ty => exact extends_readPayload ih ty

/-- What `read_field_value` takes, it takes with any levels enough for the bytes. -/
theorem reads_readFieldValueN_of_lt {p : List UInt8} {v : FieldValue} (h : Reader.Reads readFieldValue p v) {n : Nat} (hn : p.length < n) :
    Reader.Reads (readFieldValueN n) p v :=
  Reader.Reads.ofPasses local_readFieldValueN extends_readFieldValueN h hn

/-- What `read_table_entry` takes, it takes with any levels enough for the bytes. -/
theorem reads_readTableEntryWith_of_lt {p : List UInt8} {e : TableEntry} (h : Reader.Reads readTableEntry p e) {n : Nat}
    (hn : p.length < n) : Reader.Reads (readTableEntryWith (readFieldValueN n)) p e :=
  Reader.Reads.ofPasses (fun n => local_readTableEntryWith (local_readFieldValueN n))
    (fun n => extends_readTableEntryWith (extends_readFieldValueN n)) h hn

/-! ## The readers -/

theorem local_readFieldValue : Reader.Local readFieldValue :=
  Reader.Local.ofPasses local_readFieldValueN extends_readFieldValueN fun n m => ends_readFieldValueN n m

theorem local_readTableEntry : Reader.Local readTableEntry :=
  Reader.Local.ofPasses (fun n => local_readTableEntryWith (local_readFieldValueN n))
    (fun n => extends_readTableEntryWith (extends_readFieldValueN n))
    fun n m hm => ends_readTableEntryWith (parses_readFieldValueN n) (ends_readFieldValueN n m hm)

theorem local_readTable : Reader.Local readTable :=
  Reader.Local.ofPasses (fun n => local_readTableWith (readFieldValueN n))
    (fun n => extends_readTableWith (extends_readFieldValueN n))
    fun n m hm => ends_readTableWith (parses_readFieldValueN n) (ends_readFieldValueN n _ (Nat.lt_of_le_of_lt (Nat.sub_le m 4) hm))

end Amqpp
