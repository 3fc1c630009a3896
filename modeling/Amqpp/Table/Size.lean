import Amqpp.Table.Value
import Amqpp.Wire.Strings

/-!
# Announced sizes

`datatype_size_counter`, `table_entry::wireformat_data_size`, `table_entry::wireformat_size` and `table::wireformat_size`,
all in `uint32_t`. The size a value announces is a sum over the value and everything inside it (`announced`), taken modulo
`2 ^ 32`.
-/

namespace Amqpp

mutual

/-- `datatype_size_counter`. `sizeof(decimal_t)` is 8: a byte, three bytes of padding and four bytes. -/
def datatypeSize : FieldValue → UInt32
  | .boolean _ => 1
  | .int8 _ => 1
  | .int16 _ => 2
  | .int32 _ => 4
  | .int64 _ => 8
  | .float _ => 4
  | .double _ => 8
  | .decimal _ _ => 8
  | .longstring s => wireformatSizeLongstring s
  | .fieldarray a => valuesSize a
  | .timestamp _ => 8
  | .fieldtable t => 4 + entriesSize t
  | .void => 0
  | .bytes b => 4 + UInt32.ofNat b.length

/-- The loop over an array: each element announces its `wireformat_data_size`. -/
def valuesSize : List FieldValue → UInt32
  | [] => 0
  | v :: vs => (1 + datatypeSize v) + valuesSize vs

/-- The loop over a map: each entry announces its `wireformat_size`. -/
def entriesSize : List TableEntry → UInt32
  | [] => 0
  | .mk key v :: es => (wireformatSizeShortstring key + (1 + datatypeSize v)) + entriesSize es

end

/-- `table_entry::wireformat_data_size`: the type byte and the value. -/
def wireformatDataSize (v : FieldValue) : UInt32 := 1 + datatypeSize v

/-- `table_entry::wireformat_size`. -/
def TableEntry.wireformatSize (e : TableEntry) : UInt32 :=
  wireformatSizeShortstring e.getKey + wireformatDataSize e.getData

/-- `table::wireformat_size`: the length prefix and the entries. -/
def TableMap.wireformatSize (m : TableMap) : UInt32 := 4 + entriesSize m

/-! ## The sizes as sums -/

/-- The bytes of the keys of a map, each with its length byte. -/
def keysSize (t : List TableEntry) : Nat := (t.map fun e => 1 + e.getKey.length).sum

/-- The bytes a value accounts for itself, type byte included and the values inside it left out, when a decimal counts
`dec`, an array `arr`, and a byte string `pre` besides its bytes. -/
def FieldValue.here (dec arr pre : Nat) : FieldValue → Nat
  | .boolean _ | .int8 _ => 2
  | .int16 _ => 3
  | .int32 _ | .float _ => 5
  | .int64 _ | .double _ | .timestamp _ => 9
  | .decimal _ _ => dec
  | .longstring s => 5 + s.length
  | .fieldarray _ => arr
  | .fieldtable t => 5 + keysSize t
  | .void => 1
  | .bytes b => pre + b.length

/-- What `datatype_size_counter` counts: eight bytes for a decimal, no length prefix for an array, one for a byte string. -/
abbrev FieldValue.announced : FieldValue → Nat := FieldValue.here 9 1 5

theorem wireformatSizeShortstring_eq (s : List UInt8) : wireformatSizeShortstring s = UInt32.ofNat (1 + s.length) := by
  rw [wireformatSizeShortstring, UInt32.ofNat_add]
  rfl

theorem wireformatSizeLongstring_eq (s : List UInt8) : wireformatSizeLongstring s = UInt32.ofNat (4 + s.length) := by
  rw [wireformatSizeLongstring, UInt32.ofNat_add]
  rfl

theorem valuesSize_cons (v : FieldValue) (vs : List FieldValue) :
    valuesSize (v :: vs) = wireformatDataSize v + valuesSize vs := by
  rw [valuesSize, wireformatDataSize]

theorem entriesSize_cons (e : TableEntry) (es : List TableEntry) :
    entriesSize (e :: es) = e.wireformatSize + entriesSize es := by
  obtain ⟨key, v⟩ := e
  rw [entriesSize, TableEntry.wireformatSize, wireformatDataSize, TableEntry.getKey_mk, TableEntry.getData_mk]

theorem keysSize_cons (e : TableEntry) (es : List TableEntry) :
    keysSize (e :: es) = 1 + e.getKey.length + keysSize es := by
  rw [keysSize, List.map_cons, List.sum_cons, keysSize]

/-- The size of an array's elements, when each announces its sum. -/
theorem valuesSize_eq_of {a : List FieldValue}
    (h : ∀ v ∈ a, wireformatDataSize v = UInt32.ofNat (v.total FieldValue.announced)) :
    valuesSize a = UInt32.ofNat (a.map (·.total FieldValue.announced)).sum := by
  induction a with
  | nil => rfl
  | cons v vs ih =>
    rw [valuesSize_cons, h v List.mem_cons_self, ih fun x hx => h x (List.mem_cons_of_mem _ hx), List.map_cons,
      List.sum_cons, UInt32.ofNat_add]

/-- The size of a map's entries, when each value announces its sum. -/
theorem entriesSize_eq_of {t : List TableEntry}
    (h : ∀ e ∈ t, wireformatDataSize e.getData = UInt32.ofNat (e.getData.total FieldValue.announced)) :
    entriesSize t = UInt32.ofNat (keysSize t + (t.map (·.getData.total FieldValue.announced)).sum) := by
  induction t with
  | nil => rfl
  | cons e es ih =>
    have hsum : keysSize (e :: es) + ((e :: es).map (·.getData.total FieldValue.announced)).sum =
        (1 + e.getKey.length) + e.getData.total FieldValue.announced +
          (keysSize es + (es.map (·.getData.total FieldValue.announced)).sum) := by
      rw [keysSize_cons, List.map_cons, List.sum_cons]
      omega
    rw [entriesSize_cons, TableEntry.wireformatSize, h e List.mem_cons_self,
      ih fun x hx => h x (List.mem_cons_of_mem _ hx), wireformatSizeShortstring_eq, hsum, UInt32.ofNat_add (_ + _) (_ + _),
      UInt32.ofNat_add (1 + e.getKey.length) (FieldValue.total _ _)]

/-- A value announces the sum over itself and everything inside it. -/
theorem wireformatDataSize_eq (v : FieldValue) : wireformatDataSize v = UInt32.ofNat (v.total FieldValue.announced) := by
  induction v using FieldValue.induction with
  | scalar v hs =>
    rw [FieldValue.total_of_isScalar hs, wireformatDataSize]
    cases v with
    | longstring s =>
      rw [datatypeSize, wireformatSizeLongstring_eq, FieldValue.announced, FieldValue.here,
        show 5 + s.length = 1 + (4 + s.length) by omega, UInt32.ofNat_add 1 (4 + s.length)]
      rfl
    | bytes b =>
      rw [datatypeSize, FieldValue.announced, FieldValue.here, show 5 + b.length = 1 + (4 + b.length) by omega,
        UInt32.ofNat_add 1 (4 + b.length), UInt32.ofNat_add 4 b.length]
      rfl
    | fieldarray a => cases hs
    | fieldtable t => cases hs
    | _ => rfl
  | array a ih =>
    rw [FieldValue.total_fieldarray, wireformatDataSize, datatypeSize, valuesSize_eq_of ih, UInt32.ofNat_add]
    rfl
  | table t ih =>
    generalize hsum : keysSize t + (t.map (·.getData.total FieldValue.announced)).sum = n
    have htotal : (FieldValue.fieldtable t).total FieldValue.announced = 1 + (4 + n) := by
      have hhere : FieldValue.announced (.fieldtable t) = 5 + keysSize t := rfl
      rw [FieldValue.total_fieldtable, hhere, ← hsum]
      omega
    rw [htotal, wireformatDataSize, datatypeSize, entriesSize_eq_of ih, hsum, UInt32.ofNat_add 1 (4 + n),
      UInt32.ofNat_add 4 n]
    rfl

theorem valuesSize_eq (a : List FieldValue) : valuesSize a = UInt32.ofNat (a.map (·.total FieldValue.announced)).sum :=
  valuesSize_eq_of fun v _ => wireformatDataSize_eq v

theorem entriesSize_eq (t : List TableEntry) :
    entriesSize t = UInt32.ofNat (keysSize t + TableMap.total FieldValue.announced t) :=
  entriesSize_eq_of fun e _ => wireformatDataSize_eq e.getData

/-- `table_entry::wireformat_size` as a sum. -/
theorem TableEntry.wireformatSize_eq (e : TableEntry) :
    e.wireformatSize = UInt32.ofNat (1 + e.getKey.length + e.getData.total FieldValue.announced) := by
  rw [TableEntry.wireformatSize, wireformatSizeShortstring_eq, wireformatDataSize_eq,
    UInt32.ofNat_add (1 + e.getKey.length) (FieldValue.total _ _)]

/-- `table::wireformat_size` as a sum. -/
theorem TableMap.wireformatSize_eq (t : TableMap) :
    TableMap.wireformatSize t = UInt32.ofNat (4 + (keysSize t + t.total FieldValue.announced)) := by
  rw [TableMap.wireformatSize, entriesSize_eq, UInt32.ofNat_add 4 (_ + _)]
  rfl

/-- The length `write_table` writes: the size of the table less its own prefix. -/
theorem TableMap.wireformatSize_sub (t : TableMap) : TableMap.wireformatSize t - 4 = entriesSize t := by
  rw [TableMap.wireformatSize, UInt32.add_comm, UInt32.add_sub_cancel]

end Amqpp
