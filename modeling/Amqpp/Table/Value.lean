import Amqpp.Exception
import Amqpp.Lib.SortedMap
import Mathlib.Algebra.BigOperators.Group.List.Basic
import Mathlib.Algebra.Order.BigOperators.Group.List
import Mathlib.Algebra.Order.Group.Nat
import Mathlib.Algebra.Ring.Nat

/-!
# Field values, entries and tables

`table_entry::field_value_t`, `table_entry` and `table`. A field value is one of fourteen alternatives; an array holds field
values and a table holds entries, so the three types are mutually recursive. A `table` is the sorted list of its `std::map`;
the structure `Table` is a map that `table::insert` can have built, at every depth.

Two traversals serve the statements about all depths: `All p` (`p` holds of the value and of every value inside it) and
`total w` (the sum of `w` over the same values).
-/

namespace Amqpp

mutual

/-- `table_entry::field_value_t`. Floats and doubles are their bit patterns. -/
inductive FieldValue where
  | boolean (v : Bool)
  | int8 (v : Int8)
  | int16 (v : Int16)
  | int32 (v : Int32)
  | int64 (v : Int64)
  | float (bits : UInt32)
  | double (bits : UInt64)
  /-- `decimal_t`: the magnitude and the value. -/
  | decimal (mag : UInt8) (val : Int32)
  | longstring (s : List UInt8)
  | fieldarray (a : List FieldValue)
  | timestamp (t : UInt64)
  | fieldtable (t : List TableEntry)
  | void
  | bytes (b : List UInt8)

/-- `table_entry`: a key and its value. -/
inductive TableEntry where
  | mk (key : List UInt8) (data : FieldValue)

end

/-- `table_impl_t`: the entries of a `std::map` in key order. `table::insert` files an entry under its own key. -/
abbrev TableMap : Type := List TableEntry

/-- `table_entry::field_type`. -/
inductive FieldType where
  | boolean | int8 | int16 | int32 | int64 | float | double | decimal | longstring | fieldarray | timestamp | fieldtable
  | void | bytes
  deriving DecidableEq, Repr

namespace FieldType

/-- The enumerators. -/
def code : FieldType → UInt8
  | boolean => 't'.toUInt8
  | int8 => 'b'.toUInt8
  | int16 => 'U'.toUInt8
  | int32 => 'I'.toUInt8
  | int64 => 'L'.toUInt8
  | float => 'f'.toUInt8
  | double => 'd'.toUInt8
  | decimal => 'D'.toUInt8
  | longstring => 'S'.toUInt8
  | fieldarray => 'A'.toUInt8
  | timestamp => 'T'.toUInt8
  | fieldtable => 'F'.toUInt8
  | void => 'V'.toUInt8
  | bytes => 'x'.toUInt8

/-- The type a byte stands for, if it is one of the enumerators. -/
def ofCode (b : UInt8) : Option FieldType :=
  [boolean, int8, int16, int32, int64, float, double, decimal, longstring, fieldarray, timestamp, fieldtable, void,
    bytes].find? (fun t => t.code == b)

/-- The enumerators are distinct. -/
@[simp] theorem ofCode_code (t : FieldType) : ofCode t.code = some t := by
  cases t <;> rfl

/-- The type that a byte stands for has it as its enumerator. -/
theorem code_of_ofCode {b : UInt8} {t : FieldType} (h : ofCode b = some t) : t.code = b := by
  unfold ofCode at h
  simpa using List.find?_some h

end FieldType

/-- `type_getter`, over `field_type_to_field_value_t_map`. -/
def FieldValue.getType : FieldValue → FieldType
  | .boolean _ => .boolean
  | .int8 _ => .int8
  | .int16 _ => .int16
  | .int32 _ => .int32
  | .int64 _ => .int64
  | .float _ => .float
  | .double _ => .double
  | .decimal _ _ => .decimal
  | .longstring _ => .longstring
  | .fieldarray _ => .fieldarray
  | .timestamp _ => .timestamp
  | .fieldtable _ => .fieldtable
  | .void => .void
  | .bytes _ => .bytes

namespace TableEntry

/-- `get_key`. -/
def getKey : TableEntry → List UInt8
  | mk key _ => key

/-- `get_data`. -/
def getData : TableEntry → FieldValue
  | mk _ data => data

/-- `get_type`. -/
def getType (e : TableEntry) : FieldType := e.getData.getType

@[simp] theorem getKey_mk (key : List UInt8) (data : FieldValue) : (mk key data).getKey = key := rfl
@[simp] theorem getData_mk (key : List UInt8) (data : FieldValue) : (mk key data).getData = data := rfl

/-- `validate_key_name`. -/
def validateKeyName (key : List UInt8) : Bool := if key.length > 128 then false else true

/-- The constructor from a `field_value_t`. -/
def create (key : List UInt8) (data : FieldValue) : Except Exception TableEntry :=
  if !validateKeyName key then .error (.runtimeError "Key name is invalid") else .ok (mk key data)

theorem create_eq_ok {key : List UInt8} {data : FieldValue} {e : TableEntry} :
    create key data = .ok e ↔ key.length ≤ 128 ∧ e = mk key data := by
  unfold create validateKeyName
  by_cases h : key.length > 128
  · simp only [h, if_true, Bool.not_false, reduceCtorEq, false_iff, not_and]
    omega
  · simp only [h, if_false, Bool.not_true, Bool.false_eq_true, Except.ok.injEq]
    exact ⟨fun he => ⟨by omega, he.symm⟩, fun he => he.2.symm⟩

end TableEntry

/-- `table::insert`. -/
def TableMap.insert (m : TableMap) (e : TableEntry) : TableMap := SortedMap.insertBy TableEntry.getKey e m

/-! ## Traversals -/

mutual

/-- `p` holds of the value and of every value inside it, at any depth. -/
def FieldValue.All (p : FieldValue → Prop) : FieldValue → Prop
  | .fieldarray a => p (.fieldarray a) ∧ allValues p a
  | .fieldtable t => p (.fieldtable t) ∧ allEntries p t
  | v => p v

def allValues (p : FieldValue → Prop) : List FieldValue → Prop
  | [] => True
  | v :: vs => v.All p ∧ allValues p vs

def allEntries (p : FieldValue → Prop) : List TableEntry → Prop
  | [] => True
  | .mk _ v :: es => v.All p ∧ allEntries p es

end

mutual

/-- The sum of `w` over the value and every value inside it, at any depth. -/
def FieldValue.total (w : FieldValue → Nat) : FieldValue → Nat
  | .fieldarray a => w (.fieldarray a) + totalValues w a
  | .fieldtable t => w (.fieldtable t) + totalEntries w t
  | v => w v

def totalValues (w : FieldValue → Nat) : List FieldValue → Nat
  | [] => 0
  | v :: vs => v.total w + totalValues w vs

def totalEntries (w : FieldValue → Nat) : List TableEntry → Nat
  | [] => 0
  | .mk _ v :: es => v.total w + totalEntries w es

end

/-- Neither an array nor a table. -/
def FieldValue.isScalar : FieldValue → Bool
  | .fieldarray _ | .fieldtable _ => false
  | _ => true

section induction

variable {P : FieldValue → Prop}

mutual

/-- Induction on field values: a scalar, an array of values with `P`, a table of values with `P`. -/
@[elab_as_elim] theorem FieldValue.induction (scalar : ∀ v, v.isScalar = true → P v)
    (array : ∀ a, (∀ v ∈ a, P v) → P (.fieldarray a)) (table : ∀ t, (∀ e ∈ t, P e.getData) → P (.fieldtable t)) :
    ∀ v : FieldValue, P v
  | .fieldarray a => array a (values_induction scalar array table a)
  | .fieldtable t => table t (entries_induction scalar array table t)
  | .boolean _ | .int8 _ | .int16 _ | .int32 _ | .int64 _ | .float _ | .double _ | .decimal _ _ | .longstring _
  | .timestamp _ | .void | .bytes _ => scalar _ rfl

theorem values_induction (scalar : ∀ v, v.isScalar = true → P v) (array : ∀ a, (∀ v ∈ a, P v) → P (.fieldarray a))
    (table : ∀ t, (∀ e ∈ t, P e.getData) → P (.fieldtable t)) : ∀ a : List FieldValue, ∀ v ∈ a, P v
  | [], _, h => absurd h List.not_mem_nil
  | v :: vs, x, h =>
    (List.mem_cons.mp h).elim (fun hx => hx ▸ FieldValue.induction scalar array table v)
      (values_induction scalar array table vs x)

theorem entries_induction (scalar : ∀ v, v.isScalar = true → P v) (array : ∀ a, (∀ v ∈ a, P v) → P (.fieldarray a))
    (table : ∀ t, (∀ e ∈ t, P e.getData) → P (.fieldtable t)) : ∀ t : List TableEntry, ∀ e ∈ t, P e.getData
  | [], _, h => absurd h List.not_mem_nil
  | .mk _ v :: es, x, h =>
    (List.mem_cons.mp h).elim (fun hx => hx ▸ FieldValue.induction scalar array table v)
      (entries_induction scalar array table es x)

end

end induction

theorem allValues_iff {p : FieldValue → Prop} (a : List FieldValue) : allValues p a ↔ ∀ v ∈ a, v.All p := by
  induction a with
  | nil => simp [allValues]
  | cons v vs ih => simp [allValues, ih]

theorem allEntries_iff {p : FieldValue → Prop} (t : List TableEntry) : allEntries p t ↔ ∀ e ∈ t, e.getData.All p := by
  induction t with
  | nil => simp [allEntries]
  | cons e es ih =>
    obtain ⟨key, v⟩ := e
    simp [allEntries, ih]

namespace FieldValue

variable {p q : FieldValue → Prop}

theorem all_fieldarray (a : List FieldValue) : (fieldarray a).All p ↔ p (.fieldarray a) ∧ ∀ v ∈ a, v.All p := by
  rw [All, allValues_iff]

theorem all_fieldtable (t : List TableEntry) :
    (fieldtable t).All p ↔ p (.fieldtable t) ∧ ∀ e ∈ t, e.getData.All p := by
  rw [All, allEntries_iff]

theorem all_of_isScalar {v : FieldValue} (h : v.isScalar = true) : v.All p ↔ p v := by
  cases v <;> first | rfl | cases h

/-- What holds of the value and of everything inside it holds of the value. -/
theorem All.self {v : FieldValue} (h : v.All p) : p v := by
  cases v with
  | fieldarray a => exact ((all_fieldarray a).mp h).1
  | fieldtable t => exact ((all_fieldtable t).mp h).1
  | _ => exact h

theorem All.mono (h : ∀ v, p v → q v) {v : FieldValue} (hv : v.All p) : v.All q := by
  induction v using FieldValue.induction with
  | scalar v hs => exact (all_of_isScalar hs).mpr (h v ((all_of_isScalar hs).mp hv))
  | array a ih =>
    obtain ⟨h₁, h₂⟩ := (all_fieldarray a).mp hv
    exact (all_fieldarray a).mpr ⟨h _ h₁, fun v hm => ih v hm (h₂ v hm)⟩
  | table t ih =>
    obtain ⟨h₁, h₂⟩ := (all_fieldtable t).mp hv
    exact (all_fieldtable t).mpr ⟨h _ h₁, fun e hm => ih e hm (h₂ e hm)⟩

/-- Two properties of every value inside are one. -/
theorem all_and (v : FieldValue) : v.All (fun x => p x ∧ q x) ↔ v.All p ∧ v.All q := by
  induction v using FieldValue.induction with
  | scalar v hs => simp only [all_of_isScalar hs]
  | array a ih =>
    have hsub := forall₂_congr ih
    simp only [all_fieldarray, hsub, forall₂_and]
    tauto
  | table t ih =>
    have hsub := forall₂_congr ih
    simp only [all_fieldtable, hsub, forall₂_and]
    tauto

end FieldValue

theorem totalValues_eq {w : FieldValue → Nat} (a : List FieldValue) : totalValues w a = (a.map (·.total w)).sum := by
  induction a with
  | nil => rfl
  | cons v vs ih => simp [totalValues, ih]

theorem totalEntries_eq {w : FieldValue → Nat} (t : List TableEntry) :
    totalEntries w t = (t.map (·.getData.total w)).sum := by
  induction t with
  | nil => rfl
  | cons e es ih =>
    obtain ⟨key, v⟩ := e
    simp [totalEntries, ih]

namespace FieldValue

variable {w w' : FieldValue → Nat}

theorem total_fieldarray (a : List FieldValue) :
    (fieldarray a).total w = w (.fieldarray a) + (a.map (·.total w)).sum := by
  rw [total, totalValues_eq]

theorem total_fieldtable (t : List TableEntry) :
    (fieldtable t).total w = w (.fieldtable t) + (t.map (·.getData.total w)).sum := by
  rw [total, totalEntries_eq]

theorem total_of_isScalar {v : FieldValue} (h : v.isScalar = true) : v.total w = w v := by
  cases v <;> first | rfl | cases h

/-- The sum of a sum of two weights is the sum of their sums. -/
theorem total_add (v : FieldValue) : v.total (fun x => w x + w' x) = v.total w + v.total w' := by
  induction v using FieldValue.induction with
  | scalar v hs => simp only [total_of_isScalar hs]
  | array a ih =>
    have hsum : (a.map (·.total fun x => w x + w' x)).sum = (a.map (·.total w)).sum + (a.map (·.total w')).sum := by
      rw [← List.sum_map_add, List.map_congr_left ih]
    simp only [total_fieldarray, hsum]
    omega
  | table t ih =>
    have hsum : (t.map (·.getData.total fun x => w x + w' x)).sum =
        (t.map (·.getData.total w)).sum + (t.map (·.getData.total w')).sum := by
      rw [← List.sum_map_add, List.map_congr_left ih]
    simp only [total_fieldtable, hsum]
    omega

/-- Values that weigh no more add up to no more. -/
theorem total_le_total (h : ∀ x, w x ≤ w' x) (v : FieldValue) : v.total w ≤ v.total w' := by
  have hsplit : w' = fun x => w x + (w' x - w x) := by
    funext x
    have hx := h x
    omega
  rw [hsplit, total_add]
  exact Nat.le_add_right _ _

/-- The weights add up to zero exactly when none of the values weighs anything. -/
theorem total_eq_zero_iff (v : FieldValue) : v.total w = 0 ↔ v.All (fun x => w x = 0) := by
  induction v using FieldValue.induction with
  | scalar v hs => rw [total_of_isScalar hs, all_of_isScalar hs]
  | array a ih =>
    rw [total_fieldarray, all_fieldarray, Nat.add_eq_zero_iff, List.sum_eq_zero_iff_forall_eq_nat]
    simp only [List.mem_map, forall_exists_index, and_imp, forall_apply_eq_imp_iff₂]
    exact and_congr_right fun _ => forall₂_congr ih
  | table t ih =>
    rw [total_fieldtable, all_fieldtable, Nat.add_eq_zero_iff, List.sum_eq_zero_iff_forall_eq_nat]
    simp only [List.mem_map, forall_exists_index, and_imp, forall_apply_eq_imp_iff₂]
    exact and_congr_right fun _ => forall₂_congr ih

end FieldValue

/-! ## Tables -/

namespace TableMap

/-- `p` holds of every value of the table, at any depth. -/
def All (p : FieldValue → Prop) (m : TableMap) : Prop := ∀ e ∈ m, e.getData.All p

/-- The sum of `w` over every value of the table, at any depth. -/
def total (w : FieldValue → Nat) (m : TableMap) : Nat := (m.map (·.getData.total w)).sum

theorem total_le_of_mem {w : FieldValue → Nat} {m : TableMap} {e : TableEntry} (he : e ∈ m) :
    e.getData.total w ≤ m.total w :=
  List.le_sum_of_mem (List.mem_map_of_mem he)

theorem total_le_total {w w' : FieldValue → Nat} (h : ∀ x, w x ≤ w' x) (m : TableMap) : m.total w ≤ m.total w' := by
  induction m with
  | nil => exact Nat.le_refl _
  | cons e m ih =>
    have hle := FieldValue.total_le_total h e.getData
    rw [total, total] at ih ⊢
    rw [List.map_cons, List.map_cons, List.sum_cons, List.sum_cons]
    omega

end TableMap

/-- What `table::insert` keeps of the maps inside a value: the keys ascend, and every key passed `validate_key_name`. -/
def FieldValue.mapOk : FieldValue → Prop
  | .fieldtable t => SortedMap.Sorted TableEntry.getKey t ∧ ∀ e ∈ t, e.getKey.length ≤ 128
  | _ => True

/-- A value whose maps, at every depth, were built by `table::insert` from valid entries. -/
abbrev FieldValue.Valid (v : FieldValue) : Prop := v.All FieldValue.mapOk

/-- A valid entry: a key that passed `validate_key_name` and a valid value. -/
structure Entry where
  entry : TableEntry
  key_le : entry.getKey.length ≤ 128
  valid : entry.getData.Valid

/-- A table built by `table::insert` from valid entries, at every depth (`Table.eq_insertAll`). -/
structure Table where
  map : TableMap
  sorted : SortedMap.Sorted TableEntry.getKey map
  key_le : ∀ e ∈ map, e.getKey.length ≤ 128
  valid : map.All FieldValue.mapOk

namespace Table

/-- The default-constructed table. -/
def empty : Table := ⟨[], List.Pairwise.nil, by simp, by simp [TableMap.All]⟩

/-- `table::insert` of a valid entry. -/
def insert (t : Table) (e : Entry) : Table where
  map := t.map.insert e.entry
  sorted := t.sorted.insertBy
  key_le x hx := by
    rcases SortedMap.mem_of_mem_insertBy hx with rfl | hx
    · exact e.key_le
    · exact t.key_le x hx
  valid x hx := by
    rcases SortedMap.mem_of_mem_insertBy hx with rfl | hx
    · exact e.valid
    · exact t.valid x hx

/-- The entries of a table are valid. -/
def entries (t : Table) : List Entry :=
  t.map.attach.map fun e => ⟨e.1, t.key_le e.1 e.2, t.valid e.1 e.2⟩

theorem map_foldl_insert (es : List Entry) (t : Table) :
    (es.foldl insert t).map = (es.map Entry.entry).foldl TableMap.insert t.map := by
  induction es generalizing t with
  | nil => rfl
  | cons e es ih => exact ih (t.insert e)

/-- Every table is built from the empty one by inserting valid entries: its own. -/
theorem eq_insertAll (t : Table) : (t.entries.foldl insert empty).map = t.map := by
  rw [map_foldl_insert]
  have hentries : t.entries.map Entry.entry = t.map := by
    rw [entries, List.map_map]
    exact List.attach_map_subtype_val t.map
  rw [hentries]
  exact SortedMap.foldl_insertBy t.map [] t.sorted

end Table

end Amqpp
