import Amqpp.Codegen.Method
import Amqpp.Lib.Prog

/-!
# Content headers

What codegen.py generates for the properties of a content class: a `properties` class with a setter, a clearer and
`x_is_set` for each field, and `read`, `write` and `get_serialized_size`. The generated code is the same for every list of
fields, field `i` at bit `i`.
-/

namespace Amqpp

/-- The domains of property fields. A bit or a long string has no code that compiles. -/
def Domain.isProperty : Domain → Bool
  | bit | longstr => false
  | _ => true

/-- A class with content properties. -/
structure ContentClass where
  index : UInt16
  fields : List Domain
  isProperty : ∀ d ∈ fields, d.isProperty = true

/-- The domain of field `i`. -/
def ContentClass.domain (c : ContentClass) (i : Fin c.fields.length) : Domain := c.fields.get i

theorem ContentClass.isProperty_domain (c : ContentClass) (i : Fin c.fields.length) : (c.domain i).isProperty = true :=
  c.isProperty _ (List.get_mem _ _)

/-! ## Members -/

/-- A member whose memory held `memory` before its constructor ran: a scalar keeps it. -/
def Value.fresh (memory : UInt64) : Domain → Value
  | .octet => octet memory.toUInt8
  | .short => short memory.toUInt16
  | .long => long memory.toUInt32
  | .longlong => longlong memory
  | .timestamp => timestamp memory
  | .bit => bit (memory != 0)
  | .shortstr => shortstr []
  | .longstr => longstr []
  | .table => table []

/-- A short string has its length in one byte. -/
def Value.FitsShort : Value → Prop
  | shortstr s => s.length ≤ 255
  | _ => True

/-- The setter lets in what fits. -/
theorem Value.fitsShort_of_validate {v : Value} (h : v.validate = .ok ()) : v.FitsShort := by
  cases v with
  | shortstr s =>
    by_contra hlong
    rw [validate, validateShortstring, if_pos (Nat.lt_of_not_le hlong)] at h
    cases h
  | _ => trivial

/-- The member `m_x` of a field. -/
structure Member (d : Domain) where
  val : Value
  typed : val.domain = d
  fits : val.FitsShort

namespace Member

variable {d : Domain}

/-- The member as the constructor of the class leaves it. -/
def fresh (memory : UInt64) (d : Domain) : Member d where
  val := .fresh memory d
  typed := by cases d <;> rfl
  fits := by cases d <;> simp [Value.fresh, Value.FitsShort]

/-- `""`, 0, or a table without entries. -/
def zero (d : Domain) : Member d where
  val := .zero d
  typed := Value.domain_zero d
  fits := by cases d <;> simp [Value.zero, Value.FitsShort]

/-- The table behind the reference that `x_get` returns, changed. -/
def edit (f : TableMap → TableMap) : Member d → Member d
  | ⟨.table t, typed, _⟩ => ⟨.table (f t), typed, trivial⟩
  | m => m

/-- What is read is of the type of the field, and fits. -/
theorem typed_of_read (d : Domain) (s : IStream) (v : Value) (t : IStream) (h : Value.read d s = .ok (v, t)) :
    v.domain = d ∧ v.FitsShort := by
  cases d with
  | bit => cases h
  | shortstr =>
    obtain ⟨bs, u, hbs, hv⟩ := Reader.bind_eq_ok.mp h
    cases hv
    obtain ⟨len, _, -, hcheck⟩ := Reader.bind_eq_ok.mp hbs
    obtain ⟨_, _, -, hdata⟩ := Reader.bind_eq_ok.mp hcheck
    have hlen := Reader.length_of_exactly hdata
    have hlt := len.toNat_lt
    exact ⟨rfl, show bs.length ≤ 255 by omega⟩
  | _ =>
    obtain ⟨x, u, -, hv⟩ := Reader.bind_eq_ok.mp h
    cases hv
    exact ⟨rfl, trivial⟩

/-- `read_X(i)`, `X` chosen by the domain. -/
def read (d : Domain) : Reader Exception (Member d) := do
  let v ← Reader.attach (Value.read d) (typed_of_read d)
  return ⟨v.1, v.2.1, v.2.2⟩

end Member

/-! ## std::bitset -/

/-- `m_field_set[i] = b`. -/
def assignBit {n : Nat} (set : BitVec n) (i : Nat) (b : Bool) : BitVec n :=
  if b then set ||| BitVec.twoPow n i else set &&& ~~~BitVec.twoPow n i

theorem getLsbD_assignBit {n i j : Nat} (set : BitVec n) (b : Bool) (hj : j < n) :
    (assignBit set i b).getLsbD j = if j = i then b else set.getLsbD j := by
  unfold assignBit
  cases b
  · by_cases h : j = i
    · simp [h]
    · simp [h, hj]
  · by_cases h : j = i
    · simp [← h, hj]
    · simp [h, Ne.symm h]

/-- `to_ulong`, where an `unsigned long` has 64 bits: an overflow throws a `std::overflow_error`, which is a
`std::runtime_error`. -/
def toUlong {n : Nat} (set : BitVec n) : Except Exception UInt64 :=
  if set.toNat < 2 ^ 64 then .ok (UInt64.ofNat set.toNat) else .error (.runtimeError "bitset::to_ulong")

/-! ## The class -/

/-- A generated `properties` class. -/
structure Properties (c : ContentClass) where
  fieldSet : BitVec c.fields.length
  weight : UInt16
  bodySize : UInt64
  members : (i : Fin c.fields.length) → Member (c.domain i)

namespace Properties

variable {c : ContentClass}

/-- `create`. The constructor sets no member: the weight, the body size and the scalars keep what their memory held. -/
def create (c : ContentClass) (memory : Nat → UInt64) : Properties c where
  fieldSet := 0
  weight := (memory 0).toUInt16
  bodySize := memory 1
  members i := .fresh (memory (i + 2)) _

/-- `x_set`. The generated code has one for every field that is not a table. -/
def set (p : Properties c) (i : Fin c.fields.length) (v : Value) (typed : v.domain = c.domain i) :
    Except Exception (Properties c) :=
  match h : v.validate with
  | .error e => .error e
  | .ok () => .ok { p with
      members := Function.update p.members i ⟨v, typed, v.fitsShort_of_validate h⟩
      fieldSet := assignBit p.fieldSet i true }

/-- `x_clear`. For a table the bit stays. -/
def clear (p : Properties c) (i : Fin c.fields.length) : Properties c :=
  { p with
    members := Function.update p.members i (.zero _)
    fieldSet := if c.domain i = .table then p.fieldSet else assignBit p.fieldSet i false }

/-- A change of the table behind `x_get()`. -/
def edit (p : Properties c) (i : Fin c.fields.length) (f : TableMap → TableMap) : Properties c :=
  { p with members := Function.update p.members i ((p.members i).edit f) }

/-- `x_is_set`. For a table it is `get_map().empty()`. -/
def isSet (p : Properties c) (i : Fin c.fields.length) : Bool :=
  match (p.members i).val with
  | .table t => t.isEmpty
  | _ => p.fieldSet.getLsbD i

/-! ## Writing -/

/-- `m_field_set[BF_x] = x_is_set()` for every table. -/
def updateTables (p : Properties c) : Properties c :=
  (List.finRange c.fields.length).foldl
    (fun p i => if c.domain i = .table then { p with fieldSet := assignBit p.fieldSet i (p.isSet i) } else p) p

/-- `if (x_is_set()) { write_X(o, m_x); }` for each field. -/
def writeFields (p : Properties c) : List (Fin c.fields.length) → Except Exception (List UInt8)
  | [] => .ok []
  | i :: is =>
    if p.isSet i then do
      let bs ← (p.members i).val.write
      return bs ++ (← writeFields p is)
    else writeFields p is

/-- The generated `write`. The bits of the tables are brought up to date in the object. -/
def write : Prog Exception (Properties c) (List UInt8) := do
  modify updateTables
  let p ← get
  let flags ← Prog.lift (toUlong p.fieldSet)
  let body ← Prog.lift (p.writeFields (List.finRange _))
  return writeUint16 c.index ++ (writeUint16 p.weight ++ (writeUint64 p.bodySize ++ (writeUint16 flags.toUInt16 ++ body)))

/-! ## Reading -/

/-- `if (res->m_field_set[BF_x]) { res->m_x = read_X(i); }` for each field. -/
def readFields : List (Fin c.fields.length) → Properties c → Reader Exception (Properties c)
  | [], res => return res
  | i :: is, res =>
    if res.fieldSet.getLsbD i then do
      let m ← Member.read (c.domain i)
      readFields is { res with members := Function.update res.members i m }
    else readFields is res

/-- The generated `read`, into an object in the given memory. -/
def read (c : ContentClass) (memory : Nat → UInt64) : Reader Exception (Properties c) := do
  let weight ← readUint16
  let bodySize ← readUint64
  let flags ← readUint16
  readFields (List.finRange _)
    { create c memory with weight := weight, bodySize := bodySize, fieldSet := BitVec.ofNat _ flags.toNat }

/-! ## Counting -/

/-- What a field that is set adds to `get_serialized_size`. -/
def memberSize : Value → UInt32
  | .octet _ => 1
  | .short _ => 2
  | .long _ => 4
  | .longlong _ | .timestamp _ => 8
  | .shortstr s => wireformatSizeShortstring s
  | .table t => t.wireformatSize
  -- Not the member of a property field.
  | .bit _ | .longstr _ => 0

/-- The generated `get_serialized_size`. -/
def getSerializedSize (p : Properties c) : UInt32 :=
  (List.finRange c.fields.length).foldl (fun result i => result + if p.isSet i then memberSize (p.members i).val else 0) (2 + 8 + 2)

end Properties

/-! ## What users do with an object -/

/-- A call on a properties object. A field that is not a table has the setter, and a table has the reference behind `x_get`.
-/
inductive PropertyCall (c : ContentClass) where
  | set (i : Fin c.fields.length) (v : Value) (typed : v.domain = c.domain i) (notTable : c.domain i ≠ .table)
  | clear (i : Fin c.fields.length)
  | edit (i : Fin c.fields.length) (f : TableMap → TableMap)
  | setWeight (weight : UInt16)
  | setBodySize (bodySize : UInt64)
  | write

/-- The field that a call is about. -/
def PropertyCall.field {c : ContentClass} : PropertyCall c → Option (Fin c.fields.length)
  | set i _ _ _ | clear i | edit i _ => some i
  | setWeight _ | setBodySize _ | write => none

namespace Properties

variable {c : ContentClass}

/-- The object after a call, whether the call returned or threw. -/
def after (p : Properties c) : PropertyCall c → Properties c
  | .set i v typed _ =>
    match p.set i v typed with
    | .ok q => q
    | .error _ => p
  | .clear i => p.clear i
  | .edit i f => p.edit i f
  | .setWeight weight => { p with weight := weight }
  | .setBodySize bodySize => { p with bodySize := bodySize }
  | .write =>
    match write p with
    | .ok _ q | .throws _ q => q
    | .undefined => p

/-- The object after some calls. -/
def run (p : Properties c) (calls : List (PropertyCall c)) : Properties c := calls.foldl after p

end Properties

/-! ## All classes -/

/-- The classes of the specification that have content properties. Their ids are the cases of a generated switch. -/
structure ContentSpec where
  classes : List ContentClass
  nodup : (classes.map ContentClass.index).Nodup

/-- `properties::read`. -/
def ContentSpec.read (S : ContentSpec) (memory : Nat → UInt64) : Reader Exception ((c : ContentClass) × Properties c) := do
  let classId ← readUint16
  match S.classes.find? (fun c => c.index == classId) with
  | none => throw (.runtimeError "Invalid method_id")
  | some c => do return ⟨c, ← Properties.read c memory⟩

/-! ## A class for examples -/

namespace ContentSample

/-- A content type, headers, a delivery mode and a timestamp. -/
def basic : ContentClass := ⟨60, [.shortstr, .table, .octet, .timestamp], by decide⟩

/-- The field of the content type. -/
def contentType : Fin basic.fields.length := ⟨0, by decide⟩

/-- The field of the headers. -/
def headers : Fin basic.fields.length := ⟨1, by decide⟩

/-- The field of the delivery mode. -/
def deliveryMode : Fin basic.fields.length := ⟨2, by decide⟩

/-- A specification with the class. -/
def spec : ContentSpec := ⟨[basic], by decide⟩

/-- An object that is created in memory full of zeros. -/
def created : Properties basic := Properties.create basic fun _ => 0

/-- The object once its content type and its delivery mode are set. -/
def filled : Properties basic :=
  created.run [.set contentType (.shortstr [116]) rfl (by decide), .set deliveryMode (.octet 2) rfl (by decide)]

end ContentSample

end Amqpp
