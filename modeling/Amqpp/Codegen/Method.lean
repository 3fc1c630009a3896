import Amqpp.Codegen.Bits
import Amqpp.Frame.Basic
import Amqpp.Table.Read

/-!
# The method codec

What codegen.py generates for a method: the statements of `read`, `write` and `get_serialized_size`, one group for each
argument, and what those statements do. `method::read` selects the method by its ids, `frame::create_from_method` writes one
into the buffer of a frame.
-/

namespace Amqpp

/-- A member of a generated method. -/
inductive Value where
  | octet (v : UInt8)
  | short (v : UInt16)
  | long (v : UInt32)
  | longlong (v : UInt64)
  | timestamp (v : UInt64)
  | bit (v : Bool)
  | shortstr (s : List UInt8)
  | longstr (s : List UInt8)
  | table (t : TableMap)

namespace Value

def domain : Value → Domain
  | octet _ => .octet
  | short _ => .short
  | long _ => .long
  | longlong _ => .longlong
  | timestamp _ => .timestamp
  | bit _ => .bit
  | shortstr _ => .shortstr
  | longstr _ => .longstr
  | table _ => .table

/-- A value of each type. -/
def zero : Domain → Value
  | .octet => octet 0
  | .short => short 0
  | .long => long 0
  | .longlong => longlong 0
  | .timestamp => timestamp 0
  | .bit => bit false
  | .shortstr => shortstr []
  | .longstr => longstr []
  | .table => table []

@[simp] theorem domain_zero (d : Domain) : (zero d).domain = d := by
  cases d <;> rfl

/-- The check of the generated setter. -/
def validate : Value → Except Exception Unit
  | shortstr s => validateShortstring s
  | longstr s => validateLongstring s
  | _ => .ok ()

/-- `write_X(o, m_x)`, `X` chosen by the domain. A bit has no such function. -/
def write : Value → Except Exception (List UInt8)
  | octet v => .ok (writeUint8 v)
  | short v => .ok (writeUint16 v)
  | long v => .ok (writeUint32 v)
  | longlong v | timestamp v => .ok (writeUint64 v)
  | shortstr s => writeShortstring s
  | longstr s => writeLongstring s
  | table t => writeTable t
  | bit _ => .error .stuck

/-- `read_X(i)`, `X` chosen by the domain. A bit has no such function. -/
def read : Domain → Reader Exception Value
  | .octet => do return octet (← readUint8)
  | .short => do return short (← readUint16)
  | .long => do return long (← readUint32)
  | .longlong => do return longlong (← readUint64)
  | .timestamp => do return timestamp (← readUint64)
  | .shortstr => do return shortstr (← readShortstring)
  | .longstr => do return longstr (← readLongstring)
  | .table => do return table (← readTable)
  | .bit => throw .stuck

end Value

/-! ## Bit fields -/

/-- `write_uintN` of a bit field. -/
def BitfieldSize.write : (w : BitfieldSize) → BitVec w.bits → List UInt8
  | w8, b => writeUint8 (UInt8.ofBitVec b)
  | w16, b => writeUint16 (UInt16.ofBitVec b)
  | w32, b => writeUint32 (UInt32.ofBitVec b)
  | w64, b => writeUint64 (UInt64.ofBitVec b)

/-- `read_uintN` of a bit field. -/
def BitfieldSize.read : (w : BitfieldSize) → Reader Exception (BitVec w.bits)
  | w8 => do return (← readUint8).toBitVec
  | w16 => do return (← readUint16).toBitVec
  | w32 => do return (← readUint32).toBitVec
  | w64 => do return (← readUint64).toBitVec

/-- `sizeof(uintN_t)`. -/
def BitfieldSize.sizeof (w : BitfieldSize) : Nat := w.bits / 8

/-- The variable `bits` of an open scope. -/
structure BitField where
  size : BitfieldSize
  bits : BitVec size.bits

theorem BitfieldSize.reads_read (w : BitfieldSize) (b : BitVec w.bits) : Reader.Reads w.read (w.write b) b := by
  cases w with
  | w8 => exact (reads_readUint8 (UInt8.ofBitVec b)).map UInt8.toBitVec
  | w16 => exact (reads_readUint16 (UInt16.ofBitVec b)).map UInt16.toBitVec
  | w32 => exact (reads_readUint32 (UInt32.ofBitVec b)).map UInt32.toBitVec
  | w64 => exact (reads_readUint64 (UInt64.ofBitVec b)).map UInt64.toBitVec

theorem BitfieldSize.length_write (w : BitfieldSize) (b : BitVec w.bits) : (w.write b).length = w.sizeof := by
  cases w with
  | w8 => exact length_writeUint8 _
  | w16 => exact length_writeUint16 _
  | w32 => exact length_writeUint32 _
  | w64 => exact length_writeUint64 _

/-! ## Generated statements -/

/-- A statement of a generated `read`. -/
inductive ReadStmt where
  /-- `{ uintN_t bits = read_uintN(i);` -/
  | openBits (w : BitfieldSize)
  /-- `ret->set_x(get_bit(bits, position));` -/
  | getBit (index position : Nat)
  /-- The closing brace. -/
  | closeBits
  /-- `ret->set_x(read_X(i));` -/
  | read (index : Nat) (domain : Domain)
  deriving DecidableEq, Repr

/-- A statement of a generated `write`. -/
inductive WriteStmt where
  /-- `{ uintN_t bits = 0;` -/
  | openBits (w : BitfieldSize)
  /-- `bits = set_bit(bits, m_x, position);` -/
  | setBit (index position : Nat)
  /-- `write_uintN(o, bits); }` -/
  | closeBits (w : BitfieldSize)
  /-- `write_X(o, m_x);` -/
  | write (index : Nat)
  deriving DecidableEq, Repr

/-- A statement of a generated `get_serialized_size`. -/
inductive SizeStmt where
  /-- `size += sizeof(T);` -/
  | sizeof (n : Nat)
  /-- `size += sizeof(uint8_t) + m_x.length();` -/
  | shortstr (index : Nat)
  /-- `size += sizeof(uint32_t) + m_x.length();` -/
  | longstr (index : Nat)
  /-- `size += m_x.wireformat_size();` -/
  | table (index : Nat)
  deriving DecidableEq, Repr

/-- `for index, field in enumerate(method.arguments)`: what is emitted for each argument, one after the other. -/
def forArguments {σ : Type} (emit : Nat → Domain → Option (List σ)) : Nat → List Domain → Option (List σ)
  | _, [] => some []
  | index, domain :: domains => do
    let s ← emit index domain
    let t ← forArguments emit (index + 1) domains
    return s ++ t

section generators

variable (arguments : List Domain)

/-- `genReadBits`. -/
def genReadBits (index : Nat) : Option (List ReadStmt) := do
  let bitNumber := getBitsNumber arguments index
  let bitLength := getBitsLength arguments index
  let bitsfieldLength ← getBitfieldSize bitLength
  return (if 0 = bitNumber then [.openBits bitsfieldLength] else []) ++
    .getBit index bitNumber :: (if bitNumber = bitLength - 1 then [.closeBits] else [])

/-- The body of the loop of `genReadFunction`. -/
def genReadArgument (index : Nat) (domain : Domain) : Option (List ReadStmt) :=
  if domain = .bit then genReadBits arguments index else some [.read index domain]

/-- `genReadFunction`. -/
def genReadFunction : Option (List ReadStmt) := forArguments (genReadArgument arguments) 0 arguments

/-- `genWriteBits`. -/
def genWriteBits (index : Nat) : Option (List WriteStmt) := do
  let bitNumber := getBitsNumber arguments index
  let bitLength := getBitsLength arguments index
  let bitfieldLength ← getBitfieldSize bitLength
  return (if 0 = bitNumber then [.openBits bitfieldLength] else []) ++
    .setBit index bitNumber :: (if bitNumber = bitLength - 1 then [.closeBits bitfieldLength] else [])

/-- The body of the loop of `genWriteFunction`. -/
def genWriteArgument (index : Nat) (domain : Domain) : Option (List WriteStmt) :=
  if domain = .bit then genWriteBits arguments index else some [.write index]

/-- `genWriteFunction`. -/
def genWriteFunction : Option (List WriteStmt) := forArguments (genWriteArgument arguments) 0 arguments

/-- The body of the loop of `genGetLengthFunction`. -/
def genGetLengthArgument (index : Nat) : Domain → Option (List SizeStmt)
  | .bit => do
    let bitsLen := getBitsLength arguments index
    let bitsIndex := getBitsNumber arguments index
    if bitsIndex = bitsLen - 1 then return [.sizeof (← getBitfieldSize bitsLen).sizeof] else return []
  | .shortstr => some [.shortstr index]
  | .longstr => some [.longstr index]
  | .table => some [.table index]
  | .octet => some [.sizeof 1]
  | .short => some [.sizeof 2]
  | .long => some [.sizeof 4]
  | .longlong | .timestamp => some [.sizeof 8]

/-- `genGetLengthFunction`. -/
def genGetLengthFunction : Option (List SizeStmt) := forArguments (genGetLengthArgument arguments) 0 arguments

end generators

/-! ## What the statements do -/

/-- A statement of `write` for an object with the members `x`: the scope it leaves and the bytes it writes. -/
def WriteStmt.exec (x : List Value) : WriteStmt → Option BitField → Except Exception (Option BitField × List UInt8)
  | openBits w, _ => .ok (some ⟨w, 0⟩, [])
  | setBit index position, some f =>
    match x[index]? with
    | some (.bit v) =>
      match Amqpp.setBit f.bits v position with
      | some bits => .ok (some ⟨f.size, bits⟩, [])
      | none => .error .stuck
    | _ => .error .stuck
  | closeBits w, some f => .ok (none, w.write (f.bits.setWidth w.bits))
  | write index, scope =>
    match x[index]? with
    | some v => do return (scope, ← v.write)
    | none => .error .stuck
  | _, none => .error .stuck

/-- The statements of `write`, one after the other. -/
def runWrite (x : List Value) : List WriteStmt → Option BitField → Except Exception (Option BitField × List UInt8)
  | [], scope => .ok (scope, [])
  | st :: sts, scope => do
    let (scope, a) ← st.exec x scope
    let (scope, b) ← runWrite x sts scope
    return (scope, a ++ b)

/-- A statement of `read`: the scope and the members of the object it leaves. -/
def ReadStmt.exec : ReadStmt → Option BitField × List Value → Reader Exception (Option BitField × List Value)
  | openBits w, (_, ret) => do return (some ⟨w, ← w.read⟩, ret)
  | getBit index position, (some f, ret) =>
    match Amqpp.getBit f.bits position with
    | some v => return (some f, ret.set index (.bit v))
    | none => throw .stuck
  | getBit _ _, (none, _) => throw .stuck
  | closeBits, (_, ret) => return (none, ret)
  | read index domain, (scope, ret) => do
    let v ← Value.read domain
    Reader.lift v.validate
    return (scope, ret.set index v)

/-- The statements of `read`, one after the other. -/
def runRead : List ReadStmt → Option BitField × List Value → Reader Exception (Option BitField × List Value)
  | [], st => return st
  | s :: ss, st => do runRead ss (← s.exec st)

/-- A term of `get_serialized_size`. -/
def SizeStmt.eval (x : List Value) : SizeStmt → UInt32
  | sizeof n => UInt32.ofNat n
  | shortstr index =>
    match x[index]? with
    | some (.shortstr s) => 1 + UInt32.ofNat s.length
    | _ => 0
  | longstr index =>
    match x[index]? with
    | some (.longstr s) => 4 + UInt32.ofNat s.length
    | _ => 0
  | table index =>
    match x[index]? with
    | some (.table t) => t.wireformatSize
    | _ => 0

/-- The sum of `get_serialized_size`, class and method ids first. -/
def runSize (x : List Value) (sts : List SizeStmt) : UInt32 := sts.foldl (fun size st => size + st.eval x) 4

/-! ## Methods -/

/-- A generated method class: its id, its arguments, and the members its constructor leaves (an argument without a default
keeps what was in memory). -/
structure MethodDesc where
  index : UInt16
  arguments : List Domain
  initial : List Value
  typed : initial.map Value.domain = arguments

/-- A class of the specification. -/
structure ClassDesc where
  index : UInt16
  methods : List MethodDesc

/-- The classes and methods of the specification. Their ids are the cases of the generated switches, so they are distinct. -/
structure Spec where
  classes : List ClassDesc
  classes_nodup : (classes.map ClassDesc.index).Nodup
  methods_nodup : ∀ c ∈ classes, (c.methods.map MethodDesc.index).Nodup

/-- An object of a generated method class. -/
structure Method where
  classId : UInt16
  desc : MethodDesc
  values : List Value

namespace Method

/-- `create`. -/
def create (c : ClassDesc) (m : MethodDesc) : Method := ⟨c.index, m, m.initial⟩

/-- The generated `write`. -/
def write (m : Method) : Except Exception (List UInt8) :=
  match genWriteFunction m.desc.arguments with
  | some sts => do
    let (_, body) ← runWrite m.values sts none
    return writeUint16 m.classId ++ (writeUint16 m.desc.index ++ body)
  | none => .error .stuck

/-- The generated `get_serialized_size`. -/
def getSerializedSize (m : Method) : UInt32 :=
  match genGetLengthFunction m.desc.arguments with
  | some sts => runSize m.values sts
  | none => 0

end Method

/-- The generated `read` of a method class. -/
def MethodDesc.read (m : MethodDesc) (classId : UInt16) : Reader Exception Method :=
  match genReadFunction m.arguments with
  | some sts => do
    let (_, ret) ← runRead sts (none, m.initial)
    return ⟨classId, m, ret⟩
  | none => throw .stuck

/-- A switch on distinct ids finds the case of an id. -/
theorem find?_index {α : Type} {f : α → UInt16} {l : List α} (h : (l.map f).Nodup) {a : α} (ha : a ∈ l) :
    l.find? (fun b => f b == f a) = some a := by
  induction l with
  | nil => cases ha
  | cons b l ih =>
    obtain ⟨hb, hl⟩ := List.nodup_cons.mp h
    rcases List.mem_cons.mp ha with rfl | ha
    · rw [List.find?_cons, beq_self_eq_true]
    · have hne : (f b == f a) = false := by
        rw [beq_eq_false_iff_ne]
        intro heq
        exact hb (heq ▸ List.mem_map_of_mem ha)
      rw [List.find?_cons, hne]
      exact ih hl ha

/-- `method::read` of a stream. -/
def Spec.read (Γ : Spec) : Reader Exception Method := do
  let classId ← readUint16
  let methodId ← readUint16
  match Γ.classes.find? (fun c => c.index == classId) with
  | none => throw (.runtimeError "Invalid class_id")
  | some c =>
    match c.methods.find? (fun m => m.index == methodId) with
    | none => throw (.runtimeError "Invalid method_id")
    | some m => m.read classId

/-- `method::read` of a frame. -/
def Spec.readFrame (Γ : Spec) (f : Frame) : Except Exception Method :=
  match Γ.read (.ofString f.payload) with
  | .ok (m, _) => .ok m
  | .error e => .error e

/-- A method object has the class that read it. -/
theorem MethodDesc.ids_of_read {d : MethodDesc} {classId : UInt16} {s t : IStream} {m : Method} (h : d.read classId s = .ok (m, t)) :
    m.classId = classId ∧ m.desc = d := by
  cases hgen : genReadFunction d.arguments with
  | none =>
    simp only [MethodDesc.read, hgen] at h
    cases h
  | some sts =>
    simp only [MethodDesc.read, hgen] at h
    obtain ⟨ret, u, -, hm⟩ := Reader.bind_eq_ok.mp h
    cases hm
    exact ⟨rfl, rfl⟩

/-- The payload of a frame that is read opens with the ids of its method. -/
theorem Spec.payload_of_readFrame {Γ : Spec} {f : Frame} {m : Method} (h : Γ.readFrame f = .ok m) :
    ∃ rest, f.payload = writeUint16 m.classId ++ (writeUint16 m.desc.index ++ rest) := by
  unfold Spec.readFrame at h
  split at h
  · rename_i m' t hread
    cases h
    obtain ⟨classId, s₁, hclass, hafter⟩ := Reader.bind_eq_ok.mp hread
    obtain ⟨methodId, s₂, hmethod, hcase⟩ := Reader.bind_eq_ok.mp hafter
    obtain ⟨_, rest₁, hbuf, rfl, rfl⟩ := parses_readUint16 _ _ _ hclass
    obtain ⟨_, rest₂, rfl, rfl, rfl⟩ := parses_readUint16 _ _ _ hmethod
    cases hc : Γ.classes.find? (fun c => c.index == classId) with
    | none =>
      simp only [hc] at hcase
      cases hcase
    | some c =>
      cases hd : c.methods.find? (fun m => m.index == methodId) with
      | none =>
        simp only [hc, hd] at hcase
        cases hcase
      | some d =>
        simp only [hc, hd] at hcase
        obtain ⟨rfl, rfl⟩ := MethodDesc.ids_of_read hcase
        have hindex : m.desc.index = methodId := by simpa using List.find?_some hd
        exact ⟨rest₂, hindex ▸ hbuf⟩
  · cases h

/-- `frame::create_from_method`. The buffer has the announced size and holds what was in `memory`; a write past its end
fails, and the bytes a write leaves out stay as they were. The failure has the text of the writers of
words and strings; that of a byte string which does not fit reads "Write failed.", and the two are not told apart. -/
def createFromMethod (memory : Nat → UInt8) (channel : UInt16) (m : Method) : Except Exception Frame := do
  let size := m.getSerializedSize.toNat
  let bs ← m.write
  if bs.length ≤ size then
    return ⟨.method, channel, bs ++ (List.range' bs.length (size - bs.length)).map memory⟩
  else throw (.runtimeError "Write failure")

end Amqpp
