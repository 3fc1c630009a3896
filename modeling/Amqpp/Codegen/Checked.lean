import Amqpp.Codegen.Decoded
import Amqpp.Codegen.Env
import Amqpp.Table.Local

/-!
# What the generated code can come to

Every shift of a generated `read` and `write` is in range and every loop has an end, so `method::read` of a frame returns or
throws a `std::runtime_error`, and a frame is made of a method or an exception of the library says why not. One access of
`method::read` is undefined all the same: for a byte string without bytes `read_field_value` takes `&val[0]` of an empty
vector. The readers here look at that access, and do what the readers do wherever it is defined.
-/

namespace Amqpp

/-! ## Reading returns or throws -/

namespace CheckedAux

theorem ends_readValue {d : Domain} (hd : d ≠ .bit) {n : Nat} : Reader.Ends .stuck n (Value.read d) := by
  cases d with
  | octet => exact ends_readUint8.map _
  | short => exact ends_readUint16.map _
  | long => exact ends_readUint32.map _
  | longlong => exact ends_readUint64.map _
  | timestamp => exact ends_readUint64.map _
  | bit => exact absurd rfl hd
  | shortstr => exact ends_readShortstring.map _
  | longstr => exact ends_readLongstring.map _
  | table => exact Reader.Ends.map (fun buf _ => readTable_ne_stuck buf) _

theorem ends_readBitfield (w : BitfieldSize) {n : Nat} : Reader.Ends .stuck n w.read := by
  cases w with
  | w8 => exact ends_readUint8.map _
  | w16 => exact ends_readUint16.map _
  | w32 => exact ends_readUint32.map _
  | w64 => exact ends_readUint64.map _

theorem validate_ne_stuck (v : Value) : v.validate ≠ .error .stuck := by
  intro h
  unfold Value.validate validateShortstring validateLongstring at h
  split at h
  · split at h
    · cases h
    · split at h <;> cases h
  · split at h <;> cases h
  · cases h

/-- The bits of a run are in range, so they are all set. -/
theorem exists_runRead_bits {start : Nat} {js : List Nat} (hjs : ∀ j ∈ js, j < 32) (f : BitField) (ret : List Value) :
    ∃ ret', runRead (js.map fun j => .getBit (start + j) j) (some f, ret) = pure (some f, ret') := by
  induction js generalizing ret with
  | nil => exact ⟨ret, rfl⟩
  | cons j js ih =>
    obtain ⟨hj, hjs⟩ := List.forall_mem_cons.mp hjs
    obtain ⟨v, hv, -⟩ := getBit_reaches hj f.bits
    obtain ⟨ret', hret⟩ := ih hjs (ret.set (start + j) (.bit v))
    refine ⟨ret', ?_⟩
    rw [List.map_cons, runRead, ReadStmt.exec, hv]
    exact hret

/-- Induction on the blocks: an argument is read, and a run is read in its scope. -/
theorem ends_runRead {ds rest : List Domain} (hruns : BitRunsLe 32 ds) {index : Nat} {blocks : List Block}
    (hb : Blocks ds index rest blocks) :
    ∀ {n : Nat} (ret : List Value), Reader.Ends .stuck n (runRead (blocks.flatMap Block.reads) (none, ret)) := by
  induction hb with
  | nil => exact fun ret => Reader.Ends.pure _
  | @argument index d rest blocks hd _ ih =>
    intro n ret
    have hstored : Reader.Parses (ReadStmt.exec (.read index d) (none, ret)) fun _ st => ∃ ret', st = (none, ret') := by
      refine ((parses_readValue d).bind fun v => (Reader.Parses.lift _).bind fun _ => Reader.Parses.pure _).mono ?_
      rintro _ st ⟨_, v, _, rfl, -, _, _, _, rfl, -, rfl, rfl⟩
      exact ⟨_, rfl⟩
    have hends : Reader.Ends .stuck n (ReadStmt.exec (.read index d) (none, ret)) :=
      (ends_readValue hd).bind (parses_readValue d) fun _ v _ _ => (Reader.Ends.lift (validate_ne_stuck v)).map _
    refine hends.bind hstored ?_
    rintro p _ ⟨ret', rfl⟩ -
    exact ih ret'
  | @run pre post n w blocks hrun _ _ _ ih =>
    intro m ret
    have hle := CodecAux.bitRun_le hruns hrun
    have hword : Reader.Parses w.read fun p _ => p.length = w.sizeof := fun _ _ _ h => length_of_readBitfield h
    change Reader.Ends .stuck m ((w.read >>= fun b => pure (some ⟨w, b⟩, ret)) >>= runRead _)
    rw [bind_assoc]
    refine (ends_readBitfield w).bind hword fun p b _ _ => ?_
    obtain ⟨ret', hret⟩ : ∃ ret', runRead ((List.range n).map fun j => .getBit (pre.length + j) j) (some ⟨w, b⟩, ret) =
        pure (some ⟨w, b⟩, ret') :=
      exists_runRead_bits (fun j hj => Nat.lt_of_lt_of_le (List.mem_range.mp hj) hle) ⟨w, b⟩ ret
    rw [pure_bind, List.append_eq, runRead_append, List.append_eq, runRead_append, hret, pure_bind]
    exact ih ret'

/-- `method::read`, of a stream. -/
theorem ends_read {Γ : Spec} (hruns : ∀ c ∈ Γ.classes, ∀ m ∈ c.methods, BitRunsLe 32 m.arguments) {n : Nat} :
    Reader.Ends .stuck n Γ.read := by
  refine ends_readUint16.bind parses_readUint16 fun _ classId _ _ => ?_
  refine ends_readUint16.bind parses_readUint16 fun _ methodId _ _ => ?_
  cases hc : Γ.classes.find? fun c => c.index == classId with
  | none => exact Reader.Ends.throw (by simp)
  | some c =>
    cases hm : c.methods.find? fun m => m.index == methodId with
    | none =>
      simp only [hm]
      exact Reader.Ends.throw (by simp)
    | some m =>
      have hle := hruns c (List.mem_of_find?_eq_some hc) m (List.mem_of_find?_eq_some hm)
      obtain ⟨blocks, hblocks⟩ := CodecAux.exists_blocks_of_le hle
      simp only [hm, MethodDesc.read, genReadFunction, hblocks.genRead]
      exact (ends_runRead hle hblocks m.initial).map _

end CheckedAux

open CheckedAux

/-- What `method::read` of a frame throws is a `std::runtime_error`. -/
theorem Env.readFrame_error (Γ : Env) {f : Frame} {e : Exception} (h : Γ.spec.readFrame f = .error e) :
    ∃ what, e = .runtimeError what := by
  rcases Γ.spec.readFrame_isReadError h with hwhat | rfl
  · exact hwhat
  · unfold Spec.readFrame at h
    split at h
    · cases h
    · rename_i hread
      cases h
      exact absurd hread (ends_read Γ.bitRuns f.payload (Nat.le_refl _))

/-! ## Writing returns or throws -/

namespace CheckedAux

theorem write_ne_stuck {v : Value} (h : v.domain ≠ .bit) : v.write ≠ .error .stuck := by
  cases v with
  | bit b => exact absurd rfl h
  | shortstr s => exact writeShortstring_ne_stuck s
  | longstr s => exact writeLongstring_ne_stuck s
  | table t => exact writeTable_ne_stuck t
  | _ => simp [Value.write]

/-- Statements in a row. -/
theorem runWrite_append_ne_stuck {x : List Value} {s t : List WriteStmt} {scope : Option BitField}
    (hs : runWrite x s scope ≠ .error .stuck)
    (ht : ∀ scope' bs, runWrite x s scope = .ok (scope', bs) → runWrite x t scope' ≠ .error .stuck) :
    runWrite x (s ++ t) scope ≠ .error .stuck := by
  induction s generalizing scope with
  | nil => exact ht scope [] rfl
  | cons st s ih =>
    intro herror
    rw [List.cons_append, runWrite] at herror
    rw [runWrite] at hs ht
    rcases hexec : st.exec x scope with e | ⟨scope₁, a⟩
    · rw [hexec] at herror hs
      exact hs herror
    · rw [hexec] at herror hs ht
      refine Except.bind_ne_error (@ih scope₁ ?_ ?_) (fun r => by simp [pure, Except.pure]) herror
      · intro he
        change (runWrite x s scope₁ >>= _) ≠ _ at hs
        rw [he] at hs
        exact hs rfl
      · intro scope' bs hok
        refine ht scope' (a ++ bs) ?_
        change (runWrite x s scope₁ >>= _) = _
        rw [hok]
        rfl

/-- The bits of a run go into the word. -/
theorem exists_runWrite_bits {x : List Value} {start : Nat} {js : List Nat}
    (hjs : ∀ j ∈ js, j < 32 ∧ ∃ v, x[start + j]? = some (.bit v)) (f : BitField) :
    ∃ f', runWrite x (js.map fun j => .setBit (start + j) j) (some f) = .ok (some f', []) := by
  induction js generalizing f with
  | nil => exact ⟨f, rfl⟩
  | cons j js ih =>
    obtain ⟨⟨hj, v, hv⟩, hjs⟩ := List.forall_mem_cons.mp hjs
    obtain ⟨b, hb, -⟩ := setBit_reaches hj f.bits v
    obtain ⟨f', hf'⟩ := ih hjs ⟨f.size, b⟩
    refine ⟨f', ?_⟩
    have hset : WriteStmt.exec x (.setBit (start + j) j) (some f) = .ok (some ⟨f.size, b⟩, []) := by
      simp only [WriteStmt.exec, hv, hb]
    rw [List.map_cons, runWrite, hset]
    change (runWrite x _ _ >>= _) = _
    rw [hf']
    rfl

/-- A run is written. -/
theorem exists_runWrite_run {x : List Value} {pre post : List Domain} {n : Nat} {w : BitfieldSize}
    (hruns : BitRunsLe 32 (x.map Value.domain)) (hrun : BitRun (x.map Value.domain) pre n post) :
    ∃ bs, runWrite x (Block.run pre.length n w).writes none = .ok (none, bs) := by
  have hbits : ∀ j ∈ List.range n, j < 32 ∧ ∃ v, x[pre.length + j]? = some (.bit v) := by
    intro j hj
    have hlt := List.mem_range.mp hj
    refine ⟨Nat.lt_of_lt_of_le hlt (CodecAux.bitRun_le hruns hrun), ?_⟩
    obtain ⟨v, hv, hdomain⟩ := (List.getElem?_map ▸ Option.map_eq_some_iff).mp (hrun.getElem?_run hlt)
    cases v with
    | bit v => exact ⟨v, hv⟩
    | _ => cases hdomain
  obtain ⟨f, hf⟩ := exists_runWrite_bits hbits ⟨w, 0⟩
  have hopen : runWrite x (.openBits w :: (List.range n).map fun j => .setBit (pre.length + j) j) none = .ok (some f, []) := by
    change (runWrite x _ (some ⟨w, 0⟩) >>= _) = _
    rw [hf]
    rfl
  exact ⟨_, runWrite_append hopen (s := .openBits w :: (List.range n).map fun j => .setBit (pre.length + j) j)
    (t := [.closeBits w]) rfl⟩

/-- Induction on the blocks. -/
theorem runWrite_ne_stuck {x : List Value} (hruns : BitRunsLe 32 (x.map Value.domain)) {index : Nat} {rest : List Domain}
    {blocks : List Block} (hb : Blocks (x.map Value.domain) index rest blocks) :
    (x.map Value.domain).drop index = rest → runWrite x (blocks.flatMap Block.writes) none ≠ .error .stuck := by
  induction hb with
  | nil =>
    intro _ h
    cases h
  | @argument index d rest blocks hd _ ih =>
    intro hdrop
    have hget : (x.map Value.domain)[index]? = some d := by
      have hfirst := congrArg List.head? hdrop
      rwa [List.head?_drop] at hfirst
    rw [List.getElem?_map] at hget
    obtain ⟨v, hv, rfl⟩ := Option.map_eq_some_iff.mp hget
    have hone : runWrite x [.write index] none = v.write >>= fun b => pure (none, b ++ []) := by
      simp only [runWrite, WriteStmt.exec, hv, bind_assoc]
      rfl
    have hwrite : runWrite x (Block.argument index v.domain).writes none ≠ .error .stuck := by
      change runWrite x [.write index] none ≠ _
      rw [hone]
      exact Except.bind_ne_error (write_ne_stuck hd) fun b => by simp [pure, Except.pure]
    rw [List.flatMap_cons]
    refine runWrite_append_ne_stuck hwrite fun scope bs hok => ?_
    obtain ⟨b, -, hret⟩ := Except.bind_eq_ok.mp (hone.symm.trans hok)
    cases hret
    refine ih ?_
    rw [← List.drop_drop, hdrop]
    rfl
  | @run pre post n w blocks hrun _ _ _ ih =>
    intro hdrop
    obtain ⟨bs, hbs⟩ := exists_runWrite_run (w := w) hruns hrun
    rw [List.flatMap_cons]
    refine runWrite_append_ne_stuck (by simp [hbs]) fun scope' bs' hok => ?_
    cases hbs.symm.trans hok
    refine ih ?_
    rw [← List.drop_drop, hdrop, List.drop_left' List.length_replicate]

end CheckedAux

/-- What `write` throws for an object with members of the right types is an exception of the library. -/
theorem Method.write_ne_stuck {m : Method} (htyped : m.values.map Value.domain = m.desc.arguments)
    (hruns : BitRunsLe 32 m.desc.arguments) : m.write ≠ .error .stuck := by
  rw [← htyped] at hruns
  obtain ⟨blocks, hblocks⟩ := CodecAux.exists_blocks_of_le hruns
  unfold Method.write
  simp only [← htyped, genWriteFunction, hblocks.genWrite]
  exact Except.bind_ne_error (runWrite_ne_stuck hruns hblocks rfl) fun r => by simp [pure, Except.pure]

/-- What `create_from_method` throws is an exception of the library. -/
theorem createFromMethod_ne_stuck {memory : Nat → UInt8} {channel : UInt16} {m : Method}
    (htyped : m.values.map Value.domain = m.desc.arguments) (hruns : BitRunsLe 32 m.desc.arguments) :
    createFromMethod memory channel m ≠ .error .stuck := by
  refine Except.bind_ne_error (Method.write_ne_stuck htyped hruns) fun bs => ?_
  split <;> simp [pure, Except.pure, throw, throwThe, MonadExceptOf.throw]

/-- The frame of a method as its constructor leaves it. -/
theorem Env.createFromMethod_ne_stuck (Γ : Env) {c : ClassDesc} (hc : c ∈ Γ.spec.classes) {d : MethodDesc} (hd : d ∈ c.methods)
    (channel : UInt16) : createFromMethod Γ.memory channel (.create c d) ≠ .error .stuck :=
  Amqpp.createFromMethod_ne_stuck d.typed (Γ.bitRuns c hc d hd)

/-! ## Looking at the access -/

section checked

variable (readFieldValue : Reader Exception FieldValue)

/-- The cases of `read_field_value`. Only the one for byte strings is undefined on some streams. -/
def checkedPayload : FieldType → Reader Exception FieldValue
  | .bytes => do
    let size ← readUint32
    -- `&val[0]` of an empty vector.
    if size = 0 then throw .undefined
    else
      let val ← Reader.exactly size.toNat (.runtimeError "Read failed.")
      return .bytes val
  | ty => readPayload readFieldValue ty

/-- The `switch` of `read_field_value`. -/
def checkedCase (fieldType : UInt8) : Reader Exception FieldValue :=
  match FieldType.ofCode fieldType with
  | some ty => checkedPayload readFieldValue ty
  | none => throw (.runtimeError "Invalid field table type")

end checked

/-- `read_field_value`, for at most `n` values inside each other. -/
def checkedFieldValueN : Nat → Reader Exception FieldValue
  | 0 => throw .stuck
  | n + 1 => do checkedCase (checkedFieldValueN n) (← readUint8)

/-- `read_table`. -/
def checkedTable : Reader Exception TableMap := fun s => readTableWith (checkedFieldValueN (s.buf.length + 1)) s

/-- `read_X(i)`. -/
def Value.checkedRead : Domain → Reader Exception Value
  | .table => do return table (← checkedTable)
  | domain => Value.read domain

/-- A statement of `read`. -/
def ReadStmt.checkedExec : ReadStmt → Option BitField × List Value → Reader Exception (Option BitField × List Value)
  | read index domain, (scope, ret) => do
    let v ← Value.checkedRead domain
    Reader.lift v.validate
    return (scope, ret.set index v)
  | stmt, st => stmt.exec st

/-- The statements of `read`, one after the other. -/
def runCheckedRead : List ReadStmt → Option BitField × List Value → Reader Exception (Option BitField × List Value)
  | [], st => return st
  | s :: ss, st => do runCheckedRead ss (← s.checkedExec st)

/-- The generated `read` of a method class. -/
def MethodDesc.checkedRead (m : MethodDesc) (classId : UInt16) : Reader Exception Method :=
  match genReadFunction m.arguments with
  | some sts => do
    let (_, ret) ← runCheckedRead sts (none, m.initial)
    return ⟨classId, m, ret⟩
  | none => throw .stuck

/-- `method::read` of a stream. -/
def Spec.checkedRead (Γ : Spec) : Reader Exception Method := do
  let classId ← readUint16
  let methodId ← readUint16
  match Γ.classes.find? (fun c => c.index == classId) with
  | none => throw (.runtimeError "Invalid class_id")
  | some c =>
    match c.methods.find? (fun m => m.index == methodId) with
    | none => throw (.runtimeError "Invalid method_id")
    | some m => m.checkedRead classId

/-- `method::read` of the frame comes to a byte string without bytes, and is undefined. -/
def Spec.misreads (Γ : Spec) (f : Frame) : Bool :=
  match Γ.checkedRead (.ofString f.payload) with
  | .error .undefined => true
  | _ => false

/-! ## The readers agree wherever reading is defined -/

namespace CheckedAux

theorem extends_checkedPayload {rfv rfv' : Reader Exception FieldValue} (h : Reader.Extends .undefined rfv rfv') (ty : FieldType) :
    Reader.Extends .undefined (checkedPayload rfv ty) (readPayload rfv' ty) := by
  cases ty with
  | bytes =>
    refine (Reader.Extends.refl _).bind fun size => ?_
    by_cases hsize : size = 0
    · rw [if_pos hsize]
      exact Reader.Extends.throw _
    · rw [if_neg hsize]
      exact Reader.Extends.refl _
  | _ =>
    simp only [checkedPayload]
    exact extends_readPayload h _

theorem extends_checkedFieldValueN (n : Nat) : Reader.Extends .undefined (checkedFieldValueN n) (readFieldValueN n) := by
  induction n with
  | zero => exact Reader.Extends.refl _
  | succ n ih =>
    refine (Reader.Extends.refl _).bind fun fieldType => ?_
    unfold checkedCase readCase
    cases FieldType.ofCode fieldType with
    | none => exact Reader.Extends.refl _
    | some ty => exact extends_checkedPayload ih ty

theorem extends_checkedTable : Reader.Extends .undefined checkedTable readTable :=
  fun s => extends_readTableWith (extends_checkedFieldValueN _) s

theorem extends_checkedValue (domain : Domain) : Reader.Extends .undefined (Value.checkedRead domain) (Value.read domain) := by
  cases domain with
  | table => exact extends_checkedTable.map _
  | _ => exact Reader.Extends.refl _

theorem extends_checkedExec (s : ReadStmt) (st : Option BitField × List Value) :
    Reader.Extends .undefined (s.checkedExec st) (s.exec st) := by
  cases s with
  | read index domain => exact (extends_checkedValue domain).bind fun _ => Reader.Extends.refl _
  | _ => exact Reader.Extends.refl _

theorem extends_runCheckedRead (ss : List ReadStmt) :
    ∀ st, Reader.Extends .undefined (runCheckedRead ss st) (runRead ss st) := by
  induction ss with
  | nil => exact fun st => Reader.Extends.refl _
  | cons s ss ih => exact fun st => (extends_checkedExec s st).bind ih

end CheckedAux

theorem Spec.extends_checkedRead (Γ : Spec) : Reader.Extends .undefined Γ.checkedRead Γ.read := by
  refine (Reader.Extends.refl _).bind fun classId => (Reader.Extends.refl _).bind fun methodId => ?_
  cases Γ.classes.find? fun c => c.index == classId with
  | none => exact Reader.Extends.refl _
  | some c =>
    cases hm : c.methods.find? fun m => m.index == methodId with
    | none =>
      simp only [hm]
      exact Reader.Extends.refl _
    | some m =>
      simp only [hm, MethodDesc.checkedRead, MethodDesc.read]
      cases genReadFunction m.arguments with
      | none => exact Reader.Extends.refl _
      | some sts => exact (extends_runCheckedRead sts _).bind fun _ => Reader.Extends.refl _

/-- Where reading is defined, `method::read` does what it is modelled by. -/
theorem Spec.readFrame_of_not_misreads {Γ : Spec} {f : Frame} (h : Γ.misreads f = false) :
    Γ.readFrame f = (Γ.checkedRead (.ofString f.payload)).map Prod.fst := by
  have hread : Γ.read (.ofString f.payload) = Γ.checkedRead (.ofString f.payload) := by
    refine Γ.extends_checkedRead _ fun hundefined => ?_
    rw [misreads, hundefined] at h
    cases h
  unfold readFrame
  rw [hread]
  cases Γ.checkedRead (.ofString f.payload) <;> rfl

/-- An `exchange.declare` whose table holds one byte string, of length zero. -/
example : EnvSample.spec.misreads
    ⟨.method, 1, [0, 40, 0, 10, 0, 0, 0, 0, 0, 0, 0, 0, 7, 1, 107, 120, 0, 0, 0, 0]⟩ = true := by decide +kernel

end Amqpp
