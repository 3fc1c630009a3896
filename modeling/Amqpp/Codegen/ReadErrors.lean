import Amqpp.Codegen.Method

/-!
# What reading a method can throw

A malformed frame makes `method::read` throw a `std::runtime_error`, and nothing else: none of the errors of the channel or
of a promise.
-/

namespace Amqpp

/-- The errors of reading: a `std::runtime_error`, or the model's own. -/
def Exception.IsReadError (e : Exception) : Prop := (∃ what, e = .runtimeError what) ∨ e = .stuck

namespace ReadErrorsAux

open Reader (Throws)

theorem runtimeError (what : String) : (Exception.runtimeError what).IsReadError := Or.inl ⟨what, rfl⟩

theorem stuck : Exception.stuck.IsReadError := Or.inr rfl

theorem throws_readUint8 : Throws Exception.IsReadError readUint8 := (Throws.exactly 1 (runtimeError _)).map _
theorem throws_readUint16 : Throws Exception.IsReadError readUint16 := ((Throws.exactly 2 (runtimeError _)).map _).map _
theorem throws_readUint32 : Throws Exception.IsReadError readUint32 := ((Throws.exactly 4 (runtimeError _)).map _).map _
theorem throws_readUint64 : Throws Exception.IsReadError readUint64 := ((Throws.exactly 8 (runtimeError _)).map _).map _

theorem throws_readShortstring : Throws Exception.IsReadError readShortstring :=
  throws_readUint8.bind fun _ => (Throws.check (runtimeError _)).bind fun _ => Throws.exactly _ (runtimeError _)

theorem throws_readLongstringLoop (len : UInt32) :
    ∀ k readBytes s, Throws Exception.IsReadError (readLongstringLoop len k readBytes s) := by
  intro k
  induction k with
  | zero => exact fun _ _ => Throws.throw stuck
  | succ k ih =>
    intro readBytes s
    rw [readLongstringLoop]
    split
    · exact (Throws.exactly _ (runtimeError _)).bind fun _ => ih _ _
    · exact Throws.pure _

theorem throws_readLongstring : Throws Exception.IsReadError readLongstring :=
  throws_readUint32.bind fun _ => (Throws.check (runtimeError _)).bind fun _ => throws_readLongstringLoop _ _ _ _

section tables

variable {rfv : Reader Exception FieldValue} (h : Throws Exception.IsReadError rfv)

include h

theorem throws_readTableEntryWith : Throws Exception.IsReadError (readTableEntryWith rfv) := by
  refine throws_readShortstring.bind fun _ => h.bind fun _ => Throws.lift fun e he => ?_
  unfold TableEntry.create at he
  split at he
  · cases he
    exact runtimeError _
  · cases he

theorem throws_readTableWith : Throws Exception.IsReadError (readTableWith rfv) :=
  throws_readLongstring.bind fun b =>
    Throws.onString b (Throws.whileM stuck (fun _ => (throws_readTableEntryWith h).map _) _ _)

/-- Each case of `read_field_value`, when the values inside it throw nothing else. -/
theorem throws_readPayload (ty : FieldType) : Throws Exception.IsReadError (readPayload rfv ty) := by
  cases ty with
  | boolean => exact throws_readUint8.map _
  | int8 => exact throws_readUint8.map _
  | int16 => exact throws_readUint16.map _
  | int32 => exact throws_readUint32.map _
  | int64 => exact throws_readUint64.map _
  | float => exact throws_readUint32.map _
  | double => exact throws_readUint64.map _
  | decimal => exact throws_readUint8.bind fun _ => throws_readUint32.map _
  | longstring => exact throws_readLongstring.map _
  | fieldarray =>
    exact throws_readLongstring.bind fun b => (Throws.onString b (Throws.whileM stuck (fun _ => h.map _) _ _)).map _
  | timestamp => exact throws_readUint64.map _
  | fieldtable => exact (throws_readTableWith h).map _
  | void => exact Throws.pure _
  | bytes => exact throws_readUint32.bind fun _ => (Throws.exactly _ (runtimeError _)).map _

end tables

/-- Induction on the levels of nesting to go. -/
theorem throws_readFieldValueN (n : Nat) : Throws Exception.IsReadError (readFieldValueN n) := by
  induction n with
  | zero => exact Throws.throw stuck
  | succ n ih =>
    refine throws_readUint8.bind fun code => ?_
    unfold readCase
    split
    · exact throws_readPayload ih _
    · exact Throws.throw (runtimeError _)

theorem throws_readTable : Throws Exception.IsReadError readTable :=
  fun s => throws_readTableWith (throws_readFieldValueN _) s

theorem throws_readValue (domain : Domain) : Throws Exception.IsReadError (Value.read domain) := by
  cases domain with
  | octet => exact throws_readUint8.map _
  | short => exact throws_readUint16.map _
  | long => exact throws_readUint32.map _
  | longlong => exact throws_readUint64.map _
  | timestamp => exact throws_readUint64.map _
  | bit => exact Throws.throw stuck
  | shortstr => exact throws_readShortstring.map _
  | longstr => exact throws_readLongstring.map _
  | table => exact throws_readTable.map _

theorem throws_readBitfield (w : BitfieldSize) : Throws Exception.IsReadError w.read := by
  cases w with
  | w8 => exact throws_readUint8.map _
  | w16 => exact throws_readUint16.map _
  | w32 => exact throws_readUint32.map _
  | w64 => exact throws_readUint64.map _

end ReadErrorsAux

open ReadErrorsAux
open Reader (Throws)

/-- The setters check strings, and throw a `std::runtime_error` too. -/
theorem Value.validate_isReadError {v : Value} {e : Exception} (h : v.validate = .error e) : e.IsReadError := by
  unfold Value.validate at h
  split at h
  · unfold validateShortstring at h
    split at h
    · cases h
      exact runtimeError _
    · split at h
      · cases h
        exact runtimeError _
      · cases h
  · unfold validateLongstring at h
    split at h
    · cases h
      exact runtimeError _
    · cases h
  · cases h

namespace ReadErrorsAux

/-- One statement of a generated `read`. -/
theorem throws_exec (s : ReadStmt) (st : Option BitField × List Value) : Throws Exception.IsReadError (s.exec st) := by
  obtain ⟨scope, ret⟩ := st
  cases s with
  | openBits w => exact (throws_readBitfield w).map _
  | getBit index position =>
    cases scope with
    | none => exact Throws.throw stuck
    | some f =>
      simp only [ReadStmt.exec]
      split
      · exact Throws.pure _
      · exact Throws.throw stuck
  | closeBits => exact Throws.pure _
  | read index domain =>
    exact (throws_readValue domain).bind fun v => (Throws.lift fun _ => v.validate_isReadError).map _

theorem throws_runRead (ss : List ReadStmt) : ∀ st, Throws Exception.IsReadError (runRead ss st) := by
  induction ss with
  | nil => exact fun st => Throws.pure st
  | cons s ss ih => exact fun st => (throws_exec s st).bind ih

end ReadErrorsAux

/-- `method::read` of a stream. -/
theorem Spec.throws_read (Γ : Spec) : Throws Exception.IsReadError Γ.read := by
  refine throws_readUint16.bind fun classId => throws_readUint16.bind fun methodId => ?_
  split
  · exact Throws.throw (runtimeError _)
  · split
    · exact Throws.throw (runtimeError _)
    · unfold MethodDesc.read
      split
      · exact (throws_runRead _ _).map _
      · exact Throws.throw stuck

/-- `method::read` of a frame. -/
theorem Spec.readFrame_isReadError (Γ : Spec) {f : Frame} {e : Exception} (h : Γ.readFrame f = .error e) :
    e.IsReadError := by
  unfold Spec.readFrame at h
  split at h
  · cases h
  · rename_i e' he
    cases h
    exact Γ.throws_read _ _ he

end Amqpp
