import Amqpp.Table.Local

/-!
# How deep a decoding goes

The body of a table or of an array is read from a stream of its own, which is open as long as the values in it are read.
`readFieldValueIn d`, `readTableEntryIn d` and `readTableIn d` are the readers with room for `d` open bodies: they do what
the readers do, and run out (`stuck`) as soon as a body is opened while `d` are open. A string of `n` bytes never opens more
than `1 + n / 5`, since each body inside another one takes a type byte and a length of four bytes.
-/

namespace Amqpp

/-- A value of this type has a body. -/
def opensBody (fieldType : UInt8) : Bool :=
  fieldType == FieldType.fieldarray.code || fieldType == FieldType.fieldtable.code

/-- `read_field_value`, with room for `d` open bodies. -/
def readFieldValueIn : Nat → Reader Exception FieldValue
  | 0 => do
    let fieldType ← readUint8
    if opensBody fieldType then do
      let _ ← readLongstring
      throw .stuck
    else readCase (throw .stuck) fieldType
  | d + 1 => do readCase (readFieldValueIn d) (← readUint8)

/-- `read_table_entry`, with room for `d` open bodies. -/
def readTableEntryIn (d : Nat) : Reader Exception TableEntry := readTableEntryWith (readFieldValueIn d)

/-- `read_table`, with room for `d` open bodies: its own is the first. -/
def readTableIn : Nat → Reader Exception TableMap
  | 0 => do
    let _ ← readLongstring
    throw .stuck
  | d + 1 => readTableWith (readFieldValueIn d)

/-! ## With room enough -/

section room

variable {rfv : Reader Exception FieldValue}

/-- Reading a body and giving up extends to anything that reads the body first. -/
theorem extends_readCase_of_opensBody {fieldType : UInt8} (h : opensBody fieldType = true) :
    Reader.Extends .stuck (readLongstring >>= fun _ => throw .stuck) (readCase rfv fieldType) := by
  have hcode : ∀ ty : FieldType, readCase rfv ty.code = readPayload rfv ty := fun ty => by rw [readCase, FieldType.ofCode_code]
  simp only [opensBody, Bool.or_eq_true, beq_iff_eq] at h
  rcases h with rfl | rfl
  · rw [hcode]
    exact (Reader.Extends.refl _).bind fun _ => Reader.Extends.throw _
  · rw [hcode, readPayload, readTableWith, bind_assoc]
    exact (Reader.Extends.refl _).bind fun _ => Reader.Extends.throw _

/-- Other values do not depend on how values inside them are read. -/
theorem readCase_of_not_opensBody {fieldType : UInt8} (h : opensBody fieldType = false) (rfv' : Reader Exception FieldValue) :
    readCase rfv fieldType = readCase rfv' fieldType := by
  unfold readCase
  rcases hty : FieldType.ofCode fieldType with _ | ty
  · rfl
  · have hcode : fieldType = ty.code := by
      have hfind := List.find?_some hty
      exact (beq_iff_eq.mp hfind).symm
    cases ty with
    | fieldarray => rw [hcode] at h; cases h
    | fieldtable => rw [hcode] at h; cases h
    | _ => rfl

end room

/-- As long as there is room, `read_field_value` is what runs. -/
theorem extends_readFieldValueIn (d : Nat) : Reader.Extends .stuck (readFieldValueIn d) (readFieldValueN (d + 1)) := by
  induction d with
  | zero =>
    refine (Reader.Extends.refl _).bind fun fieldType => ?_
    cases hbody : opensBody fieldType with
    | true => exact extends_readCase_of_opensBody hbody
    | false => exact Reader.Extends.refl _
  | succ d ih =>
    refine (Reader.Extends.refl _).bind fun fieldType => ?_
    unfold readCase
    cases FieldType.ofCode fieldType with
    | none => exact Reader.Extends.refl _
    | some ty => exact extends_readPayload ih ty

theorem parses_readFieldValueIn (d : Nat) : Reader.Parses (readFieldValueIn d) (FieldValue.TakenFrom 0) :=
  (parses_readFieldValueN _).of_extends (extends_readFieldValueIn d)

theorem parses_readFieldValueIn_ne_nil (d : Nat) : Reader.Parses (readFieldValueIn d) fun p _ => p ≠ [] :=
  (parses_readFieldValueN_ne_nil _).of_extends (extends_readFieldValueIn d)

/-- Each body takes five bytes of the string it stands in, so there is room when there are five for each and one body more.
-/
theorem ends_readFieldValueIn (d n : Nat) (hn : n < 5 * (d + 1)) : Reader.Ends .stuck n (readFieldValueIn d) := by
  induction d generalizing n with
  | zero =>
    refine ends_readUint8.bind parses_readUint8 fun p code hp hle => ?_
    have hlen : p.length = 1 := hp ▸ length_writeUint8 code
    cases hbody : opensBody code with
    | true =>
      -- Four bytes are too few for a type byte and a length.
      refine ends_readLongstring.bind parses_readLongstring fun q is his hle' => ?_
      rw [his.2, List.length_append, length_writeUint32] at hle'
      omega
    | false =>
      rw [if_neg Bool.false_ne_true, readCase_of_not_opensBody hbody (readFieldValueN (n + 1))]
      unfold readCase
      cases FieldType.ofCode code with
      | none => exact Reader.Ends.throw (by decide)
      | some ty =>
        exact ends_readPayload (parses_readFieldValueN _) (parses_readFieldValueN_ne_nil _) (ends_readFieldValueN _ _ (by omega)) ty
  | succ d ih =>
    refine ends_readUint8.bind parses_readUint8 fun p code hp hle => ?_
    have hlen : p.length = 1 := hp ▸ length_writeUint8 code
    unfold readCase
    cases FieldType.ofCode code with
    | none => exact Reader.Ends.throw (by decide)
    | some ty => exact ends_readPayload (parses_readFieldValueIn d) (parses_readFieldValueIn_ne_nil d) (ih _ (by omega)) ty

/-- A table that holds an empty table has two open bodies at a time. -/
example : readTableIn 1 (.ofString [0, 0, 0, 7, 1, 107, 70, 0, 0, 0, 0]) = .error .stuck ∧
    readTableIn 2 (.ofString [0, 0, 0, 7, 1, 107, 70, 0, 0, 0, 0]) = .ok ([.mk [107] (.fieldtable [])], .ofString []) := ⟨rfl, rfl⟩

/-- A reader with room enough, and the reader. -/
theorem eq_of_extends {α : Type} {limited r : Reader Exception α} {passes : Nat → Reader Exception α} {k : Nat} {s : IStream}
    (hpasses : ∀ n, Reader.Extends .stuck (passes n) (passes (n + 1))) (hlimited : Reader.Extends .stuck limited (passes k))
    (hroom : limited s ≠ .error .stuck) {n : Nat} (hr : r s = passes n s) (hends : r s ≠ .error .stuck) : limited s = r s := by
  have hk := hlimited s hroom
  rw [hr] at hends ⊢
  rw [← hk]
  exact Reader.Extends.agree hpasses (hk ▸ hroom) hends

end Amqpp
