import Amqpp.Codegen.ContentHeader
import Mathlib.Data.Nat.ModEq

/-!
# Content headers on the wire

A content header says of itself what it holds: the bits, the members behind them, and what a reader makes of the two agree.
The size that is computed for it leaves out the class id.
-/

namespace Amqpp

namespace Properties

variable {c : ContentClass}

/-- The class id, the weight, the body size, the bits and the fields, of which each is there when `x_is_set` says so; and
bit `i` says whether field `i` is there. -/
def LaidOut (p : Properties c) (bs : List UInt8) : Prop :=
  ∃ (flags : UInt16) (fields : Fin c.fields.length → List UInt8),
    bs = writeUint16 c.index ++ (writeUint16 p.weight ++ (writeUint64 p.bodySize ++
      (writeUint16 flags ++ ((List.finRange _).map fields).flatten))) ∧
    (∀ i, p.isSet i = true → (p.members i).val.write = .ok (fields i) ∧ fields i ≠ []) ∧
    (∀ i, p.isSet i = false → fields i = []) ∧
    ∀ i : Fin c.fields.length, flags.toNat.testBit i = true ↔ fields i ≠ []

/-- `q` is what was written of `p`, in an object that was created in the given memory. -/
structure Recovers (memory : Nat → UInt64) (p q : Properties c) : Prop where
  weight : q.weight = p.weight
  bodySize : q.bodySize = p.bodySize
  read : ∀ i, p.isSet i = true → q.members i = p.members i
  unread : ∀ i, p.isSet i = false → q.members i = (create c memory).members i

/-- `get_serialized_size` is the number of bytes that `write` emits. -/
def SizedExactly (p : Properties c) : Prop := ∃ bs q, write p = .ok bs q ∧ p.getSerializedSize.toNat = bs.length

end Properties

namespace ContentHeaderAux

open Properties

variable {c : ContentClass}

/-- At most 16 bits fit in the word that is written. -/
theorem exists_flags (hfields : c.fields.length ≤ 16) (bits : BitVec c.fields.length) :
    ∃ flags : UInt64, toUlong bits = .ok flags ∧ flags.toUInt16.toNat = bits.toNat := by
  have hlt : bits.toNat < 2 ^ 16 := Nat.lt_of_lt_of_le bits.isLt (Nat.pow_le_pow_right (by decide) hfields)
  refine ⟨UInt64.ofNat bits.toNat, if_pos (by omega), ?_⟩
  rw [UInt64.toNat_toUInt16, UInt64.toNat_ofNat_of_lt' (show bits.toNat < 2 ^ 64 by omega)]
  omega

/-- The whole header is read back. -/
theorem exists_reads_read {p : Properties c} {flags : UInt16} (hflags : flags.toNat = p.updateTables.fieldSet.toNat)
    (memory : Nat → UInt64) :
    ∃ q, Reader.Reads (Properties.read c memory) (writeUint16 p.weight ++ (writeUint64 p.bodySize ++
      (writeUint16 flags ++ ((List.finRange _).map p.chunk).flatten))) q ∧ Recovers memory p q := by
  have hbits (j : Fin c.fields.length) : (BitVec.ofNat c.fields.length flags.toNat).getLsbD j = p.isSet j := by
    rw [hflags, BitVec.ofNat_toNat, BitVec.setWidth_eq, getLsbD_updateTables]
  obtain ⟨members, hread, hunread, hset⟩ := exists_reads_readFields p (List.finRange _)
    { create c memory with weight := p.weight, bodySize := p.bodySize, fieldSet := BitVec.ofNat _ flags.toNat } hbits
  refine ⟨_, (reads_readUint16 _).bind ((reads_readUint64 _).bind ((reads_readUint16 _).bind hread)), rfl, rfl, ?_, ?_⟩
  · exact fun i h => hset i h (Or.inl (List.mem_finRange i))
  · exact hunread

/-- `properties::read` finds the class. -/
theorem reads_read {S : ContentSpec} (hc : c ∈ S.classes) {memory : Nat → UInt64} {bs : List UInt8} {q : Properties c}
    (h : Reader.Reads (Properties.read c memory) bs q) : Reader.Reads (S.read memory) (writeUint16 c.index ++ bs) ⟨c, q⟩ := by
  have hfind := find?_index S.nodup hc
  refine (reads_readUint16 c.index).bind ?_
  simp only [hfind]
  exact h.map _

/-! ## The size -/

/-- A field that is set is counted as it is written. -/
theorem memberSize_eq {p : Properties c} {i : Fin c.fields.length} (h : p.isSet i = true) :
    memberSize (p.members i).val = UInt32.ofNat (p.chunk i).length := by
  have hwrite := (sentAs_chunk h).write
  have hprop : (p.members i).val.domain.isProperty = true := by
    rw [(p.members i).typed]
    exact c.isProperty_domain i
  unfold isSet at h
  cases hv : (p.members i).val with
  | bit v =>
    rw [hv] at hprop
    cases hprop
  | longstr s =>
    rw [hv] at hprop
    cases hprop
  | shortstr s =>
    rw [hv] at hwrite
    obtain ⟨-, hchunk⟩ := writeShortstring_eq_ok.mp hwrite
    rw [hchunk, List.length_append, length_writeUint8, UInt32.ofNat_add]
    rfl
  | table t =>
    rw [hv] at h hwrite
    obtain rfl := List.isEmpty_iff.mp h
    rw [← Except.ok.inj hwrite]
    rfl
  | octet v =>
    rw [hv] at hwrite
    rw [← Except.ok.inj hwrite, length_writeUint8]
    rfl
  | short v =>
    rw [hv] at hwrite
    rw [← Except.ok.inj hwrite, length_writeUint16]
    rfl
  | long v =>
    rw [hv] at hwrite
    rw [← Except.ok.inj hwrite, length_writeUint32]
    rfl
  | longlong v =>
    rw [hv] at hwrite
    rw [← Except.ok.inj hwrite, length_writeUint64]
    rfl
  | timestamp v =>
    rw [hv] at hwrite
    rw [← Except.ok.inj hwrite, length_writeUint64]
    rfl

/-- The sum over some of the fields. -/
theorem foldl_memberSize (p : Properties c) (is : List (Fin c.fields.length)) (k : Nat) :
    is.foldl (fun result i => result + if p.isSet i then memberSize (p.members i).val else 0) (UInt32.ofNat k) =
      UInt32.ofNat (k + (is.map p.chunk).flatten.length) := by
  induction is generalizing k with
  | nil => rfl
  | cons i is ih =>
    have hterm : (if p.isSet i then memberSize (p.members i).val else 0) = UInt32.ofNat (p.chunk i).length := by
      cases h : p.isSet i with
      | false =>
        rw [chunk_of_not_isSet h]
        rfl
      | true => exact memberSize_eq h
    rw [List.foldl_cons, hterm, ← UInt32.ofNat_add, ih, List.map_cons, List.flatten_cons, List.length_append, Nat.add_assoc]

/-- The size counts everything but the class id, modulo `2 ^ 32`. -/
theorem getSerializedSize_eq (p : Properties c) (flags : UInt16) :
    p.getSerializedSize.toNat + 2 ≡ (p.output flags).length [MOD 2 ^ 32] := by
  have hsize : p.getSerializedSize = UInt32.ofNat (12 + ((List.finRange _).map p.chunk).flatten.length) := foldl_memberSize p _ 12
  rw [hsize, UInt32.toNat_ofNat', output, List.length_append, List.length_append, List.length_append, List.length_append,
    length_writeUint16, length_writeUint16, length_writeUint16, length_writeUint64]
  unfold Nat.ModEq
  omega

/-- It is below the size with the class id. -/
theorem getSerializedSize_lt (p : Properties c) (flags : UInt16) : p.getSerializedSize.toNat < (p.output flags).length := by
  have hsize : p.getSerializedSize = UInt32.ofNat (12 + ((List.finRange _).map p.chunk).flatten.length) := foldl_memberSize p _ 12
  rw [hsize, UInt32.toNat_ofNat', output, List.length_append, List.length_append, List.length_append, List.length_append,
    length_writeUint16, length_writeUint16, length_writeUint16, length_writeUint64]
  omega

/-- What `write` returns. -/
theorem exists_flags_of_write {p q : Properties c} {bs : List UInt8} (h : write p = .ok bs q) :
    ∃ flags, bs = p.output flags := by
  rw [write_eq] at h
  cases hflags : toUlong p.updateTables.fieldSet with
  | ok flags =>
    rw [hflags] at h
    cases h
    exact ⟨_, rfl⟩
  | error e =>
    rw [hflags] at h
    cases h

end ContentHeaderAux

open ContentHeaderAux Properties

/-- For every class with at most 16 fields and every object: `write` emits a header in which bit `i` says whether field `i`
follows; `properties::read` takes exactly these bytes, whatever follows them, and returns the class, the weight, the body
size and every member that was set, and leaves the others as they were created; and a second `write` of the object emits the
same bytes. -/
theorem content_header_consistent (S : ContentSpec) (c : ContentClass) (hc : c ∈ S.classes) (hfields : c.fields.length ≤ 16)
    (p : Properties c) :
    ∃ bs p', write p = .ok bs p' ∧ p.LaidOut bs ∧
      (∀ memory, ∃ q, Reader.Reads (S.read memory) bs ⟨c, q⟩ ∧ Recovers memory p q) ∧ write p' = .ok bs p' := by
  obtain ⟨flags, hflags, hnat⟩ := exists_flags hfields p.updateTables.fieldSet
  refine ⟨p.output flags.toUInt16, p.updateTables, ?_, ?_, ?_, ?_⟩
  · rw [write_eq, hflags]
  · refine ⟨flags.toUInt16, p.chunk, rfl, fun i h => ⟨(sentAs_chunk h).write, (sentAs_chunk h).ne_nil⟩,
      fun i h => chunk_of_not_isSet h, fun i => ?_⟩
    rw [chunk_ne_nil_iff, hnat, ← getLsbD_updateTables]
    rfl
  · intro memory
    obtain ⟨q, hread, hq⟩ := exists_reads_read hnat memory
    exact ⟨q, reads_read hc hread, hq⟩
  · have houtput : p.updateTables.output flags.toUInt16 = p.output flags.toUInt16 := by
      unfold output
      rw [weight_updateTables, bodySize_updateTables, chunk_updateTables]
    rw [write_eq, updateTables_updateTables, hflags]
    simp only [houtput]

/-- The header of an object with a content type and a delivery mode: they are sent, and so is its table, which is empty; the
timestamp is not. -/
theorem content_header_consistent_filled :
    (∃ bs p', write ContentSample.filled = .ok bs p' ∧ ContentSample.filled.LaidOut bs ∧
      (∀ memory, ∃ q, Reader.Reads (ContentSample.spec.read memory) bs ⟨ContentSample.basic, q⟩ ∧
        Recovers memory ContentSample.filled q) ∧ write p' = .ok bs p') ∧
      (List.finRange _).map ContentSample.filled.isSet = [true, true, true, false] :=
  ⟨content_header_consistent ContentSample.spec ContentSample.basic (by simp [ContentSample.spec]) (by decide) ContentSample.filled,
    by decide⟩

/-- The size is the number of bytes for no object: it leaves out the class id. -/
theorem content_header_size_short (c : ContentClass) (p : Properties c) :
    ¬p.SizedExactly ∧ ∀ bs q, write p = .ok bs q → p.getSerializedSize.toNat + 2 ≡ bs.length [MOD 2 ^ 32] := by
  constructor
  · rintro ⟨bs, q, hwrite, hsize⟩
    obtain ⟨flags, rfl⟩ := exists_flags_of_write hwrite
    exact Nat.ne_of_lt (getSerializedSize_lt p flags) hsize
  · intro bs q hwrite
    obtain ⟨flags, rfl⟩ := exists_flags_of_write hwrite
    exact getSerializedSize_eq p flags

/-- The object as it was created. -/
theorem content_header_size_created :
    ¬ContentSample.created.SizedExactly ∧
      ∀ bs q, write ContentSample.created = .ok bs q → ContentSample.created.getSerializedSize.toNat + 2 ≡ bs.length [MOD 2 ^ 32] :=
  content_header_size_short ContentSample.basic ContentSample.created

/-- It is written in 18 bytes, and its size is 16. -/
theorem content_header_of_18_bytes_counts_16 :
    ContentSample.created.getSerializedSize = 16 ∧
      (∃ bs q, write ContentSample.created = .ok bs q ∧ bs.length = 18) ∧ ¬ContentSample.created.SizedExactly := by
  refine ⟨rfl, ⟨_, _, rfl, rfl⟩, ?_⟩
  rintro ⟨bs, q, hwrite, hsize⟩
  cases hwrite
  cases hsize

end Amqpp
