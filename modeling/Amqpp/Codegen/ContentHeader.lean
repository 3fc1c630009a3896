import Amqpp.Codegen.Codec
import Amqpp.Codegen.Properties

/-!
# Reading and writing content headers

What `x_is_set` says of a member decides what `write` sends and what the bits say, so the reader finds each member where its
bit says it is.
-/

namespace Amqpp

/-- A member that is sent as `b`: at least one byte, from which the reader gets it back. -/
structure Value.SentAs (v : Value) (b : List UInt8) : Prop where
  write : v.write = .ok b
  ne_nil : b ≠ []
  read : Reader.Reads (Value.read v.domain) b v

/-- Scalars, short strings that fit and empty tables are sent. -/
theorem Value.exists_sentAs {v : Value} (hprop : v.domain.isProperty = true) (hfits : v.FitsShort)
    (htable : ∀ t, v = .table t → t = []) : ∃ b, v.SentAs b := by
  cases v with
  | bit v => cases hprop
  | longstr s => cases hprop
  | octet v => exact ⟨_, rfl, by simp [writeUint8], (reads_readUint8 v).map _⟩
  | short v => exact ⟨_, rfl, List.ne_nil_of_length_pos (by simp), (reads_readUint16 v).map _⟩
  | long v => exact ⟨_, rfl, List.ne_nil_of_length_pos (by simp), (reads_readUint32 v).map _⟩
  | longlong v => exact ⟨_, rfl, List.ne_nil_of_length_pos (by simp), (reads_readUint64 v).map _⟩
  | timestamp v => exact ⟨_, rfl, List.ne_nil_of_length_pos (by simp), (reads_readUint64 v).map _⟩
  | shortstr s =>
    exact ⟨_, writeShortstring_eq_ok.mpr ⟨hfits, rfl⟩, List.cons_ne_nil _ _, (reads_readShortstring hfits).map _⟩
  | table t =>
    obtain rfl := htable t rfl
    have hwrite : (Value.table []).write = .ok (writeUint32 0) := rfl
    have haccepted : (Value.table []).Accepted := ⟨.empty, rfl, fun e he => absurd he List.not_mem_nil⟩
    exact ⟨writeUint32 0, hwrite, List.ne_nil_of_length_pos (by simp), (haccepted.encodes hwrite).read (by simp)⟩

namespace Properties

variable {c : ContentClass}

/-- A table is set when it is empty. -/
theorem isSet_of_table {p : Properties c} {i : Fin c.fields.length} (h : c.domain i = .table) :
    ∃ t, (p.members i).val = .table t ∧ p.isSet i = t.isEmpty := by
  have htyped : (p.members i).val.domain = .table := (p.members i).typed.trans h
  unfold isSet
  cases hv : (p.members i).val with
  | table t => exact ⟨t, rfl, rfl⟩
  | _ =>
    rw [hv] at htyped
    cases htyped

/-- Any other field is set when its bit is. -/
theorem isSet_of_ne_table {p : Properties c} {i : Fin c.fields.length} (h : c.domain i ≠ .table) :
    p.isSet i = p.fieldSet.getLsbD i := by
  have htyped := (p.members i).typed
  unfold isSet
  cases hv : (p.members i).val with
  | table t =>
    rw [hv] at htyped
    exact absurd htyped.symm h
  | _ => rfl

/-- A member that is set is sent. -/
theorem exists_sentAs {p : Properties c} {i : Fin c.fields.length} (h : p.isSet i = true) : ∃ b, (p.members i).val.SentAs b := by
  refine Value.exists_sentAs ?_ (p.members i).fits fun t ht => ?_
  · rw [(p.members i).typed]
    exact c.isProperty_domain i
  · unfold isSet at h
    rw [ht] at h
    exact List.isEmpty_iff.mp h

/-! ## The bits -/

/-- Whether a table is set does not depend on the bits. -/
theorem isSet_withFieldSet {p : Properties c} {i : Fin c.fields.length} (h : c.domain i = .table) (bits : BitVec c.fields.length) :
    isSet { p with fieldSet := bits } i = p.isSet i := by
  obtain ⟨t, ht, hset⟩ := isSet_of_table (p := p) h
  rw [hset, isSet]
  simp only [ht]

/-- The loop over some of the fields changes the bits of their tables only. -/
theorem foldl_updateTables (is : List (Fin c.fields.length)) (p : Properties c) :
    ∃ bits : BitVec c.fields.length,
      is.foldl (fun p i => if c.domain i = .table then { p with fieldSet := assignBit p.fieldSet i (p.isSet i) } else p) p =
        { p with fieldSet := bits } ∧
      (∀ j, c.domain j ≠ .table → bits.getLsbD j = p.fieldSet.getLsbD j) ∧
      (∀ j, c.domain j = .table → (j ∈ is ∨ p.fieldSet.getLsbD j = p.isSet j) → bits.getLsbD j = p.isSet j) := by
  induction is generalizing p with
  | nil => exact ⟨p.fieldSet, rfl, fun j _ => rfl, fun j _ h => h.resolve_left List.not_mem_nil⟩
  | cons i is ih =>
    rw [List.foldl_cons]
    by_cases hi : c.domain i = .table
    · rw [if_pos hi]
      obtain ⟨bits, hbits, hother, htable⟩ := ih { p with fieldSet := assignBit p.fieldSet i (p.isSet i) }
      refine ⟨bits, hbits, fun j hj => ?_, fun j hj h => ?_⟩
      · have hji : j ≠ i := fun hji => hj (hji ▸ hi)
        rw [hother j hj, getLsbD_assignBit _ _ j.isLt, if_neg (Fin.val_ne_of_ne hji)]
      · -- The bit of this table is right from now on.
        have hbit := htable j hj
        rw [isSet_withFieldSet hj, getLsbD_assignBit _ _ j.isLt] at hbit
        by_cases hji : j = i
        · exact hbit (Or.inr (by rw [hji, if_pos rfl]))
        · rw [if_neg (Fin.val_ne_of_ne hji)] at hbit
          exact hbit (h.imp_left fun hmem => (List.mem_cons.mp hmem).resolve_left hji)
    · rw [if_neg hi]
      obtain ⟨bits, hbits, hother, htable⟩ := ih p
      refine ⟨bits, hbits, hother, fun j hj h => htable j hj (h.imp_left fun hmem => ?_)⟩
      exact (List.mem_cons.mp hmem).resolve_left fun hji => hi (hji ▸ hj)

/-- After the update each bit says whether its field is set, and nothing else has changed. -/
theorem updateTables_spec (p : Properties c) :
    ∃ bits : BitVec c.fields.length, p.updateTables = { p with fieldSet := bits } ∧ ∀ j : Fin c.fields.length, bits.getLsbD j = p.isSet j := by
  obtain ⟨bits, hbits, hother, htable⟩ := foldl_updateTables (List.finRange _) p
  refine ⟨bits, hbits, fun j => ?_⟩
  by_cases hj : c.domain j = .table
  · exact htable j hj (Or.inl (List.mem_finRange j))
  · rw [hother j hj, isSet_of_ne_table hj]

@[simp] theorem members_updateTables (p : Properties c) : p.updateTables.members = p.members := by
  obtain ⟨bits, h, -⟩ := p.updateTables_spec
  rw [h]

@[simp] theorem weight_updateTables (p : Properties c) : p.updateTables.weight = p.weight := by
  obtain ⟨bits, h, -⟩ := p.updateTables_spec
  rw [h]

@[simp] theorem bodySize_updateTables (p : Properties c) : p.updateTables.bodySize = p.bodySize := by
  obtain ⟨bits, h, -⟩ := p.updateTables_spec
  rw [h]

theorem getLsbD_updateTables (p : Properties c) (j : Fin c.fields.length) : p.updateTables.fieldSet.getLsbD j = p.isSet j := by
  obtain ⟨bits, h, hbits⟩ := p.updateTables_spec
  rw [h]
  exact hbits j

/-- `write` does not change what is set. -/
@[simp] theorem isSet_updateTables (p : Properties c) (j : Fin c.fields.length) : p.updateTables.isSet j = p.isSet j := by
  by_cases hj : c.domain j = .table
  · obtain ⟨bits, h, -⟩ := p.updateTables_spec
    rw [h, isSet_withFieldSet hj]
  · rw [isSet_of_ne_table hj, getLsbD_updateTables]

/-- A second update changes nothing. -/
theorem updateTables_updateTables (p : Properties c) : p.updateTables.updateTables = p.updateTables := by
  obtain ⟨bits, h, hbits⟩ := p.updateTables.updateTables_spec
  have heq : bits = p.updateTables.fieldSet := by
    refine BitVec.eq_of_getLsbD_eq fun j hj => ?_
    rw [hbits ⟨j, hj⟩, isSet_updateTables, getLsbD_updateTables p ⟨j, hj⟩]
  rw [h, heq]

/-! ## Writing -/

/-- The bytes of a field: those of its member when it is set. -/
def chunk (p : Properties c) (i : Fin c.fields.length) : List UInt8 :=
  match (p.members i).val.write with
  | .ok b => if p.isSet i then b else []
  | .error _ => []

theorem chunk_of_not_isSet {p : Properties c} {i : Fin c.fields.length} (h : p.isSet i = false) : p.chunk i = [] := by
  unfold chunk
  split
  · rw [h]
    rfl
  · rfl

/-- The bytes of a field that is set. -/
theorem sentAs_chunk {p : Properties c} {i : Fin c.fields.length} (h : p.isSet i = true) : (p.members i).val.SentAs (p.chunk i) := by
  obtain ⟨b, hb⟩ := p.exists_sentAs h
  have hchunk : p.chunk i = b := by
    unfold chunk
    rw [hb.write]
    exact if_pos h
  rwa [hchunk]

/-- A field is present in the output when it is set. -/
theorem chunk_ne_nil_iff {p : Properties c} {i : Fin c.fields.length} : p.chunk i ≠ [] ↔ p.isSet i = true := by
  constructor
  · intro hne
    by_contra hset
    exact hne (chunk_of_not_isSet (Bool.eq_false_iff.mpr hset))
  · exact fun h => (sentAs_chunk h).ne_nil

/-- All fields that are set are written. -/
theorem writeFields_eq (p : Properties c) (is : List (Fin c.fields.length)) : p.writeFields is = .ok (is.map p.chunk).flatten := by
  induction is with
  | nil => rfl
  | cons i is ih =>
    rw [writeFields, List.map_cons, List.flatten_cons, ih]
    cases h : p.isSet i with
    | false =>
      rw [chunk_of_not_isSet h]
      rfl
    | true =>
      rw [(sentAs_chunk h).write]
      rfl

/-- The chunks do not depend on the bits of the tables. -/
theorem chunk_updateTables (p : Properties c) : p.updateTables.chunk = p.chunk := by
  funext i
  unfold chunk
  rw [members_updateTables, isSet_updateTables]

/-- The output of `write`, for the bits that it computed. -/
def output (p : Properties c) (flags : UInt16) : List UInt8 :=
  writeUint16 c.index ++ (writeUint16 p.weight ++ (writeUint64 p.bodySize ++
    (writeUint16 flags ++ ((List.finRange _).map p.chunk).flatten)))

/-- `write` sends all fields that are set, unless there are too many bits for `to_ulong`. -/
theorem write_eq (p : Properties c) :
    write p = match toUlong p.updateTables.fieldSet with
      | .ok flags => .ok (p.output flags.toUInt16) p.updateTables
      | .error e => .throws e p.updateTables := by
  unfold write
  simp only [Prog.bind_apply, Prog.modify_apply, Prog.get_apply, Prog.pure_apply, writeFields_eq, chunk_updateTables]
  cases toUlong p.updateTables.fieldSet with
  | ok flags => simp [output]
  | error e => simp

/-! ## Reading -/

/-- A member is read when its value is. -/
theorem reads_readMember {d : Domain} {b : List UInt8} (m : Member d) (h : Reader.Reads (Value.read d) b m.val) :
    Reader.Reads (Member.read d) b m :=
  (Reader.Reads.attach (x := ⟨m.val, m.typed, m.fits⟩) h).map _

/-- Where the bits say what is set in `p`, the reader takes the chunks of `p` and gets its members. -/
theorem exists_reads_readFields (p : Properties c) (is : List (Fin c.fields.length)) (res : Properties c)
    (hbits : ∀ j : Fin c.fields.length, res.fieldSet.getLsbD j = p.isSet j) :
    ∃ members, Reader.Reads (readFields is res) (is.map p.chunk).flatten { res with members := members } ∧
      (∀ j, p.isSet j = false → members j = res.members j) ∧
      (∀ j, p.isSet j = true → (j ∈ is ∨ res.members j = p.members j) → members j = p.members j) := by
  induction is generalizing res with
  | nil => exact ⟨res.members, Reader.Reads.pure _, fun j _ => rfl, fun j _ h => h.resolve_left List.not_mem_nil⟩
  | cons i is ih =>
    rw [List.map_cons, List.flatten_cons, readFields, hbits i]
    cases hi : p.isSet i with
    | false =>
      obtain ⟨members, hread, hother, hset⟩ := ih res hbits
      rw [chunk_of_not_isSet hi, List.nil_append, if_neg Bool.false_ne_true]
      refine ⟨members, hread, hother, fun j hj h => hset j hj (h.imp_left fun hmem => ?_)⟩
      exact (List.mem_cons.mp hmem).resolve_left fun hji => Bool.false_ne_true (hi.symm.trans (hji ▸ hj))
    | true =>
      obtain ⟨members, hread, hother, hset⟩ := ih { res with members := Function.update res.members i (p.members i) } hbits
      have hvalue := (sentAs_chunk hi).read
      rw [(p.members i).typed] at hvalue
      rw [if_pos rfl]
      refine ⟨members, (reads_readMember (p.members i) hvalue).bind hread, fun j hj => ?_, fun j hj h => hset j hj ?_⟩
      · have hji : j ≠ i := fun hji => Bool.false_ne_true (hj.symm.trans (hji ▸ hi))
        exact (hother j hj).trans (Function.update_of_ne hji _ _)
      · -- The member of this field is right from now on.
        by_cases hji : j = i
        · subst hji
          exact Or.inr (Function.update_self _ _ _)
        · refine h.imp (fun hmem => (List.mem_cons.mp hmem).resolve_left hji) fun hres => ?_
          exact (Function.update_of_ne hji _ _).trans hres

end Properties

end Amqpp
