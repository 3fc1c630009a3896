import Amqpp.Codegen.Method
import Amqpp.Table.RoundTrip

/-!
# The generated functions fit together

`Codes` says of a stretch of arguments that the generated statements of `write`, `read` and `get_serialized_size` belong
together: the first write some bytes, the third count them, and the second read them back. A single argument has it
(`Codes.single`), a run of bits has it (`Codes.run`), and it composes (`Codes.append`).
-/

namespace Amqpp

/-! ## A value -/

/-- The bytes `get_serialized_size` counts for a member, without the wrap at `2 ^ 32`. -/
def Value.size : Value → Nat
  | octet _ => 1
  | short _ => 2
  | long _ => 4
  | longlong _ | timestamp _ => 8
  | bit _ => 0
  | shortstr s => 1 + s.length
  | longstr s => 4 + s.length
  | table t => 4 + (keysSize t + t.total FieldValue.announced)

/-- The alternatives a table argument is filled with: no double, decimal, array or byte string. -/
def FieldValue.isPlain : FieldValue → Prop
  | .double _ | .decimal _ _ | .fieldarray _ | .bytes _ => False
  | _ => True

/-- What the generated setters accept, and a table that was filled through `table::insert` with plain values. -/
def Value.Accepted : Value → Prop
  | .table t => ∃ T : Table, T.map = t ∧ t.All FieldValue.isPlain
  | v => v.validate = .ok ()

/-- A member that is written as `b`, counted, accepted by its setter, and read back unless it is too long. -/
structure Value.Encodes (v : Value) (b : List UInt8) : Prop where
  write : v.write = .ok b
  size : v.size = b.length
  validate : v.validate = .ok ()
  read : b.length < 2 ^ 32 → Reader.Reads (Value.read v.domain) b v

theorem validateShortstring_eq_ok {s : List UInt8} (h : validateShortstring s = .ok ()) : s.length ≤ 255 := by
  by_contra hlt
  rw [validateShortstring, if_pos (by omega)] at h
  cases h

theorem validateLongstring_eq_ok {s : List UInt8} (h : validateLongstring s = .ok ()) : s.length < 2 ^ 32 := by
  by_contra hlt
  rw [validateLongstring, if_pos (by omega)] at h
  cases h

theorem FieldValue.isPlain.sizedAsWritten {v : FieldValue} (h : v.isPlain) : v.sizedAsWritten := by
  cases v <;> trivial

theorem FieldValue.isPlain.doubleIsZero {v : FieldValue} (h : v.isPlain) : v.doubleIsZero := by
  cases v <;> trivial

/-- A table filled with plain values is sized as it is written. -/
theorem sizedAsWritten_of_isPlain {t : TableMap} (h : t.All FieldValue.isPlain) : t.All FieldValue.sizedAsWritten :=
  fun e he => (h e he).mono fun _ => FieldValue.isPlain.sizedAsWritten

/-- The reader returns a table filled with plain values as it was. -/
theorem readBack_of_isPlain {t : TableMap} (h : t.All FieldValue.isPlain) : t.readBack = t :=
  (TableMap.readBack_eq_iff t).mpr fun e he =>
    (FieldValue.readBack_eq_iff (sizedAsWritten_of_isPlain h e he)).mpr
      ((h e he).mono fun _ => FieldValue.isPlain.doubleIsZero)

/-- Every accepted member that fits in `2 ^ 32` bytes is written, bits aside. -/
theorem Value.Accepted.exists_write {v : Value} (h : v.Accepted) (hsize : v.size < 2 ^ 32) (hbit : v.domain ≠ .bit) :
    ∃ b, v.write = .ok b := by
  cases v with
  | bit v => exact absurd rfl hbit
  | shortstr s => exact ⟨_, writeShortstring_eq_ok.mpr ⟨validateShortstring_eq_ok h, rfl⟩⟩
  | longstr s => exact ⟨_, writeLongstring_eq_ok.mpr ⟨validateLongstring_eq_ok h, rfl⟩⟩
  | table t =>
    obtain ⟨T, rfl, hplain⟩ := h
    rw [Value.size, TableMap.total_announced_eq (sizedAsWritten_of_isPlain hplain)] at hsize
    exact T.exists_writeTable hsize
  | _ => exact ⟨_, rfl⟩

/-- Every accepted member that is written is encoded. -/
theorem Value.Accepted.encodes {v : Value} (h : v.Accepted) {b : List UInt8} (hw : v.write = .ok b) : v.Encodes b := by
  cases v with
  | octet v =>
    cases hw
    exact ⟨rfl, (length_writeUint8 v).symm, rfl, fun _ => (reads_readUint8 v).map _⟩
  | short v =>
    cases hw
    exact ⟨rfl, (length_writeUint16 v).symm, rfl, fun _ => (reads_readUint16 v).map _⟩
  | long v =>
    cases hw
    exact ⟨rfl, (length_writeUint32 v).symm, rfl, fun _ => (reads_readUint32 v).map _⟩
  | longlong v =>
    cases hw
    exact ⟨rfl, (length_writeUint64 v).symm, rfl, fun _ => (reads_readUint64 v).map _⟩
  | timestamp v =>
    cases hw
    exact ⟨rfl, (length_writeUint64 v).symm, rfl, fun _ => (reads_readUint64 v).map _⟩
  | bit v => cases hw
  | shortstr s =>
    obtain ⟨hle, rfl⟩ := writeShortstring_eq_ok.mp hw
    exact ⟨hw, by rw [List.length_append, length_writeUint8, Value.size], h, fun _ => (reads_readShortstring hle).map _⟩
  | longstr s =>
    obtain ⟨hlt, rfl⟩ := writeLongstring_eq_ok.mp hw
    exact ⟨hw, by rw [List.length_append, length_writeUint32, Value.size], h, fun _ => (reads_readLongstring hlt).map _⟩
  | table t =>
    obtain ⟨T, rfl, hplain⟩ := h
    have hsized := sizedAsWritten_of_isPlain hplain
    have hlen := writeTable_length hw
    refine ⟨hw, by rw [Value.size, TableMap.total_announced_eq hsized, hlen], rfl, fun hlt => ?_⟩
    have hread := reads_readTable hsized hw hlt
    rw [readBack_of_isPlain hplain] at hread
    exact hread.map _

/-! ## Stretches of arguments -/

/-- A term of `get_serialized_size`, without the wrap at `2 ^ 32`. -/
def SizeStmt.count (x : List Value) : SizeStmt → Nat
  | sizeof n => n
  | shortstr index =>
    match x[index]? with
    | some (.shortstr s) => 1 + s.length
    | _ => 0
  | longstr index =>
    match x[index]? with
    | some (.longstr s) => 4 + s.length
    | _ => 0
  | table index =>
    match x[index]? with
    | some (.table t) => 4 + (keysSize t + t.total FieldValue.announced)
    | _ => 0

/-- The sum over the statements. -/
def countAll (x : List Value) (sts : List SizeStmt) : Nat := (sts.map (·.count x)).sum

/-- A term of the sum is the count modulo `2 ^ 32`. -/
theorem SizeStmt.eval_eq (x : List Value) (st : SizeStmt) : st.eval x = UInt32.ofNat (st.count x) := by
  cases st with
  | sizeof n => rfl
  | shortstr index =>
    rw [eval, count]
    rcases x[index]? with _ | v
    · rfl
    · cases v with
      | shortstr s => exact wireformatSizeShortstring_eq s
      | _ => rfl
  | longstr index =>
    rw [eval, count]
    rcases x[index]? with _ | v
    · rfl
    · cases v with
      | longstr s => exact wireformatSizeLongstring_eq s
      | _ => rfl
  | table index =>
    rw [eval, count]
    rcases x[index]? with _ | v
    · rfl
    · cases v with
      | table t => exact TableMap.wireformatSize_eq t
      | _ => rfl

/-- `get_serialized_size` is the sum of the counts modulo `2 ^ 32`. -/
theorem runSize_eq (x : List Value) (sts : List SizeStmt) : runSize x sts = UInt32.ofNat (4 + countAll x sts) := by
  have hfold : ∀ (sts : List SizeStmt) (n : Nat), sts.foldl (fun size st => size + st.eval x) (UInt32.ofNat n) =
      UInt32.ofNat (n + countAll x sts) := by
    intro sts
    induction sts with
    | nil => exact fun n => rfl
    | cons st sts ih =>
      intro n
      rw [List.foldl_cons, SizeStmt.eval_eq, ← UInt32.ofNat_add, ih, countAll, countAll, List.map_cons, List.sum_cons,
        Nat.add_assoc]
  exact hfold sts 4

/-- The statements generated for the members `vs`, which start at `index` in an object with the arguments `ds` and the
members `x`, write `bs`, count `bs`, and read the members back from `bs` unless that is too long. -/
structure Codes (ds : List Domain) (x : List Value) (index : Nat) (vs : List Value) (bs : List UInt8) : Prop where
  write : ∃ sts, forArguments (genWriteArgument ds) index (vs.map Value.domain) = some sts ∧
    runWrite x sts none = .ok (none, bs)
  size : ∃ sts, forArguments (genGetLengthArgument ds) index (vs.map Value.domain) = some sts ∧ countAll x sts = bs.length
  read : ∃ sts, forArguments (genReadArgument ds) index (vs.map Value.domain) = some sts ∧
    ∀ pre old post : List Value, pre.length = index → old.length = vs.length → bs.length < 2 ^ 32 →
      Reader.Reads (runRead sts (none, pre ++ (old ++ post))) bs (none, pre ++ (vs ++ post))

/-- An argument that is not a bit has one term in the sum, which counts it. -/
theorem exists_count (ds : List Domain) {x : List Value} {index : Nat} {v : Value} (hx : x[index]? = some v)
    (hbit : v.domain ≠ .bit) : ∃ st, genGetLengthArgument ds index v.domain = some [st] ∧ st.count x = v.size := by
  cases v with
  | bit v => exact absurd rfl hbit
  | shortstr s => exact ⟨.shortstr index, rfl, by rw [SizeStmt.count, hx, Value.size]⟩
  | longstr s => exact ⟨.longstr index, rfl, by rw [SizeStmt.count, hx, Value.size]⟩
  | table t => exact ⟨.table index, rfl, by rw [SizeStmt.count, hx, Value.size]⟩
  | _ => exact ⟨.sizeof _, rfl, rfl⟩

/-- What is generated for an argument is among what is generated for all. -/
theorem mem_forArguments {σ : Type} {emit : Nat → Domain → Option (List σ)} {index j : Nat} {ds : List Domain}
    {sts : List σ} {d : Domain} (h : forArguments emit index ds = some sts) (hd : ds[j]? = some d) :
    ∃ s, emit (index + j) d = some s ∧ ∀ st ∈ s, st ∈ sts := by
  induction ds generalizing index j sts with
  | nil => cases hd
  | cons d' ds ih =>
    rw [forArguments] at h
    obtain ⟨a, ha, h⟩ := Option.bind_eq_some_iff.mp h
    obtain ⟨b, hb, h⟩ := Option.bind_eq_some_iff.mp h
    cases h
    cases j with
    | zero =>
      cases hd
      exact ⟨a, ha, fun st hst => List.mem_append_left b hst⟩
    | succ j =>
      obtain ⟨s, hs, hmem⟩ := ih hb hd
      refine ⟨s, by rwa [Nat.add_assoc, Nat.add_comm 1 j] at hs, fun st hst => List.mem_append_right a (hmem st hst)⟩

/-- Every statement of a `write` that succeeds does. -/
theorem exec_of_runWrite {x : List Value} {sts : List WriteStmt} {scope scope' : Option BitField} {bs : List UInt8}
    (h : runWrite x sts scope = .ok (scope', bs)) {st : WriteStmt} (hst : st ∈ sts) :
    ∃ s s' b, st.exec x s = .ok (s', b) := by
  induction sts generalizing scope scope' bs with
  | nil => cases hst
  | cons st' sts ih =>
    rw [runWrite] at h
    obtain ⟨⟨scope₁, a⟩, h₁, h⟩ := Except.bind_eq_ok.mp h
    obtain ⟨⟨scope₂, b⟩, h₂, -⟩ := Except.bind_eq_ok.mp h
    rcases List.mem_cons.mp hst with rfl | hst
    · exact ⟨scope, scope₁, a, h₁⟩
    · exact ih h₂ hst

/-- What is generated for a list of arguments is what is generated for its parts. -/
theorem forArguments_append {σ : Type} {emit : Nat → Domain → Option (List σ)} {index : Nat} {ds ds' : List Domain}
    {s t : List σ} (h : forArguments emit index ds = some s) (h' : forArguments emit (index + ds.length) ds' = some t) :
    forArguments emit index (ds ++ ds') = some (s ++ t) := by
  induction ds generalizing index s with
  | nil =>
    cases h
    exact h'
  | cons d ds ih =>
    rw [forArguments] at h
    obtain ⟨a, ha, h⟩ := Option.bind_eq_some_iff.mp h
    obtain ⟨b, hb, h⟩ := Option.bind_eq_some_iff.mp h
    cases h
    rw [List.length_cons, ← Nat.add_assoc, Nat.add_right_comm] at h'
    rw [List.cons_append, forArguments, ha, ih hb h', List.append_assoc]
    rfl

/-- One argument in front of others. -/
theorem forArguments_cons {σ : Type} {emit : Nat → Domain → Option (List σ)} {index : Nat} {d : Domain} {ds : List Domain}
    {s t : List σ} (h : emit index d = some s) (h' : forArguments emit (index + 1) ds = some t) :
    forArguments emit index (d :: ds) = some (s ++ t) := by
  rw [forArguments, h, h']
  rfl

theorem runWrite_append {x : List Value} {s t : List WriteStmt} {scope scope' scope'' : Option BitField}
    {a b : List UInt8} (h : runWrite x s scope = .ok (scope', a)) (h' : runWrite x t scope' = .ok (scope'', b)) :
    runWrite x (s ++ t) scope = .ok (scope'', a ++ b) := by
  induction s generalizing scope a with
  | nil =>
    cases h
    exact h'
  | cons st s ih =>
    rw [runWrite] at h
    obtain ⟨⟨scope₁, a₁⟩, h₁, h⟩ := Except.bind_eq_ok.mp h
    obtain ⟨⟨scope₂, a₂⟩, h₂, h⟩ := Except.bind_eq_ok.mp h
    cases h
    rw [List.cons_append, runWrite, h₁, List.append_assoc]
    change (runWrite x (s ++ t) scope₁ >>= _) = _
    rw [ih h₂]
    rfl

theorem runRead_append (s t : List ReadStmt) (st : Option BitField × List Value) :
    runRead (s ++ t) st = runRead s st >>= runRead t := by
  induction s generalizing st with
  | nil => rfl
  | cons r s ih =>
    change (r.exec st >>= runRead (s ++ t)) = (r.exec st >>= runRead s) >>= runRead t
    rw [bind_assoc]
    exact congrArg _ (funext fun _ => ih _)

theorem reads_runRead_append {s t : List ReadStmt} {st st' st'' : Option BitField × List Value} {a b : List UInt8}
    (h : Reader.Reads (runRead s st) a st') (h' : Reader.Reads (runRead t st') b st'') :
    Reader.Reads (runRead (s ++ t) st) (a ++ b) st'' := by
  rw [runRead_append]
  exact h.bind h'

namespace Codes

variable {ds : List Domain} {x vs vs' : List Value} {index : Nat} {bs bs' : List UInt8}

theorem nil : Codes ds x index [] [] where
  write := ⟨[], rfl, rfl⟩
  size := ⟨[], rfl, rfl⟩
  read := ⟨[], rfl, fun pre old post _ hold _ => by
    obtain rfl := List.length_eq_zero_iff.mp hold
    exact Reader.Reads.pure _⟩

/-- Two stretches, one after the other. -/
theorem append (h : Codes ds x index vs bs) (h' : Codes ds x (index + vs.length) vs' bs') :
    Codes ds x index (vs ++ vs') (bs ++ bs') where
  write := by
    obtain ⟨s, hs, hrun⟩ := h.write
    obtain ⟨t, ht, hrun'⟩ := h'.write
    rw [List.map_append]
    exact ⟨s ++ t, forArguments_append hs (by rwa [List.length_map]), runWrite_append hrun hrun'⟩
  size := by
    obtain ⟨s, hs, hcount⟩ := h.size
    obtain ⟨t, ht, hcount'⟩ := h'.size
    rw [List.map_append]
    refine ⟨s ++ t, forArguments_append hs (by rwa [List.length_map]), ?_⟩
    rw [countAll] at hcount hcount' ⊢
    rw [List.map_append, List.sum_append, hcount, hcount', List.length_append]
  read := by
    obtain ⟨s, hs, hread⟩ := h.read
    obtain ⟨t, ht, hread'⟩ := h'.read
    rw [List.map_append]
    refine ⟨s ++ t, forArguments_append hs (by rwa [List.length_map]), fun pre old post hpre hold hlt => ?_⟩
    rw [List.length_append] at hold hlt
    have hsplit : old = old.take vs.length ++ old.drop vs.length := (List.take_append_drop _ _).symm
    have h₁ := hread pre (old.take vs.length) (old.drop vs.length ++ post) hpre (List.length_take_of_le (by omega))
      (by omega)
    have h₂ := hread' (pre ++ vs) (old.drop vs.length) post (by rw [List.length_append, hpre])
      (by rw [List.length_drop]; omega) (by omega)
    rw [hsplit, List.append_assoc, List.append_assoc]
    rw [List.append_assoc] at h₂
    have h₃ := reads_runRead_append h₁ h₂
    rwa [List.append_assoc] at h₃

/-- One argument that is not a bit. -/
theorem single {v : Value} {b : List UInt8} (hx : x[index]? = some v) (hbit : v.domain ≠ .bit) (h : v.Encodes b) :
    Codes ds x index [v] b where
  write := by
    have hgen : genWriteArgument ds index v.domain = some [.write index] := if_neg hbit
    refine ⟨[.write index], forArguments_cons hgen rfl, ?_⟩
    rw [runWrite, WriteStmt.exec, hx]
    simp only [h.write]
    change Except.ok (none, b ++ []) = _
    rw [List.append_nil]
  size := by
    obtain ⟨st, hgen, hcount⟩ := exists_count ds hx hbit
    refine ⟨[st], forArguments_cons hgen rfl, ?_⟩
    rw [countAll, List.map_singleton, List.sum_singleton, hcount, h.size]
  read := by
    have hgen : genReadArgument ds index v.domain = some [.read index v.domain] := if_neg hbit
    refine ⟨[.read index v.domain], forArguments_cons hgen rfl, ?_⟩
    intro pre old post hpre hold hlt
    obtain ⟨o, rfl⟩ := List.length_eq_one_iff.mp hold
    have hset : (pre ++ ([o] ++ post)).set index v = pre ++ ([v] ++ post) := by
      rw [← hpre, List.set_append_right _ _ (Nat.le_refl _), Nat.sub_self]
      rfl
    have hexec : Reader.Reads (ReadStmt.exec (.read index v.domain) (none, pre ++ ([o] ++ post))) b
        (none, pre ++ ([v] ++ post)) := by
      rw [← hset, ← List.append_nil b]
      exact (h.read hlt).bind (Reader.Reads.lift_bind h.validate (Reader.Reads.pure _))
    rw [← List.append_nil b]
    exact hexec.bind (Reader.Reads.pure _)

end Codes

end Amqpp
