import Amqpp.Codegen.Accessors
import Amqpp.Codegen.Frames
import Amqpp.Table.Decoded

/-!
# Methods that were read

What `method::read` makes of any bytes at all, block by block: members that the setters accept, tables that could have been
built by `table::insert`, and an encoding that is no longer than the bytes that were read.
-/

namespace Amqpp

/-- A member that a reader can return. -/
def Value.Decoded (v : Value) : Prop := v.validate = .ok () ∧ ∀ t, v = .table t → ∃ T : Table, T.map = t

/-- A table in it has plain values. -/
def Value.IsPlain : Value → Prop
  | .table t => t.All FieldValue.isPlain
  | _ => True

theorem Value.Decoded.accepted {v : Value} (h : v.Decoded) (hplain : v.IsPlain) : v.Accepted := by
  cases v with
  | table t =>
    obtain ⟨T, hT⟩ := h.2 t rfl
    exact ⟨T, hT, hplain⟩
  | _ => exact h.1

/-! ## A member -/

/-- What is read for a member that is no bit: a table takes at least what it is counted for, and any other member is written
as it was read. -/
structure Value.ReadFrom (d : Domain) (p : List UInt8) (v : Value) : Prop where
  domain : v.domain = d
  table : ∀ t, v = .table t → ∃ T : Table, T.map = t
  size : v.IsPlain → v.size ≤ p.length
  write : d ≠ .table → v.write = .ok p

/-- A member read as one word. -/
theorem readFrom_word {α : Type} {r : Reader Exception α} {w : α → List UInt8} (h : Reader.Parses r fun p i => p = w i) {d : Domain}
    {k : Nat} {f : α → Value} (hdomain : ∀ i, (f i).domain = d) (htable : d ≠ .table) (hsize : ∀ i, (f i).size = k)
    (hlength : ∀ i, (w i).length = k) (hwrite : ∀ i, (f i).write = .ok (w i)) :
    Reader.Parses (r >>= fun i => pure (f i)) (Value.ReadFrom d) := by
  refine (h.bind fun i => Reader.Parses.pure _).mono ?_
  rintro _ v ⟨_, i, _, rfl, rfl, rfl, rfl⟩
  rw [List.append_nil]
  refine ⟨hdomain i, fun t ht => ?_, fun _ => by rw [hsize, hlength], fun _ => hwrite i⟩
  rw [← hdomain i, ht] at htable
  exact absurd rfl htable

theorem parses_readValue (d : Domain) : Reader.Parses (Value.read d) (Value.ReadFrom d) := by
  cases d with
  | octet => exact readFrom_word parses_readUint8 (fun _ => rfl) (by decide) (fun _ => rfl) length_writeUint8 fun _ => rfl
  | short => exact readFrom_word parses_readUint16 (fun _ => rfl) (by decide) (fun _ => rfl) length_writeUint16 fun _ => rfl
  | long => exact readFrom_word parses_readUint32 (fun _ => rfl) (by decide) (fun _ => rfl) length_writeUint32 fun _ => rfl
  | longlong => exact readFrom_word parses_readUint64 (fun _ => rfl) (by decide) (fun _ => rfl) length_writeUint64 fun _ => rfl
  | timestamp => exact readFrom_word parses_readUint64 (fun _ => rfl) (by decide) (fun _ => rfl) length_writeUint64 fun _ => rfl
  | bit => exact Reader.Parses.throw _ _
  | shortstr =>
    refine (parses_readShortstring.bind fun _ => Reader.Parses.pure _).mono ?_
    rintro _ v ⟨p, s, _, rfl, ⟨hlen, rfl⟩, rfl, rfl⟩
    rw [List.append_nil]
    refine ⟨rfl, by rintro t ⟨⟩, fun _ => ?_, fun _ => writeShortstring_eq_ok.mpr ⟨hlen, rfl⟩⟩
    rw [Value.size, List.length_append, length_writeUint8]
  | longstr =>
    refine (parses_readLongstring.bind fun _ => Reader.Parses.pure _).mono ?_
    rintro _ v ⟨p, s, _, rfl, ⟨hlen, rfl⟩, rfl, rfl⟩
    rw [List.append_nil]
    refine ⟨rfl, by rintro t ⟨⟩, fun _ => ?_, fun _ => writeLongstring_eq_ok.mpr ⟨hlen, rfl⟩⟩
    rw [Value.size, List.length_append, length_writeUint32]
  | table =>
    intro buf v s' h
    obtain ⟨m, t, hm, hret⟩ := Reader.bind_eq_ok.mp h
    cases hret
    obtain ⟨T, body, hT, -, hbody, -, p, hbuf, hle⟩ := exists_writeEntries_of_read hm
    obtain ⟨_, rest, -, rfl, -⟩ := parses_readTableWith (parses_readFieldValueN _) _ _ _ hm
    refine ⟨p, rest, hbuf, rfl, rfl, fun _ ht => ?_, fun hplain => ?_, fun h => absurd rfl h⟩
    · cases ht
      exact ⟨T, hT⟩
    · have hemitted := writeEntries_length hbody
      rw [Value.size, TableMap.total_announced_eq (sizedAsWritten_of_isPlain hplain)]
      omega

/-! ## Statements -/

theorem runRead_append_eq_ok {s t : List ReadStmt} {st st' : Option BitField × List Value} {u v : IStream}
    (h : runRead (s ++ t) st u = .ok (st', v)) :
    ∃ st₁ u₁, runRead s st u = .ok (st₁, u₁) ∧ runRead t st₁ u₁ = .ok (st', v) := by
  rw [runRead_append] at h
  exact Reader.bind_eq_ok.mp h

/-- The bits of a run are taken from the word: nothing is read, and no other member is set. -/
theorem runRead_bits {start : Nat} {js : List Nat} {st st' : Option BitField × List Value} {u v : IStream}
    (h : runRead (js.map fun j => .getBit (start + j) j) st u = .ok (st', v)) :
    v = u ∧ st'.2.length = st.2.length ∧ ∀ i < start, st'.2[i]? = st.2[i]? := by
  induction js generalizing st with
  | nil =>
    cases h
    exact ⟨rfl, rfl, fun _ _ => rfl⟩
  | cons j js ih =>
    obtain ⟨st₁, u₁, hexec, hrun⟩ := Reader.bind_eq_ok.mp h
    obtain ⟨scope, ret⟩ := st
    cases scope with
    | none => cases hexec
    | some f =>
      rw [ReadStmt.exec] at hexec
      cases hbit : Amqpp.getBit f.bits j with
      | none =>
        rw [hbit] at hexec
        cases hexec
      | some b =>
        rw [hbit] at hexec
        cases hexec
        obtain ⟨rfl, hlength, hbefore⟩ := ih hrun
        refine ⟨rfl, by rw [hlength, List.length_set], fun i hi => ?_⟩
        rw [hbefore i hi, List.getElem?_set_ne (by omega)]

theorem length_of_readBitfield {w : BitfieldSize} {buf : List UInt8} {b : BitVec w.bits} {t : IStream}
    (h : w.read (.ofString buf) = .ok (b, t)) : ∃ p rest, buf = p ++ rest ∧ t = .ofString rest ∧ p.length = w.sizeof := by
  cases w with
  | w8 =>
    obtain ⟨x, s₁, hx, hret⟩ := Reader.bind_eq_ok.mp h
    cases hret
    obtain ⟨p, rest, hbuf, hs, rfl⟩ := parses_readUint8 _ _ _ hx
    exact ⟨_, rest, hbuf, hs, length_writeUint8 x⟩
  | w16 =>
    obtain ⟨x, s₁, hx, hret⟩ := Reader.bind_eq_ok.mp h
    cases hret
    obtain ⟨p, rest, hbuf, hs, rfl⟩ := parses_readUint16 _ _ _ hx
    exact ⟨_, rest, hbuf, hs, length_writeUint16 x⟩
  | w32 =>
    obtain ⟨x, s₁, hx, hret⟩ := Reader.bind_eq_ok.mp h
    cases hret
    obtain ⟨p, rest, hbuf, hs, rfl⟩ := parses_readUint32 _ _ _ hx
    exact ⟨_, rest, hbuf, hs, length_writeUint32 x⟩
  | w64 =>
    obtain ⟨x, s₁, hx, hret⟩ := Reader.bind_eq_ok.mp h
    cases hret
    obtain ⟨p, rest, hbuf, hs, rfl⟩ := parses_readUint64 _ _ _ hx
    exact ⟨_, rest, hbuf, hs, length_writeUint64 x⟩

/-! ## Blocks -/

/-- What the statements for some blocks make of the members `ret`, from the bytes `p`. -/
structure Decodes (ds : List Domain) (index : Nat) (blocks : List Block) (ret ret' : List Value) (p : List UInt8) : Prop where
  before : ∀ i < index, ret'[i]? = ret[i]?
  decoded : ∀ i d, Block.argument i d ∈ blocks → ∀ v, ret'[i]? = some v → v.Decoded
  size : (∀ v ∈ ret', v.IsPlain) → countAll ret' (blocks.flatMap Block.sizes) ≤ p.length
  write : (∀ d ∈ ds, d ≠ .table ∧ d ≠ .bit) → runWrite ret' (blocks.flatMap Block.writes) none = .ok (none, p)

theorem count_argument {index : Nat} {ret : List Value} {v : Value} (hv : ret[index]? = some v) (hbit : v.domain ≠ .bit) :
    countAll ret (Block.argument index v.domain).sizes = v.size := by
  cases v with
  | bit b => exact absurd rfl hbit
  | shortstr s => simp [Value.domain, Block.sizes, countAll, SizeStmt.count, hv, Value.size]
  | longstr s => simp [Value.domain, Block.sizes, countAll, SizeStmt.count, hv, Value.size]
  | table t => simp [Value.domain, Block.sizes, countAll, SizeStmt.count, hv, Value.size]
  | _ => rfl

theorem countAll_append (x : List Value) (sts sts' : List SizeStmt) :
    countAll x (sts ++ sts') = countAll x sts + countAll x sts' := by
  rw [countAll, countAll, countAll, List.map_append, List.sum_append]

/-- An argument, and the blocks behind it. -/
theorem Decodes.argument {d : Domain} {ds : List Domain} {index : Nat} {blocks : List Block} {ret ret' : List Value} {v : Value}
    {p q : List UInt8} (hlt : index < ret.length) (hd : d ≠ .bit) (hv : v.ReadFrom d p) (hvalid : v.validate = .ok ())
    (h : Decodes ds (index + 1) blocks (ret.set index v) ret' q) :
    Decodes (d :: ds) index (.argument index d :: blocks) ret ret' (p ++ q) := by
  have hget : ret'[index]? = some v := by
    rw [h.before index (Nat.lt_succ_self _), List.getElem?_set_self hlt]
  obtain rfl := hv.domain
  refine ⟨fun i hi => ?_, fun i d hmem w hw => ?_, fun hplain => ?_, fun hds => ?_⟩
  · rw [h.before i (by omega), List.getElem?_set_ne (by omega)]
  · rcases List.mem_cons.mp hmem with heq | hmem
    · cases heq
      obtain rfl := Option.some.inj (hget.symm.trans hw)
      exact ⟨hvalid, hv.table⟩
    · exact h.decoded i d hmem w hw
  · have hsize := hv.size (hplain v (List.mem_of_getElem? hget))
    have hrest := h.size hplain
    rw [List.flatMap_cons, countAll_append, count_argument hget hd, List.length_append]
    omega
  · obtain ⟨hfirst, hrest⟩ := List.forall_mem_cons.mp hds
    have hexec : WriteStmt.exec ret' (.write index) none = .ok (none, p) := by
      simp only [WriteStmt.exec, hget, hv.write hfirst.1]
      rfl
    change (WriteStmt.exec ret' (.write index) none >>= _) = _
    rw [hexec]
    change (runWrite ret' (blocks.flatMap Block.writes) none >>= _) = _
    rw [h.write hrest]
    rfl

/-- A run of bits, and the blocks behind it. -/
theorem Decodes.run {ds : List Domain} {start n : Nat} (hn : 0 < n) {w : BitfieldSize} {blocks : List Block}
    {ret ret₁ ret' : List Value} {p q : List UInt8} (hbefore : ∀ i < start, ret₁[i]? = ret[i]?) (hlength : p.length = w.sizeof)
    (h : Decodes ds (start + n) blocks ret₁ ret' q) :
    Decodes (List.replicate n .bit ++ ds) start (.run start n w :: blocks) ret ret' (p ++ q) := by
  refine ⟨fun i hi => ?_, fun i d hmem v hv => ?_, fun hplain => ?_, fun hds => ?_⟩
  · rw [h.before i (by omega), hbefore i hi]
  · rcases List.mem_cons.mp hmem with heq | hmem
    · cases heq
    · exact h.decoded i d hmem v hv
  · have hrest := h.size hplain
    have hcount : countAll ret' (Block.run start n w).sizes = w.sizeof := Nat.add_zero _
    rw [List.flatMap_cons, countAll_append, hcount, List.length_append]
    omega
  · have hmem : Domain.bit ∈ List.replicate n Domain.bit ++ ds :=
      List.mem_append_left _ (List.mem_replicate.mpr ⟨by omega, rfl⟩)
    exact absurd rfl (hds _ hmem).2

theorem decodes_of_runRead {ds rest : List Domain} {index : Nat} {blocks : List Block} (hb : Blocks ds index rest blocks) :
    ∀ {ret ret' : List Value} {scope : Option BitField} {buf : List UInt8} {t : IStream}, index + rest.length ≤ ret.length →
      runRead (blocks.flatMap Block.reads) (none, ret) (.ofString buf) = .ok ((scope, ret'), t) →
      ∃ p left, buf = p ++ left ∧ t = .ofString left ∧ Decodes rest index blocks ret ret' p := by
  induction hb with
  | nil index =>
    intro ret ret' scope buf t _ h
    cases h
    exact ⟨[], buf, rfl, rfl, fun _ _ => rfl, fun _ _ h => absurd h List.not_mem_nil, fun _ => Nat.le_refl _, fun _ => rfl⟩
  | @argument index d rest blocks hd _ ih =>
    intro ret ret' scope buf t hlen h
    rw [List.length_cons] at hlen
    obtain ⟨st, u, hexec, hrun⟩ := Reader.bind_eq_ok.mp h
    obtain ⟨v, u₁, hread, hexec⟩ := Reader.bind_eq_ok.mp hexec
    obtain ⟨⟨⟩, hvalid, hret⟩ := Reader.lift_bind_eq_ok.mp hexec
    cases hret
    obtain ⟨p, left, rfl, rfl, hv⟩ := parses_readValue d _ _ _ hread
    obtain ⟨q, left', rfl, rfl, hdecodes⟩ := ih (by rw [List.length_set]; omega) hrun
    exact ⟨p ++ q, left', (List.append_assoc _ _ _).symm, rfl, .argument (by omega) hd hv hvalid hdecodes⟩
  | @run pre post n w blocks hbits hn _ _ ih =>
    intro ret ret' scope buf t hlen h
    rw [List.length_append, List.length_replicate] at hlen
    rw [List.flatMap_cons, Block.reads] at h
    obtain ⟨⟨scope₁, ret₁⟩, u₁, hscope, hrun⟩ := runRead_append_eq_ok h
    obtain ⟨⟨scope₂, ret₂⟩, u₂, hopened, hclose⟩ := runRead_append_eq_ok hscope
    obtain ⟨⟨scope₃, ret₃⟩, u₃, hopen, hget⟩ := Reader.bind_eq_ok.mp hopened
    obtain ⟨b, u₄, hword, hret⟩ := Reader.bind_eq_ok.mp hopen
    cases hret
    cases hclose
    obtain ⟨rfl, hlength, hbefore⟩ := runRead_bits hget
    have hkeeps : ret₁.length = ret.length := hlength
    obtain ⟨p, left, rfl, rfl, hp⟩ := length_of_readBitfield hword
    obtain ⟨q, left', rfl, rfl, hdecodes⟩ := ih (by omega) hrun
    exact ⟨p ++ q, left', (List.append_assoc _ _ _).symm, rfl, .run hn hbefore hp hdecodes⟩

/-! ## Methods -/

/-- `method::read` finds the class and the method of the ids in front. -/
theorem Spec.read_ids (Γ : Spec) {c : ClassDesc} (hc : c ∈ Γ.classes) {d : MethodDesc} (hd : d ∈ c.methods) (rest : List UInt8) :
    Γ.read (.ofString (writeUint16 c.index ++ (writeUint16 d.index ++ rest))) = d.read c.index (.ofString rest) := by
  rw [Spec.read, Reader.bind_of_ok (reads_readUint16 c.index _), Reader.bind_of_ok (reads_readUint16 d.index _),
    find?_index Γ.classes_nodup hc]
  simp only
  rw [find?_index (Γ.methods_nodup c hc) hd]

/-- The payload of a frame that is read: the ids, what the blocks are read from, and what is left. -/
theorem Spec.decodes_of_readFrame {Γ : Spec} {f : Frame} {m : Method} (h : Γ.readFrame f = .ok m) {blocks : List Block}
    (hb : Blocks m.desc.arguments 0 m.desc.arguments blocks) :
    ∃ p left, f.payload = writeUint16 m.classId ++ (writeUint16 m.desc.index ++ (p ++ left)) ∧
      Decodes m.desc.arguments 0 blocks m.desc.initial m.values p := by
  obtain ⟨⟨c, hc, hindex, hd⟩, -⟩ := of_readFrame h
  obtain ⟨rest, hpayload⟩ := payload_of_readFrame h
  have hread : m.desc.read m.classId (.ofString rest) = Γ.read (.ofString f.payload) := by
    rw [hpayload, ← hindex, Γ.read_ids hc hd]
  rw [readFrame] at h
  rcases hok : Γ.read (.ofString f.payload) with e | ⟨m', t⟩
  · rw [hok] at h
    cases h
  · rw [hok] at h
    cases h
    rw [hok, MethodDesc.read, genReadFunction, hb.genRead] at hread
    obtain ⟨⟨scope, ret⟩, u, hrun, hret⟩ := Reader.bind_eq_ok.mp hread
    have hvalues : ret = m.values := by
      injection hret with hret
      exact (congrArg (fun r => r.1.values) hret)
    have hinitial : 0 + m.desc.arguments.length ≤ m.desc.initial.length := by
      rw [Nat.zero_add, ← m.desc.typed, List.length_map]
    obtain ⟨p, left, rfl, rfl, hdecodes⟩ := decodes_of_runRead hb hinitial hrun
    exact ⟨p, left, hpayload, hvalues ▸ hdecodes⟩

end Amqpp
