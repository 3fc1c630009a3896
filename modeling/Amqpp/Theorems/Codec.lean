import Amqpp.Codegen.Blocks

/-!
# The method codec is exact

For every method description whose runs of bits are at most 32 long, the three generated functions fit together: `write`
emits as many bytes as `get_serialized_size` says, so the frame made of a method is filled exactly, and `method::read` gives
the method back.
-/

namespace Amqpp

/-- Values for the arguments of a method, each accepted by its setter; tables are filled with plain values. -/
structure Assignment (d : MethodDesc) where
  values : List Value
  typed : values.map Value.domain = d.arguments
  accepted : ∀ v ∈ values, v.Accepted

/-- A method object with these values. -/
def Assignment.method {d : MethodDesc} (x : Assignment d) (c : ClassDesc) : Method := ⟨c.index, d, x.values⟩

/-- The length of the encoding: the sum of `get_serialized_size` without the wrap at `2 ^ 32` (`CodecAux.length_of_write`).
-/
def Method.encodedSize (m : Method) : Nat :=
  match genGetLengthFunction m.desc.arguments with
  | some sts => 4 + countAll m.values sts
  | none => 0

namespace CodecAux

theorem bitRun_le {k : Nat} {ds pre post : List Domain} {n : Nat} (h : BitRunsLe k ds) (hrun : BitRun ds pre n post) : n ≤ k :=
  h n ⟨pre, post, by rw [hrun.eq, List.append_assoc]⟩

/-- The arguments of a method fall into blocks. -/
theorem exists_blocks {ds : List Domain} (hruns : BitRunsLe 64 ds) : ∃ blocks, Blocks ds 0 ds blocks :=
  Blocks.exists_blocks (fun _ _ _ => bitRun_le hruns) ds.length ds [] (Nat.le_refl _) rfl (Or.inl (by simp))

theorem exists_blocks_of_le {ds : List Domain} (hruns : BitRunsLe 32 ds) : ∃ blocks, Blocks ds 0 ds blocks :=
  exists_blocks fun n h => Nat.le_trans (hruns n h) (by decide)

/-- Members that are all bits. -/
theorem exists_bits {vs : List Value} (h : ∀ v ∈ vs, v.domain = .bit) : ∃ bits : List Bool, vs = bits.map .bit := by
  induction vs with
  | nil => exact ⟨[], rfl⟩
  | cons v vs ih =>
    obtain ⟨hv, hvs⟩ := List.forall_mem_cons.mp h
    obtain ⟨bits, rfl⟩ := ih hvs
    cases v with
    | bit b => exact ⟨b :: bits, rfl⟩
    | _ => cases hv

/-- Statements fit together for all members, block by block. -/
theorem codes_of_blocks {x : List Value} (hacc : ∀ v ∈ x, v.Accepted) (hruns : BitRunsLe 32 (x.map Value.domain))
    (hw : ∀ v ∈ x, v.domain ≠ .bit → ∃ b, v.write = .ok b) {index : Nat} {rest : List Domain} {blocks : List Block}
    (h : Blocks (x.map Value.domain) index rest blocks) :
    ∀ pre vs : List Value, x = pre ++ vs → pre.length = index → vs.map Value.domain = rest →
      ∃ bs, Codes (x.map Value.domain) x index vs bs := by
  induction h with
  | nil index =>
    intro pre vs _ _ hvs
    obtain rfl := List.map_eq_nil_iff.mp hvs
    exact ⟨[], Codes.nil⟩
  | @argument index d rest blocks hd _ ih =>
    intro pre vs hx hpre hvs
    cases vs with
    | nil => cases hvs
    | cons v vs =>
      obtain ⟨rfl, hvs'⟩ := List.cons.inj hvs
      have hmem : v ∈ x := by
        rw [hx]
        exact List.mem_append_right _ List.mem_cons_self
      obtain ⟨b, hb⟩ := hw v hmem hd
      have hmember : x[index]? = some v := by
        rw [hx, List.getElem?_append_right (Nat.le_of_eq hpre), hpre, Nat.sub_self]
        rfl
      obtain ⟨bs', hbs'⟩ := ih (pre ++ [v]) vs (by rw [hx, List.append_assoc]; rfl)
        (by rw [List.length_append, hpre]; rfl) hvs'
      exact ⟨b ++ bs', (Codes.single hmember hd ((hacc v hmem).encodes hb)).append hbs'⟩
  | @run before post n w blocks hrun hn _ _ ih =>
    intro pre vs hx hpre hvs
    obtain ⟨us, vs', rfl, hus, hvs'⟩ := List.map_eq_append_iff.mp hvs
    obtain ⟨hlen, hbit⟩ := List.eq_replicate_iff.mp hus
    obtain ⟨bits, rfl⟩ := exists_bits fun v hv => hbit _ (List.mem_map_of_mem hv)
    rw [List.length_map, List.length_map] at hlen
    obtain rfl := hlen
    have hmember : ∀ j (hj : j < bits.length), x[before.length + j]? = some (.bit bits[j]) := by
      intro j hj
      rw [hx, ← hpre, List.getElem?_append_right (by omega), Nat.add_sub_cancel_left,
        List.getElem?_append_left (by rwa [List.length_map]), List.getElem?_map, List.getElem?_eq_getElem hj]
      rfl
    obtain ⟨bs, hbs⟩ := Codes.run hrun (List.length_pos_iff.mp hn) (bitRun_le hruns hrun) hmember
    obtain ⟨bs', hbs'⟩ := ih (pre ++ bits.map .bit) vs' (by rw [hx, List.append_assoc])
      (by rw [List.length_append, hpre, List.length_map]) hvs'
    exact ⟨bs ++ bs', hbs.append (by rwa [List.length_map])⟩

/-- The size statements are generated: those of the blocks. -/
theorem exists_genGetLengthFunction {ds : List Domain} (hruns : BitRunsLe 32 ds) :
    ∃ sts, genGetLengthFunction ds = some sts := by
  obtain ⟨blocks, h⟩ := exists_blocks_of_le hruns
  exact ⟨_, h.genGetLength⟩

variable {c : ClassDesc} {d : MethodDesc}

/-- The statements fit together for all arguments of a method, when each is written. -/
theorem codes_values (x : Assignment d) (hruns : BitRunsLe 32 d.arguments)
    (hw : ∀ v ∈ x.values, v.domain ≠ .bit → ∃ b, v.write = .ok b) :
    ∃ bs, Codes d.arguments x.values 0 x.values bs := by
  have hruns' : BitRunsLe 32 (x.values.map Value.domain) := x.typed.symm ▸ hruns
  obtain ⟨blocks, h⟩ := exists_blocks_of_le hruns'
  have hcodes := codes_of_blocks x.accepted hruns' hw h [] x.values rfl rfl rfl
  rwa [x.typed] at hcodes

/-- The bytes and the size of a method, from those of its arguments. -/
theorem write_of_codes {x : Assignment d} {bs : List UInt8} (h : Codes d.arguments x.values 0 x.values bs) :
    (x.method c).write = .ok (writeUint16 c.index ++ (writeUint16 d.index ++ bs)) ∧
      (x.method c).encodedSize = 4 + bs.length ∧
      (x.method c).getSerializedSize = UInt32.ofNat (4 + bs.length) := by
  obtain ⟨sts, hgen, hrun⟩ := h.write
  obtain ⟨sizes, hsizes, hcount⟩ := h.size
  rw [x.typed] at hgen hsizes
  refine ⟨?_, ?_, ?_⟩
  · rw [Method.write, Assignment.method, genWriteFunction, hgen]
    simp only [hrun]
    rfl
  · rw [Method.encodedSize, Assignment.method, genGetLengthFunction, hsizes, ← hcount]
  · rw [Method.getSerializedSize, Assignment.method, genGetLengthFunction, hsizes, ← hcount, ← runSize_eq]

/-- The encoding of a method is as long as its size without the wrap. -/
theorem length_of_write {x : Assignment d} (hruns : BitRunsLe 32 d.arguments) {bs : List UInt8}
    (h : (x.method c).write = .ok bs) : bs.length = (x.method c).encodedSize := by
  have hw : ∀ v ∈ x.values, v.domain ≠ .bit → ∃ b, v.write = .ok b := by
    intro v hv hbit
    rw [Method.write, Assignment.method] at h
    rcases hgen : genWriteFunction d.arguments with _ | sts
    · rw [hgen] at h
      cases h
    · rw [hgen] at h
      obtain ⟨⟨scope, body⟩, hrun, -⟩ := Except.bind_eq_ok.mp h
      obtain ⟨i, hi⟩ := List.mem_iff_getElem?.mp hv
      have hdomain : d.arguments[i]? = some v.domain := by rw [← x.typed, List.getElem?_map, hi, Option.map_some]
      obtain ⟨s, hs, hmem⟩ := mem_forArguments hgen hdomain
      rw [genWriteArgument, if_neg hbit, Nat.zero_add, Option.some.injEq] at hs
      obtain ⟨scope₁, scope₂, b, hexec⟩ := exec_of_runWrite hrun (hmem (.write i) (hs ▸ List.mem_singleton_self _))
      rw [WriteStmt.exec, hi] at hexec
      obtain ⟨b', hb', -⟩ := Except.bind_eq_ok.mp hexec
      exact ⟨b', hb'⟩
  obtain ⟨body, hbody⟩ := codes_values x hruns hw
  obtain ⟨hwrite, hsize, -⟩ := write_of_codes (c := c) hbody
  obtain rfl : _ = bs := Except.ok.inj (hwrite.symm.trans h)
  rw [hsize, List.length_append, List.length_append, length_writeUint16, length_writeUint16]
  omega

/-- No argument takes more than the whole. -/
theorem size_le_encodedSize (x : Assignment d) (hruns : BitRunsLe 32 d.arguments) {v : Value} (hv : v ∈ x.values)
    (hbit : v.domain ≠ .bit) : v.size ≤ (x.method c).encodedSize := by
  obtain ⟨sts, hsts⟩ := exists_genGetLengthFunction hruns
  obtain ⟨i, hi⟩ := List.mem_iff_getElem?.mp hv
  have hdomain : d.arguments[i]? = some v.domain := by rw [← x.typed, List.getElem?_map, hi, Option.map_some]
  obtain ⟨s, hs, hmem⟩ := mem_forArguments hsts hdomain
  rw [Nat.zero_add] at hs
  obtain ⟨st, hst, hcount⟩ := exists_count d.arguments hi hbit
  obtain rfl := Option.some.inj (hst.symm.trans hs)
  have hle : st.count x.values ≤ countAll x.values sts :=
    List.le_sum_of_mem (List.mem_map_of_mem (hmem st (List.mem_singleton_self st)))
  rw [Method.encodedSize, Assignment.method, hsts]
  change v.size ≤ 4 + countAll x.values sts
  omega

/-- `method::read` reads back the ids and the arguments of a method of the specification. -/
theorem reads_of_codes (Γ : Spec) (hc : c ∈ Γ.classes) (hd : d ∈ c.methods) {x : Assignment d} {bs : List UInt8}
    (h : Codes d.arguments x.values 0 x.values bs) (hlen : bs.length < 2 ^ 32) :
    Reader.Reads Γ.read (writeUint16 c.index ++ (writeUint16 d.index ++ bs)) (x.method c) := by
  obtain ⟨sts, hgen, hread⟩ := h.read
  rw [x.typed] at hgen
  have hinitial : d.initial.length = x.values.length := by
    rw [← List.length_map (f := Value.domain), d.typed, ← x.typed, List.length_map]
  have hbody := hread [] d.initial [] rfl hinitial hlen
  rw [List.nil_append, List.nil_append, List.append_nil, List.append_nil] at hbody
  refine (reads_readUint16 c.index).bind ((reads_readUint16 d.index).bind ?_)
  rw [find?_index Γ.classes_nodup hc]
  simp only
  rw [find?_index (Γ.methods_nodup c hc) hd]
  simp only [MethodDesc.read, genReadFunction, hgen]
  exact hbody.map _

end CodecAux

open CodecAux

/-- For every method of a specification with distinct ids and no run of more than 32 bits, and all values that the setters
accept, with an encoding shorter than `2 ^ 32` bytes: `write` succeeds and emits `get_serialized_size()` bytes, the frame
made of the method holds exactly these, and `method::read`, whatever follows them, returns the method and leaves what
follows. -/
theorem method_codec_exact (Γ : Spec) (c : ClassDesc) (hc : c ∈ Γ.classes) (d : MethodDesc) (hd : d ∈ c.methods)
    (hruns : BitRunsLe 32 d.arguments) (x : Assignment d) (hsize : (x.method c).encodedSize < 2 ^ 32)
    (memory : Nat → UInt8) (channel : UInt16) :
    ∃ bs, (x.method c).write = .ok bs ∧ bs.length = (x.method c).getSerializedSize.toNat ∧
      bs.length = (x.method c).encodedSize ∧
      createFromMethod memory channel (x.method c) = .ok ⟨.method, channel, bs⟩ ∧
      ∀ rest, Γ.read (.ofString (bs ++ rest)) = .ok (x.method c, .ofString rest) := by
  obtain ⟨body, hbody⟩ := codes_values x hruns fun v hv hbit =>
    (x.accepted v hv).exists_write (Nat.lt_of_le_of_lt (size_le_encodedSize (c := c) x hruns hv hbit) hsize) hbit
  obtain ⟨hwrite, hencoded, hserialized⟩ := write_of_codes (c := c) hbody
  have hlen : (writeUint16 c.index ++ (writeUint16 d.index ++ body)).length = 4 + body.length := by
    rw [List.length_append, List.length_append, length_writeUint16, length_writeUint16]
    omega
  have hexact : (x.method c).getSerializedSize.toNat = 4 + body.length := by
    rw [hserialized, UInt32.toNat_ofNat_of_lt' (show 4 + body.length < UInt32.size from hencoded ▸ hsize)]
  refine ⟨_, hwrite, by rw [hlen, hexact], by rw [hlen, hencoded], ?_, ?_⟩
  · rw [createFromMethod, hwrite, hexact]
    change (if _ then _ else _) = _
    rw [if_pos (le_of_eq hlen), hlen, Nat.sub_self]
    simp [pure, Except.pure]
  · exact reads_of_codes Γ hc hd hbody (by omega)

/-- A method with a run of two bits, a string, one more bit and a table. -/
def sampleMethod : MethodDesc :=
  ⟨11, [.bit, .bit, .shortstr, .bit, .table], [.bit false, .bit false, .shortstr [], .bit false, .table []], rfl⟩

/-- A class with that method. -/
def sampleClass : ClassDesc := ⟨10, [sampleMethod]⟩

/-- A specification with that class. -/
def sampleSpec : Spec := ⟨[sampleClass], by decide, fun c hc => by rw [List.mem_singleton.mp hc]; decide⟩

/-- Values for the method: the table has an entry with the int32 7. -/
def sampleAssignment : Assignment sampleMethod where
  values := [.bit true, .bit false, .shortstr [104, 105], .bit true, .table [.mk [107] (.int32 7)]]
  typed := rfl
  accepted := by
    refine List.forall_mem_cons.mpr ⟨rfl, List.forall_mem_cons.mpr ⟨rfl, List.forall_mem_cons.mpr ⟨rfl,
      List.forall_mem_cons.mpr ⟨rfl, List.forall_mem_singleton.mpr ?_⟩⟩⟩⟩
    exact ⟨Table.empty.insert ⟨.mk [107] (.int32 7), by decide, trivial⟩, rfl, List.forall_mem_singleton.mpr trivial⟩

/-- The sample is written in 20 bytes and read back. -/
theorem method_codec_exact_sample :
    ∃ bs, (sampleAssignment.method sampleClass).write = .ok bs ∧ bs.length = 20 ∧
      createFromMethod (fun _ => 0) 1 (sampleAssignment.method sampleClass) = .ok ⟨.method, 1, bs⟩ ∧
      sampleSpec.read (.ofString (bs ++ [9])) = .ok (sampleAssignment.method sampleClass, .ofString [9]) := by
  obtain ⟨bs, hwrite, -, hlen, hframe, hread⟩ := method_codec_exact sampleSpec sampleClass (List.mem_singleton_self _)
    sampleMethod (List.mem_singleton_self _) (fun n hn => by
      have hle := hn.length_le
      rw [List.length_replicate] at hle
      exact Nat.le_trans hle (by decide)) sampleAssignment (by decide) (fun _ => 0) 1
  exact ⟨bs, hwrite, hlen.trans (by decide), hframe, hread [9]⟩

end Amqpp
