import Amqpp.Codegen.Decoded
import Amqpp.Theorems.RoundTrip

/-!
# What was read is sent again

A peer is free to encode a table or a method as it likes: keys in any order or twice, spare bits, bytes behind the last
argument. What the readers accept of it is written again without an exception, no longer than it came, and read as the same.
-/

namespace Amqpp

namespace DecodedAux

variable {Γ : Spec} {f : Frame} {m : Method}

/-- Every argument but the bits is in a block of its own. -/
theorem argument_mem {ds : List Domain} {blocks : List Block} (hb : Blocks ds 0 ds blocks) {i : Nat} {d : Domain} (hd : ds[i]? = some d)
    (hbit : d ≠ .bit) : Block.argument i d ∈ blocks := by
  have hmem : (d, i) ∈ blocks.flatMap Block.arguments := by
    rw [hb.arguments_eq, List.mem_zipIdx_iff_getElem?]
    exact hd
  obtain ⟨b, hblock, hargument⟩ := List.mem_flatMap.mp hmem
  cases b with
  | argument index domain =>
    cases List.mem_singleton.mp hargument
    exact hblock
  | run start n w =>
    obtain ⟨j, -, hj⟩ := List.mem_map.mp hargument
    exact absurd (congrArg Prod.fst hj).symm hbit

/-- The members that were read are accepted by the setters. -/
theorem accepted_of_decodes {ret : List Value} {blocks : List Block} {p : List UInt8} (htyped : m.Typed)
    (hb : Blocks m.desc.arguments 0 m.desc.arguments blocks) (h : Decodes m.desc.arguments 0 blocks ret m.values p)
    (hplain : ∀ v ∈ m.values, v.IsPlain) : ∀ v ∈ m.values, v.Accepted := by
  intro v hv
  by_cases hbit : v.domain = .bit
  · obtain ⟨b, rfl⟩ := Value.domain_eq_bit.mp hbit
    rfl
  · obtain ⟨i, hi⟩ := List.mem_iff_getElem?.mp hv
    have hdomain : m.desc.arguments[i]? = some v.domain := by
      rw [← htyped, List.getElem?_map, hi, Option.map_some]
    exact (h.decoded i v.domain (argument_mem hb hdomain hbit) v hi).accepted (hplain v hv)

/-- The bytes of the members, when no argument is a table or a bit. -/
theorem write_of_decodes {ret : List Value} {blocks : List Block} {p : List UInt8}
    (hb : Blocks m.desc.arguments 0 m.desc.arguments blocks) (h : Decodes m.desc.arguments 0 blocks ret m.values p)
    (hds : ∀ d ∈ m.desc.arguments, d ≠ .table ∧ d ≠ .bit) :
    m.write = .ok (writeUint16 m.classId ++ (writeUint16 m.desc.index ++ p)) := by
  rw [Method.write, genWriteFunction, hb.genWrite]
  simp only [h.write hds]
  rfl

/-- A frame that is filled by its method holds what the method writes. -/
theorem payload_of_createFromMethod {memory : Nat → UInt8} {channel : UInt16} {bs : List UInt8} (hw : m.write = .ok bs) {g : Frame}
    (hg : createFromMethod memory channel m = .ok g) : bs <+: g.payload := by
  rw [createFromMethod, hw] at hg
  obtain ⟨b, hb, hg⟩ := Except.bind_eq_ok.mp hg
  cases hb
  split at hg
  · cases hg
    exact List.prefix_append _ _
  · cases hg

end DecodedAux

open DecodedAux

/-- A table that `read_table` makes of any bytes could have been built by `insert`, and `write_table` writes it, in no more
bytes than were read. If its values survive a round trip, it is read again as it was, whatever follows. -/
theorem decoded_table_sent_again {s : List UInt8} {m : TableMap} {t : IStream} (h : readTable (.ofString s) = .ok (m, t)) :
    ∃ (T : Table) (bs : List UInt8), T.map = m ∧ writeTable m = .ok bs ∧ bs.length + t.buf.length ≤ s.length ∧
      (m.All FieldValue.roundTrips → ∀ rest, readTable (.ofString (bs ++ rest)) = .ok (m, .ofString rest)) := by
  obtain ⟨T, body, rfl, -, hbody, hlt, p, rfl, hle⟩ := exists_writeEntries_of_read h
  refine ⟨T, _, rfl, writeTable_eq_ok.mpr ⟨body, hbody, rfl⟩, ?_, fun hround rest => ?_⟩
  · rw [List.length_append, List.length_append, length_writeUint32]
    omega
  · have hsized : T.map.All FieldValue.sizedAsWritten := fun e he => ((FieldValue.all_and e.getData).mp (hround e he)).1
    have hmap : T.map.readBack = T.map := (TableMap.readBack_eq_iff T.map).mpr fun e he =>
      (FieldValue.readBack_eq_iff (hsized e he)).mpr ((FieldValue.all_and e.getData).mp (hround e he)).2
    have hread := reads_readTable_of_writeEntries hsized hbody hlt rest
    rwa [hmap] at hread

/-- A table with its keys out of order, and `b` twice: the first stays. -/
theorem decoded_table_sent_again_sample :
    ∃ bs, writeTable [.mk [97] (.int32 8), .mk [98] (.int32 7)] = .ok bs ∧ bs.length ≤ 25 ∧
      readTable (.ofString (bs ++ [1])) = .ok ([.mk [97] (.int32 8), .mk [98] (.int32 7)], .ofString [1]) := by
  have hread : readTable (.ofString [0, 0, 0, 21, 1, 98, 73, 0, 0, 0, 7, 1, 97, 73, 0, 0, 0, 8, 1, 98, 73, 0, 0, 0, 9]) =
      .ok ([.mk [97] (.int32 8), .mk [98] (.int32 7)], .ofString []) := rfl
  obtain ⟨T, bs, -, hwrite, hle, hagain⟩ := decoded_table_sent_again hread
  exact ⟨bs, hwrite, hle, hagain (fun e he => by rcases List.mem_pair.mp he with rfl | rfl <;> exact ⟨trivial, trivial⟩) [1]⟩

/-- What is read from a written entry, whatever follows it, has the key and the `get_type` of the entry, also where the value
does not survive: a double, an array, a byte string. -/
theorem read_entry_has_type {e e' : TableEntry} {bs rest : List UInt8} {t : IStream} (hwrite : writeTableEntry e = .ok bs)
    (hread : readTableEntry (.ofString (bs ++ rest)) = .ok (e', t)) : e'.getKey = e.getKey ∧ e'.getType = e.getType := by
  obtain ⟨hlen, b, hvalue, rfl⟩ := writeTableEntry_eq_ok.mp hwrite
  obtain ⟨body, rfl⟩ := code_of_writeTableValue hvalue
  obtain ⟨key, s₁, hkey, hafter⟩ := Reader.bind_eq_ok.mp hread
  obtain ⟨v, s₂, hv, hret⟩ := Reader.bind_eq_ok.mp hafter
  have hshort := reads_readShortstring hlen ((e.getData.getType.code :: body) ++ rest)
  rw [← List.append_assoc] at hshort
  cases hshort.symm.trans hkey
  have hcode := code_of_readFieldValueN _ hv
  have htype : v.getType = e.getData.getType := by
    have hof := congrArg FieldType.ofCode hcode
    rw [FieldType.ofCode_code, FieldType.ofCode_code] at hof
    exact Option.some.inj hof
  rcases hcreate : TableEntry.create e.getKey v with ex | x
  · rw [hcreate] at hret
    cases hret
  · rw [hcreate] at hret
    cases hret
    obtain ⟨-, rfl⟩ := TableEntry.create_eq_ok.mp hcreate
    exact ⟨rfl, htype⟩

/-- A byte string goes out without its length, and other bytes come back. -/
theorem read_entry_has_type_bytes : ∃ e, readTableEntry (.ofString [1, 97, 120, 0, 0, 0, 1, 9]) = .ok (e, .ofString []) ∧
    e.getKey = [97] ∧ e.getType = .bytes := by
  have hwrite : writeTableEntry (.mk [97] (.bytes [0, 0, 0, 1, 9])) = .ok [1, 97, 120, 0, 0, 0, 1, 9] := rfl
  have hread : readTableEntry (.ofString ([1, 97, 120, 0, 0, 0, 1, 9] ++ [])) = .ok (.mk [97] (.bytes [9]), .ofString []) := rfl
  obtain ⟨hkey, htype⟩ := read_entry_has_type hwrite hread
  exact ⟨_, hread, hkey, htype⟩

/-- A method that `method::read` makes of the payload of any frame, with plain values in its tables, can be put into a frame
again. The payload is no longer than the one that was read and is read as the same method. Without tables and bits, it is the
front of the one that was read. -/
theorem decoded_method_sent_again (Γ : Spec) {f : Frame} {m : Method} (h : Γ.readFrame f = .ok m)
    (hlen : f.payload.length < 2 ^ 32) (hruns : BitRunsLe 32 m.desc.arguments) (hplain : ∀ v ∈ m.values, v.IsPlain)
    (memory : Nat → UInt8) (channel : UInt16) :
    ∃ g, createFromMethod memory channel m = .ok g ∧ g.type = .method ∧ g.channel = channel ∧
      g.payload.length ≤ f.payload.length ∧ Γ.readFrame g = .ok m ∧
      ((∀ d ∈ m.desc.arguments, d ≠ .table ∧ d ≠ .bit) → g.payload <+: f.payload) := by
  obtain ⟨blocks, hb⟩ := CodecAux.exists_blocks_of_le hruns
  obtain ⟨p, left, hpayload, hdecodes⟩ := Spec.decodes_of_readFrame h hb
  obtain ⟨⟨c, hc, hindex, hd⟩, htyped⟩ := Spec.of_readFrame h
  have haccepted := accepted_of_decodes htyped hb hdecodes hplain
  have hcount : 4 + p.length + left.length = f.payload.length := by
    rw [hpayload]
    simp only [List.length_append, length_writeUint16]
    omega
  have hencoded : m.encodedSize ≤ 4 + p.length := by
    rw [Method.encodedSize, genGetLengthFunction, hb.genGetLength]
    exact Nat.add_le_add_left (hdecodes.size hplain) 4
  have hm : m = (⟨m.values, htyped, haccepted⟩ : Assignment m.desc).method c := by
    rw [Assignment.method, hindex]
  rw [hm] at hencoded
  obtain ⟨g, hcreate, htype, hchannel, hlength, hread⟩ :=
    exists_frame hc hd hruns ⟨m.values, htyped, haccepted⟩ (by omega) memory channel
  rw [← hm] at hcreate hread
  refine ⟨g, hcreate, htype, hchannel, by omega, hread, fun hds => ?_⟩
  have hfront := payload_of_createFromMethod (write_of_decodes hb hdecodes hds) hcreate
  have hlast : (writeUint16 m.classId ++ (writeUint16 m.desc.index ++ p)).length = 4 + p.length := by
    simp only [List.length_append, length_writeUint16]
    omega
  rw [← hfront.eq_of_length_le (by omega), hpayload]
  exact ⟨left, by rw [List.append_assoc, List.append_assoc]⟩

/-- A method as a broker could send it: the spare bits of both words are set, and a byte follows the last argument. -/
def spareFrame : Frame := ⟨.method, 3, [0, 10, 0, 11, 0xFD, 2, 104, 105, 0xFF, 0, 0, 0, 0, 9]⟩

/-- It is sent again, no longer than it came, and read as the same method. -/
theorem decoded_method_sent_again_sample :
    ∃ g, createFromMethod (fun _ => 0) 1 ⟨10, sampleMethod, [.bit true, .bit false, .shortstr [104, 105], .bit true, .table []]⟩ =
        .ok g ∧ g.payload.length ≤ 14 ∧ sampleSpec.readFrame g = sampleSpec.readFrame spareFrame := by
  have hread : sampleSpec.readFrame spareFrame =
      .ok ⟨10, sampleMethod, [.bit true, .bit false, .shortstr [104, 105], .bit true, .table []]⟩ := rfl
  obtain ⟨g, hcreate, -, -, hlength, hagain, -⟩ := decoded_method_sent_again sampleSpec hread (by decide)
    (bitRunsLe_of_length (by decide)) (by simp [Value.IsPlain, TableMap.All]) (fun _ => 0) 1
  exact ⟨g, hcreate, hlength, hagain.trans hread.symm⟩

end Amqpp
