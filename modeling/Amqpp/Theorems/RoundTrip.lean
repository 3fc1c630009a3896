import Amqpp.Table.RoundTrip

/-!
# The round trip of a table

Reading a written table gives the table back if and only if there is no decimal, array or byte string in it, and no double
but `+0.0`, at any depth. An array is never read; a decimal or a byte string shifts the reader against the writer; a double
loses its high half.
-/

namespace Amqpp

/-- The values that survive a round trip wherever they stand. -/
def FieldValue.roundTrips (v : FieldValue) : Prop := v.sizedAsWritten ∧ v.doubleIsZero

namespace RoundTripAux

/-- Every value the visitor counts too many bytes for takes at least as many. -/
theorem surplus_le_taken (v : FieldValue) : v.surplus ≤ v.taken := by
  cases v <;> simp only [FieldValue.surplus, FieldValue.here] <;> omega

/-- A table that reads back from its own encoding, and nothing more, has no decimal, array or byte string in it: what is
read takes no more than the bytes there are, so the announced length is not longer than the entries, not even by a multiple
of `2 ^ 32`. -/
theorem sizedAsWritten_of_readTable {t : TableMap} {bs : List UInt8} (h : writeTable t = .ok bs) (hlen : bs.length < 2 ^ 32)
    (hread : readTable (.ofString bs) = .ok (t, .ofString [])) : t.All FieldValue.sizedAsWritten := by
  obtain ⟨body, hbody, hbs⟩ := writeTable_eq_ok.mp h
  obtain ⟨p, rest, hp, hrest, body', rfl, hlt, htaken, harr⟩ :=
    parses_readTableWith (parses_readFieldValueN _) bs t _ hread
  obtain rfl : rest = [] := (IStream.mk.inj hrest).1.symm
  rw [List.append_nil, hbs] at hp
  obtain ⟨hsize, rfl⟩ := (reads_readUint32 _).inj (reads_readUint32 _) hp
  rw [hbs, List.length_append, length_writeUint32] at hlen
  have hmod := congrArg UInt32.toNat hsize
  rw [entriesSize_eq, UInt32.toNat_ofNat', UInt32.toNat_ofNat_of_lt' (show body.length < UInt32.size from hlt)] at hmod
  have hemitted := writeEntries_length hbody
  unfold TableMap.taken at htaken
  have hle := TableMap.total_le_total surplus_le_taken t
  have hsum := (FieldValue.fieldtable t).total_announced
  have hdeficit : (FieldValue.fieldtable t).total FieldValue.deficit = 0 :=
    (FieldValue.total_eq_zero_iff _).mpr <| (FieldValue.all_fieldtable t).mpr ⟨rfl, fun e he =>
      (harr e he).mono fun v hv => by cases v <;> first | rfl | exact hv.elim⟩
  have hsurplus : (FieldValue.fieldtable t).total FieldValue.surplus = 0 := by
    rw [hdeficit] at hsum
    simp only [FieldValue.total_fieldtable, FieldValue.here, FieldValue.surplus] at hsum ⊢
    simp only [TableMap.total] at hmod hemitted htaken hle
    omega
  intro e he
  have hzero := ((FieldValue.all_fieldtable t).mp ((FieldValue.total_eq_zero_iff _).mp hsurplus)).2 e he
  refine ((FieldValue.all_and e.getData).mpr ⟨harr e he, hzero⟩).mono fun v hv => ?_
  obtain ⟨hnot, hzero⟩ := hv
  cases v <;> trivial

end RoundTripAux

open RoundTripAux

/-- Reading the encoding of a table, whatever follows it, gives the table back and leaves what follows, if and only if it
has no decimal, no array, no byte string and no double but `+0.0` at any depth. -/
theorem table_round_trip_iff (t : Table) (bs : List UInt8) (h : writeTable t.map = .ok bs) (hlen : bs.length < 2 ^ 32) :
    (∀ rest, readTable (.ofString (bs ++ rest)) = .ok (t.map, .ofString rest)) ↔ t.map.All FieldValue.roundTrips := by
  constructor
  · intro hread
    have halone := hread []
    rw [List.append_nil] at halone
    have hsized := sizedAsWritten_of_readTable h hlen halone
    have hback := (reads_readTable hsized h hlen []).symm.trans (hread [])
    have hmap : t.map.readBack = t.map := (Prod.mk.inj (Except.ok.inj hback)).1
    intro e he
    have hsame := (TableMap.readBack_eq_iff t.map).mp hmap e he
    exact (FieldValue.all_and e.getData).mpr ⟨hsized e he, (FieldValue.readBack_eq_iff (hsized e he)).mp hsame⟩
  · intro ht rest
    have hsized : t.map.All FieldValue.sizedAsWritten := fun e he => ((FieldValue.all_and e.getData).mp (ht e he)).1
    have hmap : t.map.readBack = t.map := (TableMap.readBack_eq_iff t.map).mpr fun e he =>
      (FieldValue.readBack_eq_iff (hsized e he)).mpr ((FieldValue.all_and e.getData).mp (ht e he)).2
    have hread := reads_readTable hsized h hlen rest
    rwa [hmap] at hread

/-- A table with a string and a nested table that holds a double `+0.0`. -/
def zeroDoubleTable : Table :=
  (Table.empty.insert ⟨.mk ['s'.toUInt8] (.longstring [104, 105]), by decide, trivial⟩).insert
    ⟨.mk ['n'.toUInt8] (.fieldtable [.mk ['d'.toUInt8] (.double 0)]), by decide,
      (FieldValue.all_fieldtable _).mpr ⟨⟨List.pairwise_singleton _ _, by decide⟩, List.forall_mem_singleton.mpr trivial⟩⟩

/-- That table is read back from its encoding, with two bytes behind it. -/
theorem zeroDoubleTable_round_trip :
    ∃ bs, writeTable zeroDoubleTable.map = .ok bs ∧
      readTable (.ofString (bs ++ [1, 2])) = .ok (zeroDoubleTable.map, .ofString [1, 2]) := by
  refine ⟨_, rfl, (table_round_trip_iff zeroDoubleTable _ rfl (by decide)).mpr (fun e he => ?_) [1, 2]⟩
  rcases List.mem_pair.mp he with rfl | rfl
  · exact (FieldValue.all_fieldtable _).mpr ⟨⟨trivial, trivial⟩, List.forall_mem_singleton.mpr ⟨trivial, rfl⟩⟩
  · exact ⟨trivial, trivial⟩

/-- A table whose only entry `d` holds the double 1.0. -/
def oneDoubleTable : Table :=
  Table.empty.insert ⟨.mk ['d'.toUInt8] (.double 0x3FF0000000000000), by decide, trivial⟩

/-- That table is read back as one whose entry holds the double 0.0. -/
theorem oneDoubleTable_reads_zero :
    ∃ bs, writeTable oneDoubleTable.map = .ok bs ∧ bs.length = 15 ∧
      readTable (.ofString bs) = .ok ([.mk ['d'.toUInt8] (.double 0)], .ofString []) ∧
      readTable (.ofString bs) ≠ .ok (oneDoubleTable.map, .ofString []) := by
  refine ⟨_, rfl, rfl, rfl, fun h => ?_⟩
  injection h with h
  injection h with h
  injection h with h
  injection h with _ h
  injection h with h
  exact absurd h (by decide)

end Amqpp
