import Amqpp.Table.Local
import Amqpp.Table.RoundTrip

/-!
# The order of entries

A table does not tell in which order its entries were inserted or came from the wire: of the entries with one key the first
is kept, and entries with different keys can change places.
-/

namespace Amqpp

/-- The default-constructed table after some calls of `table::insert`. -/
def TableMap.insertAll (es : List TableEntry) : TableMap := es.foldl insert []

/-- Each of the strings is read by `read_table_entry` whole, as the entry at its place. -/
def EntriesRead (es : List TableEntry) (cs : List (List UInt8)) : Prop :=
  List.Forall₂ (fun e c => readTableEntry (.ofString c) = .ok (e, .ofString [])) es cs

/-- The bytes of a table with the entries `cs`, and what follows it. -/
def tableBytes (cs : List (List UInt8)) (rest : List UInt8) : List UInt8 :=
  writeUint32 (UInt32.ofNat cs.flatten.length) ++ cs.flatten ++ rest

namespace TableOrderAux

/-- Entries that are read one by one are read by the loop of `read_table`. -/
theorem readTable_of_entriesRead {es : List TableEntry} {cs : List (List UInt8)} (h : EntriesRead es cs)
    (hlen : cs.flatten.length < 2 ^ 32) (rest : List UInt8) :
    readTable (.ofString (tableBytes cs rest)) = .ok (TableMap.insertAll es, .ofString rest) := by
  have hsize : cs.flatten.length < (tableBytes cs rest).length + 1 := by
    rw [tableBytes, List.length_append, List.length_append]
    omega
  have hchunk : ∀ c ∈ cs, ∀ e, readTableEntry (.ofString c) = .ok (e, .ofString []) →
      c ≠ [] ∧ Reader.Reads (readTableEntryWith (readFieldValueN ((tableBytes cs rest).length + 1))) c e := by
    intro c hc e he
    have hle : c.length ≤ cs.flatten.length := (List.sublist_flatten_of_mem hc).length_le
    refine ⟨?_, reads_readTableEntryWith_of_lt (local_readTableEntry.reads he) (by omega)⟩
    rintro rfl
    cases he
  refine reads_readTableWith_insert (List.forall₂_iff_zip.mpr ⟨h.length_eq, fun {e c} hmem => ?_⟩) hlen rest
  exact hchunk c (List.of_mem_zip hmem).2 e ((List.forall₂_iff_zip.mp h).2 hmem)

/-- Inserting valid entries gives a table, and every table comes from inserting valid entries. -/
theorem insertAll_valid_iff (m : TableMap) :
    (∃ es : List Entry, TableMap.insertAll (es.map Entry.entry) = m) ↔ ∃ t : Table, t.map = m := by
  constructor
  · rintro ⟨es, rfl⟩
    exact ⟨es.foldl Table.insert Table.empty, Table.map_foldl_insert es Table.empty⟩
  · rintro ⟨t, rfl⟩
    exact ⟨t.entries, (Table.map_foldl_insert t.entries Table.empty).symm.trans t.eq_insertAll⟩

end TableOrderAux

open TableOrderAux

/-- The table after any insertions is in key order and holds, for each key, the first entry that was inserted with it. So
entries with different keys give the same table, the same size and the same bytes in any order. What `read_table` returns is
the table after inserting the entries in the order of their bytes, whatever that order is and whatever follows them. The
valid tables are the ones that insertions of valid entries lead to. -/
theorem table_order_independent :
    (∀ es, SortedMap.Sorted TableEntry.getKey (TableMap.insertAll es) ∧
      ∀ key, (TableMap.insertAll es).find? (fun e => e.getKey = key) = es.find? fun e => e.getKey = key) ∧
    (∀ es es', es.Perm es' → (es.map TableEntry.getKey).Nodup →
      TableMap.insertAll es = TableMap.insertAll es' ∧
      (TableMap.insertAll es).wireformatSize = (TableMap.insertAll es').wireformatSize ∧
      writeTable (TableMap.insertAll es) = writeTable (TableMap.insertAll es')) ∧
    (∀ es cs rest, EntriesRead es cs → cs.flatten.length < 2 ^ 32 →
      readTable (.ofString (tableBytes cs rest)) = .ok (TableMap.insertAll es, .ofString rest)) ∧
    (∀ es cs cs' rest, EntriesRead es cs → cs.flatten.length < 2 ^ 32 → (es.map TableEntry.getKey).Nodup → cs.Perm cs' →
      readTable (.ofString (tableBytes cs' rest)) = .ok (TableMap.insertAll es, .ofString rest)) ∧
    (∀ m, (∃ es : List Entry, TableMap.insertAll (es.map Entry.entry) = m) ↔ ∃ t : Table, t.map = m) := by
  have hperm : ∀ es es' : List TableEntry, es.Perm es' → (es.map TableEntry.getKey).Nodup →
      TableMap.insertAll es = TableMap.insertAll es' := fun es es' h hnodup => SortedMap.foldl_insertBy_perm h hnodup
  refine ⟨fun es => ⟨SortedMap.Sorted.foldl_insertBy es List.Pairwise.nil, fun key => ?_⟩, ?_, ?_, ?_, insertAll_valid_iff⟩
  · exact SortedMap.find?_foldl_insertBy es key [] List.Pairwise.nil
  · intro es es' h hnodup
    have heq := hperm es es' h hnodup
    exact ⟨heq, congrArg TableMap.wireformatSize heq, congrArg writeTable heq⟩
  · exact fun es cs rest h hlen => readTable_of_entriesRead h hlen rest
  · intro es cs cs' rest h hlen hnodup hcs
    -- The entries change places with their bytes.
    obtain ⟨es', h', hes⟩ := List.perm_comp_forall₂ hcs.symm h.flip
    have hlen' : cs'.flatten.length < 2 ^ 32 := by rwa [← hcs.flatten.length_eq]
    rw [readTable_of_entriesRead h'.flip hlen' rest, hperm es es' hes.symm hnodup]

/-- Two void entries `a` and `b`: in either order the table is the same. -/
theorem void_entries_swap :
    readTable (.ofString (tableBytes [[1, 98, 86], [1, 97, 86]] [7])) =
      .ok (TableMap.insertAll [.mk [97] .void, .mk [98] .void], .ofString [7]) :=
  table_order_independent.2.2.2.1 [.mk [97] .void, .mk [98] .void] [[1, 97, 86], [1, 98, 86]] _ [7]
    (.cons rfl (.cons rfl .nil)) (by decide) (by decide) (List.Perm.swap _ _ _)

/-- Of two entries with one key the first is kept. -/
example : TableMap.insertAll [.mk [97] .void, .mk [97] (.boolean true)] = [.mk [97] .void] := rfl

end Amqpp
