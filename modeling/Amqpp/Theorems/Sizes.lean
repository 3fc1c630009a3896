import Amqpp.Table.Write
import Mathlib.Data.Nat.ModEq

/-!
# Announced sizes against written bytes

The size visitor and the writer are two traversals of the same value. They agree on every table with no decimal, no array
and no byte string at any depth, and on no other.
-/

namespace Amqpp

/-- A type byte, a 32-bit length, and as many bytes as the length says. -/
def LengthPrefixed (bs : List UInt8) : Prop :=
  ∃ ty body, bs = writeUint8 ty ++ (writeUint32 (UInt32.ofNat body.length) ++ body) ∧ body.length < 2 ^ 32

/-- Every entry of the map takes as many bytes as its `wireformat_size` says. -/
def EntriesExact (t : TableMap) : Prop :=
  ∀ e ∈ t, ∀ bs, writeTableEntry e = .ok bs → bs.length = e.wireformatSize.toNat

/-- The length in front of an array or a table is that of the bytes after it, and the entries of a table take what they
announce. -/
def FieldValue.sizeExact : FieldValue → Prop
  | .fieldarray a => ∀ bs, writeTableValue (.fieldarray a) = .ok bs → LengthPrefixed bs
  | .fieldtable t => (∀ bs, writeTableValue (.fieldtable t) = .ok bs → LengthPrefixed bs) ∧ EntriesExact t
  | _ => True

/-- The announced sizes of a table are the written ones: its own, those of its entries, and every length inside it. -/
structure SizesExact (t : TableMap) : Prop where
  table : ∀ bs, writeTable t = .ok bs → bs.length = t.wireformatSize.toNat
  entries : EntriesExact t
  nested : t.All FieldValue.sizeExact

namespace SizesAux

/-- A written word and what follows it are determined by the string. -/
theorem writeUint32_append_inj {i j : UInt32} {bs bs' : List UInt8} (h : writeUint32 i ++ bs = writeUint32 j ++ bs') :
    i = j ∧ bs = bs' :=
  (reads_readUint32 i).inj (reads_readUint32 j) h

/-- A type byte, a word and a body are length-prefixed exactly when the word is the length of the body. -/
theorem lengthPrefixed_iff {ty : UInt8} {n : UInt32} {body : List UInt8} :
    LengthPrefixed (writeUint8 ty ++ (writeUint32 n ++ body)) ↔ n.toNat = body.length := by
  constructor
  · rintro ⟨ty', body', h, hlt⟩
    obtain ⟨-, hw⟩ := List.cons.inj h
    obtain ⟨rfl, rfl⟩ := writeUint32_append_inj hw
    exact UInt32.toNat_ofNat_of_lt' hlt
  · intro hn
    refine ⟨ty, body, ?_, hn ▸ n.toNat_lt⟩
    rw [← hn, UInt32.ofNat_toNat]

/-- An entry takes what it announces exactly when its value announces what it takes, modulo `2 ^ 32`. -/
theorem entry_exact_iff {e : TableEntry} {bs : List UInt8} (h : writeTableEntry e = .ok bs) (hlen : bs.length < 2 ^ 32) :
    bs.length = e.wireformatSize.toNat ↔
      e.getData.total FieldValue.announced ≡ e.getData.total FieldValue.emitted [MOD 2 ^ 32] := by
  rw [TableEntry.wireformatSize_eq, UInt32.toNat_ofNat', writeTableEntry_length h, Nat.ModEq]
  rw [writeTableEntry_length h] at hlen
  constructor <;> intro heq <;> omega

/-- Such entries take what they announce. -/
theorem entriesExact_of_sizedAsWritten {t : TableMap} {body : List UInt8} (ht : t.All FieldValue.sizedAsWritten)
    (hbody : writeEntries t = .ok body) (hlen : body.length < 2 ^ 32) : EntriesExact t := by
  intro e he bs hbs
  obtain ⟨c, _, hc, -, -, hle⟩ := writeEntries_mem hbody he
  obtain rfl : c = bs := Except.ok.inj (hc.symm.trans hbs)
  rw [entry_exact_iff hbs (by omega), FieldValue.total_announced_eq (ht e he)]

/-- The lengths inside such a value are exact. -/
theorem sizeExact_of_sizedAsWritten {v : FieldValue} (hv : v.All FieldValue.sizedAsWritten) {bs : List UInt8}
    (h : writeTableValue v = .ok bs) (hlen : bs.length < 2 ^ 32) : v.All FieldValue.sizeExact := by
  induction v using FieldValue.induction generalizing bs with
  | scalar v hs =>
    rw [FieldValue.all_of_isScalar hs]
    cases v <;> trivial
  | array a _ => exact hv.self.elim
  | table t ih =>
    obtain ⟨-, ht⟩ := (FieldValue.all_fieldtable t).mp hv
    obtain ⟨b, hb, rfl⟩ := writeTableValue_fieldtable.mp h
    obtain ⟨body, hbody, rfl⟩ := writeTable_eq_ok.mp hb
    rw [List.length_append, List.length_append, length_writeUint8, length_writeUint32] at hlen
    refine (FieldValue.all_fieldtable t).mpr ⟨⟨?_, ?_⟩, ?_⟩
    · intro bs' hbs'
      obtain rfl : _ = bs' := Except.ok.inj (h.symm.trans hbs')
      rw [lengthPrefixed_iff, entriesSize_eq_length ht hbody,
        UInt32.toNat_ofNat_of_lt' (show body.length < UInt32.size by change _ < 2 ^ 32; omega)]
    · exact entriesExact_of_sizedAsWritten ht hbody (by omega)
    · intro e he
      obtain ⟨c, d, -, hd, hdc, hle⟩ := writeEntries_mem hbody he
      exact ih e he (ht e he) hd (by omega)

/-- A value in an entry that takes what it announces, with exact lengths inside, has no decimal, array or byte string in it:
an array with an exact prefix announces four bytes too few for its entry. -/
theorem sizedAsWritten_of_sizeExact {v : FieldValue} (hv : v.All FieldValue.sizeExact) {bs : List UInt8}
    (h : writeTableValue v = .ok bs) (hlen : bs.length < 2 ^ 32)
    (hexact : v.total FieldValue.announced ≡ v.total FieldValue.emitted [MOD 2 ^ 32]) : v.All FieldValue.sizedAsWritten := by
  induction v using FieldValue.induction generalizing bs with
  | scalar v hs =>
    rw [FieldValue.total_of_isScalar hs, FieldValue.total_of_isScalar hs, Nat.ModEq] at hexact
    rw [FieldValue.all_of_isScalar hs]
    cases v with
    | decimal mag val => simp [FieldValue.here] at hexact
    | bytes b =>
      simp only [FieldValue.here] at hexact
      omega
    | fieldarray a => cases hs
    | fieldtable t => cases hs
    | _ => trivial
  | array a _ =>
    obtain ⟨hlead, -⟩ := (FieldValue.all_fieldarray a).mp hv
    have hpre := hlead bs h
    obtain ⟨body, hbody, rfl⟩ := writeTableValue_fieldarray.mp h
    rw [lengthPrefixed_iff, valuesSize_eq, UInt32.toNat_ofNat', writeValues_length hbody] at hpre
    rw [FieldValue.total_fieldarray, FieldValue.total_fieldarray, Nat.ModEq] at hexact
    simp only [FieldValue.here] at hexact
    omega
  | table t ih =>
    obtain ⟨⟨-, hentries⟩, ht⟩ := (FieldValue.all_fieldtable t).mp hv
    obtain ⟨b, hb, rfl⟩ := writeTableValue_fieldtable.mp h
    obtain ⟨body, hbody, rfl⟩ := writeTable_eq_ok.mp hb
    rw [List.length_append, List.length_append, length_writeUint8, length_writeUint32] at hlen
    refine (FieldValue.all_fieldtable t).mpr ⟨trivial, fun e he => ?_⟩
    obtain ⟨c, d, hc, hd, hdc, hle⟩ := writeEntries_mem hbody he
    have he_exact := (entry_exact_iff hc (by omega)).mp (hentries e he c hc)
    exact ih e he (ht e he) hd (by omega) he_exact

end SizesAux

open SizesAux

/-- The announced sizes of a table that fits in `2 ^ 32` bytes are exact if and only if it has no decimal, no array and no
byte string at any depth. -/
theorem sizes_exact_iff (t : Table) (bs : List UInt8) (h : writeTable t.map = .ok bs) (hlen : bs.length < 2 ^ 32) :
    SizesExact t.map ↔ t.map.All FieldValue.sizedAsWritten := by
  obtain ⟨body, hbody, hbs⟩ := writeTable_eq_ok.mp h
  have hbodylen : bs.length = 4 + body.length := by rw [hbs, List.length_append, length_writeUint32]
  constructor
  · intro hexact e he
    obtain ⟨c, d, hc, hd, hdc, hle⟩ := writeEntries_mem hbody he
    have he_exact := (entry_exact_iff hc (by omega)).mp (hexact.entries e he c hc)
    exact sizedAsWritten_of_sizeExact (hexact.nested e he) hd (by omega) he_exact
  · intro ht
    refine ⟨fun bs' hbs' => ?_, entriesExact_of_sizedAsWritten ht hbody (by omega), fun e he => ?_⟩
    · obtain rfl : bs = bs' := Except.ok.inj (h.symm.trans hbs')
      rw [TableMap.wireformatSize_eq, TableMap.total_announced_eq ht, ← writeTable_length h,
        UInt32.toNat_ofNat_of_lt' (show bs.length < UInt32.size from hlen)]
    · obtain ⟨c, d, -, hd, hdc, hle⟩ := writeEntries_mem hbody he
      exact sizeExact_of_sizedAsWritten (ht e he) hd (by omega)

/-- A table whose only entry `k` holds the decimal 3.14. -/
def decimalTable : Table :=
  Table.empty.insert ⟨.mk ['k'.toUInt8] (.decimal 2 314), by decide, trivial⟩

/-- A table whose only entry `k` holds a nested table with the int32 7. -/
def nestedTable : Table :=
  Table.empty.insert ⟨.mk ['k'.toUInt8] (.fieldtable [.mk ['n'.toUInt8] (.int32 7)]), by decide, by
    refine (FieldValue.all_fieldtable _).mpr ⟨⟨List.pairwise_singleton _ _, ?_⟩, ?_⟩ <;> intro e he <;>
      obtain rfl := List.mem_singleton.mp he
    · decide
    · trivial⟩

/-- The sizes of a table with a nested table are exact. -/
theorem sizes_exact_nestedTable : SizesExact nestedTable.map := by
  refine (sizes_exact_iff nestedTable _ rfl (by decide)).mpr fun e he => ?_
  obtain rfl := List.mem_singleton.mp he
  refine (FieldValue.all_fieldtable _).mpr ⟨trivial, fun e he => ?_⟩
  obtain rfl := List.mem_singleton.mp he
  trivial

/-- The table with a decimal is written in 12 bytes and announces 15. -/
theorem decimalTable_sizes_differ :
    (writeTable decimalTable.map).map List.length = .ok 12 ∧ decimalTable.map.wireformatSize = 15 ∧
      ¬SizesExact decimalTable.map := by
  refine ⟨rfl, rfl, fun h => ?_⟩
  have hlen : 12 = 15 := h.table _ rfl
  omega

end Amqpp
