import Amqpp.Table.Write

/-!
# Lengths of tables that do not fit

`write_shortstring` and `write_longstring` check the length they are given before they narrow it. `write_table` narrows a
sum: nothing looks at the size of a table as a whole, so the length in front of it is the number of bytes after it modulo `2
^ 32`.
-/

namespace Amqpp

/-- Every value of the table is a string that `write_longstring` accepts. -/
def AcceptedStrings (t : TableMap) : Prop :=
  ∀ e ∈ t, ∃ s bs, e.getData = .longstring s ∧ writeLongstring s = .ok bs

/-- `write_table` throws, or writes the number of bytes that follow. -/
def LengthAgrees (t : TableMap) : Prop :=
  ∀ bs, writeTable t = .ok bs → ∃ len body, bs = writeUint32 len ++ body ∧ len.toNat = body.length

/-- The bytes of an entry with a string: a length byte and the key, a type byte, four length bytes and the string. -/
def stringEntrySize (e : TableEntry) : Nat :=
  match e.getData with
  | .longstring s => (1 + e.getKey.length) + (1 + (4 + s.length))
  | _ => 0

/-- The bytes of all the entries, as a natural number. -/
def stringEntriesSize (t : TableMap) : Nat := (t.map stringEntrySize).sum

namespace TableLengthsAux

theorem sizedAsWritten_of_acceptedStrings {t : TableMap} (h : AcceptedStrings t) : t.All FieldValue.sizedAsWritten := by
  intro e he
  obtain ⟨s, _, hs, -⟩ := h e he
  rw [hs]
  exact (FieldValue.all_of_isScalar rfl).mpr trivial

/-- No string is refused, whatever they add up to. -/
theorem exists_writeEntries_of_acceptedStrings {t : TableMap} (hkey : ∀ e ∈ t, e.getKey.length ≤ 128)
    (h : AcceptedStrings t) : ∃ body, writeEntries t = .ok body := by
  refine exists_writeEntries hkey fun e he => ?_
  obtain ⟨s, bs, hs, hbs⟩ := h e he
  exact ⟨writeUint8 FieldType.longstring.code ++ bs, by rw [hs, writeTableValue, hbs]; rfl⟩

theorem stringEntriesSize_eq {t : TableMap} (h : AcceptedStrings t) :
    stringEntriesSize t = keysSize t + t.total FieldValue.emitted := by
  induction t with
  | nil => rfl
  | cons e es ih =>
    obtain ⟨s, _, hs, -⟩ := h e List.mem_cons_self
    have hes := ih fun x hx => h x (List.mem_cons_of_mem _ hx)
    have hsize : stringEntrySize e = (1 + e.getKey.length) + (1 + (4 + s.length)) := by rw [stringEntrySize, hs]
    have hvalue : e.getData.total FieldValue.emitted = 5 + s.length := by
      rw [hs, FieldValue.total_of_isScalar rfl]
      rfl
    rw [stringEntriesSize, TableMap.total] at hes ⊢
    rw [List.map_cons, List.sum_cons, List.map_cons, List.sum_cons, keysSize_cons, hes, hsize, hvalue]
    omega

/-- The length in front of a table of strings is the sum modulo `2 ^ 32`, and the entries take the sum. -/
theorem writeTable_strings {t : TableMap} (hkey : ∀ e ∈ t, e.getKey.length ≤ 128) (h : AcceptedStrings t) :
    ∃ body, writeTable t = .ok (writeUint32 (UInt32.ofNat (stringEntriesSize t)) ++ body) ∧
      body.length = stringEntriesSize t := by
  obtain ⟨body, hbody⟩ := exists_writeEntries_of_acceptedStrings hkey h
  have hlen : body.length = stringEntriesSize t := by rw [writeEntries_length hbody, stringEntriesSize_eq h]
  have hsize := entriesSize_eq_length (sizedAsWritten_of_acceptedStrings h) hbody
  rw [hlen] at hsize
  exact ⟨body, writeTable_eq_ok.mpr ⟨body, hbody, by rw [hsize]⟩, hlen⟩

/-- A number is what is left of it in 32 bits exactly when it fits. -/
theorem toNat_ofNat_eq_iff (n : Nat) : (UInt32.ofNat n).toNat = n ↔ n < 2 ^ 32 := by
  rw [UInt32.toNat_ofNat']
  omega

theorem lengthAgrees_iff {t : TableMap} (hkey : ∀ e ∈ t, e.getKey.length ≤ 128) (h : AcceptedStrings t) :
    LengthAgrees t ↔ stringEntriesSize t < 2 ^ 32 := by
  obtain ⟨body, hwrite, hlen⟩ := writeTable_strings hkey h
  rw [← toNat_ofNat_eq_iff]
  constructor
  · intro hagrees
    obtain ⟨len, body', hbs, heq⟩ := hagrees _ hwrite
    obtain ⟨rfl, rfl⟩ := (reads_readUint32 _).inj (reads_readUint32 len) hbs
    rw [heq, hlen]
  · intro hfits bs hbs
    obtain rfl := Except.ok.inj (hwrite.symm.trans hbs)
    exact ⟨_, body, rfl, by rw [hfits, hlen]⟩

end TableLengthsAux

open TableLengthsAux

/-- A table of strings is written with the length of its entries in front of them exactly when they take less than `2 ^ 32`
bytes together: a table that takes more is never refused, and goes out with the length modulo `2 ^ 32`. -/
theorem table_length_agrees_iff (t : Table) (h : AcceptedStrings t.map) :
    LengthAgrees t.map ↔ stringEntriesSize t.map < 2 ^ 32 :=
  lengthAgrees_iff t.key_le h

/-- A table whose only entry `k` holds the string. -/
def stringTable (s : List UInt8) : Table :=
  Table.empty.insert ⟨.mk ['k'.toUInt8] (.longstring s), show 1 ≤ 128 by decide, trivial⟩

theorem acceptedStrings_stringTable {s : List UInt8} (h : s.length < 2 ^ 32) : AcceptedStrings (stringTable s).map := by
  intro e he
  obtain rfl := List.mem_singleton.mp he
  exact ⟨s, _, rfl, writeLongstring_eq_ok.mpr ⟨h, rfl⟩⟩

theorem stringEntriesSize_stringTable (s : List UInt8) : stringEntriesSize (stringTable s).map = 7 + s.length := by
  change (1 + 1) + (1 + (4 + s.length)) + 0 = _
  omega

/-- The string `v` under the key `k` takes eight bytes and is announced as such. -/
theorem stringTable_length_agrees :
    AcceptedStrings (stringTable ['v'.toUInt8]).map ∧ LengthAgrees (stringTable ['v'.toUInt8]).map :=
  ⟨acceptedStrings_stringTable (by decide),
    (table_length_agrees_iff _ (acceptedStrings_stringTable (by decide))).mpr (by decide)⟩

/-- The longest string `write_longstring` accepts, under the key `k`: `2 ^ 32 + 6` bytes follow a length of six. -/
theorem longest_string_wraps :
    AcceptedStrings (stringTable (List.replicate 4294967295 0)).map ∧
    (∃ body, writeTable (stringTable (List.replicate 4294967295 0)).map = .ok (writeUint32 6 ++ body) ∧
      body.length = 2 ^ 32 + 6) ∧
    ¬LengthAgrees (stringTable (List.replicate 4294967295 0)).map := by
  have hlen : (List.replicate 4294967295 (0 : UInt8)).length = 4294967295 := List.length_replicate
  generalize List.replicate 4294967295 (0 : UInt8) = s at hlen
  have haccepted := acceptedStrings_stringTable (s := s) (by omega)
  have hkey : ∀ e ∈ (stringTable s).map, e.getKey.length ≤ 128 := (stringTable s).key_le
  have hsize := stringEntriesSize_stringTable s
  rw [hlen] at hsize
  refine ⟨haccepted, ?_, ?_⟩
  · obtain ⟨body, hwrite, hbody⟩ := writeTable_strings hkey haccepted
    rw [hsize] at hwrite hbody
    exact ⟨body, hwrite, hbody⟩
  · rw [lengthAgrees_iff hkey haccepted, hsize]
    decide

end Amqpp
