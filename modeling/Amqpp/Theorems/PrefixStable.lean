import Amqpp.Table.Local

/-!
# Decoding is prefix-stable

What a reader of tables returns is up to the bytes it takes. A length that reaches past the end of the table or array it
stands in is rejected: what stands in a table or an array is read from a string of its own, and never from the bytes that
follow it.
-/

namespace Amqpp

/-- Whatever the reader accepts opens with bytes that it takes, and would take from any other stream that opens with them. -/
def PrefixStable {α : Type} (r : Reader Exception α) : Prop :=
  ∀ buf v s, r (.ofString buf) = .ok (v, s) → ∃ p rest, p ≠ [] ∧ buf = p ++ rest ∧ s = .ofString rest ∧
    ∀ rest', r (.ofString (p ++ rest')) = .ok (v, .ofString rest')

/-- No string that the reader takes whole is a proper prefix of another. -/
def PrefixFree {α : Type} (r : Reader Exception α) : Prop :=
  ∀ p q v v', r (.ofString p) = .ok (v, .ofString []) → r (.ofString (p ++ q)) = .ok (v', .ofString []) → q = []

/-- What the rest of a string is read as: the entries of a table, the elements of an array, or a value. -/
inductive Enclosed where
  | entries | elements | value

/-- Somewhere in the rest of a string, at any depth, stands a length that reaches past the end of the table or array around
it. -/
inductive Overruns : Enclosed → List UInt8 → Prop where
  /-- A key is longer than what is left. -/
  | key (len : UInt8) (rest : List UInt8) (h : rest.length < len.toNat) : Overruns .entries (len :: rest)
  /-- A string, an array or a table is longer than what is left. -/
  | length (ty : FieldType) (hty : ty ∈ [FieldType.longstring, .fieldarray, .fieldtable, .bytes]) (len : UInt32) (rest : List UInt8)
      (h : rest.length < len.toNat) : Overruns .value (writeUint8 ty.code ++ (writeUint32 len ++ rest))
  /-- It stands inside a table. -/
  | table (body rest : List UInt8) (hlen : body.length < 2 ^ 32) (h : Overruns .entries body) :
      Overruns .value (writeUint8 FieldType.fieldtable.code ++ (writeUint32 (UInt32.ofNat body.length) ++ body ++ rest))
  /-- It stands inside an array. -/
  | array (body rest : List UInt8) (hlen : body.length < 2 ^ 32) (h : Overruns .elements body) :
      Overruns .value (writeUint8 FieldType.fieldarray.code ++ (writeUint32 (UInt32.ofNat body.length) ++ body ++ rest))
  /-- It stands in the value of an entry. -/
  | entry (key s : List UInt8) (hkey : key.length ≤ 255) (h : Overruns .value s) :
      Overruns .entries (writeUint8 (UInt8.ofNat key.length) ++ key ++ s)
  /-- It stands in an element. -/
  | element (s : List UInt8) (h : Overruns .value s) : Overruns .elements s
  /-- It stands in a later entry. -/
  | nextEntry (p : List UInt8) (e : TableEntry) (s : List UInt8) (hp : Reader.Reads readTableEntry p e) (h : Overruns .entries s) :
      Overruns .entries (p ++ s)
  /-- It stands in a later element. -/
  | nextElement (p : List UInt8) (v : FieldValue) (s : List UInt8) (hp : Reader.Reads readFieldValue p v)
      (h : Overruns .elements s) : Overruns .elements (p ++ s)

namespace PrefixStableAux

theorem prefixStable_of_local {α : Type} {r : Reader Exception α} (h : Reader.Local r) (hne : Reader.Parses r fun p _ => p ≠ []) :
    PrefixStable r := by
  intro buf v s hr
  obtain ⟨p, rest, rfl, rfl, hp⟩ := h buf v s hr
  obtain ⟨p', rest', hbuf, hs, hne⟩ := hne _ v _ hr
  obtain rfl : rest = rest' := congrArg IStream.buf hs
  obtain rfl := List.append_cancel_right hbuf
  exact ⟨p, rest, hne, rfl, rfl, hp⟩

theorem prefixFree_of_stable {α : Type} {r : Reader Exception α} (h : PrefixStable r) : PrefixFree r := by
  intro p q v v' hp hq
  obtain ⟨p', rest, -, rfl, hrest, hread⟩ := h p v _ hp
  obtain rfl : rest = [] := (congrArg IStream.buf hrest).symm
  rw [List.append_nil, hread q] at hq
  exact congrArg (fun x : α × IStream => x.2.buf) (Except.ok.inj hq)

theorem parses_readTableEntryWith_ne_nil {rfv : Reader Exception FieldValue} (h : Reader.Parses rfv (FieldValue.TakenFrom 0)) :
    Reader.Parses (readTableEntryWith rfv) fun p _ => p ≠ [] := by
  refine (parses_readTableEntryWith h).mono ?_
  rintro _ e ⟨hlen, -⟩ rfl
  rw [List.length_nil] at hlen
  omega

theorem parses_readTableWith_ne_nil {rfv : Reader Exception FieldValue} (h : Reader.Parses rfv (FieldValue.TakenFrom 0)) :
    Reader.Parses (readTableWith rfv) fun p _ => p ≠ [] := by
  refine (parses_readTableWith h).mono ?_
  rintro _ t ⟨body, rfl, -⟩ hnil
  have hlen := congrArg List.length hnil
  rw [List.length_append, length_writeUint32, List.length_nil] at hlen
  omega

/-! ## Lengths that reach too far -/

/-- What the loop over the entries, or the reader of a value, makes of the rest of a string: nothing. An array is never
accepted. -/
def Rejected : Enclosed → List UInt8 → Prop
  | .entries, s => ∀ n k acc r, Reader.whileM IStream.peek (readTableBody (readFieldValueN n)) .stuck k acc (.ofString s) ≠ .ok r
  | .elements, _ => True
  | .value, s => ∀ n r, readFieldValueN n (.ofString s) ≠ .ok r

/-- A reader after one that accepts nothing. -/
theorem bind_ne_ok {α β : Type} {x : Reader Exception α} {f : α → Reader Exception β} {s : IStream} (h : ∀ r, x s ≠ .ok r)
    (r : β × IStream) : (x >>= f) s ≠ .ok r := by
  obtain ⟨b, t⟩ := r
  intro he
  obtain ⟨a, u, hx, -⟩ := Reader.bind_eq_ok.mp he
  exact h _ hx

/-- A reader that accepts nothing throws. -/
theorem eq_error_of_ne_ok {α : Type} {x : Except Exception α} (h : ∀ a, x ≠ .ok a) (hends : x ≠ .error .stuck) :
    ∃ e, e ≠ .stuck ∧ x = .error e := by
  cases x with
  | ok a => exact absurd rfl (h a)
  | error e => exact ⟨e, fun he => hends (congrArg Except.error he), rfl⟩

/-- A string that is shorter than the length in front of it. -/
theorem readLongstring_ne_ok {len : UInt32} {rest : List UInt8} (h : rest.length < len.toNat) (r : List UInt8 × IStream) :
    readLongstring (.ofString (writeUint32 len ++ rest)) ≠ .ok r := by
  rw [readLongstring_ofString, Reader.bind_of_ok (reads_readUint32 len rest), Reader.exactly_ofString, if_neg (by omega)]
  exact fun he => by cases he

/-- A byte string that is shorter than the length in front of it. -/
theorem readBytes_ne_ok {len : UInt32} {rest : List UInt8} (h : rest.length < len.toNat) {rfv : Reader Exception FieldValue}
    (r : FieldValue × IStream) : readPayload rfv .bytes (.ofString (writeUint32 len ++ rest)) ≠ .ok r := by
  simp only [readPayload]
  rw [Reader.bind_of_ok (reads_readUint32 len rest)]
  refine bind_ne_ok (fun x he => ?_) r
  rw [Reader.exactly_ofString, if_neg (by omega)] at he
  cases he

/-- A value whose payload is rejected. -/
theorem readFieldValueN_ne_ok (ty : FieldType) {s : List UInt8} (h : ∀ n r, readPayload (readFieldValueN n) ty (.ofString s) ≠ .ok r)
    (n : Nat) (r : FieldValue × IStream) : readFieldValueN n (.ofString (writeUint8 ty.code ++ s)) ≠ .ok r := by
  cases n with
  | zero => exact fun he => by cases he
  | succ n =>
    rw [readFieldValueN, Reader.bind_of_ok (reads_readUint8 ty.code s), readCase, FieldType.ofCode_code]
    exact h n r

/-- A table whose entries are rejected, whatever follows it. -/
theorem readTableWith_ne_ok {body : List UInt8} (hlen : body.length < 2 ^ 32) (h : Rejected .entries body) (rest : List UInt8) (n : Nat)
    (r : TableMap × IStream) :
    readTableWith (readFieldValueN n) (.ofString (writeUint32 (UInt32.ofNat body.length) ++ body ++ rest)) ≠ .ok r := by
  rw [readTableWith, Reader.bind_of_ok (reads_readLongstring hlen rest), Reader.onString]
  intro he
  cases hloop : Reader.whileM IStream.peek (readTableBody (readFieldValueN n)) .stuck (body.length + 1) [] (.ofString body) with
  | ok x => exact h n _ _ x hloop
  | error e =>
    rw [hloop] at he
    cases he

/-- One pass of the loop that is rejected. -/
theorem rejected_of_entry {s : List UInt8} (hs : s ≠ []) (h : ∀ n r, readTableEntryWith (readFieldValueN n) (.ofString s) ≠ .ok r) :
    Rejected .entries s := by
  intro n k acc r
  cases k with
  | zero => exact fun he => by cases he
  | succ k =>
    have hpeek : IStream.peek (.ofString s) = (true, .ofString s) := by simp [IStream.peek, IStream.ofString, hs]
    rw [Reader.whileM_succ, hpeek, if_pos rfl]
    exact bind_ne_ok (bind_ne_ok (h n)) r

/-- Induction on where the length stands. -/
theorem rejected_of_overruns {k : Enclosed} {s : List UInt8} (h : Overruns k s) : Rejected k s := by
  induction h with
  | key len rest hlt =>
    refine rejected_of_entry (List.cons_ne_nil _ _) fun n r => bind_ne_ok (fun r he => ?_) r
    change readShortstring (.ofString (writeUint8 len ++ rest)) = _ at he
    rw [readShortstring, Reader.bind_of_ok (reads_readUint8 len rest),
      Reader.bind_of_ok (Reader.check_ofString _ _), Reader.exactly_ofString, if_neg (by omega)] at he
    cases he
  | length ty hty len rest hlt =>
    refine readFieldValueN_ne_ok ty fun n r => ?_
    simp only [List.mem_cons, List.not_mem_nil, or_false] at hty
    rcases hty with rfl | rfl | rfl | rfl
    · exact bind_ne_ok (readLongstring_ne_ok hlt) r
    · exact bind_ne_ok (readLongstring_ne_ok hlt) r
    · exact bind_ne_ok (bind_ne_ok (readLongstring_ne_ok hlt)) r
    · exact readBytes_ne_ok hlt r
  | table body rest hlen _ ih =>
    exact readFieldValueN_ne_ok .fieldtable fun n r => bind_ne_ok (readTableWith_ne_ok hlen ih rest n) r
  | array body rest hlen _ _ =>
    refine readFieldValueN_ne_ok .fieldarray fun n r => ?_
    rw [readPayload, Reader.bind_of_ok (reads_readLongstring hlen rest)]
    refine bind_ne_ok (fun r he => ?_) r
    obtain ⟨-, -, -, -, -, s, hloop⟩ := Reader.Parses.onString body _ rest r.1 r.2 he
    exact readArray_ne_ok (parses_readFieldValueN n) _ _ _ hloop
  | entry key s hkey _ ih =>
    refine rejected_of_entry (List.cons_ne_nil _ _) fun n r he => ?_
    rw [readTableEntryWith, Reader.bind_of_ok (reads_readShortstring hkey s)] at he
    exact bind_ne_ok (ih n) r he
  | element s _ _ => trivial
  | nextEntry p e s hp _ ih =>
    intro n k acc r
    cases k with
    | zero => exact fun he => by cases he
    | succ k =>
      have hne : p ++ s ≠ [] := by
        obtain ⟨p', rest, hbuf, hs, hne⟩ := parses_readTableEntryWith_ne_nil (parses_readFieldValueN _) _ _ _ (hp s)
        rw [hbuf]
        exact fun hnil => hne (List.append_eq_nil_iff.mp hnil).1
      have hpeek : IStream.peek (.ofString (p ++ s)) = (true, .ofString (p ++ s)) := by simp [IStream.peek, IStream.ofString, hne]
      rw [Reader.whileM_succ, hpeek, if_pos rfl]
      intro he
      obtain ⟨acc', t, hbody, hloop⟩ := Reader.bind_eq_ok.mp he
      obtain ⟨e', u, hentry, hins⟩ := Reader.bind_eq_ok.mp hbody
      cases hins
      -- However many levels the loop has to go, it reads the entry that stands there.
      obtain ⟨rfl, rfl⟩ := Prod.mk.inj (Reader.Extends.unique (fun n => extends_readTableEntryWith (extends_readFieldValueN n)) hentry (hp s))
      exact ih n k _ r hloop
  | nextElement p v s _ _ _ => trivial

end PrefixStableAux

open PrefixStableAux

/-- The readers of values, entries and tables look only at the bytes they take, and take at least one; so no string that one
of them takes whole is a proper prefix of another; and a value, an entry or a table is rejected, whatever follows it, when a
length inside it, at any depth, reaches past the end of the table or array it stands in. -/
theorem table_decoding_prefix_stable :
    (PrefixStable readFieldValue ∧ PrefixFree readFieldValue) ∧
    (PrefixStable readTableEntry ∧ PrefixFree readTableEntry) ∧
    (PrefixStable readTable ∧ PrefixFree readTable) ∧
    (∀ s, Overruns .value s → ∃ e, e ≠ .stuck ∧ readFieldValue (.ofString s) = .error e) ∧
    (∀ key s, key.length ≤ 255 → Overruns .value s →
      ∃ e, e ≠ .stuck ∧ readTableEntry (.ofString (writeUint8 (UInt8.ofNat key.length) ++ key ++ s)) = .error e) ∧
    (∀ body rest, Overruns .entries body → body.length < 2 ^ 32 →
      ∃ e, e ≠ .stuck ∧ readTable (.ofString (writeUint32 (UInt32.ofNat body.length) ++ body ++ rest)) = .error e) := by
  have hvalue : PrefixStable readFieldValue :=
    prefixStable_of_local local_readFieldValue fun buf => parses_readFieldValueN_ne_nil _ buf
  have hentry : PrefixStable readTableEntry :=
    prefixStable_of_local local_readTableEntry fun buf => parses_readTableEntryWith_ne_nil (parses_readFieldValueN _) buf
  have htable : PrefixStable readTable :=
    prefixStable_of_local local_readTable fun buf => parses_readTableWith_ne_nil (parses_readFieldValueN _) buf
  refine ⟨⟨hvalue, prefixFree_of_stable hvalue⟩, ⟨hentry, prefixFree_of_stable hentry⟩, ⟨htable, prefixFree_of_stable htable⟩, ?_, ?_, ?_⟩
  · intro s hover
    exact eq_error_of_ne_ok (rejected_of_overruns hover _) (ends_readFieldValueN _ _ (Nat.lt_succ_self _) s le_rfl)
  · intro key s hkey hover
    refine eq_error_of_ne_ok (fun r he => ?_)
      (ends_readTableEntryWith (parses_readFieldValueN _) (ends_readFieldValueN _ _ (Nat.lt_succ_self _)) _ le_rfl)
    rw [readTableEntry, readTableEntryWith, Reader.bind_of_ok (reads_readShortstring hkey s)] at he
    exact bind_ne_ok (rejected_of_overruns hover _) r he
  · intro body rest hover hlen
    exact eq_error_of_ne_ok (readTableWith_ne_ok hlen (rejected_of_overruns hover) rest _)
      (ends_readTableWith (parses_readFieldValueN _)
        (ends_readFieldValueN _ _ (Nat.lt_succ_of_le (Nat.sub_le _ 4))) _ le_rfl)

/-- A table whose entry `k` is a table of announced length 4, of which only one byte stands in the outer table: the three
bytes behind the outer table are not read. -/
theorem nested_table_past_end_rejected :
    ∃ e, e ≠ .stuck ∧ readTable (.ofString (writeUint32 8 ++ [1, 107, 70, 0, 0, 0, 4, 0] ++ [0, 0, 0])) = .error e :=
  table_decoding_prefix_stable.2.2.2.2.2 [1, 107, 70, 0, 0, 0, 4, 0] [0, 0, 0]
    (.entry [107] _ (by decide) (.length .fieldtable (by decide) 4 [0] (by decide))) (by decide)

end Amqpp
