import Amqpp.Codegen.Codec

/-!
# A run of bits

The statements generated for the arguments of a run, taken one argument at a time: the first opens the scope, each packs or
unpacks its bit, and the last closes the scope. Between two arguments the word holds the bits met so far (`packed`).
-/

namespace Amqpp

/-- The word with the bits of the list, the first of them lowest. -/
def packed (w : Nat) (bits : List Bool) : BitVec w := (BitVec.ofBoolListLE bits).setWidth w

theorem getLsbD_packed {w i : Nat} (hi : i < w) (bits : List Bool) : (packed w bits).getLsbD i = bits.getD i false := by
  rw [packed, BitVec.getLsbD_setWidth, BitVec.getLsbD_ofBoolListLE]
  simp [hi]

theorem packed_nil (w : Nat) : packed w [] = 0 := by
  refine BitVec.eq_of_getLsbD_eq fun i hi => ?_
  rw [getLsbD_packed hi]
  simp

/-- Packing one more bit. -/
theorem setBit_packed {w j : Nat} {bits : List Bool} (hw : w ≤ 32) (hle : bits.length ≤ w) (hj : j < bits.length) :
    setBit (packed w (bits.take j)) bits[j] j = some (packed w (bits.take (j + 1))) := by
  obtain ⟨b, hb, hbits⟩ := setBit_eq_some hw (show j < w by omega) (packed w (bits.take j)) bits[j]
  rw [hb]
  refine congrArg some (BitVec.eq_of_getLsbD_eq fun i hi => ?_)
  rw [hbits i hi, getLsbD_packed hi, getLsbD_packed hi, List.getD_eq_getElem?_getD, List.getD_eq_getElem?_getD,
    List.getElem?_take, List.getElem?_take]
  by_cases h : i = j
  · simp [h, hj]
  · by_cases hlt : i < j
    · simp [h, hlt, show i < j + 1 by omega]
    · simp [h, hlt, show ¬i < j + 1 by omega]

/-- Unpacking a bit. -/
theorem getBit_packed {w j : Nat} {bits : List Bool} (hw : w ≤ 32) (hle : bits.length ≤ w) (hj : j < bits.length) :
    getBit (packed w bits) j = some bits[j] := by
  rw [getBit_eq_some hw (by omega), getLsbD_packed (by omega), List.getD_eq_getElem?_getD, List.getElem?_eq_getElem hj,
    Option.getD_some]

section run

variable {ds pre post : List Domain} {x : List Value} {bits : List Bool} {w : BitfieldSize} {n j : Nat}

theorem genWriteArgument_run (hrun : BitRun ds pre n post) (hsize : getBitfieldSize n = some w)
    (hj : j < n) : genWriteArgument ds (pre.length + j) .bit = some
      ((if 0 = j then [.openBits w] else []) ++
        .setBit (pre.length + j) j :: (if j = n - 1 then [.closeBits w] else [])) := by
  rw [genWriteArgument, if_pos rfl, genWriteBits, hrun.getBitsNumber_eq hj, hrun.getBitsLength_eq hj, hsize]
  rfl

theorem genReadArgument_run (hrun : BitRun ds pre n post) (hsize : getBitfieldSize n = some w)
    (hj : j < n) : genReadArgument ds (pre.length + j) .bit = some
      ((if 0 = j then [.openBits w] else []) ++
        .getBit (pre.length + j) j :: (if j = n - 1 then [.closeBits] else [])) := by
  rw [genReadArgument, if_pos rfl, genReadBits, hrun.getBitsNumber_eq hj, hrun.getBitsLength_eq hj, hsize]
  rfl

theorem genGetLengthArgument_run (hrun : BitRun ds pre n post) (hsize : getBitfieldSize n = some w)
    (hj : j < n) : genGetLengthArgument ds (pre.length + j) .bit =
      some (if j = n - 1 then [.sizeof w.sizeof] else []) := by
  rw [genGetLengthArgument, hrun.getBitsNumber_eq hj, hrun.getBitsLength_eq hj, hsize]
  by_cases h : j = n - 1
  · rw [if_pos h, if_pos h]
    rfl
  · rw [if_neg h, if_neg h]
    rfl

/-- The scope after `j` bits of the run, with the word `b`: open inside the run only. -/
def scopeAt (bits : List Bool) (w : BitfieldSize) (j : Nat) (b : BitVec w.bits) : Option BitField :=
  if j = 0 ∨ j = bits.length then none else some ⟨w, b⟩

/-- One argument of the run: its bit goes into the word, and the last argument writes the word. -/
theorem runWrite_bit (hw : w.bits ≤ 32) (hle : bits.length ≤ w.bits) (hj : j < bits.length)
    (hx : x[pre.length + j]? = some (.bit bits[j])) :
    runWrite x ((if 0 = j then [.openBits w] else []) ++
        .setBit (pre.length + j) j :: (if j = bits.length - 1 then [.closeBits w] else []))
      (scopeAt bits w j (packed w.bits (bits.take j))) =
      .ok (scopeAt bits w (j + 1) (packed w.bits (bits.take (j + 1))),
        if j + 1 = bits.length then w.write (packed w.bits bits) else []) := by
  -- The scope is open with the bits so far when the bit is set.
  have hopen : runWrite x (if 0 = j then [.openBits w] else []) (scopeAt bits w j (packed w.bits (bits.take j))) =
      .ok (some ⟨w, packed w.bits (bits.take j)⟩, []) := by
    by_cases h0 : j = 0
    · rw [if_pos h0.symm, h0, List.take_zero, packed_nil]
      rfl
    · rw [if_neg (Ne.symm h0), scopeAt, if_neg (by omega)]
      rfl
  have hset : WriteStmt.exec x (.setBit (pre.length + j) j) (some ⟨w, packed w.bits (bits.take j)⟩) =
      .ok (some ⟨w, packed w.bits (bits.take (j + 1))⟩, []) := by
    rw [WriteStmt.exec, hx]
    simp only [setBit_packed hw hle hj]
  have hclose : runWrite x (.setBit (pre.length + j) j :: (if j = bits.length - 1 then [.closeBits w] else []))
      (some ⟨w, packed w.bits (bits.take j)⟩) =
      .ok (scopeAt bits w (j + 1) (packed w.bits (bits.take (j + 1))),
        if j + 1 = bits.length then w.write (packed w.bits bits) else []) := by
    rw [runWrite, hset]
    by_cases hlast : j + 1 = bits.length
    · rw [if_pos (by omega), if_pos hlast, scopeAt, if_pos (Or.inr hlast), hlast, List.take_length]
      change Except.ok (none, w.write ((packed w.bits bits).setWidth w.bits) ++ []) = _
      rw [BitVec.setWidth_eq, List.append_nil]
    · rw [if_neg (by omega), if_neg hlast, scopeAt, if_neg (by omega)]
      rfl
  have happend := runWrite_append hopen hclose
  rwa [List.nil_append] at happend

/-- The bytes a run takes, seen from its argument `j`: written by the last argument. -/
theorem exists_runWrite (hrun : BitRun ds pre bits.length post) (hsize : getBitfieldSize bits.length = some w)
    (hw : w.bits ≤ 32) (hle : bits.length ≤ w.bits)
    (hx : ∀ j (hj : j < bits.length), x[pre.length + j]? = some (.bit bits[j])) :
    ∀ k j, j + k = bits.length → ∃ sts,
      forArguments (genWriteArgument ds) (pre.length + j) (List.replicate k .bit) = some sts ∧
      runWrite x sts (scopeAt bits w j (packed w.bits (bits.take j))) =
        .ok (none, if k = 0 then [] else w.write (packed w.bits bits)) := by
  intro k
  induction k with
  | zero =>
    intro j hj
    refine ⟨[], rfl, ?_⟩
    rw [scopeAt, if_pos (Or.inr (show j = bits.length from hj))]
    rfl
  | succ k ih =>
    intro j hj
    obtain ⟨sts, hgen, hsts⟩ := ih (j + 1) (by omega)
    have hlt : j < bits.length := by omega
    refine ⟨_, forArguments_cons (genWriteArgument_run hrun hsize hlt) hgen, ?_⟩
    rw [runWrite_append (runWrite_bit hw hle hlt (hx j hlt)) hsts]
    by_cases hk : k = 0
    · rw [if_pos (by omega), if_pos hk, if_neg (by omega), List.append_nil]
    · rw [if_neg (by omega), if_neg hk, if_neg (by omega), List.nil_append]

/-- One argument of the run: the first reads the word, and each takes its bit out. -/
theorem reads_bit (hw : w.bits ≤ 32) (hle : bits.length ≤ w.bits) (hj : j < bits.length) (before post' : List Value)
    (old : Value) (hbefore : before.length = pre.length + j) :
    Reader.Reads (runRead ((if 0 = j then [.openBits w] else []) ++
        .getBit (pre.length + j) j :: (if j = bits.length - 1 then [.closeBits] else []))
      (scopeAt bits w j (packed w.bits bits), before ++ old :: post'))
      (if j = 0 then w.write (packed w.bits bits) else [])
      (scopeAt bits w (j + 1) (packed w.bits bits), before ++ .bit bits[j] :: post') := by
  have hopen : Reader.Reads (runRead (if 0 = j then [.openBits w] else [])
      (scopeAt bits w j (packed w.bits bits), before ++ old :: post'))
      (if j = 0 then w.write (packed w.bits bits) else []) (some ⟨w, packed w.bits bits⟩, before ++ old :: post') := by
    by_cases h0 : j = 0
    · rw [if_pos h0.symm, if_pos h0, ← List.append_nil (w.write _)]
      exact ((w.reads_read _).map _).bind (Reader.Reads.pure _)
    · rw [if_neg (Ne.symm h0), if_neg h0, scopeAt, if_neg (by omega)]
      exact Reader.Reads.pure _
  have hset : (before ++ old :: post').set (pre.length + j) (.bit bits[j]) = before ++ .bit bits[j] :: post' := by
    rw [← hbefore, List.set_append_right _ _ (Nat.le_refl _), Nat.sub_self]
    rfl
  have hget : ReadStmt.exec (.getBit (pre.length + j) j) (some ⟨w, packed w.bits bits⟩, before ++ old :: post') =
      pure (some ⟨w, packed w.bits bits⟩, before ++ .bit bits[j] :: post') := by
    rw [ReadStmt.exec]
    simp only [getBit_packed hw hle hj, hset]
  have hclose : Reader.Reads (runRead
      (.getBit (pre.length + j) j :: (if j = bits.length - 1 then [.closeBits] else []))
      (some ⟨w, packed w.bits bits⟩, before ++ old :: post')) []
      (scopeAt bits w (j + 1) (packed w.bits bits), before ++ .bit bits[j] :: post') := by
    rw [runRead, hget, pure_bind]
    by_cases hlast : j + 1 = bits.length
    · rw [if_pos (by omega), scopeAt, if_pos (Or.inr hlast)]
      exact Reader.Reads.pure _
    · rw [if_neg (by omega), scopeAt, if_neg (by omega)]
      exact Reader.Reads.pure _
  have happend := reads_runRead_append hopen hclose
  rwa [List.append_nil] at happend

/-- The bytes a run takes, seen from its argument `j`: read by the first argument. -/
theorem exists_runRead (hrun : BitRun ds pre bits.length post) (hsize : getBitfieldSize bits.length = some w)
    (hw : w.bits ≤ 32) (hle : bits.length ≤ w.bits) (hne : bits ≠ []) :
    ∀ k j, j + k = bits.length → ∃ sts,
      forArguments (genReadArgument ds) (pre.length + j) (List.replicate k .bit) = some sts ∧
      ∀ before old post' : List Value, before.length = pre.length + j → old.length = k →
        Reader.Reads (runRead sts (scopeAt bits w j (packed w.bits bits), before ++ (old ++ post')))
          (if j = 0 then w.write (packed w.bits bits) else [])
          (none, before ++ ((bits.drop j).map .bit ++ post')) := by
  intro k
  induction k with
  | zero =>
    intro j hj
    have hpos := List.length_pos_iff.mpr hne
    refine ⟨[], rfl, fun before old post' _ hold => ?_⟩
    obtain rfl := List.length_eq_zero_iff.mp hold
    rw [if_neg (by omega), scopeAt, if_pos (Or.inr (show j = bits.length from hj)), show j = bits.length from hj,
      List.drop_length]
    exact Reader.Reads.pure _
  | succ k ih =>
    intro j hj
    obtain ⟨sts, hgen, hsts⟩ := ih (j + 1) (by omega)
    have hlt : j < bits.length := by omega
    refine ⟨_, forArguments_cons (genReadArgument_run hrun hsize hlt) hgen, fun before old post' hbefore hold => ?_⟩
    obtain ⟨o, old, rfl⟩ := List.exists_cons_of_length_eq_add_one hold
    have hfirst := reads_bit hw hle hlt before (old ++ post') o hbefore
    have hrest := hsts (before ++ [.bit bits[j]]) old post' (by rw [List.length_append, hbefore]; rfl)
      (Nat.succ.inj hold)
    rw [if_neg (Nat.succ_ne_zero j), List.append_assoc, List.append_assoc] at hrest
    have happend := reads_runRead_append hfirst hrest
    rw [List.append_nil] at happend
    rw [List.drop_eq_getElem_cons hlt]
    exact happend

/-- The size of a run is counted once, at its last argument. -/
theorem exists_countAll (hrun : BitRun ds pre bits.length post) (hsize : getBitfieldSize bits.length = some w) :
    ∀ k j, j + k = bits.length → ∃ sts,
      forArguments (genGetLengthArgument ds) (pre.length + j) (List.replicate k .bit) = some sts ∧
      countAll x sts = if k = 0 then 0 else w.sizeof := by
  intro k
  induction k with
  | zero => exact fun j _ => ⟨[], rfl, rfl⟩
  | succ k ih =>
    intro j hj
    obtain ⟨sts, hgen, hsts⟩ := ih (j + 1) (by omega)
    have hlt : j < bits.length := by omega
    refine ⟨_, forArguments_cons (genGetLengthArgument_run hrun hsize hlt) hgen, ?_⟩
    rw [countAll] at hsts ⊢
    rw [List.map_append, List.sum_append, hsts, if_neg (Nat.succ_ne_zero k)]
    by_cases hk : k = 0
    · rw [if_pos (by omega), if_pos hk]
      rfl
    · rw [if_neg (by omega), if_neg hk]
      exact Nat.zero_add _

/-- A run of at most 32 bits. -/
theorem Codes.run (hrun : BitRun ds pre bits.length post) (hne : bits ≠ []) (hlen : bits.length ≤ 32)
    (hx : ∀ j (hj : j < bits.length), x[pre.length + j]? = some (.bit bits[j])) :
    ∃ bs, Codes ds x pre.length (bits.map .bit) bs := by
  obtain ⟨w, hsize, hle, hw⟩ := getBitfieldSize_of_le hlen
  have hdomains : (bits.map Value.bit).map Value.domain = List.replicate bits.length .bit := by
    rw [List.map_map]
    exact List.map_const'
  have hlen0 : bits.length ≠ 0 := Nat.pos_iff_ne_zero.mp (List.length_pos_iff.mpr hne)
  refine ⟨w.write (packed w.bits bits), ?_, ?_, ?_⟩
  · obtain ⟨sts, hgen, hsts⟩ := exists_runWrite hrun hsize hw hle hx bits.length 0 (Nat.zero_add _)
    rw [if_neg hlen0, scopeAt, if_pos (Or.inl rfl)] at hsts
    exact ⟨sts, by rwa [hdomains], hsts⟩
  · obtain ⟨sts, hgen, hsts⟩ := exists_countAll (x := x) hrun hsize bits.length 0 (Nat.zero_add _)
    rw [if_neg hlen0] at hsts
    exact ⟨sts, by rwa [hdomains], hsts.trans (w.length_write _).symm⟩
  · obtain ⟨sts, hgen, hsts⟩ := exists_runRead hrun hsize hw hle hne bits.length 0 (Nat.zero_add _)
    refine ⟨sts, by rwa [hdomains], fun before old post' hbefore hold _ => ?_⟩
    have hread := hsts before old post' hbefore (by rwa [List.length_map] at hold)
    rwa [if_pos rfl, scopeAt, if_pos (Or.inl rfl), List.drop_zero] at hread

end run

end Amqpp
