import Amqpp.Codegen.Blocks

/-!
# Packing runs of bits

The mask of `set_bit` and `get_bit` is an `int` for every word. Runs of up to 32 bits survive; from 33 on, which
`getBitfieldSize` accepts up to 64, the shift is undefined. In a word of 64 bits the mask of position 31 reaches all higher
bits, but no other position below 32 looks at them. The same bound holds for the statements that codegen.py emits for a method
of bits.
-/

namespace Amqpp

/-- `bits = set_bit(bits, m_x, position)` for each bit of a run, from position `j` on. -/
def packBits {w : Nat} : Nat → List Bool → BitVec w → Option (BitVec w)
  | _, [], word => some word
  | j, v :: vs, word => do packBits (j + 1) vs (← setBit word v j)

/-- The bits are packed into a word of zeros, of the width chosen for them; the word is written and read; and each bit is
found in it. -/
def SurvivesPacking (bits : List Bool) : Prop :=
  ∃ w word back, getBitfieldSize bits.length = some w ∧ packBits 0 bits (0 : BitVec w.bits) = some word ∧
    Reader.Reads w.read (w.write word) back ∧ ∀ i (h : i < bits.length), getBit back i = some bits[i]

/-- All shifts are defined, and the bit at `q` after `set_bit` at `p` is the one that was set, or the one that was there. -/
def SetThenGet {w : Nat} (word : BitVec w) (v : Bool) (p q : Nat) : Prop :=
  ∃ word' old, setBit word v p = some word' ∧ getBit word q = some old ∧ getBit word' q = some (if p = q then v else old)

/-- What is generated for a method whose arguments are the bits: `write` puts them into bytes, and `read` finds them there,
whatever the members were before. -/
def SurvivesMethod (bits : List Bool) : Prop :=
  ∃ write read bytes, genWriteFunction (List.replicate bits.length .bit) = some write ∧
    genReadFunction (List.replicate bits.length .bit) = some read ∧
    runWrite (bits.map .bit) write none = .ok (none, bytes) ∧
    ∀ old : List Value, old.length = bits.length → Reader.Reads (runRead read (none, old)) bytes (none, bits.map .bit)

namespace BitPackingAux

/-- The scope with the packed word, if all shifts were defined. -/
def scopeOf {w : BitfieldSize} : Option (BitVec w.bits) → Except Exception (Option BitField × List UInt8)
  | some word => .ok (some ⟨w, word⟩, [])
  | none => .error .stuck

/-- The statements of a generated `write` for the bits of a run do what `packBits` does with the word of the scope. -/
theorem runWrite_setBits {x : List Value} {w : BitfieldSize} {base : Nat} (bits : List Bool) (j : Nat) (word : BitVec w.bits)
    (hx : ∀ i (h : i < bits.length), x[base + (j + i)]? = some (.bit bits[i])) :
    runWrite x ((List.range' j bits.length).map fun i => .setBit (base + i) i) (some ⟨w, word⟩) =
      scopeOf (packBits j bits word) := by
  induction bits generalizing j word with
  | nil => rfl
  | cons v vs ih =>
    have hv : x[base + j]? = some (.bit v) := hx 0 (Nat.succ_pos _)
    have hvs : ∀ i (h : i < vs.length), x[base + (j + 1 + i)]? = some (.bit vs[i]) := by
      intro i h
      have hnext := hx (i + 1) (Nat.succ_lt_succ h)
      rwa [show j + (i + 1) = j + 1 + i by omega] at hnext
    rw [List.length_cons, List.range'_succ, List.map_cons, runWrite, WriteStmt.exec, hv, packBits]
    cases hset : setBit word v j with
    | none => simp [hset, scopeOf, bind, Except.bind]
    | some word' =>
      have htail := ih (j + 1) word' hvs
      cases hpack : packBits (j + 1) vs word' <;> simp [hset, htail, hpack, scopeOf, bind, Except.bind, pure, Except.pure]

/-- In a word of at most 32 bits, the bits are packed one by one. -/
theorem packBits_drop {w : Nat} {bits : List Bool} (hw : w ≤ 32) (hle : bits.length ≤ w) (k j : Nat) (hk : j + k = bits.length) :
    packBits j (bits.drop j) (packed w (bits.take j)) = some (packed w bits) := by
  induction k generalizing j with
  | zero =>
    obtain rfl : j = bits.length := hk
    rw [List.drop_length, List.take_length]
    rfl
  | succ k ih =>
    have hj : j < bits.length := by omega
    rw [List.drop_eq_getElem_cons hj, packBits, setBit_packed hw hle hj]
    exact ih (j + 1) (by omega)

/-- Past position 31, the first bit is shifted out of the `int`. -/
theorem packBits_eq_none {w : Nat} {bits : List Bool} {j : Nat} (h : 32 < j + bits.length) (hne : bits ≠ []) (word : BitVec w) :
    packBits j bits word = none := by
  induction bits generalizing j word with
  | nil => exact absurd rfl hne
  | cons v vs ih =>
    rw [List.length_cons] at h
    rw [packBits]
    by_cases hj : 32 ≤ j
    · rw [setBit_eq_none hj]
      rfl
    · obtain ⟨word', hset, -⟩ := setBit_reaches (Nat.lt_of_not_le hj) word v
      rw [hset]
      exact ih (by omega) (by rintro rfl; rw [List.length_nil] at h; omega) word'

/-- Runs of at most 32 bits survive, longer ones do not. -/
theorem survivesPacking_iff (bits : List Bool) : SurvivesPacking bits ↔ bits.length ≤ 32 := by
  constructor
  · rintro ⟨w, word, back, -, hpack, -⟩
    by_contra hlong
    rw [packBits_eq_none (by omega) (by rintro rfl; exact hlong (Nat.zero_le _))] at hpack
    cases hpack
  · intro hlen
    obtain ⟨w, hsize, hle, hw⟩ := getBitfieldSize_of_le hlen
    have hpack := packBits_drop hw hle bits.length 0 (Nat.zero_add _)
    rw [List.drop_zero, List.take_zero, packed_nil] at hpack
    exact ⟨w, packed w.bits bits, packed w.bits bits, hsize, hpack, w.reads_read _, fun i hi => getBit_packed hw hle hi⟩

/-- Below position 32, `set_bit` and `get_bit` fit together in every word: two positions reach no bit in common. -/
theorem setThenGet_of_lt {w p q : Nat} (hpw : p < w) (hp : p < 32) (hq : q < 32) (word : BitVec w) (v : Bool) :
    SetThenGet word v p q := by
  obtain ⟨word', hset, hbits⟩ := setBit_reaches hp word v
  obtain ⟨old, hold, holdIff⟩ := getBit_reaches hq word
  obtain ⟨new, hnew, hnewIff⟩ := getBit_reaches hq word'
  refine ⟨word', old, hset, hold, hnew.trans (congrArg some (Bool.eq_iff_iff.mpr (hnewIff.trans ?_)))⟩
  by_cases hpq : p = q
  · subst hpq
    rw [if_pos rfl]
    constructor
    · rintro ⟨i, hi, hreach, hb⟩
      rwa [hbits i hi, if_pos hreach] at hb
    · intro hv
      refine ⟨p, hpw, Or.inl rfl, ?_⟩
      rwa [hbits p hpw, if_pos (show Reaches p p from Or.inl rfl)]
  · rw [if_neg hpq, holdIff]
    have hother : ∀ i < w, Reaches q i → word'.getLsbD i = word.getLsbD i := by
      intro i hi hreach
      rw [hbits i hi, if_neg fun hreach' => hpq (hreach'.unique hp hq hreach)]
    constructor
    · rintro ⟨i, hi, hreach, hb⟩
      exact ⟨i, hi, hreach, (hother i hi hreach).symm.trans hb⟩
    · rintro ⟨i, hi, hreach, hb⟩
      exact ⟨i, hi, hreach, (hother i hi hreach).trans hb⟩

/-- Both shifts have to be defined. -/
theorem setThenGet_iff {w p q : Nat} (hpw : p < w) (word : BitVec w) (v : Bool) : SetThenGet word v p q ↔ p < 32 ∧ q < 32 := by
  refine ⟨?_, fun h => setThenGet_of_lt hpw h.1 h.2 word v⟩
  rintro ⟨word', old, hset, hold, -⟩
  constructor
  · by_contra hp
    rw [setBit_eq_none (by omega)] at hset
    cases hset
  · by_contra hq
    rw [getBit_eq_none (by omega)] at hold
    cases hold

/-- The arguments of a method of bits are one run. -/
theorem bitRun_replicate (n : Nat) : BitRun (List.replicate n .bit) [] n [] where
  eq := by rw [List.append_nil, List.nil_append]
  before h := by cases h
  after h := by cases h

/-- What fails, fails whatever comes after it. -/
theorem runWrite_append_of_error {x : List Value} {s t : List WriteStmt} {scope : Option BitField} {e : Exception}
    (h : runWrite x s scope = .error e) : runWrite x (s ++ t) scope = .error e := by
  induction s generalizing scope with
  | nil => cases h
  | cons st s ih =>
    rw [List.cons_append, runWrite]
    rw [runWrite] at h
    cases hst : st.exec x scope with
    | error e' =>
      rw [hst] at h
      exact h
    | ok a =>
      rw [hst] at h
      change (runWrite x s a.1 >>= _) = _ at h
      change (runWrite x (s ++ t) a.1 >>= _) = _
      cases hs : runWrite x s a.1 with
      | error e' =>
        rw [hs] at h
        obtain rfl := Except.error.inj h
        rw [ih hs]
        rfl
      | ok b =>
        rw [hs] at h
        cases h

/-- The generated `write` is only there for a run that `getBitfieldSize` accepts. -/
theorem size_of_genWrite {n : Nat} {write : List WriteStmt}
    (h : genWriteFunction (List.replicate (n + 1) .bit) = some write) : ∃ w, getBitfieldSize (n + 1) = some w := by
  rw [genWriteFunction, List.replicate_succ, forArguments, genWriteArgument, if_pos rfl, genWriteBits,
    ← List.replicate_succ] at h
  obtain ⟨s, hs, -⟩ := Option.bind_eq_some_iff.mp h
  obtain ⟨w, hw, -⟩ := Option.bind_eq_some_iff.mp hs
  rw [show getBitsLength (List.replicate (n + 1) .bit) 0 = n + 1 from
    (bitRun_replicate (n + 1)).getBitsLength_eq (Nat.succ_pos n)] at hw
  exact ⟨w, hw⟩

/-- A run that is too long gets stuck in `write`. -/
theorem length_le_of_survivesMethod {bits : List Bool} (h : SurvivesMethod bits) : bits.length ≤ 32 := by
  obtain ⟨write, read, bytes, hgen, -, hwrite, -⟩ := h
  by_contra hlong
  obtain ⟨n, hn⟩ : ∃ n, bits.length = n + 1 := ⟨bits.length - 1, by omega⟩
  have hne : bits ≠ [] := by
    rintro rfl
    cases hn
  rw [hn] at hgen
  obtain ⟨w, hsize⟩ := size_of_genWrite hgen
  have hall := genWriteArgument_block (bitRun_replicate (n + 1)) (Nat.succ_pos n) hsize
  obtain rfl := Option.some.inj (hgen.symm.trans hall)
  have hx : ∀ i (hi : i < bits.length), (bits.map Value.bit)[0 + (0 + i)]? = some (.bit bits[i]) := by
    intro i hi
    simp [hi]
  have hsets := runWrite_setBits (w := w) bits 0 0 hx
  rw [packBits_eq_none (by omega) hne, hn, ← List.range_eq_range'] at hsets
  -- The scope is opened, and the shift past the end of the mask ends the statements that follow.
  have hwrite : runWrite (bits.map .bit) (((List.range (n + 1)).map fun i => .setBit (0 + i) i) ++ [.closeBits w])
      (some ⟨w, 0⟩) >>= (fun r => pure (r.1, [] ++ r.2)) = .ok (none, bytes) := hwrite
  rw [runWrite_append_of_error hsets] at hwrite
  cases hwrite

/-- A run of at most 32 bits is written and read. -/
theorem survivesMethod_of_le {bits : List Bool} (h : bits.length ≤ 32) : SurvivesMethod bits := by
  obtain ⟨w, hsize, hle, hw⟩ := getBitfieldSize_of_le h
  have hrun := bitRun_replicate bits.length
  have hx : ∀ j (hj : j < bits.length), (bits.map Value.bit)[([] : List Domain).length + j]? = some (.bit bits[j]) := by
    intro j hj
    simp [hj]
  by_cases hne : bits = []
  · subst hne
    refine ⟨[], [], [], rfl, rfl, rfl, fun old hold => ?_⟩
    obtain rfl := List.length_eq_zero_iff.mp hold
    exact Reader.Reads.pure _
  · obtain ⟨write, hgenWrite, hwrite⟩ := exists_runWrite hrun hsize hw hle hx bits.length 0 (Nat.zero_add _)
    obtain ⟨read, hgenRead, hread⟩ := exists_runRead hrun hsize hw hle hne bits.length 0 (Nat.zero_add _)
    rw [scopeAt, if_pos (Or.inl rfl), if_neg (by simpa using hne)] at hwrite
    refine ⟨write, read, _, hgenWrite, hgenRead, hwrite, fun old hold => ?_⟩
    have hold := hread [] old [] rfl hold
    rwa [scopeAt, if_pos (Or.inl rfl), if_pos rfl, List.drop_zero, List.nil_append, List.append_nil, List.nil_append,
      List.append_nil] at hold

end BitPackingAux

open BitPackingAux

/-- The runs of at most 32 bits survive packing, and no others, in the packing itself and in the `write` and `read` that are
generated for them; and setting a bit of a word and getting a bit of it fit together exactly when both positions are below
32. -/
theorem bit_packing_iff (bits : List Bool) (w : BitfieldSize) (word : BitVec w.bits) (v : Bool) (p q : Nat) (hp : p < w.bits) :
    (SurvivesPacking bits ↔ bits.length ≤ 32) ∧ (SurvivesMethod bits ↔ bits.length ≤ 32) ∧
      (SetThenGet word v p q ↔ p < 32 ∧ q < 32) :=
  ⟨survivesPacking_iff bits, ⟨length_le_of_survivesMethod, survivesMethod_of_le⟩, setThenGet_iff hp word v⟩

/-- A run of two bits, and two positions of a word of 64 bits. -/
theorem two_bits_survive :
    (SurvivesPacking [true, false] ↔ 2 ≤ 32) ∧ (SurvivesMethod [true, false] ↔ 2 ≤ 32) ∧
      (SetThenGet (0 : BitVec BitfieldSize.w64.bits) true 31 30 ↔ 31 < 32 ∧ 30 < 32) :=
  bit_packing_iff [true, false] .w64 0 true 31 30 (by decide)

/-- A run of 33 bits is accepted and does not survive, and position 32 of a word of 64 bits cannot be set. -/
theorem bits_past_32_undefined :
    getBitfieldSize (List.replicate 33 true).length = some .w64 ∧ ¬SurvivesPacking (List.replicate 33 true) ∧
      ¬SetThenGet (0 : BitVec BitfieldSize.w64.bits) true 32 0 := by
  refine ⟨rfl, fun h => ?_, fun h => ?_⟩
  · exact absurd ((survivesPacking_iff _).mp h) (by decide)
  · exact absurd ((setThenGet_iff (by decide) _ _).mp h).1 (by decide)

end Amqpp
