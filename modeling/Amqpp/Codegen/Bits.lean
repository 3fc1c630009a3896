import Mathlib.Data.List.Basic

/-!
# Bits

`set_bit` and `get_bit` of bitset.h, and how codegen.py finds the runs of consecutive bit arguments: `getBitsLength`,
`getBitsNumber` and `getBitfieldSize`.
-/

namespace Amqpp

/-- The types of arguments, with the domains of the specification resolved. -/
inductive Domain where
  | octet | short | long | longlong | timestamp | bit | shortstr | longstr | table
  deriving DecidableEq, Repr

/-! ## bitset.h -/

/-- `1 << position`, an `int`. The shift is undefined from 32 on. -/
def bitMask (position : Nat) : Option (BitVec 32) := if position < 32 then some (1#32 <<< position) else none

/-- `set_bit<T>`, `T` unsigned with `w` bits: the mask is sign-extended or truncated to `T`. -/
def setBit {w : Nat} (bitset : BitVec w) (val : Bool) (position : Nat) : Option (BitVec w) := do
  let mask ← bitMask position
  return if val then bitset ||| mask.signExtend w else bitset &&& (~~~mask).signExtend w

/-- `get_bit<T>`. -/
def getBit {w : Nat} (bitset : BitVec w) (position : Nat) : Option Bool := do
  let mask ← bitMask position
  return bitset &&& mask.signExtend w != 0

/-- The bits that the mask has in a word: its own and, in a word of more than 32 bits, the copies of the sign. -/
def Reaches (position i : Nat) : Prop := i = position ∨ position = 31 ∧ 32 ≤ i

instance (position i : Nat) : Decidable (Reaches position i) := inferInstanceAs (Decidable (_ ∨ _))

/-- No bit is reached from two positions. -/
theorem Reaches.unique {p q i : Nat} (hp : p < 32) (hq : q < 32) (h : Reaches p i) (h' : Reaches q i) : p = q := by
  rcases h with h | ⟨h, hi⟩
  · rcases h' with h' | ⟨_, hi⟩
    · exact h.symm.trans h'
    · omega
  · rcases h' with h' | ⟨h', _⟩
    · omega
    · exact h.trans h'.symm

theorem reaches_iff_of_lt {p i : Nat} (hi : i < 32) : Reaches p i ↔ i = p := by
  unfold Reaches
  omega

/-- A bit of the mask, extended to a word. -/
theorem getLsbD_signExtend_mask {w p i : Nat} (hp : p < 32) (hi : i < w) :
    ((1#32 <<< p).signExtend w).getLsbD i = decide (Reaches p i) := by
  rw [BitVec.getLsbD_signExtend, BitVec.msb_eq_getLsbD_last, BitVec.getLsbD_shiftLeft, BitVec.getLsbD_shiftLeft,
    BitVec.getLsbD_one, BitVec.getLsbD_one]
  rw [Bool.eq_iff_iff, decide_eq_true_iff]
  unfold Reaches
  by_cases h : i < 32
  · simp [h, hi]
    omega
  · simp [h, hi]
    omega

theorem getLsbD_signExtend_not_mask {w p i : Nat} (hp : p < 32) (hi : i < w) :
    ((~~~(1#32 <<< p)).signExtend w).getLsbD i = !decide (Reaches p i) := by
  rw [BitVec.signExtend_not (by decide), BitVec.getLsbD_not, getLsbD_signExtend_mask hp hi]
  simp [hi]

/-- `set_bit` sets the bits its mask reaches and leaves the others. -/
theorem setBit_reaches {w p : Nat} (hp : p < 32) (b : BitVec w) (v : Bool) :
    ∃ b', setBit b v p = some b' ∧ ∀ i < w, b'.getLsbD i = if Reaches p i then v else b.getLsbD i := by
  refine ⟨if v then b ||| (1#32 <<< p).signExtend w else b &&& (~~~(1#32 <<< p)).signExtend w, ?_, fun i hi => ?_⟩
  · rw [setBit, bitMask, if_pos hp]
    rfl
  · cases v
    · simp only [Bool.false_eq_true, if_false, BitVec.getLsbD_and, getLsbD_signExtend_not_mask hp hi]
      by_cases h : Reaches p i <;> simp [h]
    · simp only [if_true, BitVec.getLsbD_or, getLsbD_signExtend_mask hp hi]
      by_cases h : Reaches p i <;> simp [h]

/-- `get_bit` tells whether one of the bits its mask reaches is set. -/
theorem getBit_reaches {w p : Nat} (hp : p < 32) (b : BitVec w) :
    ∃ v, getBit b p = some v ∧ (v = true ↔ ∃ i < w, Reaches p i ∧ b.getLsbD i = true) := by
  refine ⟨b &&& (1#32 <<< p).signExtend w != 0, ?_, ?_⟩
  · rw [getBit, bitMask, if_pos hp]
    rfl
  · rw [bne_iff_ne, ne_eq]
    constructor
    · intro hne
      by_contra hnone
      refine hne (BitVec.eq_of_getLsbD_eq fun i hi => ?_)
      rw [BitVec.getLsbD_and, getLsbD_signExtend_mask hp hi]
      by_cases h : Reaches p i
      · simp [h, Bool.eq_false_iff.mpr fun hb => hnone ⟨i, hi, h, hb⟩]
      · simp [h]
    · rintro ⟨i, hi, h, hb⟩ heq
      have hbit := congrArg (fun x => x.getLsbD i) heq
      simp [getLsbD_signExtend_mask hp hi, hb, h] at hbit

/-- In a word of at most 32 bits, `set_bit` sets its bit and leaves the others. -/
theorem setBit_eq_some {w p : Nat} (hw : w ≤ 32) (hp : p < w) (b : BitVec w) (v : Bool) :
    ∃ b', setBit b v p = some b' ∧ ∀ i < w, b'.getLsbD i = if i = p then v else b.getLsbD i := by
  obtain ⟨b', hb', hbits⟩ := setBit_reaches (p := p) (by omega) b v
  refine ⟨b', hb', fun i hi => ?_⟩
  rw [hbits i hi, if_congr (reaches_iff_of_lt (by omega)) rfl rfl]

/-- In a word of at most 32 bits, `get_bit` returns the bit. -/
theorem getBit_eq_some {w p : Nat} (hw : w ≤ 32) (hp : p < w) (b : BitVec w) : getBit b p = some (b.getLsbD p) := by
  obtain ⟨v, hv, hbits⟩ := getBit_reaches (p := p) (by omega) b
  rw [hv]
  refine congrArg some (Bool.eq_iff_iff.mpr (hbits.trans ⟨?_, fun hb => ⟨p, hp, Or.inl rfl, hb⟩⟩))
  rintro ⟨i, hi, hreach, hb⟩
  rwa [(reaches_iff_of_lt (by omega)).mp hreach] at hb

/-- The shift is undefined from position 32 on. -/
theorem setBit_eq_none {w p : Nat} (hp : 32 ≤ p) (b : BitVec w) (v : Bool) : setBit b v p = none := by
  rw [setBit, bitMask, if_neg (by omega)]
  rfl

theorem getBit_eq_none {w p : Nat} (hp : 32 ≤ p) (b : BitVec w) : getBit b p = none := by
  rw [getBit, bitMask, if_neg (by omega)]
  rfl

/-! ## Runs of bit arguments -/

section runs

variable (arguments : List Domain)

/-- The first loop of `getBitsLength` and `getBitsNumber`: back to the start of the run. -/
def bitsStart : Nat → Nat
  | 0 => 0
  | start + 1 => if arguments[start]? = some .bit then bitsStart start else start + 1

/-- The second loop of `getBitsLength`, with `k` arguments to go: on to the end of the run. -/
def bitsEnd : Nat → Nat → Nat
  | 0, stop => stop
  | k + 1, stop => if arguments[stop]? = some .bit then bitsEnd k (stop + 1) else stop

/-- `getBitsLength`. -/
def getBitsLength (index : Nat) : Nat :=
  bitsEnd arguments (arguments.length - index) index - bitsStart arguments index

/-- `getBitsNumber`. -/
def getBitsNumber (index : Nat) : Nat := index - bitsStart arguments index

/-- The widths `getBitfieldSize` chooses from. -/
inductive BitfieldSize where
  | w8 | w16 | w32 | w64
  deriving DecidableEq, Repr

/-- The number of bits. -/
def BitfieldSize.bits : BitfieldSize → Nat
  | w8 => 8
  | w16 => 16
  | w32 => 32
  | w64 => 64

/-- `getBitfieldSize`. It raises an exception for runs of more than 64 bits. -/
def getBitfieldSize (length : Nat) : Option BitfieldSize :=
  if length ≤ 8 then some .w8
  else if length ≤ 16 then some .w16
  else if length ≤ 32 then some .w32
  else if length ≤ 64 then some .w64
  else none

/-- A run of at most 32 bits goes into a word of at most 32 bits that holds it. -/
theorem getBitfieldSize_of_le {n : Nat} (h : n ≤ 32) :
    ∃ w, getBitfieldSize n = some w ∧ n ≤ w.bits ∧ w.bits ≤ 32 := by
  unfold getBitfieldSize
  by_cases h₈ : n ≤ 8
  · exact ⟨.w8, if_pos h₈, h₈, by decide⟩
  · by_cases h₁₆ : n ≤ 16
    · exact ⟨.w16, by rw [if_neg h₈, if_pos h₁₆], h₁₆, by decide⟩
    · exact ⟨.w32, by rw [if_neg h₈, if_neg h₁₆, if_pos h], h, Nat.le_refl _⟩

end runs

/-- No run of consecutive bit arguments is longer than `k`. -/
def BitRunsLe (k : Nat) (ds : List Domain) : Prop := ∀ n, List.replicate n Domain.bit <:+: ds → n ≤ k

/-- A run of bits is no longer than the arguments. -/
theorem bitRunsLe_of_length {k : Nat} {ds : List Domain} (h : ds.length ≤ k) : BitRunsLe k ds := by
  intro n hn
  have hle := hn.length_le
  rw [List.length_replicate] at hle
  omega

/-- The arguments are `pre`, a maximal run of `n` bits, and `post`. -/
structure BitRun (arguments pre : List Domain) (n : Nat) (post : List Domain) : Prop where
  eq : arguments = pre ++ (List.replicate n .bit ++ post)
  before : pre.getLast? ≠ some .bit
  after : post.head? ≠ some .bit

namespace BitRun

variable {arguments pre post : List Domain} {n : Nat}

/-- The arguments of the run are bits. -/
theorem getElem?_run (h : BitRun arguments pre n post) {j : Nat} (hj : j < n) :
    arguments[pre.length + j]? = some .bit := by
  rw [h.eq, List.getElem?_append_right (by omega), Nat.add_sub_cancel_left,
    List.getElem?_append_left (by rw [List.length_replicate]; exact hj)]
  simp [hj]

/-- The argument behind the run is not a bit. -/
theorem getElem?_after (h : BitRun arguments pre n post) : arguments[pre.length + n]? ≠ some .bit := by
  rw [h.eq, List.getElem?_append_right (by omega), Nat.add_sub_cancel_left,
    List.getElem?_append_right (Nat.le_of_eq List.length_replicate), List.length_replicate, Nat.sub_self,
    ← List.head?_eq_getElem?]
  exact h.after

/-- The scan back stops at the start of the run. -/
theorem bitsStart_eq (h : BitRun arguments pre n post) (j : Nat) (hj : j ≤ n) :
    bitsStart arguments (pre.length + j) = pre.length := by
  induction j with
  | zero =>
    rcases List.eq_nil_or_concat pre with hnil | ⟨l, d, hpre⟩
    · rw [hnil]
      rfl
    · have hlast : arguments[l.length]? = some d := by
        rw [h.eq, hpre, List.getElem?_append_left (by simp)]
        simp
      have hd : d ≠ .bit := by
        intro hd
        exact h.before (by rw [hpre, hd]; simp)
      have hlen : pre.length + 0 = l.length + 1 := by simp [hpre]
      rw [hlen, bitsStart, hlast, if_neg (by simp [hd])]
      simp [hpre]
  | succ j ih =>
    rw [← Nat.add_assoc, bitsStart, if_pos (h.getElem?_run (by omega)), ih (by omega)]

/-- The scan on stops behind the run. -/
theorem bitsEnd_eq (h : BitRun arguments pre n post) (j k : Nat) (hj : j ≤ n) (hk : n - j ≤ k) :
    bitsEnd arguments k (pre.length + j) = pre.length + n := by
  induction k generalizing j with
  | zero =>
    have hjn : j = n := by omega
    rw [hjn]
    rfl
  | succ k ih =>
    rw [bitsEnd]
    by_cases hlt : j < n
    · rw [if_pos (h.getElem?_run hlt), Nat.add_assoc, ih (j + 1) (by omega) (by omega)]
    · have hjn : j = n := by omega
      rw [hjn, if_neg h.getElem?_after]

/-- Inside a run, `getBitsNumber` is the offset and `getBitsLength` the length of the run. -/
theorem getBitsNumber_eq (h : BitRun arguments pre n post) {j : Nat} (hj : j < n) :
    getBitsNumber arguments (pre.length + j) = j := by
  rw [getBitsNumber, h.bitsStart_eq j (by omega)]
  omega

theorem getBitsLength_eq (h : BitRun arguments pre n post) {j : Nat} (hj : j < n) :
    getBitsLength arguments (pre.length + j) = n := by
  have hlen : n - j ≤ arguments.length - (pre.length + j) := by
    rw [h.eq, List.length_append, List.length_append, List.length_replicate]
    omega
  rw [getBitsLength, h.bitsStart_eq j (by omega), h.bitsEnd_eq j _ (by omega) hlen]
  omega

end BitRun

end Amqpp
