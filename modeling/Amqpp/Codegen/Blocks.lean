import Amqpp.Codegen.BitRun

/-!
# Blocks of arguments

An argument list falls into blocks: arguments that are not bits, and whole runs of bits. The three generators look at one
argument at a time and scan from it in both directions; `Blocks.gen` says that together they emit one group of statements
for each block, a run in one scope.
-/

namespace Amqpp

/-! ## Runs -/

namespace BitRun

variable {arguments pre pre' post post' : List Domain} {n n' i : Nat}

/-- The bits at the head of a list, and what follows them. -/
theorem exists_leading (ds : List Domain) :
    ∃ n post, ds = List.replicate n Domain.bit ++ post ∧ post.head? ≠ some .bit := by
  induction ds with
  | nil => exact ⟨0, [], rfl, by simp⟩
  | cons d ds ih =>
    by_cases hd : d = .bit
    · obtain ⟨n, post, rfl, hpost⟩ := ih
      exact ⟨n + 1, post, by rw [hd, List.replicate_succ, List.cons_append], hpost⟩
    · exact ⟨0, d :: ds, rfl, by simpa using hd⟩

/-- The bits at the end of a list, and what precedes them. -/
theorem exists_trailing (ds : List Domain) :
    ∃ pre n, ds = pre ++ List.replicate n Domain.bit ∧ pre.getLast? ≠ some .bit := by
  obtain ⟨n, post, hds, hpost⟩ := exists_leading ds.reverse
  refine ⟨post.reverse, n, ?_, by rwa [List.getLast?_reverse]⟩
  rw [← List.reverse_reverse ds, hds, List.reverse_append, List.reverse_replicate]

/-- Every bit argument is in a maximal run. -/
theorem exists_of_getElem? (h : arguments[i]? = some .bit) :
    ∃ pre n post, BitRun arguments pre n post ∧ pre.length ≤ i ∧ i < pre.length + n := by
  obtain ⟨hi, hbit⟩ := List.getElem?_eq_some_iff.mp h
  obtain ⟨pre, k, hpre, hbefore⟩ := exists_trailing (arguments.take i)
  obtain ⟨m, post, hpost, hafter⟩ := exists_leading (arguments.drop (i + 1))
  have hlen : i = pre.length + k := by
    have htake := congrArg List.length hpre
    rw [List.length_take_of_le (Nat.le_of_lt hi), List.length_append, List.length_replicate] at htake
    exact htake
  have heq : arguments = pre ++ (List.replicate (k + (m + 1)) .bit ++ post) := by
    have hsplit : arguments = arguments.take i ++ .bit :: arguments.drop (i + 1) := by
      rw [← hbit, ← List.drop_eq_getElem_cons hi, List.take_append_drop]
    rw [hpre, hpost] at hsplit
    rw [hsplit, List.replicate_add, List.replicate_succ]
    simp only [List.append_assoc, List.cons_append]
  exact ⟨pre, k + (m + 1), post, ⟨heq, hbefore, hafter⟩, by omega, by omega⟩

/-- There is one maximal run around an argument. -/
theorem unique (h : BitRun arguments pre n post) (h' : BitRun arguments pre' n' post') (hle : pre.length ≤ i)
    (hlt : i < pre.length + n) (hle' : pre'.length ≤ i) (hlt' : i < pre'.length + n') :
    pre = pre' ∧ n = n' ∧ post = post' := by
  have hi : i = pre.length + (i - pre.length) := by omega
  have hi' : i = pre'.length + (i - pre'.length) := by omega
  have hnumber : i - pre.length = i - pre'.length := by
    rw [← h.getBitsNumber_eq (show i - pre.length < n by omega), ← hi,
      ← h'.getBitsNumber_eq (show i - pre'.length < n' by omega), ← hi']
  have hn : n = n' := by
    rw [← h.getBitsLength_eq (show i - pre.length < n by omega), ← hi,
      ← h'.getBitsLength_eq (show i - pre'.length < n' by omega), ← hi']
  have heq := h.eq.symm.trans h'.eq
  obtain ⟨hpre, hrest⟩ := List.append_inj heq (by omega)
  rw [hn] at hrest
  exact ⟨hpre, hn, List.append_cancel_left hrest⟩

end BitRun

/-- A run of at most 64 bits goes into a word that holds it. -/
theorem getBitfieldSize_of_le_64 {n : Nat} (h : n ≤ 64) : ∃ w, getBitfieldSize n = some w := by
  by_cases h₃₂ : n ≤ 32
  · obtain ⟨w, hw, -⟩ := getBitfieldSize_of_le h₃₂
    exact ⟨w, hw⟩
  · exact ⟨.w64, by rw [getBitfieldSize, if_neg (by omega), if_neg (by omega), if_neg h₃₂, if_pos h]⟩

theorem le_bits_of_getBitfieldSize {n : Nat} {w : BitfieldSize} (h : getBitfieldSize n = some w) : n ≤ w.bits := by
  unfold getBitfieldSize at h
  split at h
  · cases h
    assumption
  · split at h
    · cases h
      assumption
    · split at h
      · cases h
        assumption
      · split at h
        · cases h
          assumption
        · cases h

/-! ## Blocks -/

/-- An argument that is not a bit, or a run of `n` bits in a word of size `w`. -/
inductive Block where
  | argument (index : Nat) (domain : Domain)
  | run (start n : Nat) (w : BitfieldSize)
  deriving DecidableEq, Repr

namespace Block

/-- The index of the first argument. -/
def first : Block → Nat
  | argument index _ => index
  | run start _ _ => start

/-- The number of arguments. -/
def size : Block → Nat
  | argument _ _ => 1
  | run _ n _ => n

/-- The arguments with their indices. -/
def arguments : Block → List (Domain × Nat)
  | argument index domain => [(domain, index)]
  | run start n _ => (List.range' start n).map fun i => (.bit, i)

/-- A run is read in one scope: the word, the bits from position 0 on, and the closing brace. -/
def reads : Block → List ReadStmt
  | argument index domain => [.read index domain]
  | run start n w => .openBits w :: ((List.range n).map fun j => .getBit (start + j) j) ++ [.closeBits]

/-- A run is written in one scope. -/
def writes : Block → List WriteStmt
  | argument index _ => [.write index]
  | run start n w => .openBits w :: ((List.range n).map fun j => .setBit (start + j) j) ++ [.closeBits w]

/-- A run has one term in the size. -/
def sizes : Block → List SizeStmt
  | argument index .shortstr => [.shortstr index]
  | argument index .longstr => [.longstr index]
  | argument index .table => [.table index]
  | argument _ .octet => [.sizeof 1]
  | argument _ .short => [.sizeof 2]
  | argument _ .long => [.sizeof 4]
  | argument _ .longlong => [.sizeof 8]
  | argument _ .timestamp => [.sizeof 8]
  | argument _ .bit => []
  | run _ _ w => [.sizeof w.sizeof]

end Block

/-- `Blocks ds index rest bs`: from `index` on, the rest of the arguments falls into these blocks. -/
inductive Blocks (ds : List Domain) : Nat → List Domain → List Block → Prop where
  | nil (index : Nat) : Blocks ds index [] []
  | argument {index : Nat} {d : Domain} {rest : List Domain} {bs : List Block} (hd : d ≠ .bit)
      (h : Blocks ds (index + 1) rest bs) : Blocks ds index (d :: rest) (.argument index d :: bs)
  | run {pre post : List Domain} {n : Nat} {w : BitfieldSize} {bs : List Block} (hrun : BitRun ds pre n post) (hn : 0 < n)
      (hsize : getBitfieldSize n = some w) (h : Blocks ds (pre.length + n) post bs) :
      Blocks ds pre.length (List.replicate n .bit ++ post) (.run pre.length n w :: bs)

/-! ## What is emitted for a run -/

section emit

variable {σ : Type}

/-- What is emitted for the arguments of a run, one after the other. -/
theorem forArguments_replicate {emit : Nat → Domain → Option (List σ)} {start n : Nat} {s : Nat → List σ}
    (h : ∀ j < n, emit (start + j) .bit = some (s j)) :
    ∀ k j, j + k = n → forArguments emit (start + j) (List.replicate k .bit) = some ((List.range' j k).flatMap s) := by
  intro k
  induction k with
  | zero => exact fun _ _ => rfl
  | succ k ih =>
    intro j hj
    rw [List.replicate_succ, List.range'_succ, List.flatMap_cons]
    exact forArguments_cons (h j (by omega)) (ih (j + 1) (by omega))

/-- A run whose first argument opens a scope and whose last closes it: one scope around what the arguments emit. -/
theorem flatMap_scope (opening closing : σ) (s : Nat → σ) {n : Nat} :
    ∀ k j, j + (k + 1) = n →
      (List.range' j (k + 1)).flatMap (fun j => (if 0 = j then [opening] else []) ++
        s j :: (if j = n - 1 then [closing] else [])) =
      (if 0 = j then [opening] else []) ++ ((List.range' j (k + 1)).map s ++ [closing]) := by
  intro k
  induction k with
  | zero =>
    intro j hj
    rw [List.range'_one, List.flatMap_singleton, List.map_singleton, if_pos (show j = n - 1 by omega)]
    rfl
  | succ k ih =>
    intro j hj
    rw [List.range'_succ, List.flatMap_cons, ih (j + 1) (by omega), if_neg (show ¬j = n - 1 by omega),
      if_neg (show ¬0 = j + 1 by omega), List.map_cons, List.append_assoc]
    rfl

/-- A run whose last argument alone emits something. -/
theorem flatMap_last (closing : σ) {n : Nat} :
    ∀ k j, j + (k + 1) = n →
      (List.range' j (k + 1)).flatMap (fun j => if j = n - 1 then [closing] else []) = [closing] := by
  intro k
  induction k with
  | zero =>
    intro j hj
    rw [List.range'_one, List.flatMap_singleton, if_pos (show j = n - 1 by omega)]
  | succ k ih =>
    intro j hj
    rw [List.range'_succ, List.flatMap_cons, ih (j + 1) (by omega), if_neg (show ¬j = n - 1 by omega), List.nil_append]

end emit

section gen

variable {ds pre post : List Domain} {n : Nat} {w : BitfieldSize}

theorem genReadArgument_block (hrun : BitRun ds pre n post) (hn : 0 < n) (hsize : getBitfieldSize n = some w) :
    forArguments (genReadArgument ds) pre.length (List.replicate n .bit) = some (Block.run pre.length n w).reads := by
  obtain ⟨k, rfl⟩ := Nat.exists_eq_add_of_lt hn
  have hemit := forArguments_replicate (fun j hj => genReadArgument_run hrun hsize hj) (0 + k + 1) 0 (by omega)
  rw [flatMap_scope _ _ _ _ _ (by omega)] at hemit
  rw [Block.reads, List.range_eq_range']
  exact hemit

theorem genWriteArgument_block (hrun : BitRun ds pre n post) (hn : 0 < n) (hsize : getBitfieldSize n = some w) :
    forArguments (genWriteArgument ds) pre.length (List.replicate n .bit) = some (Block.run pre.length n w).writes := by
  obtain ⟨k, rfl⟩ := Nat.exists_eq_add_of_lt hn
  have hemit := forArguments_replicate (fun j hj => genWriteArgument_run hrun hsize hj) (0 + k + 1) 0 (by omega)
  rw [flatMap_scope _ _ _ _ _ (by omega)] at hemit
  rw [Block.writes, List.range_eq_range']
  exact hemit

theorem genGetLengthArgument_block (hrun : BitRun ds pre n post) (hn : 0 < n) (hsize : getBitfieldSize n = some w) :
    forArguments (genGetLengthArgument ds) pre.length (List.replicate n .bit) = some (Block.run pre.length n w).sizes := by
  obtain ⟨k, rfl⟩ := Nat.exists_eq_add_of_lt hn
  have hemit := forArguments_replicate (fun j hj => genGetLengthArgument_run hrun hsize hj) (0 + k + 1) 0 (by omega)
  rw [flatMap_last _ _ _ (by omega)] at hemit
  exact hemit

end gen

/-! ## What is emitted for all the arguments -/

namespace Blocks

variable {ds rest : List Domain} {index : Nat} {bs : List Block}

/-- Statements for all blocks, when each of a generator's statements for an argument or a run are those of the block. -/
theorem gen {σ : Type} {emit : Nat → Domain → Option (List σ)} {block : Block → List σ}
    (hargument : ∀ index d, d ≠ .bit → emit index d = some (block (.argument index d)))
    (hrun : ∀ pre n post w, BitRun ds pre n post → 0 < n → getBitfieldSize n = some w →
      forArguments emit pre.length (List.replicate n .bit) = some (block (.run pre.length n w)))
    (h : Blocks ds index rest bs) : forArguments emit index rest = some (bs.flatMap block) := by
  induction h with
  | nil => rfl
  | argument hd _ ih => exact forArguments_cons (hargument _ _ hd) ih
  | run hbits hn hsize _ ih =>
    exact forArguments_append (hrun _ _ _ _ hbits hn hsize) (by rwa [List.length_replicate])

theorem genRead (h : Blocks ds index rest bs) :
    forArguments (genReadArgument ds) index rest = some (bs.flatMap Block.reads) :=
  h.gen (fun _ _ hd => if_neg hd) fun _ _ _ _ => genReadArgument_block

theorem genWrite (h : Blocks ds index rest bs) :
    forArguments (genWriteArgument ds) index rest = some (bs.flatMap Block.writes) :=
  h.gen (fun _ _ hd => if_neg hd) fun _ _ _ _ => genWriteArgument_block

theorem genGetLength (h : Blocks ds index rest bs) :
    forArguments (genGetLengthArgument ds) index rest = some (bs.flatMap Block.sizes) := by
  refine h.gen (fun index d hd => ?_) fun _ _ _ _ => genGetLengthArgument_block
  cases d with
  | bit => exact absurd rfl hd
  | _ => rfl

/-- The arguments fall into blocks, from any place where no run is cut. -/
theorem exists_blocks (hruns : ∀ pre n post, BitRun ds pre n post → n ≤ 64) :
    ∀ (k : Nat) (rest pre : List Domain), rest.length ≤ k → ds = pre ++ rest →
      (pre.getLast? ≠ some .bit ∨ rest.head? ≠ some .bit) → ∃ bs, Blocks ds pre.length rest bs := by
  intro k
  induction k with
  | zero =>
    intro rest pre hk _ _
    obtain rfl := List.length_eq_zero_iff.mp (Nat.le_zero.mp hk)
    exact ⟨[], Blocks.nil _⟩
  | succ k ih =>
    intro rest pre hk hds hcut
    cases rest with
    | nil => exact ⟨[], Blocks.nil _⟩
    | cons d rest =>
      by_cases hd : d = .bit
      · -- A whole run, since none is cut here.
        obtain ⟨n, post, hrest, hpost⟩ := BitRun.exists_leading (d :: rest)
        have hn : 0 < n := by
          refine Nat.pos_of_ne_zero fun h0 => hpost ?_
          rw [h0, List.replicate_zero, List.nil_append] at hrest
          rw [← hrest, hd]
          rfl
        have hpre : pre.getLast? ≠ some .bit := hcut.resolve_right fun h => h (by rw [hd]; rfl)
        have hrun : BitRun ds pre n post := ⟨by rw [hds, hrest], hpre, hpost⟩
        obtain ⟨w, hsize⟩ := getBitfieldSize_of_le_64 (hruns _ _ _ hrun)
        have hlen := congrArg List.length hrest
        rw [List.length_append, List.length_replicate] at hlen
        obtain ⟨bs, hbs⟩ := ih post (pre ++ List.replicate n .bit) (by omega) (by rw [hrun.eq, List.append_assoc])
          (Or.inr hpost)
        rw [List.length_append, List.length_replicate] at hbs
        rw [hrest]
        exact ⟨_, Blocks.run hrun hn hsize hbs⟩
      · rw [List.length_cons] at hk
        obtain ⟨bs, hbs⟩ := ih rest (pre ++ [d]) (by omega) (by rw [hds, List.append_assoc]; rfl)
          (Or.inl (by simpa using hd))
        rw [List.length_append] at hbs
        exact ⟨_, Blocks.argument hd hbs⟩

/-! ### The blocks are the arguments in order -/

theorem arguments_eq (h : Blocks ds index rest bs) : bs.flatMap Block.arguments = rest.zipIdx index := by
  induction h with
  | nil => rfl
  | argument _ _ ih =>
    rw [List.flatMap_cons, ih, List.zipIdx_cons]
    rfl
  | @run pre post n w bs _ _ _ _ ih =>
    have hrun : (List.replicate n Domain.bit).zipIdx pre.length = (List.range' pre.length n).map fun i => (.bit, i) := by
      rw [List.zipIdx_eq_zip_range', List.length_replicate, List.zip_eq_zipWith]
      exact List.ext_getElem (by simp) (by simp)
    rw [List.flatMap_cons, ih, List.zipIdx_append, List.length_replicate, hrun]
    rfl

/-- Every block starts at `index` or later. -/
theorem le_first (h : Blocks ds index rest bs) : ∀ b ∈ bs, index ≤ b.first := by
  induction h with
  | nil => simp
  | argument _ _ ih =>
    refine List.forall_mem_cons.mpr ⟨Nat.le_refl _, fun b hb => ?_⟩
    have hle := ih b hb
    omega
  | run _ _ _ _ ih =>
    refine List.forall_mem_cons.mpr ⟨Nat.le_refl _, fun b hb => ?_⟩
    have hle := ih b hb
    omega

/-- The blocks follow one another. -/
theorem ordered (h : Blocks ds index rest bs) : bs.Pairwise fun a b => a.first + a.size ≤ b.first := by
  induction h with
  | nil => exact List.Pairwise.nil
  | argument _ h ih => exact List.pairwise_cons.mpr ⟨h.le_first, ih⟩
  | run _ _ _ h ih => exact List.pairwise_cons.mpr ⟨h.le_first, ih⟩

/-- What is known of a block by itself. -/
def Ok (ds : List Domain) : Block → Prop
  | .argument _ d => d ≠ .bit
  | .run start n w => 0 < n ∧ getBitfieldSize n = some w ∧ ∃ pre post, BitRun ds pre n post ∧ pre.length = start

theorem ok (h : Blocks ds index rest bs) : ∀ b ∈ bs, Ok ds b := by
  induction h with
  | nil => simp
  | argument hd _ ih => exact List.forall_mem_cons.mpr ⟨hd, ih⟩
  | run hrun hn hsize _ ih => exact List.forall_mem_cons.mpr ⟨⟨hn, hsize, _, _, hrun, rfl⟩, ih⟩

/-- Every maximal run is one of the blocks. -/
theorem mem_of_bitRun (h : Blocks ds 0 ds bs) {pre post : List Domain} {n : Nat} {w : BitfieldSize}
    (hrun : BitRun ds pre n post) (hn : 0 < n) (hsize : getBitfieldSize n = some w) :
    Block.run pre.length n w ∈ bs := by
  have hfirst := hrun.getElem?_run hn
  rw [Nat.add_zero] at hfirst
  have hmem : (Domain.bit, pre.length) ∈ bs.flatMap Block.arguments := by
    rw [h.arguments_eq]
    exact List.mem_zipIdx_iff_getElem?.mpr hfirst
  obtain ⟨b, hb, hbmem⟩ := List.mem_flatMap.mp hmem
  have hok := h.ok b hb
  cases b with
  | argument index d =>
    obtain ⟨rfl, -⟩ := Prod.mk.inj (List.mem_singleton.mp hbmem)
    exact absurd rfl hok
  | run start m v =>
    obtain ⟨-, hsize', pre', post', hrun', rfl⟩ := hok
    obtain ⟨i, hi, heq⟩ := List.mem_map.mp hbmem
    obtain ⟨-, rfl⟩ := Prod.mk.inj heq
    have hbounds := List.mem_range'_1.mp hi
    obtain ⟨rfl, rfl, -⟩ := hrun.unique hrun' (Nat.le_refl _) (by omega) hbounds.1 hbounds.2
    obtain rfl := Option.some.inj (hsize.symm.trans hsize')
    exact hb

end Blocks

end Amqpp
