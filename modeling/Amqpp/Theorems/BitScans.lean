import Amqpp.Codegen.Blocks
import Amqpp.Theorems.Codec

/-!
# The scans of the generator

What the two scans of `getBitsNumber` and `getBitsLength` find from any bit argument, and what comes out when three
generators ask them at every argument: the same runs, of the same width, each in one scope.
-/

namespace Amqpp

/-- What a statement does to the scope of a bit field. -/
inductive ScopeEvent where
  | opens (w : BitfieldSize)
  | uses (position : Nat)
  /-- The end of the scope, with the width of the word when it is written there. -/
  | closes (w : Option BitfieldSize)
  | outside
  deriving DecidableEq, Repr

def ReadStmt.event : ReadStmt → ScopeEvent
  | openBits w => .opens w
  | getBit _ position => .uses position
  | closeBits => .closes none
  | read _ _ => .outside

def WriteStmt.event : WriteStmt → ScopeEvent
  | openBits w => .opens w
  | setBit _ position => .uses position
  | closeBits w => .closes (some w)
  | write _ => .outside

/-- From a place with this scope (its width and the positions used so far) on, scopes are opened outside scopes only and
closed with the width they were opened with, none stays open, other statements are outside, and the positions of a scope are
below its width and used once. -/
def ScopesOk : Option (BitfieldSize × List Nat) → List ScopeEvent → Prop
  | none, [] => True
  | none, .opens w :: es => ScopesOk (some (w, [])) es
  | none, .outside :: es => ScopesOk none es
  | some (w, used), .uses position :: es =>
    position < w.bits ∧ position ∉ used ∧ ScopesOk (some (w, used ++ [position])) es
  | some (w, _), .closes w' :: es => (∀ v ∈ w', v = w) ∧ ScopesOk none es
  | _, _ => False

/-- The blocks are the arguments in order: each argument is in one block, and the runs are the maximal runs of bits, with
the width `getBitfieldSize` chooses. -/
structure BlocksOf (arguments : List Domain) (bs : List Block) : Prop where
  arguments_eq : bs.flatMap Block.arguments = arguments.zipIdx
  ordered : bs.Pairwise fun a b => a.first + a.size ≤ b.first
  argument_ne : ∀ index d, .argument index d ∈ bs → d ≠ .bit
  run_iff : ∀ start n w, .run start n w ∈ bs ↔
    0 < n ∧ getBitfieldSize n = some w ∧ ∃ pre post, BitRun arguments pre n post ∧ pre.length = start

namespace BitScansAux

/-- The bits of a run, from position `j` on, and the end of its scope. -/
theorem scopesOk_uses {w : BitfieldSize} {c : Option BitfieldSize} {es : List ScopeEvent} (hc : ∀ v ∈ c, v = w)
    (hes : ScopesOk none es) :
    ∀ k j, j + k ≤ w.bits →
      ScopesOk (some (w, List.range j)) ((List.range' j k).map .uses ++ ([.closes c] ++ es)) := by
  intro k
  induction k with
  | zero => exact fun _ _ => ⟨hc, hes⟩
  | succ k ih =>
    intro j hj
    have hnext := ih (j + 1) (by omega)
    rw [List.range_succ] at hnext
    exact ⟨by omega, List.not_mem_range_self, hnext⟩

/-- A run in one scope, and what follows. -/
theorem scopesOk_run {n : Nat} {w : BitfieldSize} {c : Option BitfieldSize} {es : List ScopeEvent}
    (hsize : getBitfieldSize n = some w) (hc : ∀ v ∈ c, v = w) (hes : ScopesOk none es) :
    ScopesOk none ((.opens w :: ((List.range n).map .uses ++ [.closes c])) ++ es) := by
  have huses := scopesOk_uses hc hes n 0 (by rw [Nat.zero_add]; exact le_bits_of_getBitfieldSize hsize)
  rw [List.cons_append, List.append_assoc, List.range_eq_range']
  exact huses

theorem events_reads (start n : Nat) (w : BitfieldSize) :
    (Block.run start n w).reads.map ReadStmt.event = .opens w :: ((List.range n).map .uses ++ [.closes none]) := by
  simp only [Block.reads, List.map_append, List.map_cons, List.map_map, List.map_nil, ReadStmt.event, List.cons_append]
  rfl

theorem events_writes (start n : Nat) (w : BitfieldSize) :
    (Block.run start n w).writes.map WriteStmt.event =
      .opens w :: ((List.range n).map .uses ++ [.closes (some w)]) := by
  simp only [Block.writes, List.map_append, List.map_cons, List.map_map, List.map_nil, WriteStmt.event, List.cons_append]
  rfl

/-- The scopes of all blocks, when those of each are. -/
theorem scopesOk_flatMap {σ : Type} {event : σ → ScopeEvent} {block : Block → List σ} {c : BitfieldSize → Option BitfieldSize}
    (hargument : ∀ index d, (block (.argument index d)).map event = [.outside])
    (hrun : ∀ start n w, (block (.run start n w)).map event = .opens w :: ((List.range n).map .uses ++ [.closes (c w)]))
    (hc : ∀ w, ∀ v ∈ c w, v = w) {ds rest : List Domain} {index : Nat} {bs : List Block} (h : Blocks ds index rest bs) :
    ScopesOk none ((bs.flatMap block).map event) := by
  induction h with
  | nil => trivial
  | argument _ _ ih =>
    rw [List.flatMap_cons, List.map_append, hargument]
    exact ih
  | run _ _ hsize _ ih =>
    rw [List.flatMap_cons, List.map_append, hrun]
    exact scopesOk_run hsize (hc _) ih

theorem blocksOf {ds : List Domain} {bs : List Block} (h : Blocks ds 0 ds bs) : BlocksOf ds bs where
  arguments_eq := h.arguments_eq
  ordered := h.ordered
  argument_ne _ _ hmem := h.ok _ hmem
  run_iff start n w := by
    constructor
    · exact fun hmem => h.ok _ hmem
    · rintro ⟨hn, hsize, pre, post, hrun, rfl⟩
      exact h.mem_of_bitRun hrun hn hsize

end BitScansAux

open BitScansAux

/-- From every bit argument the scans give its offset in the one maximal run around it and the length of that run. So in
every argument list whose runs are at most 64 long, the three generators emit, for the same blocks, one group of statements
each: a run is read, written and counted once, with one width, in a scope of its own, and its bits have positions of their
own below the width. -/
theorem bit_scans_agree :
    (∀ arguments i, arguments[i]? = some Domain.bit → ∃ pre n post, BitRun arguments pre n post ∧
      pre.length ≤ i ∧ i < pre.length + n ∧
      getBitsNumber arguments i = i - pre.length ∧ getBitsLength arguments i = n ∧
      ∀ pre' n' post', BitRun arguments pre' n' post' → pre'.length ≤ i → i < pre'.length + n' →
        pre = pre' ∧ n = n' ∧ post = post') ∧
    ∀ arguments, BitRunsLe 64 arguments → ∃ bs, BlocksOf arguments bs ∧
      genReadFunction arguments = some (bs.flatMap Block.reads) ∧
      genWriteFunction arguments = some (bs.flatMap Block.writes) ∧
      genGetLengthFunction arguments = some (bs.flatMap Block.sizes) ∧
      ScopesOk none ((bs.flatMap Block.reads).map ReadStmt.event) ∧
      ScopesOk none ((bs.flatMap Block.writes).map WriteStmt.event) := by
  constructor
  · intro arguments i h
    obtain ⟨pre, n, post, hrun, hle, hlt⟩ := BitRun.exists_of_getElem? h
    have hi : i = pre.length + (i - pre.length) := by omega
    refine ⟨pre, n, post, hrun, hle, hlt, ?_, ?_, fun _ _ _ hrun' => hrun.unique hrun' hle hlt⟩
    · rw [hi, hrun.getBitsNumber_eq (by omega)]
      omega
    · rw [hi]
      exact hrun.getBitsLength_eq (by omega)
  · intro arguments hruns
    obtain ⟨bs, hbs⟩ := CodecAux.exists_blocks hruns
    exact ⟨bs, blocksOf hbs, hbs.genRead, hbs.genWrite, hbs.genGetLength,
      scopesOk_flatMap (c := fun _ => none) (fun _ _ => rfl) events_reads (by simp) hbs,
      scopesOk_flatMap (c := some) (fun _ _ => rfl) events_writes (by simp) hbs⟩

/-- Nine bits, an octet and a bit: two words, of 16 and 8 bits. -/
theorem bit_scans_agree_nine :
    getBitsNumber (List.replicate 9 .bit ++ [.octet, .bit]) 8 = 8 ∧
    getBitsLength (List.replicate 9 .bit ++ [.octet, .bit]) 8 = 9 ∧
    ∃ bs, BlocksOf (List.replicate 9 .bit ++ [.octet, .bit]) bs ∧
      Block.run 0 9 .w16 ∈ bs ∧ Block.run 10 1 .w8 ∈ bs ∧
      genGetLengthFunction (List.replicate 9 .bit ++ [.octet, .bit]) = some (bs.flatMap Block.sizes) := by
  have hruns : BitRunsLe 64 (List.replicate 9 .bit ++ [.octet, .bit]) := by
    intro n h
    have hle := h.length_le
    rw [List.length_replicate] at hle
    exact hle.trans (by decide)
  obtain ⟨-, hblocks⟩ := bit_scans_agree
  obtain ⟨bs, hbs, -, -, hsizes, -⟩ := hblocks _ hruns
  refine ⟨by decide, by decide, bs, hbs, (hbs.run_iff 0 9 .w16).mpr ⟨by decide, rfl, [], [.octet, .bit], ?_, rfl⟩,
    (hbs.run_iff 10 1 .w8).mpr ⟨by decide, rfl, List.replicate 9 .bit ++ [.octet], [], ?_, rfl⟩, hsizes⟩
  · exact ⟨rfl, by decide, by decide⟩
  · exact ⟨rfl, by decide, by decide⟩

end Amqpp
