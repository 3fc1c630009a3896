import Amqpp.Codegen.ContentHeader

/-!
# Which fields are set

`x_is_set` of a field with a bit follows the calls on the field. `x_is_set` of a table is `get_map().empty()`: it says of
every table the opposite of what it should.
-/

namespace Amqpp

/-- Whether a field that is not a table holds a value after a call, when `held` says whether it did before. A setter that
throws sets nothing. -/
def PropertyCall.holds {c : ContentClass} (i : Fin c.fields.length) (held : Bool) : PropertyCall c → Bool
  | set j v _ _ =>
    match v.validate with
    | .ok () => if j = i then true else held
    | .error _ => held
  | clear j => if j = i then false else held
  | _ => held

namespace Properties

variable {c : ContentClass}

/-- An object as users get it, and which of its fields were read: a new one, or one that was read from a stream with the
bits `flags`. -/
inductive Starts : Properties c → (Fin c.fields.length → Bool) → Prop where
  | create (memory : Nat → UInt64) : Starts (create c memory) fun _ => false
  | read (memory : Nat → UInt64) (weight : UInt16) (bodySize : UInt64) (flags : UInt16) (rest : List UInt8) (p : Properties c)
      (s : IStream) (h : Properties.read c memory (.ofString (writeUint16 weight ++ (writeUint64 bodySize ++
        (writeUint16 flags ++ rest)))) = .ok (p, s)) : Starts p fun i => flags.toNat.testBit i

/-- The field holds a value: a table has entries, and any other field was set, or read, since it was cleared. -/
def HoldsValue (p : Properties c) (i : Fin c.fields.length) (held : Bool) : Prop :=
  match (p.members i).val with
  | .table t => t ≠ []
  | _ => held = true

/-- `x_is_set` says whether the field holds a value, and no call on another field changes what it says. -/
structure TracksPresence (p : Properties c) (i : Fin c.fields.length) (held : Bool) : Prop where
  isSet_iff : p.isSet i = true ↔ p.HoldsValue i held
  frame : ∀ call : PropertyCall c, call.field ≠ some i → (p.after call).isSet i = p.isSet i

end Properties

namespace PresenceAux

open Properties

variable {c : ContentClass}

theorem after_write (p : Properties c) : p.after .write = p.updateTables := by
  unfold after
  simp only [write_eq]
  cases toUlong p.updateTables.fieldSet <;> rfl

/-- A setter sets the member and its bit, or throws. -/
theorem set_cases (p : Properties c) (i : Fin c.fields.length) (v : Value) (typed : v.domain = c.domain i) :
    (v.validate = .ok () ∧ ∃ m, p.set i v typed =
      .ok { p with members := Function.update p.members i m, fieldSet := assignBit p.fieldSet i true }) ∨
    (∃ e, v.validate = .error e ∧ p.set i v typed = .error e) := by
  unfold Properties.set
  split
  · rename_i e h
    exact Or.inr ⟨e, h, rfl⟩
  · rename_i h
    exact Or.inl ⟨h, _, rfl⟩

/-- A call on another field leaves the member of a field. -/
theorem members_after (p : Properties c) {call : PropertyCall c} {i : Fin c.fields.length} (h : call.field ≠ some i) :
    (p.after call).members i = p.members i := by
  cases call with
  | set j v typed notTable =>
    have hij : i ≠ j := fun hij => h (congrArg some hij.symm)
    rcases set_cases p j v typed with ⟨-, m, hset⟩ | ⟨e, -, hset⟩
    · simp only [after, hset]
      exact Function.update_of_ne hij _ _
    · simp only [after, hset]
  | clear j => exact Function.update_of_ne (fun hij => h (congrArg some hij.symm)) _ _
  | edit j f => exact Function.update_of_ne (fun hij => h (congrArg some hij.symm)) _ _
  | setWeight weight => rfl
  | setBodySize bodySize => rfl
  | write => rw [after_write, members_updateTables]

/-- The bit of a field that is not a table follows the calls. -/
theorem isSet_after (p : Properties c) (call : PropertyCall c) {i : Fin c.fields.length} (h : c.domain i ≠ .table) :
    (p.after call).isSet i = call.holds i (p.isSet i) := by
  cases call with
  | set j v typed notTable =>
    rcases set_cases p j v typed with ⟨hv, m, hset⟩ | ⟨e, hv, hset⟩
    · simp only [after, PropertyCall.holds, hset, hv]
      rw [isSet_of_ne_table h, isSet_of_ne_table h, getLsbD_assignBit _ _ i.isLt]
      by_cases hji : j = i
      · simp [hji]
      · simp [hji, Fin.val_ne_of_ne (Ne.symm hji)]
    · simp only [after, PropertyCall.holds, hset, hv]
  | clear j =>
    change (p.clear j).isSet i = if j = i then false else p.isSet i
    rw [isSet_of_ne_table h, isSet_of_ne_table h]
    by_cases hji : j = i
    · subst hji
      rw [if_pos rfl, clear, if_neg h, getLsbD_assignBit _ _ j.isLt, if_pos rfl]
    · rw [if_neg hji, clear]
      by_cases hj : c.domain j = .table
      · rw [if_pos hj]
      · rw [if_neg hj, getLsbD_assignBit _ _ i.isLt, if_neg (Fin.val_ne_of_ne (Ne.symm hji))]
  | edit j f =>
    change (p.after _).isSet i = p.isSet i
    rw [isSet_of_ne_table h, isSet_of_ne_table h]
    rfl
  | setWeight weight =>
    change (p.after _).isSet i = p.isSet i
    rw [isSet_of_ne_table h, isSet_of_ne_table h]
    rfl
  | setBodySize bodySize =>
    change (p.after _).isSet i = p.isSet i
    rw [isSet_of_ne_table h, isSet_of_ne_table h]
    rfl
  | write => rw [after_write, isSet_updateTables]; rfl

/-- Whether a field is set survives the calls on other fields. -/
theorem isSet_frame (p : Properties c) {call : PropertyCall c} {i : Fin c.fields.length} (h : call.field ≠ some i) :
    (p.after call).isSet i = p.isSet i := by
  by_cases htable : c.domain i = .table
  · obtain ⟨t, ht, hset⟩ := isSet_of_table (p := p) htable
    obtain ⟨u, hu, hset'⟩ := isSet_of_table (p := p.after call) htable
    rw [members_after p h, ht] at hu
    cases hu
    rw [hset, hset']
  · rw [isSet_after p call htable]
    cases call with
    | set j v typed notTable =>
      have hji : j ≠ i := fun hji => h (congrArg some hji)
      rcases set_cases p j v typed with ⟨hv, -⟩ | ⟨e, hv, -⟩
      · simp only [PropertyCall.holds, hv, if_neg hji]
      · simp only [PropertyCall.holds, hv]
    | clear j => exact if_neg fun hji => h (congrArg some hji)
    | edit j f => rfl
    | setWeight weight => rfl
    | setBodySize bodySize => rfl
    | write => rfl

/-- Along a run, the bit of a field that is not a table follows the calls. -/
theorem isSet_run (p : Properties c) (calls : List (PropertyCall c)) {i : Fin c.fields.length} (h : c.domain i ≠ .table) :
    (p.run calls).isSet i = calls.foldl (fun held call => call.holds i held) (p.isSet i) := by
  induction calls generalizing p with
  | nil => rfl
  | cons call calls ih =>
    rw [List.foldl_cons, ← isSet_after p call h]
    exact ih (p.after call)

/-- The loop of `read` leaves the bits. -/
theorem fieldSet_of_readFields {is : List (Fin c.fields.length)} {res q : Properties c} {s t : IStream}
    (h : readFields is res s = .ok (q, t)) : q.fieldSet = res.fieldSet := by
  induction is generalizing res s with
  | nil =>
    cases h
    rfl
  | cons i is ih =>
    rw [readFields] at h
    split at h
    · obtain ⟨m, u, -, hrest⟩ := Reader.bind_eq_ok.mp h
      exact (ih hrest :)
    · exact ih h

/-- At the start, a field that is not a table is set when it was read. -/
theorem isSet_of_starts {p : Properties c} {held : Fin c.fields.length → Bool} (h : p.Starts held) {i : Fin c.fields.length}
    (hi : c.domain i ≠ .table) : p.isSet i = held i := by
  rw [isSet_of_ne_table hi]
  cases h with
  | create memory => exact BitVec.getLsbD_zero
  | read memory weight bodySize flags rest p s h =>
    rw [Properties.read, Reader.bind_of_ok (reads_readUint16 _ _), Reader.bind_of_ok (reads_readUint64 _ _),
      Reader.bind_of_ok (reads_readUint16 _ _)] at h
    rw [fieldSet_of_readFields h, BitVec.getLsbD_ofNat, decide_eq_true i.isLt, Bool.true_and]

end PresenceAux

open PresenceAux Properties

/-- After every history of an object, `x_is_set` tracks the presence of a field exactly when the field is not a table. -/
theorem presence_tracked_iff {c : ContentClass} {start : Properties c} {held : Fin c.fields.length → Bool} (h : start.Starts held)
    (calls : List (PropertyCall c)) (i : Fin c.fields.length) :
    (start.run calls).TracksPresence i (calls.foldl (fun held call => call.holds i held) (held i)) ↔ c.domain i ≠ .table := by
  constructor
  · rintro ⟨hiff, -⟩ htable
    obtain ⟨t, ht, hset⟩ := isSet_of_table (p := start.run calls) htable
    unfold HoldsValue at hiff
    rw [hset] at hiff
    simp only [ht, List.isEmpty_iff] at hiff
    exact iff_not_self hiff
  · intro hi
    refine ⟨?_, fun call => isSet_frame _⟩
    rw [isSet_run start calls hi, isSet_of_starts h hi]
    have htyped := ((start.run calls).members i).typed
    unfold HoldsValue
    cases hv : ((start.run calls).members i).val with
    | table t =>
      rw [hv] at htyped
      exact absurd htyped.symm hi
    | _ => rfl

/-- A content type that is set on a new object. -/
theorem presence_tracked_content_type :
    (ContentSample.created.run [.set ContentSample.contentType (.shortstr [116]) rfl (by decide)]).TracksPresence
      ContentSample.contentType true :=
  (presence_tracked_iff (.create fun _ => 0) [.set ContentSample.contentType (.shortstr [116]) rfl (by decide)]
    ContentSample.contentType).mpr (by decide)

/-- An entry that is inserted in the headers of a new object: the table is not empty, and is not set. -/
theorem headers_with_entry_not_set :
    (ContentSample.created.run [.edit ContentSample.headers fun t => t.insert ⟨[107], .void⟩]).HoldsValue ContentSample.headers false ∧
      (ContentSample.created.run [.edit ContentSample.headers fun t => t.insert ⟨[107], .void⟩]).isSet ContentSample.headers = false ∧
      ¬(ContentSample.created.run [.edit ContentSample.headers fun t => t.insert ⟨[107], .void⟩]).TracksPresence
        ContentSample.headers false := by
  have hholds : (ContentSample.created.run [.edit ContentSample.headers fun t => t.insert ⟨[107], .void⟩]).HoldsValue
      ContentSample.headers false := List.cons_ne_nil _ _
  have hset : (ContentSample.created.run [.edit ContentSample.headers fun t => t.insert ⟨[107], .void⟩]).isSet
      ContentSample.headers = false := rfl
  refine ⟨hholds, hset, fun h => ?_⟩
  rw [h.isSet_iff.mpr hholds] at hset
  cases hset

end Amqpp
