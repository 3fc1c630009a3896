import Amqpp.Codegen.ReadErrors
import Mathlib.Data.List.Nodup

/-!
# Getters and setters

What `genGetter` and `genSetter` generate for the argument with a given index, and `method_cast`. The generated `read` leaves
members of the declared types, so on a method that was read the getters return.
-/

namespace Amqpp

namespace Method

/-- Every member has the type that its argument declares. -/
def Typed (m : Method) : Prop := m.values.map Value.domain = m.desc.arguments

/-- The getter of an octet. -/
def getOctet (index : Nat) (m : Method) : Except Exception UInt8 :=
  match m.values[index]? with
  | some (.octet v) => .ok v
  | _ => .error .stuck

/-- The getter of a short. -/
def getShort (index : Nat) (m : Method) : Except Exception UInt16 :=
  match m.values[index]? with
  | some (.short v) => .ok v
  | _ => .error .stuck

/-- The getter of a long. -/
def getLong (index : Nat) (m : Method) : Except Exception UInt32 :=
  match m.values[index]? with
  | some (.long v) => .ok v
  | _ => .error .stuck

/-- The getter of a long string. -/
def getLongstr (index : Nat) (m : Method) : Except Exception (List UInt8) :=
  match m.values[index]? with
  | some (.longstr s) => .ok s
  | _ => .error .stuck

/-- The setter. Strings are validated. -/
def set (index : Nat) (v : Value) (m : Method) : Except Exception Method := do
  v.validate
  return { m with values := m.values.set index v }

/-- `insert` on the table that the getter of an argument refers to. -/
def insertEntry (index : Nat) (e : TableEntry) (m : Method) : Except Exception Method :=
  match m.values[index]? with
  | some (.table t) => .ok { m with values := m.values.set index (.table (t.insert e)) }
  | _ => .error .stuck

/-- The dynamic type of the object is the class of a method: the ids of the generated classes are distinct. -/
def Is (m : Method) (c : ClassDesc) (d : MethodDesc) : Prop := m.classId = c.index ∧ m.desc.index = d.index

instance (m : Method) (c : ClassDesc) (d : MethodDesc) : Decidable (m.Is c d) := inferInstanceAs (Decidable (_ ∧ _))

/-- `method_cast`. -/
def cast (c : ClassDesc) (d : MethodDesc) (m : Method) : Except Exception Method :=
  if m.Is c d then .ok m else .error (.runtimeError "Failure to cast method")

theorem cast_eq_ok {c : ClassDesc} {d : MethodDesc} {m m' : Method} : m.cast c d = .ok m' ↔ m.Is c d ∧ m' = m := by
  unfold cast
  split
  · rename_i his
    simp [his, eq_comm]
  · rename_i hnot
    simp [hnot]

theorem set_eq_ok {index : Nat} {v : Value} {m m' : Method} :
    m.set index v = .ok m' ↔ v.validate = .ok () ∧ m' = { m with values := m.values.set index v } := by
  unfold set
  rw [Except.bind_eq_ok]
  constructor
  · rintro ⟨u, h, hret⟩
    cases hret
    exact ⟨h, rfl⟩
  · rintro ⟨h, rfl⟩
    exact ⟨(), h, rfl⟩

end Method

/-! ## Members by type -/

namespace Value

@[simp] theorem domain_eq_octet {v : Value} : v.domain = .octet ↔ ∃ x, v = .octet x := by cases v <;> simp [domain]
@[simp] theorem domain_eq_short {v : Value} : v.domain = .short ↔ ∃ x, v = .short x := by cases v <;> simp [domain]
@[simp] theorem domain_eq_long {v : Value} : v.domain = .long ↔ ∃ x, v = .long x := by cases v <;> simp [domain]
@[simp] theorem domain_eq_bit {v : Value} : v.domain = .bit ↔ ∃ x, v = .bit x := by cases v <;> simp [domain]
@[simp] theorem domain_eq_shortstr {v : Value} : v.domain = .shortstr ↔ ∃ s, v = .shortstr s := by cases v <;> simp [domain]
@[simp] theorem domain_eq_longstr {v : Value} : v.domain = .longstr ↔ ∃ s, v = .longstr s := by cases v <;> simp [domain]
@[simp] theorem domain_eq_table {v : Value} : v.domain = .table ↔ ∃ t, v = .table t := by cases v <;> simp [domain]

end Value

/-! ## What a reader leaves -/

namespace AccessorsAux

/-- A reader returns a value of the type it was chosen for. -/
theorem domain_of_read {d : Domain} {s t : IStream} {v : Value} (h : Value.read d s = .ok (v, t)) : v.domain = d := by
  cases d with
  | bit => cases h
  | _ =>
    obtain ⟨x, u, -, hret⟩ := Reader.bind_eq_ok.mp h
    cases hret
    rfl

/-- The statement sets a member of the type that its argument declares. -/
def SetsTyped (ds : List Domain) : ReadStmt → Prop
  | .getBit index _ => ds[index]? = some .bit
  | .read index domain => ds[index]? = some domain
  | _ => True

theorem map_domain_set {ds : List Domain} {ret : List Value} {index : Nat} {v : Value} (hret : ret.map Value.domain = ds)
    (hv : ds[index]? = some v.domain) : (ret.set index v).map Value.domain = ds := by
  rw [List.map_set, hret]
  obtain ⟨hlt, hget⟩ := List.getElem?_eq_some_iff.mp hv
  rw [← hget, List.set_getElem_self hlt]

/-- One statement keeps the types. -/
theorem typed_of_exec {ds : List Domain} {s : ReadStmt} (hs : SetsTyped ds s) {st st' : Option BitField × List Value} {u t : IStream}
    (h : s.exec st u = .ok (st', t)) (hst : st.2.map Value.domain = ds) : st'.2.map Value.domain = ds := by
  obtain ⟨scope, ret⟩ := st
  cases s with
  | openBits w =>
    obtain ⟨b, u₁, -, hret⟩ := Reader.bind_eq_ok.mp h
    cases hret
    exact hst
  | getBit index position =>
    cases scope with
    | none => cases h
    | some f =>
      rw [ReadStmt.exec] at h
      cases hbit : Amqpp.getBit f.bits position with
      | none =>
        rw [hbit] at h
        cases h
      | some v =>
        rw [hbit] at h
        cases h
        exact map_domain_set hst hs
  | closeBits =>
    cases h
    exact hst
  | read index domain =>
    obtain ⟨v, u₁, hread, h⟩ := Reader.bind_eq_ok.mp h
    obtain ⟨-, -, hret⟩ := Reader.lift_bind_eq_ok.mp h
    cases hret
    exact map_domain_set hst ((domain_of_read hread).symm ▸ hs)

/-- All statements, one after the other. -/
theorem typed_of_runRead {ds : List Domain} {sts : List ReadStmt} (hsts : ∀ s ∈ sts, SetsTyped ds s)
    {st st' : Option BitField × List Value} {u t : IStream} (h : runRead sts st u = .ok (st', t)) (hst : st.2.map Value.domain = ds) :
    st'.2.map Value.domain = ds := by
  induction sts generalizing st u with
  | nil =>
    cases h
    exact hst
  | cons s sts ih =>
    obtain ⟨st₁, u₁, hexec, hrun⟩ := Reader.bind_eq_ok.mp h
    obtain ⟨hs, hrest⟩ := List.forall_mem_cons.mp hsts
    exact ih hrest hrun (typed_of_exec hs hexec hst)

/-- What is generated for all arguments is generated for one of them. -/
theorem exists_argument {σ : Type} {emit : Nat → Domain → Option (List σ)} {index : Nat} {ds : List Domain} {sts : List σ}
    (h : forArguments emit index ds = some sts) {st : σ} (hst : st ∈ sts) :
    ∃ j d s, ds[j]? = some d ∧ emit (index + j) d = some s ∧ st ∈ s := by
  induction ds generalizing index sts with
  | nil =>
    cases h
    cases hst
  | cons d ds ih =>
    rw [forArguments] at h
    obtain ⟨a, ha, h⟩ := Option.bind_eq_some_iff.mp h
    obtain ⟨b, hb, h⟩ := Option.bind_eq_some_iff.mp h
    cases h
    rcases List.mem_append.mp hst with hst | hst
    · exact ⟨0, d, a, rfl, ha, hst⟩
    · obtain ⟨j, d', s, hd, hs, hmem⟩ := ih hb hst
      exact ⟨j + 1, d', s, hd, by rwa [Nat.add_assoc, Nat.add_comm 1 j] at hs, hmem⟩

/-- Every generated statement sets a member of the declared type. -/
theorem setsTyped_genReadFunction {ds : List Domain} {sts : List ReadStmt} (h : genReadFunction ds = some sts) :
    ∀ s ∈ sts, SetsTyped ds s := by
  intro s hs
  obtain ⟨j, d, group, hd, hemit, hmem⟩ := exists_argument h hs
  rw [Nat.zero_add, genReadArgument] at hemit
  by_cases hbit : d = .bit
  · rw [if_pos hbit] at hemit
    obtain ⟨w, -, hemit⟩ := Option.bind_eq_some_iff.mp hemit
    cases hemit
    subst hbit
    simp only [List.mem_append, List.mem_cons] at hmem
    rcases hmem with hmem | rfl | hmem
    · split at hmem
      · rw [List.mem_singleton.mp hmem]
        trivial
      · cases hmem
    · exact hd
    · split at hmem
      · rw [List.mem_singleton.mp hmem]
        trivial
      · cases hmem
  · rw [if_neg hbit, Option.some.injEq] at hemit
    rw [← hemit, List.mem_singleton] at hmem
    rw [hmem]
    exact hd

end AccessorsAux

open AccessorsAux

/-- The generated `read` leaves members of the declared types. -/
theorem MethodDesc.typed_of_read {d : MethodDesc} {classId : UInt16} {s t : IStream} {m : Method}
    (h : d.read classId s = .ok (m, t)) : m.Typed := by
  rw [MethodDesc.read] at h
  cases hgen : genReadFunction d.arguments with
  | none =>
    rw [hgen] at h
    cases h
  | some sts =>
    rw [hgen] at h
    obtain ⟨st, u, hrun, hret⟩ := Reader.bind_eq_ok.mp h
    cases hret
    exact typed_of_runRead (setsTyped_genReadFunction hgen) hrun d.typed

namespace Spec

variable {Γ : Spec}

/-- What `method::read` accepts is an object of a generated class, with members of the declared types. -/
theorem of_read {s t : IStream} {m : Method} (h : Γ.read s = .ok (m, t)) :
    (∃ c ∈ Γ.classes, c.index = m.classId ∧ m.desc ∈ c.methods) ∧ m.Typed := by
  obtain ⟨classId, s₁, -, h⟩ := Reader.bind_eq_ok.mp h
  obtain ⟨methodId, s₂, -, h⟩ := Reader.bind_eq_ok.mp h
  cases hc : Γ.classes.find? (fun c => c.index == classId) with
  | none =>
    simp only [hc] at h
    cases h
  | some c =>
    cases hd : c.methods.find? (fun m => m.index == methodId) with
    | none =>
      simp only [hc, hd] at h
      cases h
    | some d =>
      simp only [hc, hd] at h
      obtain ⟨hclass, hdesc⟩ := MethodDesc.ids_of_read h
      have hindex : c.index = classId := by simpa using List.find?_some hc
      exact ⟨⟨c, List.mem_of_find?_eq_some hc, hindex.trans hclass.symm, hdesc ▸ List.mem_of_find?_eq_some hd⟩,
        MethodDesc.typed_of_read h⟩

theorem of_readFrame {f : Frame} {m : Method} (h : Γ.readFrame f = .ok m) :
    (∃ c ∈ Γ.classes, c.index = m.classId ∧ m.desc ∈ c.methods) ∧ m.Typed := by
  unfold readFrame at h
  split at h
  · rename_i m' t hread
    cases h
    exact of_read hread
  · cases h

/-- An entry of a table with distinct ids is the one with its id. -/
theorem eq_of_index_eq {α : Type} {f : α → UInt16} {l : List α} (h : (l.map f).Nodup) {a b : α} (ha : a ∈ l) (hb : b ∈ l)
    (hab : f a = f b) : a = b :=
  List.inj_on_of_nodup_map h ha hb hab

/-- The object a frame is read as has the members of the method that its ids stand for. -/
theorem typed_of_readFrame {f : Frame} {m : Method} (h : Γ.readFrame f = .ok m) {c : ClassDesc} (hc : c ∈ Γ.classes) {d : MethodDesc}
    (hd : d ∈ c.methods) (his : m.Is c d) : m.desc = d ∧ m.values.map Value.domain = d.arguments := by
  obtain ⟨⟨c', hc', hindex, hmem⟩, htyped⟩ := of_readFrame h
  obtain rfl := eq_of_index_eq Γ.classes_nodup hc' hc (hindex.trans his.1)
  obtain hdesc := eq_of_index_eq (Γ.methods_nodup c' hc') hmem hd his.2
  exact ⟨hdesc, hdesc ▸ htyped⟩

end Spec

end Amqpp
