import Mathlib.Data.List.Induction
import Mathlib.Order.WellFounded

/-!
# Machines and their runs

A machine is a start state and a partial step on events: `none` says the event cannot happen in that state. A run is a list
of events that can happen one after another. Two rules carry the invariant proofs over runs: `Machine.invariant_of_run`
(what every step keeps holds in every state reached) and `Machine.always_iff_guarded` (what every step that meets a guard
keeps, and what a step past the guard breaks, holds along a run exactly when every step of the run meets the guard).
-/

/-- A start state and a partial step on events. -/
structure Machine (σ ε : Type) where
  init : σ
  step : σ → ε → Option σ

namespace Machine

variable {σ ε : Type} (M : Machine σ ε)

/-- The state after a list of events, when each of them can happen in its turn. -/
def run (es : List ε) : Option σ := es.foldlM M.step M.init

@[simp] theorem run_nil : M.run [] = some M.init := rfl

/-- One more event at the end of a run is one more step. -/
theorem run_snoc (es : List ε) (e : ε) : M.run (es ++ [e]) = (M.run es).bind (fun s => M.step s e) := by
  simp [run, List.foldlM_append]

/-- A run with one more event is a run, and a step from the state it leaves. -/
theorem run_snoc_eq_some {es : List ε} {e : ε} {s' : σ} :
    M.run (es ++ [e]) = some s' ↔ ∃ s, M.run es = some s ∧ M.step s e = some s' := by
  rw [run_snoc, Option.bind_eq_some_iff]

/-- The events before an event of a run are a run. -/
theorem run_prefix {es es' : List ε} {s' : σ} (h : M.run (es ++ es') = some s') : ∃ s, M.run es = some s := by
  induction es' using List.reverseRecOn generalizing s' with
  | nil => exact ⟨s', by simpa using h⟩
  | append_singleton l e ih =>
    rw [← List.append_assoc] at h
    obtain ⟨t, ht, -⟩ := M.run_snoc_eq_some.mp h
    exact ih ht

/-- What the steps tell from a state on, as long as the events can happen. -/
def outputsFrom {β : Type} (f : σ → ε → σ → List β) (s : σ) : List ε → List β
  | [] => []
  | e :: es => ((M.step s e).map fun t => f s e t ++ outputsFrom f t es).getD []

/-- What the steps of a run tell. -/
def outputs {β : Type} (f : σ → ε → σ → List β) (es : List ε) : List β := M.outputsFrom f M.init es

/-- One more event tells what its step tells. -/
theorem outputs_snoc {β : Type} (f : σ → ε → σ → List β) {es : List ε} {e : ε} {s t : σ} (hs : M.run es = some s)
    (ht : M.step s e = some t) : M.outputs f (es ++ [e]) = M.outputs f es ++ f s e t := by
  unfold run at hs
  unfold outputs
  generalize M.init = u at hs
  induction es generalizing u with
  | nil =>
    cases hs
    simp [outputsFrom, ht]
  | cons e' es ih =>
    rw [List.foldlM_cons] at hs
    obtain ⟨v, hv, hs⟩ := Option.bind_eq_some_iff.mp hs
    simp [outputsFrom, hv, ih v hs]

/-- A property that holds at the start and that every step keeps. -/
def Inductive (I : σ → Prop) : Prop := I M.init ∧ ∀ s e s', I s → M.step s e = some s' → I s'

/-- What holds at the start and is kept by every step holds in every state a run reaches. -/
theorem invariant_of_run {I : σ → Prop} (hI : M.Inductive I) : ∀ {es : List ε} {s : σ}, M.run es = some s → I s := by
  intro es
  induction es using List.reverseRecOn with
  | nil =>
    intro s h
    rw [run_nil, Option.some.injEq] at h
    exact h ▸ hI.1
  | append_singleton l e ih =>
    intro s h
    obtain ⟨t, ht, hs⟩ := M.run_snoc_eq_some.mp h
    exact hI.2 t e s (ih ht) hs

/-- What holds of a state that a run goes through, and is kept by the steps of the events after it, holds at the end. -/
theorem invariant_from {I : σ → Prop} {pre es : List ε} {s : σ} (hs : M.run pre = some s) (hI : I s)
    (hstep : ∀ u e u', e ∈ es → I u → M.step u e = some u' → I u') : ∀ {t : σ}, M.run (pre ++ es) = some t → I t := by
  induction es using List.reverseRecOn with
  | nil =>
    intro t ht
    rw [List.append_nil, hs, Option.some.injEq] at ht
    exact ht ▸ hI
  | append_singleton l e ih =>
    intro t ht
    rw [← List.append_assoc] at ht
    obtain ⟨u, hu, hut⟩ := M.run_snoc_eq_some.mp ht
    have hkeep : I u := ih (fun v e' v' he' => hstep v e' v' (List.mem_append_left _ he')) hu
    exact hstep u e t (List.mem_append_right _ (List.mem_singleton_self e)) hkeep hut

/-- What every step does to a part of the state, as a reflexive and transitive relation, a run does from any state it goes
through. -/
theorem rel_of_run {τ : Type} (f : σ → τ) {R : τ → τ → Prop} [Std.Refl R] [IsTrans τ R]
    (hR : ∀ s e s', M.step s e = some s' → R (f s) (f s')) {pre es : List ε} {s t : σ} (hs : M.run pre = some s)
    (ht : M.run (pre ++ es) = some t) : R (f s) (f t) :=
  M.invariant_from (I := fun u => R (f s) (f u)) hs (refl_of R (f s))
    (fun u e u' _ hu hstep => trans_of R hu (hR u e u' hstep)) ht

/-- Every step of the run is taken in a state that meets the guard for its event. -/
def Guarded (G : σ → ε → Prop) (es : List ε) : Prop :=
  ∀ pre e s, pre ++ [e] <+: es → M.run pre = some s → G s e

/-- Every state the run goes through, its start and its end included, has the property. -/
def Always (P : σ → Prop) (es : List ε) : Prop := ∀ pre s, pre <+: es → M.run pre = some s → P s

variable {M}

theorem guarded_nil (G : σ → ε → Prop) : M.Guarded G [] := by
  intro pre e s hpre
  exact absurd (List.prefix_nil.mp hpre) (by simp)

/-- What comes first in a guarded run is guarded. -/
theorem Guarded.of_prefix {G : σ → ε → Prop} {es es' : List ε} (h : M.Guarded G es') (hpre : es <+: es') : M.Guarded G es :=
  fun pre e s he => h pre e s (he.trans hpre)

/-- A run with one more event is guarded when the run is, and the event meets the guard in the state the run leaves. -/
theorem guarded_snoc {G : σ → ε → Prop} {es : List ε} {e : ε} :
    M.Guarded G (es ++ [e]) ↔ M.Guarded G es ∧ ∀ s, M.run es = some s → G s e := by
  constructor
  · intro h
    exact ⟨fun pre e' s hpre hs => h pre e' s (hpre.trans (List.prefix_append _ _)) hs,
      fun s hs => h es e s (List.prefix_refl _) hs⟩
  · rintro ⟨h, he⟩ pre e' s hpre hs
    rcases List.prefix_concat_iff.mp hpre with heq | hpre
    · obtain ⟨rfl, hlast⟩ := List.append_inj' heq rfl
      obtain rfl := List.singleton_inj.mp hlast
      exact he s hs
    · exact h pre e' s hpre hs

/-- Events that meet the guard in every state leave a run guarded. -/
theorem Guarded.append {G : σ → ε → Prop} {es es' : List ε} (h : M.Guarded G es) (h' : ∀ e ∈ es', ∀ s, G s e) :
    M.Guarded G (es ++ es') := by
  induction es' using List.reverseRecOn with
  | nil => rwa [List.append_nil]
  | append_singleton l e ih =>
    rw [List.forall_mem_append, List.forall_mem_singleton] at h'
    rw [← List.append_assoc]
    exact guarded_snoc.mpr ⟨ih h'.1, fun s _ => h'.2 s⟩

/-- A guard that looks at the events only. -/
theorem guarded_events_iff {p : ε → Prop} :
    ∀ {es : List ε} {s : σ}, M.run es = some s → (M.Guarded (fun _ => p) es ↔ ∀ e ∈ es, p e) := by
  intro es
  induction es using List.reverseRecOn with
  | nil => exact fun _ => iff_of_true (guarded_nil _) (fun e he => absurd he List.not_mem_nil)
  | append_singleton l e ih =>
    intro s hs
    obtain ⟨t, ht, -⟩ := M.run_snoc_eq_some.mp hs
    rw [guarded_snoc, ih ht, List.forall_mem_append, List.forall_mem_singleton]
    exact and_congr_right fun _ => ⟨fun h => h t ht, fun h _ _ => h⟩

theorem always_nil {P : σ → Prop} : M.Always P [] ↔ P M.init := by
  constructor
  · exact fun h => h [] M.init (List.prefix_refl _) rfl
  · intro h pre s hpre hs
    rw [List.prefix_nil.mp hpre, run_nil, Option.some.injEq] at hs
    exact hs ▸ h

/-- A run with one more event has the property throughout when the run has, and the state it leaves. -/
theorem always_snoc {P : σ → Prop} {es : List ε} {e : ε} :
    M.Always P (es ++ [e]) ↔ M.Always P es ∧ ∀ s, M.run (es ++ [e]) = some s → P s := by
  constructor
  · intro h
    exact ⟨fun pre s hpre hs => h pre s (hpre.trans (List.prefix_append _ _)) hs,
      fun s hs => h _ s (List.prefix_refl _) hs⟩
  · rintro ⟨h, he⟩ pre s hpre hs
    rcases List.prefix_concat_iff.mp hpre with rfl | hpre
    · exact he s hs
    · exact h pre s hpre hs

/-- In a run whose steps all meet the guard, what guarded steps keep holds at the end. -/
theorem Guarded.invariant {G : σ → ε → Prop} {I : σ → Prop} (h0 : I M.init)
    (hstep : ∀ s e s', I s → G s e → M.step s e = some s' → I s') :
    ∀ {es : List ε} {s : σ}, M.Guarded G es → M.run es = some s → I s := by
  intro es
  induction es using List.reverseRecOn with
  | nil =>
    intro s _ h
    rw [run_nil, Option.some.injEq] at h
    exact h ▸ h0
  | append_singleton l e ih =>
    intro s hg h
    obtain ⟨t, ht, hs⟩ := M.run_snoc_eq_some.mp h
    obtain ⟨hl, he⟩ := guarded_snoc.mp hg
    exact hstep t e s (ih hl ht) (he t ht) hs

/-- The run rule for a guard: when guarded steps keep the invariant `I`, `I` gives the property `P`, and a step that does not
meet the guard leaves a state without `P`, then a run has `P` throughout exactly when all its steps meet the guard. -/
theorem always_iff_guarded {G : σ → ε → Prop} {I P : σ → Prop} (h0 : I M.init)
    (hstep : ∀ s e s', I s → G s e → M.step s e = some s' → I s') (hP : ∀ s, I s → P s)
    (hbad : ∀ s e s', I s → ¬G s e → M.step s e = some s' → ¬P s') :
    ∀ {es : List ε} {s : σ}, M.run es = some s → (M.Always P es ↔ M.Guarded G es) := by
  intro es
  induction es using List.reverseRecOn with
  | nil => exact fun _ => iff_of_true (always_nil.mpr (hP _ h0)) (guarded_nil G)
  | append_singleton l e ih =>
    intro s hs
    obtain ⟨t, ht, hst⟩ := M.run_snoc_eq_some.mp hs
    rw [always_snoc, guarded_snoc, ih ht]
    -- Along the guarded run the invariant holds, and then the last step decides.
    refine and_congr_right fun hg => ?_
    have hI : I t := Guarded.invariant h0 hstep hg ht
    constructor
    · intro hp t' ht'
      obtain rfl : t = t' := Option.some.inj (ht.symm.trans ht')
      by_contra hng
      exact hbad t e s hI hng hst (hp s hs)
    · intro hg' s' hs'
      obtain rfl : s = s' := Option.some.inj (hs.symm.trans hs')
      exact hP s (hstep t e s hI (hg' t ht) hst)

/-- Where the goal is not reached yet, some event leads nearer to it. So from the end of every run it can be reached, by
such events. -/
theorem exists_reaching {α : Type} [LT α] [WellFoundedLT α] (μ : σ → α) {I J : σ → Prop} {G : σ → ε → Prop} {p : ε → Prop}
    (hstep : ∀ s, I s → ¬J s → ∃ e t, p e ∧ G s e ∧ M.step s e = some t ∧ I t ∧ μ t < μ s) {es : List ε} {s : σ}
    (h : M.run es = some s) (hs : I s) (hg : M.Guarded G es) :
    ∃ es' t, (∀ e ∈ es', p e) ∧ M.run (es ++ es') = some t ∧ M.Guarded G (es ++ es') ∧ I t ∧ J t := by
  induction hn : μ s using WellFoundedLT.induction generalizing es s with
  | ind n ih =>
    by_cases hgoal : J s
    · exact ⟨[], s, fun e he => absurd he List.not_mem_nil, by rwa [List.append_nil], by rwa [List.append_nil], hs, hgoal⟩
    · obtain ⟨e, t, hp, hG, ht, hI, hlt⟩ := hstep s hs hgoal
      have hguarded : M.Guarded G (es ++ [e]) := by
        refine guarded_snoc.mpr ⟨hg, fun s' hs' => ?_⟩
        obtain rfl : s = s' := Option.some.inj (h.symm.trans hs')
        exact hG
      obtain ⟨es', u, hps, hu, hgu, hrest⟩ := ih _ (hn ▸ hlt) (M.run_snoc_eq_some.mpr ⟨s, h, ht⟩) hI hguarded rfl
      rw [List.append_assoc] at hu hgu
      exact ⟨e :: es', u, List.forall_mem_cons.mpr ⟨hp, hps⟩, hu, hgu, hrest⟩

/-! ## Fewer events -/

variable (M) in
/-- The machine with the legal steps only. -/
def restrict (legal : ε → Bool) : Machine σ ε where
  init := M.init
  step s e := if legal e then M.step s e else none

theorem step_of_restrict {legal : ε → Bool} {s s' : σ} {e : ε} (h : (M.restrict legal).step s e = some s') :
    legal e = true ∧ M.step s e = some s' := by
  simp only [restrict] at h
  split at h
  · rename_i hl
    exact ⟨hl, h⟩
  · cases h

end Machine
