import Amqpp.Lib.Machine
import Amqpp.Lib.Prog
import Mathlib.Data.Option.Basic

/-!
# Programs and machines that do alike

Two programs are alike from two states when they end in the same way, with the same value or the same exception, and leave
states that are related again. What is composed of programs that are alike is alike, and machines whose steps are alike have
the same runs, through related states.
-/

/-- Two endings of the same kind, with the same value or exception, in related states. -/
inductive Outcome.Alike {ε σ τ α : Type} (R : σ → τ → Prop) : Outcome ε σ α → Outcome ε τ α → Prop where
  | ok (a : α) {s : σ} {t : τ} (h : R s t) : Alike R (.ok a s) (.ok a t)
  | throws (e : ε) {s : σ} {t : τ} (h : R s t) : Alike R (.throws e s) (.throws e t)
  | undefined : Alike R .undefined .undefined

theorem Outcome.Alike.imp {ε σ τ α : Type} {R R' : σ → τ → Prop} {o : Outcome ε σ α} {o' : Outcome ε τ α} (h : o.Alike R o')
    (hR : ∀ s t, R s t → R' s t) : o.Alike R' o' := by
  cases h with
  | ok a h => exact .ok a (hR _ _ h)
  | throws e h => exact .throws e (hR _ _ h)
  | undefined => exact .undefined

namespace Prog

variable {ε σ τ α β : Type} {R : σ → τ → Prop}

/-- From related states the two programs end alike. -/
def Alike (R : σ → τ → Prop) (x : Prog ε σ α) (y : Prog ε τ α) : Prop := ∀ s t, R s t → (x s).Alike R (y t)

namespace Alike

theorem pure (a : α) : Alike R (pure a : Prog ε σ α) (pure a : Prog ε τ α) := fun _ _ h => .ok a h

theorem throw (e : ε) : Alike R (throw e : Prog ε σ α) (throw e : Prog ε τ α) := fun _ _ h => .throws e h

theorem lift (x : Except ε α) : Alike R (lift x : Prog ε σ α) (lift x : Prog ε τ α) := by
  intro s t h
  cases x with
  | ok a => exact .ok a h
  | error e => exact .throws e h

theorem modify {f : σ → σ} {g : τ → τ} (h : ∀ s t, R s t → R (f s) (g t)) :
    Alike R (modify f : Prog ε σ PUnit) (modify g : Prog ε τ PUnit) := fun s t hst =>
  Outcome.Alike.ok PUnit.unit (h s t hst)

/-- A change that may fail fails in both or in none. -/
theorem update {f : σ → Except ε σ} {g : τ → Except ε τ}
    (h : ∀ s t, R s t → (∃ s' t', f s = .ok s' ∧ g t = .ok t' ∧ R s' t') ∨ ∃ e, f s = .error e ∧ g t = .error e) :
    Alike R (update f) (update g) := by
  intro s t hst
  unfold Prog.update
  rcases h s t hst with ⟨s', t', hs, ht, hst'⟩ | ⟨e, hs, ht⟩
  · rw [hs, ht]
    exact .ok _ hst'
  · rw [hs, ht]
    exact .throws e hst

/-- The rest of a program after what comes first. -/
theorem bind_apply {x : Prog ε σ α} {y : Prog ε τ α} {f : α → Prog ε σ β} {g : α → Prog ε τ β} {s : σ} {t : τ}
    (h : (x s).Alike R (y t)) (hf : ∀ a, Alike R (f a) (g a)) : ((x >>= f) s).Alike R ((y >>= g) t) := by
  rw [Prog.bind_apply, Prog.bind_apply]
  generalize x s = o, y t = o' at h
  cases h with
  | ok a h => exact hf a _ _ h
  | throws e h => exact .throws e h
  | undefined => exact .undefined

theorem bind {x : Prog ε σ α} {y : Prog ε τ α} {f : α → Prog ε σ β} {g : α → Prog ε τ β} (h : Alike R x y)
    (hf : ∀ a, Alike R (f a) (g a)) : Alike R (x >>= f) (y >>= g) := fun s t hst => bind_apply (h s t hst) hf

theorem tryCatch {x : Prog ε σ α} {y : Prog ε τ α} {f : ε → Prog ε σ α} {g : ε → Prog ε τ α} (h : Alike R x y)
    (hf : ∀ e, Alike R (f e) (g e)) : Alike R (tryCatch x f) (tryCatch y g) := by
  intro s t hst
  have hx := h s t hst
  rw [tryCatch_apply, tryCatch_apply]
  generalize x s = o, y t = o' at hx
  cases hx with
  | ok a h => exact .ok a h
  | throws e h => exact hf e _ _ h
  | undefined => exact .undefined

/-- A program on a part that both states have, and that is put back alike. -/
theorem zoom {υ : Type} {view : σ → Option υ} {view' : τ → Option υ} {put : υ → σ → σ} {put' : υ → τ → τ} {x : Prog ε υ α}
    (hview : ∀ s t, R s t → view s = view' t) (hput : ∀ u s t, R s t → R (put u s) (put' u t)) :
    Alike R (Prog.zoom view put x) (Prog.zoom view' put' x) := by
  intro s t h
  unfold Prog.zoom
  rw [← hview s t h]
  cases view s with
  | none => exact .undefined
  | some u =>
    cases hx : x u with
    | ok a u' => simpa only [hx] using .ok a (hput u' s t h)
    | throws e u' => simpa only [hx] using .throws e (hput u' s t h)
    | undefined => simpa only [hx] using .undefined

end Alike

end Prog

/-! ## Machines -/

namespace Machine

/-- What is asked of the results, where there are any. -/
theorem forall_iff_of_rel {α β : Type} {R : α → β → Prop} {P : α → Prop} {Q : β → Prop} {a : Option α} {b : Option β}
    (h : Option.Rel R a b) (hPQ : ∀ x y, R x y → (P x ↔ Q y)) : (∀ x, a = some x → P x) ↔ ∀ y, b = some y → Q y := by
  cases h with
  | none => exact iff_of_true nofun nofun
  | some h => simpa using hPQ _ _ h

variable {σ τ ε : Type} {M : Machine σ ε} {N : Machine τ ε} {R : σ → τ → Prop}

/-- The machines start in related states, and in related states they can take the same steps to related states. -/
structure Bisimilar (M : Machine σ ε) (N : Machine τ ε) (R : σ → τ → Prop) : Prop where
  init : R M.init N.init
  step : ∀ s t e, R s t → Option.Rel R (M.step s e) (N.step t e)

namespace Bisimilar

variable (h : Bisimilar M N R)

include h

/-- They have the same runs, to related states. -/
theorem run (es : List ε) : Option.Rel R (M.run es) (N.run es) := by
  induction es using List.reverseRecOn with
  | nil => exact .some h.init
  | append_singleton es e ih =>
    rw [run_snoc, run_snoc]
    generalize M.run es = s, N.run es = t at ih
    cases ih with
    | none => exact .none
    | some hst => exact h.step _ _ e hst

theorem exists_run {es : List ε} {s : σ} (hs : M.run es = some s) : ∃ t, N.run es = some t ∧ R s t := by
  have hrun := h.run es
  rw [hs] at hrun
  generalize ht : N.run es = t at hrun
  cases hrun with
  | some hst => exact ⟨_, rfl, hst⟩

theorem exists_run' {es : List ε} {t : τ} (ht : N.run es = some t) : ∃ s, M.run es = some s ∧ R s t := by
  have hrun := h.run es
  rw [ht] at hrun
  generalize hs : M.run es = s at hrun
  cases hrun with
  | some hst => exact ⟨_, rfl, hst⟩

/-- What related states share holds throughout the same runs. -/
theorem always_iff {P : σ → Prop} {Q : τ → Prop} (hPQ : ∀ s t, R s t → (P s ↔ Q t)) (es : List ε) :
    M.Always P es ↔ N.Always Q es := by
  constructor
  · intro hP pre t hpre ht
    obtain ⟨s, hs, hst⟩ := h.exists_run' ht
    exact (hPQ s t hst).mp (hP pre s hpre hs)
  · intro hQ pre s hpre hs
    obtain ⟨t, ht, hst⟩ := h.exists_run hs
    exact (hPQ s t hst).mpr (hQ pre t hpre ht)

theorem guarded_iff {G : σ → ε → Prop} {H : τ → ε → Prop} (hGH : ∀ s t e, R s t → (G s e ↔ H t e)) (es : List ε) :
    M.Guarded G es ↔ N.Guarded H es := by
  constructor
  · intro hG pre e t hpre ht
    obtain ⟨s, hs, hst⟩ := h.exists_run' ht
    exact (hGH s t e hst).mp (hG pre e s hpre hs)
  · intro hH pre e s hpre hs
    obtain ⟨t, ht, hst⟩ := h.exists_run hs
    exact (hGH s t e hst).mpr (hH pre e t hpre ht)

end Bisimilar

end Machine
