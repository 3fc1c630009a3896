import Amqpp.Lib.Prog

/-!
# Causal programs

A program that takes input from a stream and puts output on another one is causal when more input undoes nothing: where it
returned it returns the same value and leaves the new input alone, and where it threw, for want of input say, it has put out
no less. Causal programs compose like the programs they are made of.
-/

/-- How more input is fed to a state, and the output of a state so far. -/
structure Port (σ ι ο : Type) where
  feed : List ι → σ → σ
  sent : σ → List ο

/-- The same ending with the state changed. -/
@[simp] def Outcome.mapState {ε σ α : Type} (f : σ → σ) : Outcome ε σ α → Outcome ε σ α
  | .ok a s => .ok a (f s)
  | .throws e s => .throws e (f s)
  | .undefined => .undefined

namespace Prog

variable {ε σ α β ι ο : Type} {P : Port σ ι ο}

/-- The output so far is a prefix of the output later. -/
abbrev Port.Grows (P : Port σ ι ο) (s t : σ) : Prop := P.sent s <+: P.sent t

theorem Port.grows_of_eq {s t : σ} (h : P.sent s = P.sent t) : Port.Grows P s t :=
  ⟨[], (List.append_nil _).trans h⟩

/-- More input undoes nothing. -/
structure Causal (P : Port σ ι ο) (x : Prog ε σ α) : Prop where
  grows : Within (Port.Grows P) x
  ok : ∀ {s t a}, x s = .ok a t → ∀ more, x (P.feed more s) = .ok a (P.feed more t)
  throws : ∀ {s t e}, x s = .throws e t → ∀ more, (x (P.feed more s)).Leaves (Port.Grows P t)

instance : Std.Refl (Port.Grows P) := ⟨fun s => List.prefix_refl (P.sent s)⟩

instance : IsTrans σ (Port.Grows P) := ⟨fun _ _ _ h h' => h.trans h'⟩

namespace Causal

theorem pure (a : α) : Causal P (pure a : Prog ε σ α) where
  grows := Within.pure a
  ok h _ := by
    cases h
    rfl
  throws h _ := by cases h

/-- What throws whatever the state puts nothing out. -/
theorem throw (e : ε) (hsent : ∀ more s, P.sent (P.feed more s) = P.sent s) : Causal P (throw e : Prog ε σ α) where
  grows := Within.throw e
  ok h _ := by cases h
  throws {s t e'} h more := by
    cases h
    change P.sent s <+: P.sent (P.feed more s)
    exact (hsent more s).symm ▸ List.prefix_refl _

theorem lift (x : Except ε α) (hsent : ∀ more s, P.sent (P.feed more s) = P.sent s) : Causal P (lift x) := by
  cases x with
  | ok a => exact pure a
  | error e => exact throw e hsent

/-- A program that does not look at the input. -/
theorem of_mapState {x : Prog ε σ α} (hgrows : Within (Port.Grows P) x) (hsent : ∀ more s, P.sent (P.feed more s) = P.sent s)
    (hfeed : ∀ more s, x (P.feed more s) = (x s).mapState (P.feed more)) : Causal P x where
  grows := hgrows
  ok {s t a} h more := by rw [hfeed, h, Outcome.mapState]
  throws {s t e} h more := by
    rw [hfeed, h]
    change P.sent t <+: P.sent (P.feed more t)
    exact (hsent more t).symm ▸ List.prefix_refl _

/-- One program after another. -/
theorem bind {x : Prog ε σ α} {f : α → Prog ε σ β} (hx : Causal P x) (hf : ∀ a, Causal P (f a)) : Causal P (x >>= f) where
  grows := hx.grows.bind fun a => (hf a).grows
  ok {s t b} h more := by
    rw [bind_apply] at h ⊢
    cases hxs : x s with
    | ok a u =>
      rw [hxs] at h
      rw [hx.ok hxs more]
      exact (hf a).ok h more
    | throws e u =>
      rw [hxs] at h
      cases h
    | undefined =>
      rw [hxs] at h
      cases h
  throws {s t e} h more := by
    rw [bind_apply] at h ⊢
    cases hxs : x s with
    | ok a u =>
      rw [hxs] at h
      rw [hx.ok hxs more]
      exact (hf a).throws h more
    | throws e' u =>
      rw [hxs] at h
      cases h
      -- With more input `x` may return here, and what comes after it only adds to the output.
      have hleaves := hx.throws hxs more
      cases hfed : x (P.feed more s) with
      | ok a v =>
        rw [hfed] at hleaves
        exact Within.leaves_trans hleaves ((hf a).grows v)
      | throws e' v =>
        rw [hfed] at hleaves
        exact hleaves
      | undefined => trivial
    | undefined =>
      rw [hxs] at h
      cases h

theorem ite {c : Prop} [Decidable c] {x y : Prog ε σ α} (hx : Causal P x) (hy : Causal P y) : Causal P (if c then x else y) := by
  split
  · exact hx
  · exact hy

end Causal

end Prog
