import Mathlib.Data.List.Basic

/-!
# Programs with state, exceptions and undefined behaviour

A program runs from a state and ends with a value, with an exception (the state keeps what was done before the throw), or in
undefined behaviour, after which nothing is said. `Prog.Within R` is the frame rule: every ending of the program leaves a
state related by `R` to the one it started from. It composes when `R` is reflexive and transitive.
-/

/-- How a program ends. -/
inductive Outcome (ε σ α : Type) where
  | ok (a : α) (s : σ)
  | throws (e : ε) (s : σ)
  | undefined
  deriving Repr

/-- Every ending that has a state leaves one with `P`. -/
@[simp] def Outcome.Leaves {ε σ α : Type} (P : σ → Prop) : Outcome ε σ α → Prop
  | .ok _ s => P s
  | .throws _ s => P s
  | .undefined => True

/-- The ending has a state, and one with `P`. -/
@[simp] def Outcome.Ends {ε σ α : Type} (P : σ → Prop) : Outcome ε σ α → Prop
  | .ok _ s => P s
  | .throws _ s => P s
  | .undefined => False

theorem Outcome.Leaves.imp {ε σ α : Type} {P Q : σ → Prop} {o : Outcome ε σ α} (h : o.Leaves P) (hPQ : ∀ s, P s → Q s) :
    o.Leaves Q := by
  cases o with
  | ok a s => exact hPQ s h
  | throws e s => exact hPQ s h
  | undefined => trivial

theorem Outcome.Ends.imp {ε σ α : Type} {P Q : σ → Prop} {o : Outcome ε σ α} (h : o.Ends P) (hPQ : ∀ s, P s → Q s) :
    o.Ends Q := by
  cases o with
  | ok a s => exact hPQ s h
  | throws e s => exact hPQ s h
  | undefined => exact h

theorem Outcome.Ends.leaves {ε σ α : Type} {P : σ → Prop} {o : Outcome ε σ α} (h : o.Ends P) : o.Leaves P := by
  cases o with
  | ok a s => exact h
  | throws e s => exact h
  | undefined => exact h.elim

/-- There is one ending. -/
theorem Outcome.Ends.unique {ε σ α : Type} {o : Outcome ε σ α} {s t : σ} (hs : o.Ends (· = s)) (ht : o.Ends (· = t)) : s = t := by
  cases o with
  | ok a u => exact hs.symm.trans ht
  | throws e u => exact hs.symm.trans ht
  | undefined => exact hs.elim

/-- A program over the state `σ` that may throw an `ε`. -/
def Prog (ε σ α : Type) : Type := σ → Outcome ε σ α

namespace Prog

variable {ε σ α β : Type}

protected def pure (a : α) : Prog ε σ α := fun s => .ok a s

protected def bind (x : Prog ε σ α) (f : α → Prog ε σ β) : Prog ε σ β := fun s =>
  match x s with
  | .ok a s' => f a s'
  | .throws e s' => .throws e s'
  | .undefined => .undefined

instance : Monad (Prog ε σ) where
  pure := Prog.pure
  bind := Prog.bind

instance : MonadStateOf σ (Prog ε σ) where
  get := fun s => .ok s s
  set s' := fun _ => .ok () s'
  modifyGet f := fun s => .ok (f s).1 (f s).2

/-- A `try` block: the handler runs in the state the throw left. -/
protected def tryCatch (x : Prog ε σ α) (h : ε → Prog ε σ α) : Prog ε σ α := fun s =>
  match x s with
  | .ok a s' => .ok a s'
  | .throws e s' => h e s'
  | .undefined => .undefined

instance : MonadExceptOf ε (Prog ε σ) where
  throw e := fun s => .throws e s
  tryCatch := Prog.tryCatch

/-- Undefined behaviour. -/
def undefined : Prog ε σ α := fun _ => .undefined

/-- A fallible computation that does not touch the state. -/
def lift (x : Except ε α) : Prog ε σ α := fun s =>
  match x with
  | .ok a => .ok a s
  | .error e => .throws e s

/-- A change of the state that may fail, and then leaves it alone. -/
def update (f : σ → Except ε σ) : Prog ε σ Unit := fun s =>
  match f s with
  | .ok s' => .ok () s'
  | .error e => .throws e s

/-- Run a program on a part of the state: `view` finds it, `put` puts back what became of it. Without the part it is
undefined. -/
def zoom {τ : Type} (view : σ → Option τ) (put : τ → σ → σ) (x : Prog ε τ α) : Prog ε σ α := fun s =>
  match view s with
  | none => .undefined
  | some t =>
    match x t with
    | .ok a t => .ok a (put t s)
    | .throws e t => .throws e (put t s)
    | .undefined => .undefined

/-! ## Running a program -/

@[simp] theorem pure_apply (a : α) (s : σ) : (pure a : Prog ε σ α) s = .ok a s := rfl

@[simp] theorem bind_apply (x : Prog ε σ α) (f : α → Prog ε σ β) (s : σ) :
    (x >>= f) s = match x s with
      | .ok a s' => f a s'
      | .throws e s' => .throws e s'
      | .undefined => .undefined := rfl

/-- Two programs in a row that return. -/
theorem bind_eq_ok {x : Prog ε σ α} {f : α → Prog ε σ β} {s t : σ} {b : β} :
    (x >>= f) s = .ok b t ↔ ∃ a u, x s = .ok a u ∧ f a u = .ok b t := by
  rw [bind_apply]
  cases x s <;> simp

@[simp] theorem get_apply (s : σ) : (get : Prog ε σ σ) s = .ok s s := rfl

@[simp] theorem modify_apply (f : σ → σ) (s : σ) : (modify f : Prog ε σ PUnit) s = .ok ⟨⟩ (f s) := rfl

@[simp] theorem throw_apply (e : ε) (s : σ) : (throw e : Prog ε σ α) s = .throws e s := rfl

@[simp] theorem tryCatch_apply (x : Prog ε σ α) (h : ε → Prog ε σ α) (s : σ) :
    (tryCatch x h) s = match x s with
      | .ok a s' => .ok a s'
      | .throws e s' => h e s'
      | .undefined => .undefined := rfl

theorem undefined_apply (s : σ) : (undefined : Prog ε σ α) s = .undefined := rfl

@[simp] theorem lift_ok (a : α) (s : σ) : (lift (.ok a) : Prog ε σ α) s = .ok a s := rfl

@[simp] theorem lift_error (e : ε) (s : σ) : (lift (.error e) : Prog ε σ α) s = .throws e s := rfl

theorem update_of_ok {f : σ → Except ε σ} {s s' : σ} (h : f s = .ok s') : update f s = .ok () s' := by
  rw [update, h]

theorem update_of_error {f : σ → Except ε σ} {s : σ} {e : ε} (h : f s = .error e) : update f s = .throws e s := by
  rw [update, h]

@[simp] theorem ite_apply (c : Prop) [Decidable c] (x y : Prog ε σ α) (s : σ) :
    (if c then x else y) s = if c then x s else y s := by
  split <;> rfl

/-- What a `try` block leaves, when its handler keeps what the throw left. -/
theorem leaves_tryCatch {x : Prog ε σ α} {h : ε → Prog ε σ α} {P : σ → Prop} {s : σ} (hx : (x s).Leaves P)
    (hh : ∀ e t, P t → (h e t).Leaves P) : (tryCatch x h s).Leaves P := by
  rw [tryCatch_apply]
  cases hxs : x s with
  | ok a t => simpa [hxs] using hx
  | throws e t => exact hh e t (by simpa [hxs] using hx)
  | undefined => trivial

/-- How one program after another ends. -/
theorem ends_bind {x : Prog ε σ α} {f : α → Prog ε σ β} {P : σ → Prop} {s : σ} (hok : ∀ a t, x s = .ok a t → (f a t).Ends P)
    (hthrows : ∀ e t, x s = .throws e t → P t) (hdefined : x s ≠ .undefined) : ((x >>= f) s).Ends P := by
  rw [bind_apply]
  cases h : x s with
  | ok a t => exact hok a t h
  | throws e t => exact hthrows e t h
  | undefined => exact absurd h hdefined

/-! ## The frame rule -/

/-- Whatever `x` does, it leaves a state related by `R` to the one it started from. -/
def Within (R : σ → σ → Prop) (x : Prog ε σ α) : Prop := ∀ s, (x s).Leaves (R s)

namespace Within

variable {R : σ → σ → Prop}

/-- Changing the state by a function that stays within `R`. -/
theorem modify {f : σ → σ} (h : ∀ s, R s (f s)) : Within R (modify f : Prog ε σ PUnit) := h

theorem undefined : Within R (undefined : Prog ε σ α) := fun _ => trivial

theorem mono {R' : σ → σ → Prop} {x : Prog ε σ α} (hx : Within R x) (h : ∀ s t, R s t → R' s t) : Within R' x := fun s =>
  (hx s).imp (h s)

/-- What a program on a part leaves: the part it found, and what it made of it put back. -/
theorem leaves_zoom {τ : Type} {view : σ → Option τ} {put : τ → σ → σ} {x : Prog ε τ α} {R' : τ → τ → Prop} (hx : Within R' x)
    (s : σ) : (Prog.zoom view put x s).Leaves fun u => ∃ t t', view s = some t ∧ R' t t' ∧ u = put t' s := by
  unfold Prog.zoom
  cases view s with
  | none => trivial
  | some t =>
    have ht := hx t
    simp only
    cases hxt : x t with
    | ok a t' =>
      rw [hxt] at ht
      exact ⟨t, t', rfl, ht, rfl⟩
    | throws e t' =>
      rw [hxt] at ht
      exact ⟨t, t', rfl, ht, rfl⟩
    | undefined => trivial

/-- A program on a part stays within `R` when what it makes of the part, put back, does. -/
theorem zoom {τ : Type} {view : σ → Option τ} {put : τ → σ → σ} {x : Prog ε τ α} {R' : τ → τ → Prop} (hx : Within R' x)
    (h : ∀ s t t', view s = some t → R' t t' → R s (put t' s)) : Within R (Prog.zoom view put x) := by
  intro s
  refine (leaves_zoom hx s).imp ?_
  rintro _ ⟨t, t', hv, ht, rfl⟩
  exact h s t t' hv ht

theorem ite {c : Prop} [Decidable c] {x y : Prog ε σ α} (hx : Within R x) (hy : Within R y) :
    Within R (if c then x else y) := by
  split
  · exact hx
  · exact hy

section refl

variable [Std.Refl R]

theorem pure (a : α) : Within R (pure a : Prog ε σ α) := fun s => Std.Refl.refl s

theorem throw (e : ε) : Within R (throw e : Prog ε σ α) := fun s => Std.Refl.refl s

theorem get : Within R (get : Prog ε σ σ) := fun s => Std.Refl.refl s

theorem lift (x : Except ε α) : Within R (lift x : Prog ε σ α) := by
  intro s
  cases x with
  | ok a => exact Std.Refl.refl s
  | error e => exact Std.Refl.refl s

theorem update {f : σ → Except ε σ} (h : ∀ s s', f s = .ok s' → R s s') : Within R (update f) := by
  intro s
  unfold Prog.update
  cases hf : f s with
  | ok s' => exact h s s' hf
  | error e => exact Std.Refl.refl s

end refl

section trans

variable [IsTrans σ R]

/-- What was left by a first program and taken further by a second. -/
theorem leaves_trans {o : Outcome ε σ β} {s t : σ} (h : R s t) (ho : o.Leaves (R t)) : o.Leaves (R s) := by
  cases o with
  | ok b u => exact trans_of R h ho
  | throws e u => exact trans_of R h ho
  | undefined => trivial

theorem bind {x : Prog ε σ α} {f : α → Prog ε σ β} (hx : Within R x) (hf : ∀ a, Within R (f a)) :
    Within R (x >>= f) := by
  intro s
  have h := hx s
  rw [bind_apply]
  cases hxs : x s with
  | ok a t => exact leaves_trans (by simpa [hxs] using h) (hf a t)
  | throws e t => simpa [hxs] using h
  | undefined => trivial

theorem tryCatch {x : Prog ε σ α} {hd : ε → Prog ε σ α} (hx : Within R x) (hh : ∀ e, Within R (hd e)) :
    Within R (tryCatch x hd) := by
  intro s
  have h := hx s
  rw [tryCatch_apply]
  cases hxs : x s with
  | ok a t => simpa [hxs] using h
  | throws e t => exact leaves_trans (by simpa [hxs] using h) (hh e t)
  | undefined => trivial

end trans

end Within

/-! ## Defined programs -/

/-- The program never ends in undefined behaviour. -/
def Defined (x : Prog ε σ α) : Prop := ∀ s, x s ≠ .undefined

namespace Defined

theorem pure (a : α) : Defined (pure a : Prog ε σ α) := nofun

theorem throw (e : ε) : Defined (throw e : Prog ε σ α) := nofun

theorem get : Defined (get : Prog ε σ σ) := nofun

theorem modify (f : σ → σ) : Defined (modify f : Prog ε σ PUnit) := nofun

theorem lift (x : Except ε α) : Defined (lift x : Prog ε σ α) := by
  intro s
  cases x <;> exact nofun

theorem update (f : σ → Except ε σ) : Defined (update f) := by
  intro s
  unfold Prog.update
  cases f s <;> exact nofun

theorem bind {x : Prog ε σ α} {f : α → Prog ε σ β} (hx : Defined x) (hf : ∀ a, Defined (f a)) : Defined (x >>= f) := by
  intro s
  rw [bind_apply]
  cases h : x s with
  | ok a t => exact hf a t
  | throws e t => exact nofun
  | undefined => exact absurd h (hx s)

theorem tryCatch {x : Prog ε σ α} {hd : ε → Prog ε σ α} (hx : Defined x) (hh : ∀ e, Defined (hd e)) :
    Defined (tryCatch x hd) := by
  intro s
  rw [tryCatch_apply]
  cases h : x s with
  | ok a t => exact nofun
  | throws e t => exact hh e t
  | undefined => exact absurd h (hx s)

theorem ite {c : Prop} [Decidable c] {x y : Prog ε σ α} (hx : Defined x) (hy : Defined y) :
    Defined (if c then x else y) := by
  split
  · exact hx
  · exact hy

end Defined

end Prog
