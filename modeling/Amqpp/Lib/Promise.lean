import Mathlib.Data.List.Basic

/-!
# Promises and futures

A promise holds nothing, then a value or an exception; a second attempt to give it one fails. One that is destroyed while it
holds nothing gets an exception of its own. A future belongs to a promise, or, when it was default constructed, to none: then
it is never ready. Where the promises live is left open: a future names
its promise, and whether a promise is satisfied is asked of the state around it.
-/

/-- A promise: not satisfied, or satisfied with a value or an exception. -/
inductive Promise (ε α : Type) where
  | unset
  | value (a : α)
  | exception (e : ε)
  deriving DecidableEq, Repr

namespace Promise

variable {ε α : Type}

/-- The promise has a value or an exception. -/
def isSatisfied : Promise ε α → Bool
  | unset => false
  | value _ | exception _ => true

/-- The value, once there is one. -/
def value? : Promise ε α → Option α
  | value a => some a
  | unset | exception _ => none

/-- Give a value, or fail with `already`. -/
def setValue (already : ε) (a : α) : Promise ε α → Except ε (Promise ε α)
  | unset => .ok (value a)
  | value _ | exception _ => .error already

/-- Give an exception, or fail with `already`. -/
def setException (already e : ε) : Promise ε α → Except ε (Promise ε α)
  | unset => .ok (exception e)
  | value _ | exception _ => .error already

/-- The promise is destroyed: as long as it is not satisfied, its future gets `broken`. -/
def destroy (broken : ε) : Promise ε α → Promise ε α
  | unset => exception broken
  | value a => value a
  | exception e => exception e

theorem eq_unset {p : Promise ε α} (h : p.isSatisfied = false) : p = unset := by
  cases p with
  | unset => rfl
  | value a => cases h
  | exception e => cases h

/-- Whoever waits for a promise waits no longer once it is destroyed. -/
theorem isSatisfied_destroy (broken : ε) (p : Promise ε α) : (p.destroy broken).isSatisfied = true := by
  cases p with
  | unset => rfl
  | value a => rfl
  | exception e => rfl

/-- What a promise holds outlives it. -/
theorem destroy_of_isSatisfied (broken : ε) {p : Promise ε α} (h : p.isSatisfied = true) : p.destroy broken = p := by
  cases p with
  | unset => cases h
  | value a => rfl
  | exception e => rfl

/-- A way to satisfy a promise, once: a second attempt fails with `already`. -/
structure Satisfies (already : ε) (set : Promise ε α → Except ε (Promise ε α)) : Prop where
  again : ∀ p, p.isSatisfied = true → set p = .error already
  first : ∃ p, set unset = .ok p ∧ p.isSatisfied = true

theorem satisfies_setValue (already : ε) (a : α) : Satisfies already (setValue already a) := by
  refine ⟨fun p h => ?_, value a, rfl, rfl⟩
  rcases p with _ | b | e
  · cases h
  · rfl
  · rfl

theorem satisfies_setException (already e : ε) : Satisfies (α := α) already (setException already e) := by
  refine ⟨fun p h => ?_, exception e, rfl, rfl⟩
  rcases p with _ | b | e
  · cases h
  · rfl
  · rfl

end Promise

/-- A future: the name of its promise, if it has one. -/
structure Future (ι : Type) where
  promise : Option ι
  deriving DecidableEq, Repr

namespace Future

variable {ι : Type} (satisfied : ι → Bool)

/-- The future's promise is satisfied. -/
def isReady (f : Future ι) : Bool := f.promise.any satisfied

/-- The first of the futures that is ready. While there is none the caller waits. -/
def waitForAny (fs : List (Future ι)) : Option Nat := fs.findIdx? (isReady satisfied)

end Future
