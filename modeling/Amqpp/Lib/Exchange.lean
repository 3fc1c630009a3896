import Mathlib.Data.List.Basic

/-!
# Questions and answers

Questions are asked and answers come, with no sign of which question an answer is for: an answer goes to the question that
was asked last, and a question takes one answer only. So what became of each question can be read off the history: it has
the answer that comes next, it was overtaken when another question comes first, or it waits.
-/

/-- A question, or an answer. -/
inductive Signal (α β : Type) where
  | ask (a : α)
  | answer (b : β)

/-- What became of a question. -/
inductive Fate (β : Type) where
  | waiting
  | answered (b : β)
  | overtaken

namespace Fate

variable {β : Type}

/-- An answer comes. -/
def answer (b : β) : Fate β → Fate β
  | waiting => answered b
  | answered b => answered b
  | overtaken => overtaken

/-- An answer is of use only to a question that waits. -/
theorem answer_of_ne {f : Fate β} (h : f ≠ waiting) (b : β) : f.answer b = f := by
  cases f with
  | waiting => exact absurd rfl h
  | answered b' => rfl
  | overtaken => rfl

/-- Another question is asked. -/
def overtake : Fate β → Fate β
  | waiting => overtaken
  | answered b => answered b
  | overtaken => overtaken

end Fate

namespace Signal

variable {α β : Type}

/-- The answer that comes next. -/
def nextAnswer : List (Signal α β) → Option β
  | answer b :: _ => some b
  | _ => none

/-- What becomes of a question that was asked before. -/
def fate : List (Signal α β) → Fate β
  | [] => .waiting
  | answer b :: _ => .answered b
  | ask _ :: _ => .overtaken

/-- The questions in their order, each with what became of it. -/
def exchanges : List (Signal α β) → List (α × Fate β)
  | [] => []
  | ask a :: es => (a, fate es) :: exchanges es
  | answer _ :: es => exchanges es

/-- What comes later is not the next answer. -/
theorem nextAnswer_append {es : List (Signal α β)} (h : es ≠ []) (es' : List (Signal α β)) : nextAnswer (es ++ es') = nextAnswer es := by
  cases es with
  | nil => exact absurd rfl h
  | cons e es => cases e <;> rfl

/-- What comes later decides nothing. -/
theorem fate_append {es : List (Signal α β)} (h : es ≠ []) (es' : List (Signal α β)) : fate (es ++ es') = fate es := by
  cases es with
  | nil => exact absurd rfl h
  | cons e es => cases e <;> rfl

/-- Where a question was asked, something was said. -/
theorem ne_nil_of_exchanges {es : List (Signal α β)} (h : exchanges es ≠ []) : es ≠ [] := by
  rintro rfl
  exact h rfl

/-- A question on its own has no answer yet. -/
theorem nextAnswer_snoc_ask (es : List (Signal α β)) (a : α) : nextAnswer (es ++ [ask a]) = nextAnswer es := by
  rcases es with _ | ⟨e, es⟩
  · rfl
  · exact nextAnswer_append (List.cons_ne_nil e es) _

/-- As long as no question was asked, there are answers only. -/
theorem nextAnswer_snoc_of_nil {es : List (Signal α β)} (h : exchanges es = []) (b : β) :
    nextAnswer (es ++ [answer b]) = (nextAnswer es).or (some b) := by
  rcases es with _ | ⟨e, es⟩
  · rfl
  · cases e with
    | ask a => cases h
    | answer b' => rfl

/-- The first question waits. -/
theorem exchanges_snoc_ask_of_nil {es : List (Signal α β)} (h : exchanges es = []) (a : α) :
    exchanges (es ++ [ask a]) = [(a, .waiting)] := by
  induction es with
  | nil => rfl
  | cons e es ih =>
    cases e with
    | ask a' => cases h
    | answer b => exact ih h

/-- As long as no question was asked, answers come to nothing. -/
theorem exchanges_snoc_answer_of_nil {es : List (Signal α β)} (h : exchanges es = []) (b : β) : exchanges (es ++ [answer b]) = [] := by
  induction es with
  | nil => rfl
  | cons e es ih =>
    cases e with
    | ask a => cases h
    | answer b' => exact ih h

/-- After a question comes the next one, or an answer: what is said once more tells of the question that was asked last. -/
theorem exchanges_snoc {es : List (Signal α β)} {xs : List (α × Fate β)} {a : α} {o : Fate β} (h : exchanges es = xs ++ [(a, o)])
    (e : Signal α β) : exchanges (es ++ [e]) = xs ++ [(a, match e with
      | ask _ => o.overtake
      | answer b => o.answer b)] ++ exchanges [e] := by
  induction es generalizing xs with
  | nil => cases xs <;> cases h
  | cons e' es ih =>
    cases e' with
    | answer b' => exact ih h
    | ask a' =>
      rcases xs with _ | ⟨x, xs⟩
      · -- It is the first question, and the only one.
        simp only [exchanges, List.nil_append, List.cons.injEq, Prod.mk.injEq] at h
        obtain ⟨⟨rfl, rfl⟩, hnil⟩ := h
        cases e with
        | ask b =>
          rw [List.cons_append, exchanges, exchanges_snoc_ask_of_nil hnil]
          rcases es with _ | ⟨_ | _, es⟩
          · rfl
          · cases hnil
          · rfl
        | answer b =>
          rw [List.cons_append, exchanges, exchanges_snoc_answer_of_nil hnil]
          rcases es with _ | ⟨_ | _, es⟩
          · rfl
          · cases hnil
          · rfl
      · simp only [exchanges, List.cons_append, List.cons.injEq] at h
        obtain ⟨rfl, hxs⟩ := h
        have hne : es ≠ [] := ne_nil_of_exchanges (by rw [hxs]; simp)
        rw [List.cons_append, exchanges, fate_append hne, ih hxs]
        rfl

/-- A new question overtakes the last one, and waits. -/
theorem exchanges_snoc_ask {es : List (Signal α β)} {xs : List (α × Fate β)} {a : α} {o : Fate β} (h : exchanges es = xs ++ [(a, o)])
    (b : α) : exchanges (es ++ [ask b]) = xs ++ [(a, o.overtake)] ++ [(b, .waiting)] :=
  exchanges_snoc h (ask b)

/-- An answer goes to the question that was asked last, if that has none. -/
theorem exchanges_snoc_answer {es : List (Signal α β)} {xs : List (α × Fate β)} {a : α} {o : Fate β}
    (h : exchanges es = xs ++ [(a, o)]) (b : β) : exchanges (es ++ [answer b]) = xs ++ [(a, o.answer b)] :=
  (exchanges_snoc h (answer b)).trans (List.append_nil _)


/-- A question is overtaken by the next one. -/
theorem ne_nil_of_overtaken {es : List (Signal α β)} : ∀ {xs ys : List (α × Fate β)} {a : α},
    exchanges es = xs ++ (a, .overtaken) :: ys → ys ≠ [] := by
  induction es with
  | nil =>
    intro xs ys a h
    cases xs <;> cases h
  | cons e es ih =>
    intro xs ys a h
    cases e with
    | answer b => exact ih h
    | ask a' =>
      rcases xs with _ | ⟨x, xs⟩
      · simp only [exchanges, List.nil_append, List.cons.injEq, Prod.mk.injEq] at h
        obtain ⟨⟨rfl, hfate⟩, rfl⟩ := h
        rcases es with _ | ⟨_ | _, es⟩
        · cases hfate
        · exact List.cons_ne_nil _ _
        · cases hfate
      · simp only [exchanges, List.cons_append, List.cons.injEq] at h
        exact ih h.2

/-- Only the question that was asked last can wait. -/
theorem eq_last_of_waiting {es : List (Signal α β)} : ∀ {xs ys : List (α × Fate β)} {a : α},
    exchanges es = xs ++ (a, .waiting) :: ys → ys = [] := by
  induction es with
  | nil =>
    intro xs ys a h
    cases xs <;> cases h
  | cons e es ih =>
    intro xs ys a h
    cases e with
    | answer b => exact ih h
    | ask a' =>
      rcases xs with _ | ⟨x, xs⟩
      · simp only [exchanges, List.nil_append, List.cons.injEq, Prod.mk.injEq] at h
        obtain ⟨⟨rfl, hfate⟩, rfl⟩ := h
        rcases es with _ | ⟨_ | _, es⟩
        · rfl
        · cases hfate
        · cases hfate
      · simp only [exchanges, List.cons_append, List.cons.injEq] at h
        exact ih h.2

end Signal
