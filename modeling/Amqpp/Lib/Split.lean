import Mathlib.Data.List.Basic

/-!
# Splitting at separators

`Pieces p s ts`: cut at every separator, `s` falls into `ts`, empty pieces kept. A list falls into pieces in one way
(`pieces_iff`), the one `List.splitOnP` computes, and a list without separators is among them exactly when it occurs in `s`
with a separator or an end on either side (`Pieces.mem_iff`).
-/

namespace Split

variable {α : Type} {p : α → Bool} {s t : List α} {ts : List (List α)}

/-- `ts` are the parts of `s` before, between and after the separators. -/
inductive Pieces (p : α → Bool) : List α → List (List α) → Prop where
  | last {t : List α} (ht : ∀ a ∈ t, p a = false) : Pieces p t [t]
  | cons {t s : List α} {sep : α} {ts : List (List α)} (ht : ∀ a ∈ t, p a = false) (hsep : p sep = true)
      (h : Pieces p s ts) : Pieces p (t ++ sep :: s) (t :: ts)

/-- `t` occurs in `s` with a separator or the start of `s` before it, and a separator or the end of `s` after it. -/
def Delimited (p : α → Bool) (t s : List α) : Prop :=
  ∃ pre post, s = pre ++ t ++ post ∧ (∀ a ∈ pre.getLast?, p a = true) ∧ ∀ a ∈ post.head?, p a = true

/-! ## One list of pieces -/

theorem Pieces.eq_splitOnP (h : Pieces p s ts) : ts = s.splitOnP p := by
  induction h with
  | last ht => exact (List.splitOnP_eq_singleton ht).symm
  | cons ht hsep _ ih => rw [List.splitOnP_append_cons_of_forall_mem ht _ hsep, ← ih]

/-- An element in front goes to the first piece, or ends an empty one. -/
theorem Pieces.exists_cons (h : Pieces p s ts) (a : α) : ∃ ts', Pieces p (a :: s) ts' := by
  cases ha : p a with
  | true => exact ⟨[] :: ts, Pieces.cons (t := []) (by simp) ha h⟩
  | false =>
    cases h with
    | last ht => exact ⟨_, Pieces.last (List.forall_mem_cons.mpr ⟨ha, ht⟩)⟩
    | @cons t s sep ts ht hsep h => exact ⟨_, Pieces.cons (t := a :: t) (List.forall_mem_cons.mpr ⟨ha, ht⟩) hsep h⟩

theorem exists_pieces (p : α → Bool) (s : List α) : ∃ ts, Pieces p s ts := by
  induction s with
  | nil => exact ⟨[[]], Pieces.last (by simp)⟩
  | cons a s ih =>
    obtain ⟨ts, h⟩ := ih
    exact h.exists_cons a

/-- A list falls into the pieces that `List.splitOnP` gives, and into no others. -/
theorem pieces_iff : Pieces p s ts ↔ ts = s.splitOnP p := by
  constructor
  · exact Pieces.eq_splitOnP
  · rintro rfl
    obtain ⟨ts, h⟩ := exists_pieces p s
    exact h.eq_splitOnP ▸ h

/-! ## What is among the pieces -/

theorem Pieces.not_separator (h : Pieces p s ts) : ∀ t ∈ ts, ∀ a ∈ t, p a = false := by
  induction h with
  | last ht =>
    intro t hmem
    rw [List.mem_singleton.mp hmem]
    exact ht
  | cons ht _ _ ih => exact List.forall_mem_cons.mpr ⟨ht, ih⟩

/-- Every piece is delimited. -/
theorem Pieces.delimited (h : Pieces p s ts) : ∀ t ∈ ts, Delimited p t s := by
  induction h with
  | last ht =>
    intro t hmem
    rw [List.mem_singleton.mp hmem]
    exact ⟨[], [], by simp, by simp, by simp⟩
  | @cons t₀ s sep ts ht hsep h ih =>
    refine List.forall_mem_cons.mpr ⟨⟨[], sep :: s, by simp, by simp, by simpa using hsep⟩, fun t hmem => ?_⟩
    obtain ⟨pre, post, rfl, hpre, hpost⟩ := ih t hmem
    refine ⟨t₀ ++ sep :: pre, post, by simp, fun a ha => ?_, hpost⟩
    -- The separator in front ends what precedes an occurrence at the start of the rest.
    cases pre with
    | nil =>
      obtain rfl : sep = a := by simpa using ha
      exact hsep
    | cons b pre => exact hpre a (by simpa using ha)

/-- With no separator in front of an occurrence but the last element, nothing precedes it. -/
theorem eq_nil_of_getLast? {pre : List α} (hnot : ∀ a ∈ pre, p a = false) (hlast : ∀ a ∈ pre.getLast?, p a = true) :
    pre = [] := by
  cases h : pre.getLast? with
  | none => exact List.getLast?_eq_none_iff.mp h
  | some a =>
    have hfalse := hnot a (List.mem_of_getLast? h)
    rw [hlast a h] at hfalse
    cases hfalse

theorem eq_nil_of_head? {post : List α} (hnot : ∀ a ∈ post, p a = false) (hhead : ∀ a ∈ post.head?, p a = true) :
    post = [] := by
  cases post with
  | nil => rfl
  | cons a post =>
    have hfalse := hnot a List.mem_cons_self
    rw [hhead a rfl] at hfalse
    cases hfalse

/-- Two parts without a separator, each up to a separator or the end, are equal when they start at the same place. -/
theorem prefix_unique {t u post post' : List α} (h : t ++ post = u ++ post') (ht : ∀ a ∈ t, p a = false)
    (hu : ∀ a ∈ u, p a = false) (hpost : ∀ a ∈ post.head?, p a = true) (hpost' : ∀ a ∈ post'.head?, p a = true) :
    t = u := by
  rcases List.append_eq_append_iff.mp h with ⟨c, rfl, rfl⟩ | ⟨c, rfl, rfl⟩
  · have hnil : c = [] := by
      refine eq_nil_of_head? (fun a ha => hu a (List.mem_append_right t ha)) fun a ha => hpost a ?_
      rw [List.head?_append, Option.mem_def.mp ha]
      rfl
    rw [hnil, List.append_nil]
  · have hnil : c = [] := by
      refine eq_nil_of_head? (fun a ha => ht a (List.mem_append_right u ha)) fun a ha => hpost' a ?_
      rw [List.head?_append, Option.mem_def.mp ha]
      rfl
    rw [hnil, List.append_nil]

/-- A delimited part without a separator is a piece. -/
theorem Pieces.mem_of_delimited (h : Pieces p s ts) (ht : ∀ a ∈ t, p a = false) (hd : Delimited p t s) : t ∈ ts := by
  induction h with
  | @last t₀ ht₀ =>
    obtain ⟨pre, post, rfl, hpre, hpost⟩ := hd
    obtain rfl := eq_nil_of_getLast? (fun a ha => ht₀ a (by simp [ha])) hpre
    obtain rfl := eq_nil_of_head? (fun a ha => ht₀ a (by simp [ha])) hpost
    simp
  | @cons t₀ s sep ts ht₀ hsep h ih =>
    obtain ⟨pre, post, heq, hpre, hpost⟩ := hd
    rw [List.append_assoc] at heq
    rcases List.append_eq_append_iff.mp heq with ⟨c, rfl, hc⟩ | ⟨c, rfl, hc⟩
    · cases c with
      | nil =>
        -- The occurrence starts at the separator: it is empty, and so is the first piece.
        obtain rfl := eq_nil_of_getLast? ht₀ (by simpa using hpre)
        have hempty : t = [] := by
          cases t with
          | nil => rfl
          | cons a t =>
            obtain ⟨rfl, -⟩ := List.cons.inj hc
            rw [ht sep List.mem_cons_self] at hsep
            cases hsep
        rw [hempty]
        exact List.mem_cons_self
      | cons b c =>
        obtain ⟨rfl, rfl⟩ := List.cons.inj hc
        refine List.mem_cons_of_mem _ (ih ⟨c, post, (List.append_assoc c t post).symm, fun a ha => hpre a ?_, hpost⟩)
        cases c with
        | nil => cases ha
        | cons b' c => simpa using ha
    · -- The occurrence starts inside the first piece, so at its start.
      obtain rfl := eq_nil_of_getLast? (fun a ha => ht₀ a (List.mem_append_left c ha)) hpre
      have heq' : t = c := prefix_unique hc ht (fun a ha => ht₀ a ha) hpost (by simpa using hsep)
      rw [heq']
      exact List.mem_cons_self

/-- The pieces are the delimited parts without a separator. -/
theorem Pieces.mem_iff (h : Pieces p s ts) : t ∈ ts ↔ (∀ a ∈ t, p a = false) ∧ Delimited p t s :=
  ⟨fun hmem => ⟨h.not_separator t hmem, h.delimited t hmem⟩, fun hd => h.mem_of_delimited hd.1 hd.2⟩

end Split
