import Mathlib.Data.List.Basic

/-!
# Ordered maps as sorted lists

`std::map` as the list of its elements in key order, each key once. `insertBy` leaves the map alone when the key is present,
as `std::map::insert` does. Inserting a sorted list into the empty map, element by element, gives the list back
(`foldl_insertBy`): iterating over a map and inserting what one meets rebuilds it. After any insertions, a key has the first
element that was inserted under it (`find?_foldl_insertBy`), and elements with different keys can be inserted in any order
(`foldl_insertBy_perm`).
-/

namespace SortedMap

variable {α κ : Type} [LT κ]

/-- The keys ascend, so no two are equal. -/
def Sorted (key : α → κ) (m : List α) : Prop := m.Pairwise (fun a b => key a < key b)

variable [DecidableLT κ]

/-- Insert an element unless its key is present. -/
def insertBy (key : α → κ) (x : α) : List α → List α
  | [] => [x]
  | y :: ys => if key x < key y then x :: y :: ys else if key y < key x then y :: insertBy key x ys else y :: ys

/-- An element of the map after an insertion is the new one or an old one. -/
theorem mem_of_mem_insertBy {key : α → κ} {x z : α} {m : List α} (h : z ∈ insertBy key x m) : z = x ∨ z ∈ m := by
  induction m with
  | nil => exact Or.inl (by simpa [insertBy] using h)
  | cons y ys ih =>
    rw [insertBy] at h
    split at h
    · exact List.mem_cons.mp h
    · split at h
      · rcases List.mem_cons.mp h with rfl | h
        · exact Or.inr List.mem_cons_self
        · exact (ih h).imp_right (List.mem_cons_of_mem _)
      · exact Or.inr h

/-- An insertion keeps the map sorted. -/
theorem Sorted.insertBy [IsTrans κ (· < ·)] {key : α → κ} {x : α} {m : List α} (h : Sorted key m) :
    Sorted key (insertBy key x m) := by
  induction m with
  | nil => exact List.pairwise_singleton _ _
  | cons y ys ih =>
    obtain ⟨hy, hys⟩ := List.pairwise_cons.mp h
    rw [SortedMap.insertBy]
    split
    · rename_i hlt
      refine List.pairwise_cons.mpr ⟨fun z hz => ?_, h⟩
      rcases List.mem_cons.mp hz with rfl | hz
      · exact hlt
      · exact trans_of (· < ·) hlt (hy z hz)
    · split
      · rename_i hlt
        refine List.pairwise_cons.mpr ⟨fun z hz => ?_, ih hys⟩
        rcases mem_of_mem_insertBy hz with rfl | hz
        · exact hlt
        · exact hy z hz
      · exact h

/-- An element beyond the last key goes to the end. -/
theorem insertBy_of_forall_lt [Std.Asymm (α := κ) (· < ·)] {key : α → κ} {x : α} {m : List α}
    (h : ∀ y ∈ m, key y < key x) : insertBy key x m = m ++ [x] := by
  induction m with
  | nil => rfl
  | cons y ys ih =>
    have hy : key y < key x := h y List.mem_cons_self
    rw [insertBy, if_neg (Std.Asymm.asymm _ _ hy), if_pos hy, ih (fun z hz => h z (List.mem_cons_of_mem _ hz))]
    rfl

/-- Inserting the elements of a sorted list, in order, after those of the map. -/
theorem foldl_insertBy [Std.Asymm (α := κ) (· < ·)] {key : α → κ} (l : List α) :
    ∀ m, Sorted key (m ++ l) → l.foldl (fun m x => insertBy key x m) m = m ++ l := by
  induction l with
  | nil => intro m _; simp
  | cons x l ih =>
    intro m h
    have hx : ∀ y ∈ m, key y < key x := fun y hy => (List.pairwise_append.mp h).2.2 y hy x List.mem_cons_self
    rw [List.foldl_cons, insertBy_of_forall_lt hx, ih _ (by rwa [List.append_assoc]), List.append_assoc]
    rfl

/-- Insertions keep the map sorted. -/
theorem Sorted.foldl_insertBy [IsTrans κ (· < ·)] {key : α → κ} (l : List α) :
    ∀ {m}, Sorted key m → Sorted key (l.foldl (fun m x => SortedMap.insertBy key x m) m) := by
  induction l with
  | nil => exact fun h => h
  | cons x l ih => exact fun h => ih h.insertBy

/-! ## What is found under a key -/

section lookup

variable [DecidableEq κ] [Std.Irrefl (α := κ) (· < ·)]

omit [DecidableLT κ] in
/-- A key before all keys of the map is not there. -/
theorem find?_eq_none_of_forall_lt {key : α → κ} {k : κ} {m : List α} (h : ∀ y ∈ m, k < key y) :
    m.find? (fun y => key y = k) = none := by
  refine List.find?_eq_none.mpr fun y hy heq => ?_
  have hlt := h y hy
  rw [decide_eq_true_iff.mp heq] at hlt
  exact Std.Irrefl.irrefl k hlt

variable [IsTrans κ (· < ·)] [Std.Trichotomous (α := κ) (· < ·)]

/-- After an insertion a key has the element it had, or else the new one if that is its key. -/
theorem find?_insertBy {key : α → κ} {x : α} {m : List α} (h : Sorted key m) (k : κ) :
    (insertBy key x m).find? (fun y => key y = k) = (m.find? fun y => key y = k).or (if key x = k then some x else none) := by
  induction m with
  | nil => by_cases hk : key x = k <;> simp [insertBy, hk]
  | cons y ys ih =>
    obtain ⟨hy, hys⟩ := List.pairwise_cons.mp h
    rw [insertBy]
    split
    · rename_i hlt
      by_cases hk : key x = k
      · have hnone : (y :: ys).find? (fun z => key z = k) = none := by
          refine find?_eq_none_of_forall_lt fun z hz => ?_
          rcases List.mem_cons.mp hz with rfl | hz
          · exact hk ▸ hlt
          · exact hk ▸ trans_of (· < ·) hlt (hy z hz)
        rw [hnone, if_pos hk, List.find?_cons_of_pos (by simp [hk])]
        rfl
      · rw [List.find?_cons_of_neg (by simp [hk]), if_neg hk, Option.or_none]
    · rename_i hnlt
      split
      · by_cases hk : key y = k
        · rw [List.find?_cons_of_pos (by simp [hk]), List.find?_cons_of_pos (by simp [hk])]
          rfl
        · rw [List.find?_cons_of_neg (by simp [hk]), List.find?_cons_of_neg (by simp [hk]), ih hys]
      · rename_i hngt
        have heq : key x = key y := Std.Trichotomous.trichotomous _ _ hnlt hngt
        by_cases hk : key y = k
        · rw [List.find?_cons_of_pos (by simp [hk])]
          rfl
        · rw [if_neg (heq ▸ hk), Option.or_none]

/-- After any insertions a key has the element it had, or else the first one that was inserted under it. -/
theorem find?_foldl_insertBy {key : α → κ} (l : List α) (k : κ) :
    ∀ m, Sorted key m → (l.foldl (fun m x => insertBy key x m) m).find? (fun y => key y = k) =
      (m.find? fun y => key y = k).or (l.find? fun y => key y = k) := by
  induction l with
  | nil => exact fun m _ => (Option.or_none).symm
  | cons x l ih =>
    intro m h
    rw [List.foldl_cons, ih _ h.insertBy, find?_insertBy h, Option.or_assoc]
    congr 1
    by_cases hk : key x = k
    · rw [if_pos hk, List.find?_cons_of_pos (by simp [hk])]
      rfl
    · rw [if_neg hk, List.find?_cons_of_neg (by simp [hk])]
      rfl

end lookup

/-! ## The order of insertions -/

section order

variable [Std.Trichotomous (α := κ) (· < ·)]

/-- Under a new key the element is added. -/
theorem insertBy_perm {key : α → κ} {x : α} {m : List α} (h : ∀ y ∈ m, key y ≠ key x) : (insertBy key x m).Perm (x :: m) := by
  induction m with
  | nil => exact List.Perm.refl _
  | cons y ys ih =>
    rw [insertBy]
    split
    · exact List.Perm.refl _
    · rename_i hnlt
      split
      · exact ((ih fun z hz => h z (List.mem_cons_of_mem _ hz)).cons y).trans (List.Perm.swap x y ys)
      · rename_i hngt
        exact absurd (Std.Trichotomous.trichotomous _ _ hnlt hngt).symm (h y List.mem_cons_self)

/-- Elements under keys of their own are all added. -/
theorem foldl_insertBy_perm_append {key : α → κ} (l : List α) :
    ∀ m, ((m ++ l).map key).Nodup → (l.foldl (fun m x => insertBy key x m) m).Perm (m ++ l) := by
  induction l with
  | nil => exact fun m _ => by rw [List.append_nil]; exact List.Perm.refl _
  | cons x l ih =>
    intro m hnodup
    have hmid : (m ++ x :: l).Perm (x :: m ++ l) := List.perm_middle
    obtain ⟨hx, -⟩ := List.nodup_cons.mp ((hmid.map key).nodup_iff.mp hnodup)
    have hadd : (insertBy key x m).Perm (x :: m) := by
      refine insertBy_perm fun y hy heq => hx ?_
      exact List.mem_map.mpr ⟨y, List.mem_append_left _ hy, heq⟩
    have hall : (insertBy key x m ++ l).Perm (m ++ x :: l) := (hadd.append_right l).trans hmid.symm
    exact (ih _ ((hall.map key).nodup_iff.mpr hnodup)).trans hall

variable [IsTrans κ (· < ·)] [Std.Asymm (α := κ) (· < ·)]

/-- Elements with different keys can be inserted into the empty map in any order. -/
theorem foldl_insertBy_perm {key : α → κ} {l l' : List α} (h : l.Perm l') (hnodup : (l.map key).Nodup) :
    l.foldl (fun m x => insertBy key x m) [] = l'.foldl (fun m x => insertBy key x m) [] := by
  have hl := foldl_insertBy_perm_append l [] hnodup
  have hl' := foldl_insertBy_perm_append l' [] ((h.map key).nodup_iff.mp hnodup)
  have hsorted : ∀ l : List α, Sorted key (l.foldl (fun m x => insertBy key x m) []) := fun l => Sorted.foldl_insertBy l List.Pairwise.nil
  refine List.Perm.eq_of_pairwise (fun a b _ _ hab hba => ?_) (hsorted l) (hsorted l') (hl.trans (h.trans hl'.symm))
  exact absurd hba (Std.Asymm.asymm _ _ hab)

end order

end SortedMap
