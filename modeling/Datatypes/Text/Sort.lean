/-! Sorting by insertion, which keeps the order of items that the relation does not tell apart. -/

namespace Datatypes

variable {α : Type}

def insertBy (le : α → α → Bool) (x : α) : List α → List α
  | [] => [x]
  | y :: ys => if le x y then x :: y :: ys else y :: insertBy le x ys

def sortBy (le : α → α → Bool) : List α → List α
  | [] => []
  | x :: xs => insertBy le x (sortBy le xs)

theorem perm_insertBy (le : α → α → Bool) (x : α) (xs : List α) :
    (insertBy le x xs).Perm (x :: xs) := by
  induction xs with
  | nil => exact .refl _
  | cons y ys ih =>
    rw [insertBy]
    split
    · exact .refl _
    · exact (ih.cons y).trans (.swap x y ys)

theorem perm_sortBy (le : α → α → Bool) (xs : List α) : (sortBy le xs).Perm xs := by
  induction xs with
  | nil => exact .refl _
  | cons x xs ih => exact (perm_insertBy le x _).trans (ih.cons x)

section Stable

variable {le : α → α → Bool} {p : α → Bool}
  (h : ∀ x y, p x = true → p y = true → le x y = true)

include h

theorem filter_insertBy (x : α) (xs : List α) :
    (insertBy le x xs).filter p = (x :: xs).filter p := by
  induction xs with
  | nil => rfl
  | cons y ys ih =>
    rw [insertBy]
    split
    · rfl
    · next hxy =>
      -- The two change places, so they are not both kept.
      cases hx : p x with
      | false => simp [List.filter_cons, ih, hx]
      | true =>
        have hy : p y = false := by
          rw [Bool.eq_false_iff]
          exact fun hy => hxy (h x y hx hy)
        simp [ih, hx, hy]

theorem filter_sortBy (xs : List α) : (sortBy le xs).filter p = xs.filter p := by
  induction xs with
  | nil => rfl
  | cons x xs ih => rw [sortBy, filter_insertBy h, List.filter_cons, List.filter_cons, ih]

theorem find?_sortBy (xs : List α) : (sortBy le xs).find? p = xs.find? p := by
  rw [← List.head?_filter, filter_sortBy h, List.head?_filter]

end Stable

section Ordered

variable {le : α → α → Bool} (total : ∀ x y, le x y = true ∨ le y x = true)
  (trans : ∀ x y z, le x y = true → le y z = true → le x z = true)

include total trans

theorem pairwise_insertBy (x : α) {xs : List α} (h : xs.Pairwise fun y z => le y z = true) :
    (insertBy le x xs).Pairwise fun y z => le y z = true := by
  induction xs with
  | nil => exact List.pairwise_singleton ..
  | cons y ys ih =>
    obtain ⟨first, rest⟩ := List.pairwise_cons.mp h
    rw [insertBy]
    split
    · next hxy =>
      refine List.pairwise_cons.mpr ⟨fun z hz => ?_, h⟩
      rcases List.mem_cons.mp hz with rfl | hz
      · exact hxy
      · exact trans x y z hxy (first z hz)
    · next hxy =>
      refine List.pairwise_cons.mpr ⟨fun z hz => ?_, ih rest⟩
      rcases List.mem_cons.mp ((perm_insertBy le x ys).mem_iff.mp hz) with rfl | hz
      · exact (total z y).resolve_left hxy
      · exact first z hz

theorem pairwise_sortBy (xs : List α) : (sortBy le xs).Pairwise fun x y => le x y = true := by
  induction xs with
  | nil => exact .nil
  | cons x xs ih => exact pairwise_insertBy total trans x ih

end Ordered

end Datatypes
