import Mathlib.Data.List.Basic

/-! Lists cut at separators: the suffixes of the pieces, and the cut at the first
element of a kind. -/

namespace Pieces

variable {α : Type}

theorem intercalate_append {a : α} {p q : List (List α)} (hp : p ≠ []) (hq : q ≠ []) :
    [a].intercalate (p ++ q) = [a].intercalate p ++ a :: [a].intercalate q := by
  induction p with
  | nil => exact absurd rfl hp
  | cons l p ih =>
    rw [List.cons_append, List.intercalate_cons_of_ne_nil (by simp [hq])]
    by_cases h : p = []
    · simp [h]
    · rw [List.intercalate_cons_of_ne_nil h, ih h]
      simp

theorem splitOn_suffix_iff [BEq α] [LawfulBEq α] {a : α} {xs ys : List α} :
    ys.splitOn a <:+ xs.splitOn a ↔ xs = ys ∨ a :: ys <:+ xs := by
  constructor
  · rintro ⟨p, hp⟩
    have hjoin := congrArg (fun ls => [a].intercalate ls) hp
    by_cases h : p = []
    · left
      simpa [h, eq_comm] using hjoin
    · right
      refine ⟨[a].intercalate p, ?_⟩
      simpa [intercalate_append h (List.splitOn_ne_nil a ys)] using hjoin
  · rintro (rfl | ⟨t, rfl⟩)
    · exact List.suffix_rfl
    · rw [List.splitOn_append_cons_self]
      exact List.suffix_append _ _

/-- The rest begins with an element outside `p`, or is empty. -/
def Stops (p : α → Bool) (rest : List α) : Prop := ∀ a ∈ rest.head?, p a = false

variable {p : α → Bool} {xs rest : List α}

theorem takeWhile_cut (hxs : ∀ a ∈ xs, p a = true) (hrest : Stops p rest) :
    (xs ++ rest).takeWhile p = xs := by
  rw [List.takeWhile_append_of_pos hxs]
  cases rest with
  | nil => simp
  | cons a rest =>
    have ha : p a = false := hrest a rfl
    simp [ha]

theorem dropWhile_cut (hxs : ∀ a ∈ xs, p a = true) (hrest : Stops p rest) :
    (xs ++ rest).dropWhile p = rest := by
  rw [List.dropWhile_append_of_pos hxs]
  cases rest with
  | nil => rfl
  | cons a rest =>
    have ha : p a = false := hrest a rfl
    simp [ha]

end Pieces
