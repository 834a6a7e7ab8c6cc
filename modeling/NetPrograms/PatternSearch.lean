import Mathlib.Data.List.Infix

set_option autoImplicit false

namespace NetPrograms.PatternSearch

variable {α : Type*} [DecidableEq α]

def searchIndex (pattern : List α) : List α → ℕ
  | [] => 0
  | x :: xs => if pattern <+: x :: xs then 0 else searchIndex pattern xs + 1

theorem searchIndex_le (pattern xs : List α) : searchIndex pattern xs ≤ xs.length := by
  induction xs with
  | nil => exact le_refl 0
  | cons x xs ih =>
    rw [searchIndex, List.length_cons]
    split_ifs
    · exact Nat.zero_le _
    · exact Nat.succ_le_succ ih

theorem searchIndex_occurs {pattern xs : List α} (h : searchIndex pattern xs < xs.length) :
    pattern <+: xs.drop (searchIndex pattern xs) := by
  induction xs with
  | nil => cases h
  | cons x xs ih =>
    rw [searchIndex, List.length_cons] at h
    rw [searchIndex]
    split_ifs at h ⊢ with hx
    · exact hx
    · exact ih (Nat.lt_of_succ_lt_succ h)

theorem searchIndex_first {pattern xs : List α} {k : ℕ} (hk : k < searchIndex pattern xs) :
    ¬pattern <+: xs.drop k := by
  induction xs generalizing k with
  | nil => cases hk
  | cons x xs ih =>
    rw [searchIndex] at hk
    split_ifs at hk with hx
    · cases hk
    · cases k with
      | zero => exact hx
      | succ k => exact ih (Nat.lt_of_succ_lt_succ hk)

theorem searchIndex_eq {pattern xs : List α} {k : ℕ} (hk : k < xs.length)
    (hocc : pattern <+: xs.drop k) (hfirst : ∀ j < k, ¬pattern <+: xs.drop j) :
    searchIndex pattern xs = k := by
  rcases Nat.lt_trichotomy (searchIndex pattern xs) k with hlt | heq | hgt
  · exact absurd (searchIndex_occurs (hlt.trans hk)) (hfirst _ hlt)
  · exact heq
  · exact absurd hocc (searchIndex_first hgt)

theorem searchIndex_skip {pattern xs : List α} {n : ℕ} (hn : n ≤ xs.length)
    (hnone : ∀ k < n, ¬pattern <+: xs.drop k) :
    searchIndex pattern xs = n + searchIndex pattern (xs.drop n) := by
  induction n generalizing xs with
  | zero => rw [List.drop_zero, Nat.zero_add]
  | succ n ih =>
    cases xs with
    | nil => cases hn
    | cons x xs =>
      have hx : ¬pattern <+: x :: xs := hnone 0 (Nat.succ_pos n)
      have hrest := ih (Nat.le_of_succ_le_succ hn) fun k hk => hnone (k + 1) (Nat.succ_lt_succ hk)
      rw [searchIndex, if_neg hx, hrest, List.drop_succ_cons]
      omega

/-- An occurrence that begins in `xs` and is absent from it ends in what follows `xs`, so it
begins at one of the last `pattern.length - 1` elements. -/
theorem not_prefix_append {pattern xs : List α} (hnone : searchIndex pattern xs = xs.length)
    (ys : List α) {k : ℕ} (hk : k < xs.length - (pattern.length - 1)) :
    ¬pattern <+: (xs ++ ys).drop k := by
  intro hocc
  rw [List.drop_append_of_le_length (by omega)] at hocc
  have hfit : pattern.length ≤ (xs.drop k).length := by
    rw [List.length_drop]
    omega
  have hin : pattern <+: xs.drop k :=
    List.prefix_of_prefix_length_le hocc (List.prefix_append _ _) hfit
  exact searchIndex_first (by omega) hin

theorem searchIndex_resume {pattern xs : List α} (hnone : searchIndex pattern xs = xs.length)
    (ys : List α) :
    searchIndex pattern (xs ++ ys) = xs.length - (pattern.length - 1) +
      searchIndex pattern ((xs ++ ys).drop (xs.length - (pattern.length - 1))) := by
  refine searchIndex_skip ?_ fun k hk => not_prefix_append hnone ys hk
  rw [List.length_append]
  omega

end NetPrograms.PatternSearch
