import Mathlib.Data.List.Basic
import Mathlib.Tactic.SplitIfs

set_option autoImplicit false

namespace NetPrograms.ListSegments

variable {α : Type*}

def segment (xs : List α) (i j : ℕ) : List α := (xs.take j).drop i

def overwrite (xs : List α) (i : ℕ) (ys : List α) : List α :=
  xs.take i ++ ys ++ xs.drop (i + ys.length)

def copyForward : ℕ → List α → ℕ → ℕ → List α
  | 0, xs, _, _ => xs
  | n + 1, xs, src, dst => copyForward n ((xs[src]?).elim xs (xs.set dst)) (src + 1) (dst + 1)

def resized (xs : List α) (n : ℕ) (z : α) : List α := xs.take n ++ List.replicate (n - xs.length) z

theorem segment_length (xs : List α) (i j : ℕ) (hj : j ≤ xs.length) :
    (segment xs i j).length = j - i := by
  simp only [segment, List.length_drop, List.length_take]
  omega

theorem segment_self (xs : List α) (i : ℕ) : segment xs i i = [] := by
  apply List.drop_eq_nil_of_le
  simp only [List.length_take]
  omega

theorem segment_get (xs : List α) (i j k : ℕ) :
    (segment xs i j)[k]? = if i + k < j then xs[i + k]? else none := by
  simp only [segment, List.getElem?_drop, List.getElem?_take]

theorem segment_drop (xs : List α) (i j k : ℕ) :
    (segment xs i j).drop k = segment xs (i + k) j := by
  simp only [segment, List.drop_drop]

theorem segment_take (xs : List α) (i j k : ℕ) (h : i + k ≤ j) :
    (segment xs i j).take k = segment xs i (i + k) := by
  apply List.ext_getElem?
  intro m
  simp only [List.getElem?_take, segment_get]
  split_ifs <;> first | rfl | omega

theorem overwrite_length (xs : List α) (i : ℕ) (ys : List α) (h : i + ys.length ≤ xs.length) :
    (overwrite xs i ys).length = xs.length := by
  simp only [overwrite, List.length_append, List.length_take, List.length_drop]
  omega

theorem overwrite_get (xs : List α) (i : ℕ) (ys : List α) (h : i ≤ xs.length) (k : ℕ) :
    (overwrite xs i ys)[k]? =
      if k < i then xs[k]? else if k < i + ys.length then ys[k - i]? else xs[k]? := by
  have hi : (xs.take i).length = i := by simp [h]
  unfold overwrite
  split_ifs with h₁ h₂
  · rw [List.append_assoc, List.getElem?_append_left (by omega), List.getElem?_take_of_lt h₁]
  · rw [List.append_assoc, List.getElem?_append_right (by omega), hi,
      List.getElem?_append_left (by omega)]
  · rw [List.getElem?_append_right (by simp only [List.length_append]; omega),
      List.getElem?_drop, List.length_append, hi]
    congr 1
    omega

theorem segment_overwrite_end (xs : List α) (i j : ℕ) (ys : List α) (hij : i ≤ j)
    (hj : j ≤ xs.length) :
    segment (overwrite xs j ys) i (j + ys.length) = segment xs i j ++ ys := by
  apply List.ext_getElem?
  intro k
  rw [segment_get, overwrite_get xs j ys hj, List.getElem?_append, segment_length xs i j hj,
    segment_get]
  split_ifs <;> first | rfl | omega | skip
  · congr 1
    omega
  · rw [List.getElem?_eq_none (by omega)]

theorem segment_overwrite_front (xs : List α) (i j : ℕ) (ys : List α) (hy : ys.length ≤ i)
    (hij : i ≤ j) (hj : j ≤ xs.length) :
    segment (overwrite xs (i - ys.length) ys) (i - ys.length) j = ys ++ segment xs i j := by
  apply List.ext_getElem?
  intro k
  rw [segment_get, overwrite_get xs _ ys (by omega), List.getElem?_append, segment_get]
  split_ifs <;> first | rfl | omega | skip
  · congr 1
    omega
  · congr 1
    omega

theorem copyForward_length (n : ℕ) (xs : List α) (src dst : ℕ) :
    (copyForward n xs src dst).length = xs.length := by
  induction n generalizing xs src dst with
  | zero => rfl
  | succ n ih =>
    rw [copyForward, ih]
    cases xs[src]? <;> simp

/-- Copying towards the front is safe although the two places may overlap: each element is
read before its place is written. -/
theorem copyForward_get (n : ℕ) (xs : List α) (src dst : ℕ) (hd : dst ≤ src)
    (hs : src + n ≤ xs.length) (k : ℕ) :
    (copyForward n xs src dst)[k]? =
      if dst ≤ k ∧ k < dst + n then xs[src + (k - dst)]? else xs[k]? := by
  induction n generalizing xs src dst with
  | zero =>
    rw [copyForward, if_neg (by omega)]
  | succ n ih =>
    have hx : xs[src]? = some xs[src] := List.getElem?_eq_getElem (by omega)
    have hset : (xs[src]?).elim xs (xs.set dst) = xs.set dst xs[src] := by rw [hx]; rfl
    rw [copyForward, hset, ih _ _ _ (by omega) (by rw [List.length_set]; omega)]
    by_cases hk : k = dst
    · subst hk
      rw [if_neg (by omega), if_pos (by omega), List.getElem?_set_self (by omega), Nat.sub_self,
        Nat.add_zero, hx]
    · have hne : dst ≠ src + 1 + (k - (dst + 1)) := by omega
      rw [List.getElem?_set_ne hne, List.getElem?_set_ne (Ne.symm hk)]
      split_ifs <;> first | rfl | omega | skip
      congr 1
      omega

theorem copyForward_eq (n : ℕ) (xs : List α) (src dst : ℕ) (hd : dst ≤ src)
    (hs : src + n ≤ xs.length) :
    copyForward n xs src dst = overwrite xs dst (segment xs src (src + n)) := by
  apply List.ext_getElem?
  intro k
  rw [copyForward_get n xs src dst hd hs, overwrite_get _ _ _ (by omega),
    segment_length _ _ _ hs, segment_get]
  split_ifs <;> first | rfl | omega

theorem resized_length (xs : List α) (n : ℕ) (z : α) : (resized xs n z).length = n := by
  simp only [resized, List.length_append, List.length_take, List.length_replicate]
  omega

theorem segment_resized (xs : List α) (n : ℕ) (z : α) (i j : ℕ) (hj : j ≤ xs.length)
    (hn : j ≤ n) : segment (resized xs n z) i j = segment xs i j := by
  have h : (resized xs n z).take j = xs.take j := by
    rw [resized, List.take_append_of_le_length (by simp only [List.length_take]; omega),
      List.take_take, Nat.min_eq_left hn]
  rw [segment, h, segment]

end NetPrograms.ListSegments
