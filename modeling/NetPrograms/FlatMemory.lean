import Mathlib.Data.Int.Notation
import Mathlib.Data.List.GetD
import Mathlib.Tactic.SplitIfs

set_option autoImplicit false

namespace NetPrograms.FlatMemory

variable {α : Type*}

abbrev Memory (α : Type*) := ℤ → α

def read (m : Memory α) (p : ℤ) (n : ℕ) : List α := (List.range n).map fun k : ℕ => m (p + k)

/-- `m` with `xs` written from `p` on. -/
def write (m : Memory α) (p : ℤ) (xs : List α) : Memory α := fun a =>
  if p ≤ a then xs.getD (a - p).toNat (m a) else m a

theorem read_length (m : Memory α) (p : ℤ) (n : ℕ) : (read m p n).length = n := by
  rw [read, List.length_map, List.length_range]

theorem read_get (m : Memory α) (p : ℤ) {n k : ℕ} (hk : k < n) :
    (read m p n)[k]? = some (m (p + k)) := by
  rw [read, List.getElem?_map, List.getElem?_range hk]
  rfl

theorem write_outside (m : Memory α) (p : ℤ) (xs : List α) {a : ℤ}
    (ha : a < p ∨ p + xs.length ≤ a) : write m p xs a = m a := by
  unfold write
  split_ifs with hp
  · exact List.getD_eq_default _ _ (by omega)
  · rfl

theorem write_inside (m : Memory α) (p : ℤ) (xs : List α) {k : ℕ} (hk : k < xs.length) :
    write m p xs (p + k) = xs[k] := by
  have hindex : (p + (k : ℤ) - p).toNat = k := by omega
  unfold write
  rw [if_pos (by omega), hindex, List.getD_eq_getElem _ _ hk]

theorem write_nil (m : Memory α) (p : ℤ) : write m p [] = m := by
  funext a
  exact write_outside m p [] (by simp only [List.length_nil]; omega)

theorem write_append (m : Memory α) (p : ℤ) (xs ys : List α) :
    write (write m p xs) (p + xs.length) ys = write m p (xs ++ ys) := by
  funext a
  rcases Int.lt_or_le a p with hlt | hle
  · rw [write_outside _ _ ys (by omega), write_outside _ _ xs (by omega),
      write_outside _ _ (xs ++ ys) (by omega)]
  · obtain ⟨k, hk⟩ := Int.le.dest hle
    subst hk
    by_cases hx : k < xs.length
    · rw [write_outside _ _ ys (by omega), write_inside _ _ xs hx,
        write_inside _ _ (xs ++ ys) (by rw [List.length_append]; omega),
        List.getElem_append_left hx]
    · by_cases hy : k < xs.length + ys.length
      · obtain ⟨j, rfl⟩ := Nat.exists_eq_add_of_le (Nat.not_lt.mp hx)
        have hpos : p + ((xs.length + j : ℕ) : ℤ) = p + xs.length + j := by omega
        rw [write_inside _ _ (xs ++ ys) (by rw [List.length_append]; omega), hpos,
          write_inside _ _ ys (by omega), List.getElem_append_right (Nat.le_add_right _ _)]
        simp only [Nat.add_sub_cancel_left]
      · rw [write_outside _ _ ys (by omega), write_outside _ _ xs (by omega),
          write_outside _ _ (xs ++ ys) (by rw [List.length_append]; omega)]

theorem read_write_same (m : Memory α) (p : ℤ) (xs : List α) :
    read (write m p xs) p xs.length = xs := by
  apply List.ext_getElem?
  intro k
  by_cases hk : k < xs.length
  · rw [read_get _ _ hk, write_inside _ _ _ hk, List.getElem?_eq_getElem hk]
  · rw [List.getElem?_eq_none (by rw [read_length]; omega), List.getElem?_eq_none (by omega)]

theorem read_write_apart (m : Memory α) (p q : ℤ) (xs : List α) (n : ℕ)
    (h : q + n ≤ p ∨ p + xs.length ≤ q) : read (write m p xs) q n = read m q n := by
  apply List.ext_getElem?
  intro k
  by_cases hk : k < n
  · rw [read_get _ _ hk, read_get _ _ hk, write_outside _ _ _ (by omega)]
  · rw [List.getElem?_eq_none (by rw [read_length]; omega),
      List.getElem?_eq_none (by rw [read_length]; omega)]

theorem read_drop_take (m : Memory α) (p : ℤ) {n i j : ℕ} (hij : i + j ≤ n) :
    ((read m p n).drop i).take j = read m (p + i) j := by
  apply List.ext_getElem?
  intro k
  by_cases hk : k < j
  · have hpos : p + ((i + k : ℕ) : ℤ) = p + i + k := by omega
    rw [List.getElem?_take_of_lt hk, List.getElem?_drop, read_get _ _ (by omega),
      read_get _ _ hk, hpos]
  · rw [List.getElem?_eq_none (by rw [List.length_take]; omega),
      List.getElem?_eq_none (by rw [read_length]; omega)]

end NetPrograms.FlatMemory
