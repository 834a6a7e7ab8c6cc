import Mathlib.Data.List.Basic

set_option autoImplicit false

namespace NetPrograms.StackHistory

variable {W X : Type*}

inductive Op (W X : Type*) where
  | push (x : X)
  | pop (w : W) (x : X)
  deriving DecidableEq, Repr

/-- The stack contains `l`, the top first, after the history. -/
inductive Leaves : List (Op W X) → List X → Prop where
  | nil : Leaves [] []
  | push {ops : List (Op W X)} {l : List X} (x : X) (h : Leaves ops l) :
      Leaves (ops ++ [.push x]) (x :: l)
  | pop {ops : List (Op W X)} {l : List X} {x : X} (w : W) (h : Leaves ops (x :: l)) :
      Leaves (ops ++ [.pop w x]) l

def pushes : List (Op W X) → List X :=
  List.filterMap fun op => match op with
    | .push x => some x
    | .pop _ _ => none

def pops : List (Op W X) → List (W × X) :=
  List.filterMap fun op => match op with
    | .push _ => none
    | .pop w x => some (w, x)

theorem pushes_push (ops : List (Op W X)) (x : X) :
    pushes (ops ++ [.push x]) = pushes ops ++ [x] := by simp [pushes]

theorem pushes_pop (ops : List (Op W X)) (w : W) (x : X) :
    pushes (ops ++ [.pop w x]) = pushes ops := by simp [pushes]

theorem pops_push (ops : List (Op W X)) (x : X) : pops (ops ++ [.push x]) = pops ops := by
  simp [pops]

theorem pops_pop (ops : List (Op W X)) (w : W) (x : X) :
    pops (ops ++ [.pop w x]) = pops ops ++ [(w, x)] := by simp [pops]

theorem Leaves.above {ops : List (Op W X)} {stack : List X} (h : Leaves ops stack) (u l : List X)
    (x : X) (hsplit : stack = u ++ x :: l) :
    ∃ a b, pushes ops = a ++ x :: b ∧ ∀ z ∈ b, z ∈ u ∨ ∃ w, (w, z) ∈ pops ops := by
  induction h generalizing u with
  | nil => exact absurd hsplit (by simp)
  | @push ops stack y h ih =>
    rw [pushes_push, pops_push]
    cases u with
    | nil =>
      obtain rfl := (List.cons.inj hsplit).1
      exact ⟨pushes ops, [], rfl, nofun⟩
    | cons y' u =>
      obtain ⟨rfl, hrest⟩ := List.cons.inj hsplit
      obtain ⟨a, b, hpushes, hb⟩ := ih u hrest
      refine ⟨a, b ++ [y], by simp [hpushes], fun z hz => ?_⟩
      rcases List.mem_append.mp hz with hz | hz
      · exact (hb z hz).imp_left (List.mem_cons_of_mem y)
      · exact .inl (List.mem_singleton.mp hz ▸ List.mem_cons_self)
  | @pop ops stack y w h ih =>
    rw [pushes_pop, pops_pop]
    obtain ⟨a, b, hpushes, hb⟩ := ih (y :: u) (by rw [hsplit]; rfl)
    refine ⟨a, b, hpushes, fun z hz => ?_⟩
    rcases hb z hz with hz | ⟨v, hv⟩
    · rcases List.mem_cons.mp hz with rfl | hz
      · exact .inr ⟨w, List.mem_append_right _ List.mem_cons_self⟩
      · exact .inl hz
    · exact .inr ⟨v, List.mem_append_left _ hv⟩

theorem Leaves.newest {ops : List (Op W X)} {x : X} {l : List X} (h : Leaves ops (x :: l)) :
    ∃ a b, pushes ops = a ++ x :: b ∧ ∀ z ∈ b, ∃ w, (w, z) ∈ pops ops := by
  obtain ⟨a, b, hpushes, hb⟩ := h.above [] l x rfl
  exact ⟨a, b, hpushes, fun z hz => (hb z hz).resolve_left List.not_mem_nil⟩

end NetPrograms.StackHistory
