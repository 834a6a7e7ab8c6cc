import Mathlib.Tactic.TypeStar

set_option autoImplicit false

namespace NetPrograms.HeapChain

variable {α : Type*}

inductive Chain (next : α → Option (Option α)) : Option α → List α → Prop where
  | nil : Chain next none []
  | cons {a : α} {link : Option α} {l : List α} (h : next a = some link)
      (tail : Chain next link l) : Chain next (some a) (a :: l)

namespace Chain

variable {next next' : α → Option (Option α)} {link : Option α} {l : List α}

theorem unique {m : List α} (h : Chain next link l) (h' : Chain next link m) : m = l := by
  induction h generalizing m with
  | nil =>
    cases h'
    rfl
  | cons hnext _ ih =>
    cases h' with
    | cons hnext' tail' =>
      obtain rfl := Option.some.inj (hnext.symm.trans hnext')
      rw [ih tail']

theorem allocated (h : Chain next link l) {a : α} (ha : a ∈ l) : next a ≠ none := by
  induction h with
  | nil => cases ha
  | cons hnext _ ih =>
    rcases List.mem_cons.mp ha with rfl | ha
    · rw [hnext]
      nofun
    · exact ih ha

theorem frame (h : Chain next link l) (hsame : ∀ a ∈ l, next' a = next a) :
    Chain next' link l := by
  induction h with
  | nil => exact .nil
  | cons hnext _ ih =>
    obtain ⟨hfirst, hrest⟩ := List.forall_mem_cons.mp hsame
    exact .cons (hfirst.trans hnext) (ih hrest)

theorem suffix (h : Chain next link l) {a : α} (ha : a ∈ l) :
    ∃ m, Chain next (some a) (a :: m) ∧ m.length < l.length := by
  induction h with
  | nil => cases ha
  | @cons b link l hnext tail ih =>
    rcases List.mem_cons.mp ha with rfl | ha
    · exact ⟨l, .cons hnext tail, Nat.lt_succ_self _⟩
    · obtain ⟨m, hm, hlt⟩ := ih ha
      exact ⟨m, hm, Nat.lt_succ_of_lt hlt⟩

/-- A chain that came back to an address would be a proper part of itself. -/
theorem nodup (h : Chain next link l) : l.Nodup := by
  induction h with
  | nil => exact List.nodup_nil
  | @cons a link l hnext tail ih =>
    refine List.nodup_cons.mpr ⟨fun ha => ?_, ih⟩
    obtain ⟨m, hm, hlt⟩ := tail.suffix ha
    obtain rfl := (List.cons.inj (hm.unique (.cons hnext tail))).2
    exact absurd hlt (Nat.lt_irrefl _)

theorem cons_inv {a : α} (h : Chain next (some a) l) :
    ∃ link m, l = a :: m ∧ next a = some link ∧ Chain next link m := by
  cases h with
  | cons hnext tail => exact ⟨_, _, rfl, hnext, tail⟩

end Chain
end NetPrograms.HeapChain
