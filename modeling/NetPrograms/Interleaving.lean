import Mathlib.Logic.Function.Basic
import NetPrograms.RunInvariants

set_option autoImplicit false

/-!
# Threads over shared data

A thread acts atomically on the shared data and on its own; `act` gives nothing where the
thread is blocked. A proof outline has an assertion for every thread, which the thread itself
establishes and no other thread invalidates. Nothing here depends on the systems that use it.
-/
namespace NetPrograms.Interleaving
open RunInvariants

variable {P A S L : Type*}

structure Config (P S L : Type*) where
  shared : S
  thread : P → L

def Config.Pairwise (R : L → L → Prop) (c : Config P S L) : Prop :=
  ∀ p q, p ≠ q → R (c.thread p) (c.thread q)

section
variable [DecidableEq P]

def Config.set (c : Config P S L) (p : P) (s : S) (l : L) : Config P S L :=
  ⟨s, Function.update c.thread p l⟩

/-- The thread `a.1` acts, with the choices `a.2` of its environment. -/
def Interleaves (act : P → A → S → L → Option (S × L)) (c : Config P S L) (a : P × A)
    (d : Config P S L) : Prop :=
  ∃ s l, act a.1 a.2 c.shared (c.thread a.1) = some (s, l) ∧ d = c.set a.1 s l

theorem Config.set_self (c : Config P S L) (p : P) (s : S) (l : L) :
    (c.set p s l).thread p = l := Function.update_self _ _ _

theorem Config.set_of_ne (c : Config P S L) {p q : P} (h : q ≠ p) (s : S) (l : L) :
    (c.set p s l).thread q = c.thread q := Function.update_of_ne h _ _

theorem interleaves_unique {act : P → A → S → L → Option (S × L)} {c d e : Config P S L}
    {a : P × A} (h : Interleaves act c a d) (h' : Interleaves act c a e) : e = d := by
  obtain ⟨s, l, hact, rfl⟩ := h
  obtain ⟨s', l', hact', rfl⟩ := h'
  obtain ⟨rfl, rfl⟩ := Prod.mk.inj (Option.some.inj (hact.symm.trans hact'))
  rfl

theorem eachStep_iff {act : P → A → S → L → Option (S × L)}
    {C : Config P S L → P × A → Config P S L → Prop} {c : Config P S L} {a : P × A}
    {as : List (P × A)} {s : S} {l : L}
    (h : act a.1 a.2 c.shared (c.thread a.1) = some (s, l)) :
    EachStep (Interleaves act) C c (a :: as) ↔
      C c a (c.set a.1 s l) ∧ EachStep (Interleaves act) C (c.set a.1 s l) as :=
  eachStep_cons ⟨s, l, h, rfl⟩ fun _ ht => interleaves_unique ⟨s, l, h, rfl⟩ ht

instance eachStepDecidable {act : P → A → S → L → Option (S × L)}
    {G : Config P S L → P × A → Prop} [∀ c a, Decidable (G c a)] (c : Config P S L) :
    ∀ as, Decidable (EachStep (Interleaves act) (fun c a _ => G c a) c as)
  | [] => isTrue trivial
  | a :: as =>
    match h : act a.1 a.2 c.shared (c.thread a.1) with
    | none => isTrue fun _ ⟨_, _, hsome, _⟩ => by cases h.symm.trans hsome
    | some (s, l) =>
      have : Decidable (EachStep (Interleaves act) (fun c a _ => G c a) (c.set a.1 s l) as) :=
        eachStepDecidable (c.set a.1 s l) as
      decidable_of_iff _ (eachStep_iff h).symm

def Config.after (act : P → A → S → L → Option (S × L)) (c : Config P S L) :
    List (P × A) → Option (Config P S L)
  | [] => some c
  | a :: as =>
    match act a.1 a.2 c.shared (c.thread a.1) with
    | none => none
    | some (s, l) => (c.set a.1 s l).after act as

theorem run_of_after {act : P → A → S → L → Option (S × L)} {c d : Config P S L}
    {as : List (P × A)} (h : c.after act as = some d) : Run (Interleaves act) c as d := by
  induction as generalizing c with
  | nil =>
    obtain rfl := Option.some.inj h
    exact .refl c
  | cons a as ih =>
    rw [Config.after] at h
    split at h
    · cases h
    · next s l hact => exact .next ⟨s, l, hact, rfl⟩ (ih h)

end

/-- `shared` is about the shared data, `thread` about one thread and the shared data, `apart`
about two different threads. -/
structure Outline (P S L : Type*) where
  shared : S → Prop
  thread : P → S → L → Prop
  apart : L → L → Prop

namespace Outline

structure Holds (o : Outline P S L) (c : Config P S L) : Prop where
  shared : o.shared c.shared
  thread : ∀ p, o.thread p c.shared (c.thread p)
  apart : c.Pairwise o.apart

/-- What an action that leads to `s` and `l` must establish (`shared`, `own`), and keep of the
other threads (`others`, `apart`). -/
structure Kept (o : Outline P S L) (c : Config P S L) (p : P) (s : S) (l : L) : Prop where
  shared : o.shared s
  own : o.thread p s l
  others : ∀ q, q ≠ p → o.thread q s (c.thread q)
  apart : ∀ q, q ≠ p → o.apart l (c.thread q) ∧ o.apart (c.thread q) l

theorem Kept.holds [DecidableEq P] {o : Outline P S L} {c : Config P S L} {p : P} {s : S} {l : L}
    (hc : o.Holds c) (h : o.Kept c p s l) : o.Holds (c.set p s l) := by
  refine ⟨h.shared, fun q => ?_, fun q r hqr => ?_⟩
  · by_cases hq : q = p
    · subst hq
      rw [Config.set_self]
      exact h.own
    · rw [c.set_of_ne hq]
      exact h.others q hq
  · by_cases hq : q = p
    · subst hq
      rw [Config.set_self, c.set_of_ne hqr.symm]
      exact (h.apart r hqr.symm).1
    · rw [c.set_of_ne hq]
      by_cases hr : r = p
      · subst hr
        rw [Config.set_self]
        exact (h.apart q hq).2
      · rw [c.set_of_ne hr]
        exact hc.apart q r hqr

theorem Holds.kept_local {o : Outline P S L} {c : Config P S L} {p : P} {l : L}
    (hc : o.Holds c) (hown : o.thread p c.shared l)
    (hapart : ∀ q, q ≠ p → o.apart l (c.thread q) ∧ o.apart (c.thread q) l) :
    o.Kept c p c.shared l := ⟨hc.shared, hown, fun q _ => hc.thread q, hapart⟩

/-- The run rule: if all actions that meet `G` keep the outline, it holds throughout. -/
theorem always [DecidableEq P] {act : P → A → S → L → Option (S × L)}
    {G : Config P S L → P × A → Prop} (o : Outline P S L)
    (hkept : ∀ c p a s l, o.Holds c → G c (p, a) →
      act p a c.shared (c.thread p) = some (s, l) → o.Kept c p s l)
    {c : Config P S L} {as : List (P × A)}
    (hG : EachStep (Interleaves act) (fun c a _ => G c a) c as) (hc : o.Holds c) :
    Always (Interleaves act) o.Holds c as := by
  refine Always.of_invariant o.Holds (fun c a d hc hstep hg => ?_) hG hc
  obtain ⟨s, l, hact, rfl⟩ := hstep
  exact (hkept c a.1 a.2 s l hc hg hact).holds hc

end Outline
end NetPrograms.Interleaving
