import Mathlib.Algebra.BigOperators.Group.Finset.Basic
import Mathlib.Algebra.Order.BigOperators.Group.Finset
import Mathlib.Data.Fintype.Basic
import NetPrograms.Interleaving

set_option autoImplicit false

/-!
# The counted objects of `pthread_create.c`

Threads allocate objects with `foo_alloc` and call `foo_hold` and `foo_rele` on them. Each call of
the library is one action, and so is each access to `f_count`. Who has how many references is
recorded beside; a reference may be handed to another thread.
-/
namespace NetPrograms.FooModel
open Interleaving

variable {T α : Type*}

inductive Mutex (T : Type*) where
  /-- Not initialised yet, or destroyed. -/
  | uninit
  | unlocked
  | locked (owner : T)
  deriving DecidableEq, Repr

structure Foo (T : Type*) where
  f_count : ℤ
  f_lock : Mutex T
  deriving DecidableEq, Repr

structure Shared (T α : Type*) where
  heap : α → Option (Foo T)
  references : T → α → ℕ

inductive Thread (α : Type*) where
  | idle
  /-- `foo_alloc` after `malloc`, and at `pthread_mutex_init`. -/
  | count (fp : α)
  | init (fp : α)
  | hold (fp : α)
  | increment (fp : α)
  | rele (fp : α)
  | decrement (fp : α)
  /-- The unlock at the end of `foo_hold` and of the `else` branch of `foo_rele`. -/
  | unlock (fp : α)
  | unlockLast (fp : α)
  | destroy (fp : α)
  | free (fp : α)
  deriving DecidableEq, Repr

/-- What the environment decides: what an idle thread does next, where `malloc` finds a cell and
what is in it, and whether `pthread_mutex_init` succeeds. -/
inductive Choice (T α : Type*) where
  | go
  | malloc (fp : α) (junk : ℤ)
  | initFails
  | foo_hold (fp : α)
  | foo_rele (fp : α)
  | give (fp : α) (q : T)
  deriving DecidableEq, Repr

def INT_MAX : ℤ := 2147483647

section
variable [DecidableEq T] [DecidableEq α]

namespace Shared

def setFoo (fp : α) (foo : Option (Foo T)) (s : Shared T α) : Shared T α :=
  { s with heap := Function.update s.heap fp foo }

def setReferences (p : T) (fp : α) (n : ℕ) (s : Shared T α) : Shared T α :=
  { s with
    references := Function.update s.references p (Function.update (s.references p) fp n) }

def gain (p : T) (fp : α) (s : Shared T α) : Shared T α :=
  s.setReferences p fp (s.references p fp + 1)

def lose (p : T) (fp : α) (s : Shared T α) : Shared T α :=
  s.setReferences p fp (s.references p fp - 1)

end Shared

/-- `pthread_mutex_lock`: blocks on a locked mutex, and has no result on none. -/
def lock (p : T) (fp : α) (s : Shared T α) (next : Thread α) : Option (Shared T α × Thread α) :=
  match s.heap fp with
  | some ⟨n, .unlocked⟩ => some (s.setFoo fp (some ⟨n, .locked p⟩), next)
  | _ => none

def unlock (p : T) (fp : α) (s : Shared T α) (next : Thread α) : Option (Shared T α × Thread α) :=
  match s.heap fp with
  | some ⟨n, .locked q⟩ => if q = p then some (s.setFoo fp (some ⟨n, .unlocked⟩), next) else none
  | _ => none

/-- An access to a cell that is not allocated has no result, nor has an overflow. -/
def act (p : T) (o : Choice T α) (s : Shared T α) :
    Thread α → Option (Shared T α × Thread α)
  | .idle =>
    match o with
    | .malloc fp junk =>
      if s.heap fp = none then some (s.setFoo fp (some ⟨junk, .uninit⟩), .count fp) else none
    | .foo_hold fp => some (s, .hold fp)
    | .foo_rele fp => some (s, .rele fp)
    | .give fp q => some ((s.lose p fp).gain q fp, .idle)
    | .go | .initFails => none
  | .count fp => (s.heap fp).map fun foo => (s.setFoo fp (some { foo with f_count := 1 }), .init fp)
  | .init fp =>
    match o with
    | .initFails => (s.heap fp).map fun _ => (s.setFoo fp none, .idle)
    | _ => (s.heap fp).map fun foo =>
      ((s.setFoo fp (some { foo with f_lock := .unlocked })).gain p fp, .idle)
  | .hold fp => lock p fp s (.increment fp)
  | .increment fp =>
    match s.heap fp with
    | some foo =>
      if foo.f_count < INT_MAX then
        some ((s.setFoo fp (some { foo with f_count := foo.f_count + 1 })).gain p fp, .unlock fp)
      else none
    | none => none
  | .rele fp => lock p fp s (.decrement fp)
  | .decrement fp => (s.heap fp).map fun foo =>
      ((s.setFoo fp (some { foo with f_count := foo.f_count - 1 })).lose p fp,
        if foo.f_count - 1 = 0 then .unlockLast fp else .unlock fp)
  | .unlock fp => unlock p fp s .idle
  | .unlockLast fp => unlock p fp s (.destroy fp)
  | .destroy fp => (s.heap fp).map fun foo =>
      (s.setFoo fp (some { foo with f_lock := .uninit }), .free fp)
  | .free fp => (s.heap fp).map fun _ => (s.setFoo fp none, .idle)

end

abbrev System (T α : Type*) := Config T (Shared T α) (Thread α)

def start : System T α := ⟨⟨fun _ => none, fun _ _ => 0⟩, fun _ => .idle⟩

/-- Only who has a reference calls `foo_hold` or `foo_rele`, or hands one on. -/
def Permitted (c : System T α) (a : T × Choice T α) : Prop :=
  c.thread a.1 = .idle → match a.2 with
    | .foo_hold fp | .foo_rele fp | .give fp _ => 1 ≤ c.shared.references a.1 fp
    | .go | .malloc _ _ | .initFails => True

instance [DecidableEq α] (c : System T α) (a : T × Choice T α) : Decidable (Permitted c a) :=
  match a with
  | (p, .foo_hold fp) | (p, .foo_rele fp) | (p, .give fp _) =>
    inferInstanceAs (Decidable (c.thread p = .idle → 1 ≤ c.shared.references p fp))
  | (p, .go) | (p, .malloc _ _) | (p, .initFails) =>
    inferInstanceAs (Decidable (c.thread p = .idle → True))

def Thread.object : Thread α → Option α
  | .idle => none
  | .count fp | .init fp | .hold fp | .increment fp | .rele fp | .decrement fp | .unlock fp
  | .unlockLast fp | .destroy fp | .free fp => some fp

def Thread.Ends (fp : α) : Thread α → Prop
  | .count a | .init a | .unlockLast a | .destroy a | .free a => a = fp
  | .idle | .hold _ | .increment _ | .rele _ | .decrement _ | .unlock _ => False

def Shared.total [Fintype T] (s : Shared T α) (fp : α) : ℕ := ∑ p, s.references p fp

/-- No thread uses an object that is not there, or a mutex against its rules. The counter is the
number of references. An object is there exactly as long as there is a reference to it, or
somebody is making it or getting rid of it. A mutex is destroyed when it is unlocked and nobody
else uses it. -/
structure Sound [Fintype T] (c : System T α) : Prop where
  safe : ∀ p fp, (c.thread p).object = some fp → c.shared.heap fp ≠ none
  locks : ∀ p fp, c.thread p = .hold fp ∨ c.thread p = .rele fp →
    ∃ foo, c.shared.heap fp = some foo ∧ foo.f_lock ≠ .uninit
  unlocks : ∀ p fp, c.thread p = .unlock fp ∨ c.thread p = .unlockLast fp →
    ∃ n, c.shared.heap fp = some ⟨n, .locked p⟩
  counted : ∀ fp foo, c.shared.heap fp = some foo → foo.f_lock ≠ .uninit →
    foo.f_count = c.shared.total fp
  reclaimed : ∀ fp, c.shared.heap fp ≠ none ↔
    1 ≤ c.shared.total fp ∨ ∃ p, (c.thread p).Ends fp
  destroys : ∀ p fp, c.thread p = .destroy fp → c.shared.heap fp = some ⟨0, .unlocked⟩ ∧
    ∀ q, q ≠ p → (c.thread q).object ≠ some fp

end NetPrograms.FooModel
