import Mathlib.Data.Finset.Basic
import Mathlib.Logic.Function.Basic
import NetPrograms.HeapChain
import NetPrograms.Interleaving

set_option autoImplicit false

/-!
# The work queue of `pthread_create.c`

Workers run `process_msg` and other threads call `enqueue_msg`. What is done between lock and
unlock of `qlock` is one action, and so is each call outside. The history records which message
was enqueued, taken, printed and freed.
-/
namespace NetPrograms.WorkQueueModel
open HeapChain Interleaving

variable {W E α D : Type*}

/-- A message as its sender knows it; `serial` tells messages with the same data apart. -/
structure Sent (D : Type*) where
  serial : ℕ
  data : D
  deriving DecidableEq, Repr

structure Msg (α D : Type*) where
  m_next : Option α
  data : D
  serial : ℕ
  deriving DecidableEq, Repr

def Msg.sent (m : Msg α D) : Sent D := ⟨m.serial, m.data⟩

structure Shared (W α D : Type*) where
  heap : α → Option (Msg α D)
  workq : Option α
  /-- The workers that `qready` blocks. -/
  waiters : Finset W
  mallocs : ℕ
  enqueued : List (Sent D)
  taken : List (W × Sent D)
  printed : List (W × Sent D)
  freed : List (W × Sent D)

/-- The next action of a thread: of a worker up to `free`, of a sender from `idle` on. -/
inductive Thread (α : Type*) where
  | lock
  | waiting
  | print (mp : α)
  | free (mp : α)
  | idle
  | enqueue (mp : α)
  | signal
  deriving DecidableEq, Repr

/-- What the environment decides: that a wait ends without a signal, where `malloc` finds a cell,
what its link is and what data the caller stores there, and whom a signal wakes. -/
inductive Choice (W α D : Type*) where
  | go
  | spurious
  | malloc (mp : α) (m_next : Option α) (data : D)
  | wake (woken : Finset W)

section
variable [DecidableEq W]

def takeOrWait (w : W) (s : Shared W α D) : Option (Shared W α D × Thread α) :=
  match s.workq with
  | none => some ({ s with waiters := insert w s.waiters }, .waiting)
  | some mp =>
    (s.heap mp).map fun m =>
      ({ s with workq := m.m_next, taken := s.taken ++ [(w, m.sent)] }, .print mp)

variable [DecidableEq α]

/-- `process_msg`. An access to a cell that is not allocated has no result. -/
def process_msg (w : W) (o : Choice W α D) (s : Shared W α D) :
    Thread α → Option (Shared W α D × Thread α)
  | .lock => takeOrWait w s
  | .waiting =>
    if w ∈ s.waiters then
      match o with
      | .spurious => some ({ s with waiters := s.waiters.erase w }, .waiting)
      | _ => none
    else takeOrWait w s
  | .print mp =>
    (s.heap mp).map fun m => ({ s with printed := s.printed ++ [(w, m.sent)] }, .free mp)
  | .free mp =>
    (s.heap mp).map fun m =>
      ({ s with
        heap := Function.update s.heap mp none
        freed := s.freed ++ [(w, m.sent)] }, .lock)
  | _ => none

/-- The sender allocates and fills a message, calls `enqueue_msg` and starts again. A signal
wakes at least one waiter if there is one. -/
def enqueue_msg (o : Choice W α D) (s : Shared W α D) :
    Thread α → Option (Shared W α D × Thread α)
  | .idle =>
    match o with
    | .malloc mp m_next data =>
      if s.heap mp = none then
        some ({ s with
          heap := Function.update s.heap mp (some ⟨m_next, data, s.mallocs⟩)
          mallocs := s.mallocs + 1 }, .enqueue mp)
      else none
    | _ => none
  | .enqueue mp =>
    (s.heap mp).map fun m =>
      ({ s with
        heap := Function.update s.heap mp (some { m with m_next := s.workq })
        workq := some mp
        enqueued := s.enqueued ++ [m.sent] }, .signal)
  | .signal =>
    match o with
    | .wake woken =>
      if woken ⊆ s.waiters ∧ (s.waiters.Nonempty → woken.Nonempty) then
        some ({ s with waiters := s.waiters \ woken }, .idle)
      else none
    | _ => none
  | _ => none

def act (p : W ⊕ E) (o : Choice W α D) (s : Shared W α D) (t : Thread α) :
    Option (Shared W α D × Thread α) :=
  match p with
  | .inl w => process_msg w o s t
  | .inr _ => enqueue_msg o s t

end

abbrev System (W E α D : Type*) := Config (W ⊕ E) (Shared W α D) (Thread α)

def start : System W E α D :=
  ⟨⟨fun _ => none, none, ∅, 0, [], [], [], []⟩, fun p => if p.isLeft then .lock else .idle⟩

namespace Shared

def next (s : Shared W α D) (a : α) : Option (Option α) := (s.heap a).map Msg.m_next

def contents (s : Shared W α D) (l : List α) : List (Sent D) :=
  l.filterMap fun a => (s.heap a).map Msg.sent

def toPrint (s : Shared W α D) : Thread α → List (Sent D)
  | .print mp => s.contents [mp]
  | _ => []

def toFree (s : Shared W α D) : Thread α → List (Sent D)
  | .free mp => s.contents [mp]
  | _ => []

end Shared

def doneBy [DecidableEq W] (w : W) (history : List (W × Sent D)) : List (Sent D) :=
  history.filterMap fun e => if e.1 = w then some e.2 else none

/-- The messages enqueued, each once, are those in the queue and those taken; and what a worker
has taken it has printed and freed, in this order, up to the message in its hands. -/
structure Delivers [DecidableEq W] (c : System W E α D) : Prop where
  each_once : c.shared.enqueued.Nodup
  conserved : ∃ l, Chain c.shared.next c.shared.workq l ∧
    c.shared.enqueued.Perm (c.shared.contents l ++ c.shared.taken.map Prod.snd)
  printed : ∀ w, doneBy w c.shared.taken =
    doneBy w c.shared.printed ++ c.shared.toPrint (c.thread (.inl w))
  freed : ∀ w, doneBy w c.shared.printed =
    doneBy w c.shared.freed ++ c.shared.toFree (c.thread (.inl w))

def Thread.holds (a : α) : Thread α → Prop
  | .print mp | .free mp | .enqueue mp => mp = a
  | _ => False

/-- Nobody is about to use a cell that is not allocated. -/
def MemorySafe (c : System W E α D) : Prop :=
  (∀ a, c.shared.workq = some a → c.shared.heap a ≠ none) ∧
    ∀ p a, (c.thread p).holds a → c.shared.heap a ≠ none

def Blocked (c : System W E α D) (w : W) : Prop :=
  c.thread (.inl w) = .waiting ∧ w ∈ c.shared.waiters

def NoLostWakeUp (c : System W E α D) : Prop :=
  c.shared.workq ≠ none → (∀ w, Blocked c w) → ∃ e, c.thread (.inr e) = .signal

end NetPrograms.WorkQueueModel
