import Mathlib.Data.Nat.Notation
import Mathlib.Tactic.TypeStar

set_option autoImplicit false

/-!
# The event loop's pending functors

What a functor does beyond calling `runInLoop` does not touch the queue, so it is given by
the functors it queues. `queued` and `executed` record the history.
-/
namespace NetPrograms.EventLoopModel

structure LoopState (F : Type*) where
  pendingFunctors_ : List F
  queued : List F
  executed : List F
  deriving DecidableEq, Repr

namespace LoopState

variable {F : Type*}

def new : LoopState F := ⟨[], [], []⟩

def runInLoop (cb : F) (s : LoopState F) : LoopState F :=
  { s with pendingFunctors_ := s.pendingFunctors_ ++ [cb], queued := s.queued ++ [cb] }

def runAllInLoop (cbs : List F) (s : LoopState F) : LoopState F :=
  cbs.foldl (fun s cb => s.runInLoop cb) s

/-- `pendingFunctors_[i]()`: `body s f` are the functors that `f` passes to `runInLoop`. -/
def call (body : LoopState F → F → List F) (f : F) (s : LoopState F) : LoopState F :=
  runAllInLoop (body s f) { s with executed := s.executed ++ [f] }

/-- The loop of `doPendingFunctors` from index `i` on; the size is read again each time. -/
def doPendingFunctors (body : LoopState F → F → List F) :
    ℕ → ℕ → LoopState F → Option (LoopState F)
  | 0, _, _ => none
  | fuel + 1, i, s =>
    match s.pendingFunctors_[i]? with
    | some f => doPendingFunctors body fuel (i + 1) (call body f s)
    | none => some s

/-- One completed iteration of `loop`. The handlers of the active channels pass the functors
`calls` to `runInLoop`, then the pending functors run. -/
def Iterates (body : LoopState F → F → List F) (s : LoopState F) (calls : List (List F))
    (t : LoopState F) : Prop :=
  ∃ fuel, doPendingFunctors body fuel 0 (runAllInLoop calls.flatten s) = some t

end LoopState
end NetPrograms.EventLoopModel
