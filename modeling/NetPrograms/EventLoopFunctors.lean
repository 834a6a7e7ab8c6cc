import NetPrograms.FunctorSnapshot
import NetPrograms.RunInvariants

set_option autoImplicit false

namespace NetPrograms.EventLoopFunctors
open EventLoopModel EventLoopModel.LoopState FunctorSnapshot RunInvariants

variable {F : Type*}

def Silent (body : LoopState F → F → List F) : Prop := ∀ s f, body s f = []

def ExecutedOnce (s : LoopState F) : Prop := s.executed = s.queued

theorem quiet_of_silent {body : LoopState F → F → List F} (hb : Silent body) (fs : List F)
    (s : LoopState F) : Quiet body fs s := by
  induction fs generalizing s with
  | nil => trivial
  | cons f fs ih => exact ⟨hb s f, ih _⟩

theorem iterates_iff {body : LoopState F → F → List F} (hb : Silent body) (s : LoopState F)
    (calls : List (List F)) (t : LoopState F) :
    Iterates body s calls t ↔
      t = ⟨s.pendingFunctors_ ++ calls.flatten, s.queued ++ calls.flatten,
        s.executed ++ (s.pendingFunctors_ ++ calls.flatten)⟩ := by
  obtain ⟨fuel, hrun⟩ : Iterates body s calls ⟨s.pendingFunctors_ ++ calls.flatten,
      s.queued ++ calls.flatten, s.executed ++ (s.pendingFunctors_ ++ calls.flatten)⟩ := by
    unfold Iterates
    rw [runAllInLoop_eq]
    exact ⟨_, doPendingFunctors_quiet List.drop_zero (quiet_of_silent hb _ _) 0⟩
  constructor
  · rintro ⟨fuel', h⟩
    exact doPendingFunctors_unique h hrun
  · rintro rfl
    exact ⟨fuel, hrun⟩

/-- After every iteration of a run each functor has been executed exactly once and in order,
exactly when every iteration starts with an empty queue. -/
theorem functors_executed_once_iff (body : LoopState F → F → List F) (hb : Silent body)
    (iterations : List (List (List F))) :
    Always (Iterates body) ExecutedOnce LoopState.new iterations ↔
      EachStep (Iterates body) (fun s _ _ => s.pendingFunctors_ = []) LoopState.new iterations := by
  refine always_iff_eachStep (I := fun _ => True) (G := fun _ _ _ => True) ?_
    (EachStep.of_labels (fun _ _ => trivial) _) trivial rfl
  intro s calls t _ hs ht _
  rw [iterates_iff hb] at ht
  subst ht
  refine ⟨trivial, ?_⟩
  change s.executed = s.queued at hs
  rw [ExecutedOnce, hs, List.append_cancel_left_eq, List.append_left_eq_self]

/-- In terms of the calls alone: the queue is never emptied, so it is empty at the start of
every iteration exactly when no iteration but the last queues a functor. -/
theorem queue_empty_iff (body : LoopState F → F → List F) (hb : Silent body)
    (earlier : List (List (List F))) (last : List (List F)) (s : LoopState F) :
    EachStep (Iterates body) (fun s _ _ => s.pendingFunctors_ = []) s (earlier ++ [last]) ↔
      s.pendingFunctors_ = [] ∧ ∀ calls ∈ earlier, calls.flatten = [] := by
  induction earlier generalizing s with
  | nil =>
    constructor
    · intro h
      exact ⟨(h _ ((iterates_iff hb s last _).mpr rfl)).1, nofun⟩
    · exact fun h _ _ => ⟨h.1, trivial⟩
  | cons calls earlier ih =>
    constructor
    · intro h
      obtain ⟨hs, hrest⟩ := h _ ((iterates_iff hb s calls _).mpr rfl)
      obtain ⟨hnext, hall⟩ := (ih _).mp hrest
      obtain ⟨_, hcalls⟩ := List.append_eq_nil_iff.mp hnext
      exact ⟨hs, List.forall_mem_cons.mpr ⟨hcalls, hall⟩⟩
    · rintro ⟨hs, hall⟩ t ht
      obtain ⟨hcalls, hrest⟩ := List.forall_mem_cons.mp hall
      rw [iterates_iff hb] at ht
      refine ⟨hs, (ih t).mpr ⟨?_, hrest⟩⟩
      rw [ht, hs, hcalls]
      rfl

theorem functors_executed_once_iff_last :
    Always (Iterates fun _ _ => []) ExecutedOnce LoopState.new [[], [[], []], [[7, 7], [8]]] := by
  refine (functors_executed_once_iff (fun _ _ => []) (fun _ _ => rfl) _).mpr ?_
  refine (queue_empty_iff _ (fun _ _ => rfl) [[], [[], []]] [[7, 7], [8]] _).mpr ⟨rfl, ?_⟩
  simp

theorem functors_executed_twice :
    ¬Always (Iterates fun _ _ => []) ExecutedOnce LoopState.new [[[7]], []] := by
  rintro ⟨_, h⟩
  have h₁ := (h _ ((iterates_iff (fun _ _ => rfl) _ _ _).mpr rfl)).2
  have h₂ := h₁ _ ((iterates_iff (fun _ _ => rfl) _ _ _).mpr rfl)
  revert h₂
  unfold Always ExecutedOnce
  decide

end NetPrograms.EventLoopFunctors
