import Mathlib.Data.List.Infix
import NetPrograms.EventLoopModel

set_option autoImplicit false

namespace NetPrograms.FunctorSnapshot
open EventLoopModel EventLoopModel.LoopState

variable {F : Type*} {body : LoopState F → F → List F}

theorem runAllInLoop_eq (cbs : List F) (s : LoopState F) :
    runAllInLoop cbs s =
      ⟨s.pendingFunctors_ ++ cbs, s.queued ++ cbs, s.executed⟩ := by
  induction cbs generalizing s with
  | nil => simp [runAllInLoop]
  | cons cb cbs ih =>
    change runAllInLoop cbs (s.runInLoop cb) = _
    rw [ih]
    simp [runInLoop]

theorem call_eq (body : LoopState F → F → List F) (f : F) (s : LoopState F) :
    call body f s =
      ⟨s.pendingFunctors_ ++ body s f, s.queued ++ body s f, s.executed ++ [f]⟩ :=
  runAllInLoop_eq _ _

theorem doPendingFunctors_end {i : ℕ} {s : LoopState F} (fuel : ℕ)
    (hi : s.pendingFunctors_.length ≤ i) : doPendingFunctors body (fuel + 1) i s = some s := by
  rw [doPendingFunctors, List.getElem?_eq_none hi]

theorem doPendingFunctors_next {i : ℕ} {s : LoopState F} {f : F} {fs : List F} (fuel : ℕ)
    (hi : s.pendingFunctors_.drop i = f :: fs) :
    doPendingFunctors body (fuel + 1) i s =
      doPendingFunctors body fuel (i + 1) (call body f s) := by
  have hget : s.pendingFunctors_[i]? = some f := by
    rw [← List.head?_drop, hi]
    rfl
  rw [doPendingFunctors, hget]

theorem lt_length_of_drop {fs rest : List F} {i : ℕ} {f : F} (hi : fs.drop i = f :: rest) :
    i < fs.length := by
  have hlen := congrArg List.length hi
  rw [List.length_drop, List.length_cons] at hlen
  omega

theorem drop_succ {fs rest : List F} {i : ℕ} {f : F} (hi : fs.drop i = f :: rest) :
    fs.drop (i + 1) = rest := by
  rw [← List.drop_drop, hi]
  rfl

theorem call_drop {i : ℕ} {s : LoopState F} {f : F} {fs : List F}
    (hi : s.pendingFunctors_.drop i = f :: fs) :
    (call body f s).pendingFunctors_.drop (i + 1) = fs ++ body s f := by
  rw [call_eq, List.drop_append_of_le_length (lt_length_of_drop hi), drop_succ hi]

theorem drop_next {fs gs rest : List F} {i : ℕ} {f : F} (h : fs <+: gs)
    (hi : fs.drop i = f :: rest) : gs.drop i = f :: gs.drop (i + 1) := by
  have hlt := lt_length_of_drop hi
  obtain ⟨more, rfl⟩ := h
  rw [List.drop_append_of_le_length hlt.le, List.drop_append_of_le_length hlt, hi, drop_succ hi]
  rfl

theorem doPendingFunctors_unique {fuel fuel' i : ℕ} {s t t' : LoopState F}
    (h : doPendingFunctors body fuel i s = some t)
    (h' : doPendingFunctors body fuel' i s = some t') : t = t' := by
  induction fuel generalizing fuel' i s with
  | zero => cases h
  | succ fuel ih =>
    cases fuel' with
    | zero => cases h'
    | succ fuel' =>
      cases hi : s.pendingFunctors_.drop i with
      | nil =>
        rw [doPendingFunctors_end _ (List.drop_eq_nil_iff.mp hi)] at h h'
        cases h
        exact Option.some.inj h'
      | cons f fs =>
        rw [doPendingFunctors_next _ hi] at h h'
        exact ih h h'

theorem doPendingFunctors_grows {fuel i : ℕ} {s t : LoopState F}
    (h : doPendingFunctors body fuel i s = some t) :
    s.pendingFunctors_ <+: t.pendingFunctors_ := by
  induction fuel generalizing i s with
  | zero => cases h
  | succ fuel ih =>
    cases hi : s.pendingFunctors_.drop i with
    | nil =>
      rw [doPendingFunctors_end fuel (List.drop_eq_nil_iff.mp hi)] at h
      cases h
      exact List.prefix_rfl
    | cons f fs =>
      rw [doPendingFunctors_next fuel hi] at h
      refine List.IsPrefix.trans ?_ (ih h)
      rw [call_eq]
      exact List.prefix_append _ _

theorem doPendingFunctors_executes {fuel i : ℕ} {s t : LoopState F}
    (h : doPendingFunctors body fuel i s = some t) :
    t.executed = s.executed ++ t.pendingFunctors_.drop i := by
  induction fuel generalizing i s with
  | zero => cases h
  | succ fuel ih =>
    cases hi : s.pendingFunctors_.drop i with
    | nil =>
      rw [doPendingFunctors_end fuel (List.drop_eq_nil_iff.mp hi)] at h
      cases h
      rw [hi, List.append_nil]
    | cons f fs =>
      rw [doPendingFunctors_next fuel hi] at h
      have hgrows : s.pendingFunctors_ <+: t.pendingFunctors_ := by
        refine List.IsPrefix.trans ?_ (doPendingFunctors_grows h)
        rw [call_eq]
        exact List.prefix_append _ _
      rw [ih h, call_eq, drop_next hgrows hi, List.append_assoc]
      rfl

def Quiet (body : LoopState F → F → List F) : List F → LoopState F → Prop
  | [], _ => True
  | f :: fs, s => body s f = [] ∧ Quiet body fs { s with executed := s.executed ++ [f] }

theorem doPendingFunctors_quiet {fs : List F} {i : ℕ} {s : LoopState F}
    (hi : s.pendingFunctors_.drop i = fs) (hq : Quiet body fs s) (fuel : ℕ) :
    doPendingFunctors body (fs.length + fuel + 1) i s =
      some { s with executed := s.executed ++ fs } := by
  induction fs generalizing i s with
  | nil =>
    rw [doPendingFunctors_end _ (List.drop_eq_nil_iff.mp hi), List.append_nil]
  | cons f fs ih =>
    obtain ⟨hsilent, hrest⟩ := hq
    have hcall : call body f s = { s with executed := s.executed ++ [f] } := by
      rw [call_eq, hsilent, List.append_nil, List.append_nil]
    have hfuel : (f :: fs).length + fuel = fs.length + fuel + 1 := by
      rw [List.length_cons]
      omega
    have hnext := ih (s := { s with executed := s.executed ++ [f] }) (drop_succ hi) hrest
    rw [hfuel, doPendingFunctors_next _ hi, hcall, hnext, List.append_assoc]
    rfl

theorem quiet_of_length {fuel i : ℕ} {s t : LoopState F} {fs : List F}
    (h : doPendingFunctors body fuel i s = some t) (hi : s.pendingFunctors_.drop i = fs)
    (hlen : t.pendingFunctors_.length = s.pendingFunctors_.length) : Quiet body fs s := by
  induction fuel generalizing i s fs with
  | zero => cases h
  | succ fuel ih =>
    cases fs with
    | nil => trivial
    | cons f fs =>
      rw [doPendingFunctors_next fuel hi] at h
      have hgrows := (doPendingFunctors_grows h).length_le
      have hcall : (call body f s).pendingFunctors_.drop (i + 1) = fs ++ body s f := call_drop hi
      rw [call_eq, List.length_append, hlen] at hgrows
      have hsilent : body s f = [] := List.length_eq_zero_iff.mp (by omega)
      refine ⟨hsilent, ?_⟩
      rw [call_eq, hsilent, List.append_nil, List.append_nil] at h hcall
      rw [List.append_nil] at hcall
      exact ih h hcall hlen

theorem requeue_never_returns {f : F} (hf : ∀ s, f ∈ body s f) (fuel : ℕ) {i : ℕ}
    {s : LoopState F} (hmem : f ∈ s.pendingFunctors_.drop i) :
    doPendingFunctors body fuel i s = none := by
  induction fuel generalizing i s with
  | zero => rfl
  | succ fuel ih =>
    cases hi : s.pendingFunctors_.drop i with
    | nil =>
      rw [hi] at hmem
      cases hmem
    | cons g fs =>
      rw [doPendingFunctors_next fuel hi]
      refine ih ?_
      rw [call_drop hi, List.mem_append]
      rw [hi, List.mem_cons] at hmem
      rcases hmem with rfl | hmem
      · exact .inr (hf s)
      · exact .inl hmem

/-- From `s` to `t` the functors pending in `s` have been executed, in order, and what was
queued meanwhile is pending in `t`. -/
structure Snapshot (s t : LoopState F) : Prop where
  executed : t.executed = s.executed ++ s.pendingFunctors_
  left : ∃ later, t.queued = s.queued ++ later ∧ later <:+ t.pendingFunctors_

/-- A call of `doPendingFunctors` on `s` returns, and has worked on a snapshot. -/
def RunsSnapshot (body : LoopState F → F → List F) (s : LoopState F) : Prop :=
  ∃ fuel t, doPendingFunctors body fuel 0 s = some t ∧ Snapshot s t

/-- The call returns having executed what was pending at its entry exactly when none of these
functors passes anything to `runInLoop`. -/
theorem runs_snapshot_iff (body : LoopState F → F → List F) (s : LoopState F) :
    RunsSnapshot body s ↔ Quiet body s.pendingFunctors_ s := by
  constructor
  · rintro ⟨fuel, t, h, hsnap⟩
    have hexec := doPendingFunctors_executes h
    rw [hsnap.executed, List.append_cancel_left_eq, List.drop_zero] at hexec
    exact quiet_of_length h List.drop_zero (congrArg List.length hexec.symm)
  · intro hq
    refine ⟨_, _, doPendingFunctors_quiet List.drop_zero hq 0, rfl, [], ?_, List.nil_suffix⟩
    exact (List.append_nil _).symm

/-- One functor that queues itself, and the loop never returns to `poll`. -/
theorem requeue_blocks : ¬RunsSnapshot (fun _ f => [f]) (LoopState.new.runInLoop 7) := by
  rintro ⟨fuel, t, h, -⟩
  have hnone : doPendingFunctors (fun _ f => [f]) fuel 0 (LoopState.new.runInLoop 7) = none :=
    requeue_never_returns (f := 7) (fun _ => List.mem_singleton_self 7) fuel
      (List.mem_singleton_self 7)
  rw [hnone] at h
  cases h

end NetPrograms.FunctorSnapshot
