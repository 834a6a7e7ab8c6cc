import NetPrograms.StackHistory
import NetPrograms.WorkQueueDelivery

set_option autoImplicit false

namespace NetPrograms.WorkQueueStack
open HeapChain Interleaving RunInvariants StackHistory WorkQueueModel WorkQueueOutline
  WorkQueueDelivery

variable {W E α D : Type*}

def IsStack (s : Shared W α D) : Prop :=
  ∃ ops l, Chain s.next s.workq l ∧ Leaves ops (s.contents l) ∧
    pushes ops = s.enqueued ∧ pops ops = s.taken

def Newest (s : Shared W α D) (x : Sent D) : Prop :=
  ∃ a b, s.enqueued = a ++ x :: b ∧ ∀ z ∈ b, ∃ w, (w, z) ∈ s.taken

def TakesNewest (c d : System W E α D) : Prop :=
  ∀ w x, d.shared.taken = c.shared.taken ++ [(w, x)] → Newest c.shared x

theorem IsStack.keep {s s' : Shared W α D} (h : IsStack s) (hworkq : s'.workq = s.workq)
    (hheap : ∀ a, (∃ l, Chain s.next s.workq l ∧ a ∈ l) → s'.heap a = s.heap a)
    (henqueued : s'.enqueued = s.enqueued) (htaken : s'.taken = s.taken) : IsStack s' := by
  obtain ⟨ops, l, hl, hops, hpushes, hpops⟩ := h
  have hsame : ∀ a ∈ l, s'.heap a = s.heap a := fun a ha => hheap a ⟨l, hl, ha⟩
  refine ⟨ops, l, hworkq ▸ chain_congr hl hsame, ?_, hpushes.trans henqueued.symm,
    hpops.trans htaken.symm⟩
  rw [contents_congr hsame]
  exact hops

theorem IsStack.take {s : Shared W α D} (h : IsStack s) (w : W) {mp : α} {m : Msg α D}
    (hworkq : s.workq = some mp) (hm : s.heap mp = some m) :
    Newest s m.sent ∧
      IsStack { s with workq := m.m_next, taken := s.taken ++ [(w, m.sent)] } := by
  obtain ⟨ops, l, hl, hops, hpushes, hpops⟩ := h
  rw [hworkq] at hl
  obtain ⟨link, l, rfl, hlink, htail⟩ := hl.cons_inv
  obtain rfl := Option.some.inj ((next_of hm).symm.trans hlink)
  rw [contents_cons hm] at hops
  constructor
  · rw [Newest, ← hpushes, ← hpops]
    exact hops.newest
  · refine ⟨ops ++ [.pop w m.sent], l, htail, hops.pop w, ?_, ?_⟩
    · rw [pushes_pop]
      exact hpushes
    · rw [pops_pop, hpops]

theorem IsStack.enqueue [DecidableEq α] {s : Shared W α D} (h : IsStack s) {mp : α}
    {m : Msg α D} (hmp : InHand s mp) :
    IsStack { s with
      heap := Function.update s.heap mp (some { m with m_next := s.workq })
      workq := some mp
      enqueued := s.enqueued ++ [m.sent] } := by
  obtain ⟨ops, l, hl, hops, hpushes, hpops⟩ := h
  have hoff := hmp.not_mem hl
  refine ⟨ops ++ [.push m.sent], mp :: l, chain_enqueue m hl hoff _, ?_, ?_, ?_⟩
  · rw [contents_cons (m := { m with m_next := s.workq }) (Function.update_self _ _ _),
      contents_congr (s := s) (update_off s hoff _)]
    exact hops.push m.sent
  · rw [pushes_push, hpushes]
  · rw [pops_push]
    exact hpops

variable [DecidableEq W] [DecidableEq α]

theorem acts_stack {c : System W E α D} {p : W ⊕ E} {s : Shared W α D} {t : Thread α}
    (h : Acts c p s t) (hc : outline.Holds c) (hs : IsStack c.shared) :
    IsStack s ∧ ∀ w x, s.taken = c.shared.taken ++ [(w, x)] → Newest c.shared x := by
  have hkept : s.taken = c.shared.taken →
      ∀ w x, s.taken = c.shared.taken ++ [(w, x)] → Newest c.shared x := by
    intro hsame w x htaken
    rw [hsame] at htaken
    exact absurd (congrArg List.length htaken) (by simp)
  cases h with
  | wait _ _ | spurious _ | print _ _ | signal _ _ =>
    exact ⟨hs.keep rfl (fun _ _ => rfl) rfl rfl, hkept rfl⟩
  | @take w mp m hworkq hm _ =>
    obtain ⟨hnewest, hstack⟩ := hs.take w hworkq hm
    refine ⟨hstack, fun v x htaken => ?_⟩
    obtain ⟨_, heq⟩ := List.append_inj' htaken rfl
    obtain ⟨rfl, rfl⟩ := Prod.mk.inj (List.singleton_inj.mp heq)
    exact hnewest
  | @free w mp m ht _ =>
    have hmp : InHand c.shared mp := (hc.thread (.inl w)).held mp (by rw [ht]; rfl)
    refine ⟨hs.keep rfl (fun a ⟨l, hl, ha⟩ => Function.update_of_ne ?_ _ _) rfl rfl, hkept rfl⟩
    rintro rfl
    exact hmp.not_mem hl ha
  | @malloc e mp m_next data _ hfree =>
    refine ⟨hs.keep rfl (fun a ⟨l, hl, ha⟩ => Function.update_of_ne ?_ _ _) rfl rfl, hkept rfl⟩
    rintro rfl
    exact not_mem_of_free hfree hl ha
  | @enqueue e mp m ht _ =>
    exact ⟨hs.enqueue ((hc.thread (.inr e)).held mp (by rw [ht]; rfl)), hkept rfl⟩

variable [DecidableEq E]

/-- In every interleaving the queue behaves as a stack, and a worker takes the message that was
enqueued last among those not yet taken. -/
theorem queue_is_stack (actions : List ((W ⊕ E) × Choice W α D)) :
    Always (Interleaves act) (fun c => IsStack c.shared) (start : System W E α D) actions ∧
      EachStep (Interleaves act) (fun c _ d => TakesNewest c d) (start : System W E α D)
        actions := by
  have hstep : ∀ (c : System W E α D) a d, outline.Holds c ∧ IsStack c.shared →
      Interleaves act c a d → True → TakesNewest c d ∧ outline.Holds d ∧ IsStack d.shared := by
    rintro c a d ⟨hc, hs⟩ ⟨s, t, hact, rfl⟩ -
    obtain ⟨hstack, hnewest⟩ := acts_stack (act_acts hact) hc hs
    exact ⟨hnewest, ((act_acts hact).kept hc).holds hc, hstack⟩
  have htrivial : EachStep (Interleaves act) (fun _ _ _ => True) (start : System W E α D) actions :=
    EachStep.of_labels (fun _ _ => trivial) _
  have hstart : outline.Holds (start : System W E α D) ∧
      IsStack (start : System W E α D).shared :=
    ⟨outline_start, [], [], .nil, .nil, rfl, rfl⟩
  exact ⟨(Always.of_invariant _ (fun c a d hc h ht => (hstep c a d hc h ht).2) htrivial
    hstart).mono fun _ h => h.2, EachStep.of_invariant _ hstep htrivial hstart⟩

end NetPrograms.WorkQueueStack
