import NetPrograms.WorkQueueOutline

set_option autoImplicit false

namespace NetPrograms.WorkQueueDelivery
open HeapChain Interleaving RunInvariants WorkQueueModel WorkQueueOutline

variable {W E α D : Type*}

/-- With a message in the queue a worker is not blocked or a signal is still to come. -/
def Waking (c : System W E α D) : Prop :=
  c.shared.workq ≠ none →
    (∃ w, w ∉ c.shared.waiters) ∨ ∃ e, c.thread (.inr e) = .signal

theorem Waking.noLostWakeUp {c : System W E α D} (h : Waking c) : NoLostWakeUp c := by
  intro hne hall
  rcases h hne with ⟨w, hw⟩ | hsignal
  · exact absurd (hall w).2 hw
  · exact hsignal

theorem Waking.keep [DecidableEq W] [DecidableEq E] {c : System W E α D} {p : W ⊕ E}
    {s : Shared W α D} {t : Thread α} (h : Waking c) (hworkq : s.workq = c.shared.workq)
    (hwaiters : s.waiters = c.shared.waiters)
    (hp : c.thread p ≠ .signal) : Waking (c.set p s t) := by
  intro hne
  rcases h (hworkq ▸ hne) with ⟨w, hw⟩ | ⟨e, he⟩
  · exact .inl ⟨w, hwaiters ▸ hw⟩
  · have hep : Sum.inr e ≠ p := fun heq => hp (heq ▸ he)
    exact .inr ⟨e, (c.set_of_ne hep s t).trans he⟩

theorem delivers_of_holds [DecidableEq W] {c : System W E α D} (hc : outline.Holds c) :
    Delivers c ∧ MemorySafe c := by
  have hq := hc.shared
  obtain ⟨l, hl, _⟩ := hq.conserved
  refine ⟨⟨hq.nodup, hq.conserved, fun w => ((hc.thread _).works w rfl).printed,
    fun w => ((hc.thread _).works w rfl).freed⟩, fun a ha => ?_, fun p a ha =>
    ((hc.thread p).held a ha).allocated⟩
  rw [ha] at hl
  obtain ⟨_, _, _, hnext, _⟩ := hl.cons_inv
  exact heap_of_next (by rw [hnext]; nofun)

section
variable [DecidableEq W] [DecidableEq α]

inductive Acts (c : System W E α D) : W ⊕ E → Shared W α D → Thread α → Prop where
  | wait {w : W} (ht : c.thread (.inl w) = .lock ∨ c.thread (.inl w) = .waiting)
      (hempty : c.shared.workq = none) :
      Acts c (.inl w) { c.shared with waiters := insert w c.shared.waiters } .waiting
  | spurious {w : W} (ht : c.thread (.inl w) = .waiting) :
      Acts c (.inl w) { c.shared with waiters := c.shared.waiters.erase w } .waiting
  | take {w : W} {mp : α} {m : Msg α D} (hworkq : c.shared.workq = some mp)
      (hm : c.shared.heap mp = some m) (ht : c.thread (.inl w) = .lock ∨
        c.thread (.inl w) = .waiting ∧ w ∉ c.shared.waiters) :
      Acts c (.inl w) { c.shared with
        workq := m.m_next
        taken := c.shared.taken ++ [(w, m.sent)] } (.print mp)
  | print {w : W} {mp : α} {m : Msg α D} (ht : c.thread (.inl w) = .print mp)
      (hm : c.shared.heap mp = some m) :
      Acts c (.inl w) { c.shared with printed := c.shared.printed ++ [(w, m.sent)] } (.free mp)
  | free {w : W} {mp : α} {m : Msg α D} (ht : c.thread (.inl w) = .free mp)
      (hm : c.shared.heap mp = some m) :
      Acts c (.inl w) { c.shared with
        heap := Function.update c.shared.heap mp none
        freed := c.shared.freed ++ [(w, m.sent)] } .lock
  | malloc {e : E} {mp : α} (m_next : Option α) (data : D) (ht : c.thread (.inr e) = .idle)
      (hfree : c.shared.heap mp = none) :
      Acts c (.inr e) { c.shared with
        heap := Function.update c.shared.heap mp (some ⟨m_next, data, c.shared.mallocs⟩)
        mallocs := c.shared.mallocs + 1 } (.enqueue mp)
  | enqueue {e : E} {mp : α} {m : Msg α D} (ht : c.thread (.inr e) = .enqueue mp)
      (hm : c.shared.heap mp = some m) :
      Acts c (.inr e) { c.shared with
        heap := Function.update c.shared.heap mp (some { m with m_next := c.shared.workq })
        workq := some mp
        enqueued := c.shared.enqueued ++ [m.sent] } .signal
  | signal {e : E} {woken : Finset W} (ht : c.thread (.inr e) = .signal)
      (hwakes : c.shared.waiters.Nonempty → woken.Nonempty) :
      Acts c (.inr e) { c.shared with waiters := c.shared.waiters \ woken } .idle

theorem takeOrWait_acts {c : System W E α D} {w : W} {s : Shared W α D} {t : Thread α}
    (ht : c.thread (.inl w) = .lock ∨ c.thread (.inl w) = .waiting ∧ w ∉ c.shared.waiters)
    (h : takeOrWait w c.shared = some (s, t)) : Acts c (.inl w) s t := by
  unfold takeOrWait at h
  split at h
  · next hempty =>
    obtain ⟨rfl, rfl⟩ := Prod.mk.inj (Option.some.inj h)
    exact .wait (ht.imp_right And.left) hempty
  · next mp hworkq =>
    obtain ⟨m, hm, heq⟩ := Option.map_eq_some_iff.mp h
    obtain ⟨rfl, rfl⟩ := Prod.mk.inj heq
    exact .take hworkq hm ht

theorem process_msg_acts {c : System W E α D} {w : W} {o : Choice W α D} {s : Shared W α D}
    {t : Thread α} (h : process_msg w o c.shared (c.thread (.inl w)) = some (s, t)) :
    Acts c (.inl w) s t := by
  cases ht : c.thread (.inl w) with
  | lock =>
    rw [ht] at h
    exact takeOrWait_acts (.inl ht) h
  | waiting =>
    rw [ht] at h
    unfold process_msg at h
    by_cases hblocked : w ∈ c.shared.waiters
    · rw [if_pos hblocked] at h
      cases o with
      | spurious =>
        obtain ⟨rfl, rfl⟩ := Prod.mk.inj (Option.some.inj h)
        exact .spurious ht
      | go | malloc _ _ _ | wake _ => cases h
    · rw [if_neg hblocked] at h
      exact takeOrWait_acts (.inr ⟨ht, hblocked⟩) h
  | print mp =>
    rw [ht] at h
    obtain ⟨m, hm, heq⟩ := Option.map_eq_some_iff.mp h
    obtain ⟨rfl, rfl⟩ := Prod.mk.inj heq
    exact .print ht hm
  | free mp =>
    rw [ht] at h
    obtain ⟨m, hm, heq⟩ := Option.map_eq_some_iff.mp h
    obtain ⟨rfl, rfl⟩ := Prod.mk.inj heq
    exact .free ht hm
  | idle | enqueue _ | signal =>
    rw [ht] at h
    cases h

theorem enqueue_msg_acts {c : System W E α D} {e : E} {o : Choice W α D} {s : Shared W α D}
    {t : Thread α} (h : enqueue_msg o c.shared (c.thread (.inr e)) = some (s, t)) :
    Acts c (.inr e) s t := by
  cases ht : c.thread (.inr e) with
  | idle =>
    rw [ht] at h
    cases o with
    | malloc mp m_next data =>
      rw [enqueue_msg] at h
      split_ifs at h with hfree
      obtain ⟨rfl, rfl⟩ := Prod.mk.inj (Option.some.inj h)
      exact .malloc m_next data ht hfree
    | go | spurious | wake _ => cases h
  | enqueue mp =>
    rw [ht] at h
    obtain ⟨m, hm, heq⟩ := Option.map_eq_some_iff.mp h
    obtain ⟨rfl, rfl⟩ := Prod.mk.inj heq
    exact .enqueue ht hm
  | signal =>
    rw [ht] at h
    cases o with
    | wake woken =>
      rw [enqueue_msg] at h
      split_ifs at h with hwakes
      obtain ⟨rfl, rfl⟩ := Prod.mk.inj (Option.some.inj h)
      exact .signal ht hwakes.2
    | go | spurious | malloc _ _ _ => cases h
  | lock | waiting | print _ | free _ =>
    rw [ht] at h
    cases h

theorem act_acts {c : System W E α D} {p : W ⊕ E} {o : Choice W α D} {s : Shared W α D}
    {t : Thread α} (h : act p o c.shared (c.thread p) = some (s, t)) : Acts c p s t := by
  cases p with
  | inl w => exact process_msg_acts h
  | inr e => exact enqueue_msg_acts h

theorem Acts.kept {c : System W E α D} {p : W ⊕ E} {s : Shared W α D} {t : Thread α}
    (h : Acts c p s t) (hc : outline.Holds c) : outline.Kept c p s t := by
  cases h with
  | wait ht _ =>
    exact kept_wait hc ht fun v hne hout hmem => (Finset.mem_insert.mp hmem).elim hne hout
  | spurious ht =>
    exact kept_wait hc (.inr ht) fun v _ hout hmem => hout (Finset.mem_of_mem_erase hmem)
  | @take w _ _ hworkq hm ht =>
    have hawake : w ∉ c.shared.waiters := by
      rcases ht with ht | ⟨_, hout⟩
      · exact ((hc.thread (.inl w)).works w rfl).awake (by rw [ht]; nofun)
      · exact hout
    exact kept_take hc hworkq hm (ht.imp_right And.left) hawake
  | print ht hm => exact kept_print hc ht hm
  | free ht hm => exact kept_free hc ht hm
  | malloc m_next data _ hfree => exact kept_malloc hc m_next data hfree
  | enqueue ht hm => exact kept_enqueue hc ht hm
  | signal _ _ => exact kept_signal hc _

variable [DecidableEq E]

theorem Acts.waking [Nonempty W] {c : System W E α D} {p : W ⊕ E} {s : Shared W α D}
    {t : Thread α} (h : Acts c p s t) (hc : outline.Holds c) (hwake : Waking c) :
    Waking (c.set p s t) := by
  cases h with
  | wait _ hempty => exact fun hne => absurd hempty hne
  | @spurious w _ => exact fun _ => .inl ⟨w, Finset.notMem_erase w _⟩
  | @take w _ _ _ _ ht =>
    intro _
    refine .inl ⟨w, ?_⟩
    rcases ht with ht | ⟨_, hout⟩
    · exact ((hc.thread (.inl w)).works w rfl).awake (by rw [ht]; nofun)
    · exact hout
  | print ht _ | free ht _ | malloc _ _ ht _ => exact hwake.keep rfl rfl (by rw [ht]; nofun)
  | @enqueue e _ _ _ _ => exact fun _ => .inr ⟨e, c.set_self _ _ _⟩
  | @signal _ woken _ hwakes =>
    intro _
    left
    rcases c.shared.waiters.eq_empty_or_nonempty with hnone | hsome
    · refine ⟨Classical.arbitrary W, fun hmem => ?_⟩
      rw [Config.set, hnone] at hmem
      exact absurd (Finset.mem_sdiff.mp hmem).1 (Finset.notMem_empty _)
    · obtain ⟨w, hw⟩ := hwakes hsome
      exact ⟨w, fun hmem => (Finset.mem_sdiff.mp hmem).2 hw⟩

/-- For any positive number of workers, any senders and every interleaving: the messages
enqueued are those in the queue and those taken, each once, every worker prints and frees what
it takes, no freed cell is used, and no wake-up is lost. -/
theorem messages_delivered [Nonempty W] (actions : List ((W ⊕ E) × Choice W α D)) :
    Always (Interleaves act) (fun c => Delivers c ∧ MemorySafe c ∧ NoLostWakeUp c)
      (start : System W E α D) actions := by
  have hinv : Always (Interleaves act) (fun c => outline.Holds c ∧ Waking c)
      (start : System W E α D) actions := by
    refine Always.of_invariant (G := fun _ _ _ => True) _ (fun c a d hc hstep _ => ?_)
      (EachStep.of_labels (fun _ _ => trivial) _) ⟨outline_start, fun hne => absurd rfl hne⟩
    obtain ⟨s, t, hact, rfl⟩ := hstep
    exact ⟨((act_acts hact).kept hc.1).holds hc.1, (act_acts hact).waking hc.1 hc.2⟩
  refine hinv.mono fun c hc => ?_
  obtain ⟨hdelivers, hsafe⟩ := delivers_of_holds hc.1
  exact ⟨hdelivers, hsafe, hc.2.noLostWakeUp⟩

end

def twoMessages : List ((Bool ⊕ Unit) × Choice Bool ℕ ℕ) :=
  [(.inl false, .go), (.inl true, .go), (.inr (), .malloc 7 none 1111), (.inr (), .go),
    (.inr (), .wake {true}), (.inr (), .malloc 8 none 2222), (.inr (), .go),
    (.inl false, .spurious), (.inl false, .go), (.inl false, .go), (.inl false, .go)]

theorem messages_delivered_two : ∃ c : System Bool Unit ℕ ℕ,
    Run (Interleaves act) start twoMessages c ∧ c.shared.workq = some 7 ∧
    c.shared.freed = [(false, ⟨1, 2222⟩)] ∧ Delivers c ∧ MemorySafe c ∧ NoLostWakeUp c := by
  let c := ((start : System Bool Unit ℕ ℕ).after act twoMessages).getD start
  have hrun : Run (Interleaves act) start twoMessages c := run_of_after rfl
  have hall := messages_delivered (W := Bool) twoMessages
  exact ⟨c, hrun, rfl, rfl, (always_iff_run _ _ _).mp hall _ c List.prefix_rfl hrun⟩

end NetPrograms.WorkQueueDelivery
