import NetPrograms.WorkQueueModel

set_option autoImplicit false

namespace NetPrograms.WorkQueueOutline
open HeapChain Interleaving RunInvariants WorkQueueModel

variable {W E α D : Type*}

structure Queued (s : Shared W α D) : Prop where
  bound : ∀ a m, s.heap a = some m → m.serial < s.mallocs
  inj : ∀ a b m m', s.heap a = some m → s.heap b = some m' → m.serial = m'.serial → a = b
  sent : ∀ x ∈ s.enqueued, x.serial < s.mallocs
  nodup : s.enqueued.Nodup
  conserved : ∃ l, Chain s.next s.workq l ∧
    s.enqueued.Perm (s.contents l ++ s.taken.map Prod.snd)

structure InHand (s : Shared W α D) (a : α) : Prop where
  allocated : s.heap a ≠ none
  off : ∃ l, Chain s.next s.workq l ∧ a ∉ l

theorem InHand.not_mem {s : Shared W α D} {a : α} (h : InHand s a) {l : List α}
    (hl : Chain s.next s.workq l) : a ∉ l := by
  obtain ⟨m, hm, ha⟩ := h.off
  obtain rfl := hl.unique hm
  exact ha

theorem next_of {s : Shared W α D} {a : α} {m : Msg α D} (h : s.heap a = some m) :
    s.next a = some m.m_next := by rw [Shared.next, h]; rfl

theorem heap_of_next {s : Shared W α D} {a : α} (h : s.next a ≠ none) : s.heap a ≠ none := by
  intro hno
  rw [Shared.next, hno] at h
  exact h rfl

theorem not_mem_of_free {s : Shared W α D} {mp : α} (hfree : s.heap mp = none) {l : List α}
    (hl : Chain s.next s.workq l) : mp ∉ l := fun ha => heap_of_next (hl.allocated ha) hfree

theorem contents_cons {s : Shared W α D} {a : α} {m : Msg α D} (h : s.heap a = some m)
    (l : List α) : s.contents (a :: l) = m.sent :: s.contents l := by
  simp [Shared.contents, h]

theorem contents_congr {s s' : Shared W α D} {l : List α}
    (h : ∀ a ∈ l, s'.heap a = s.heap a) : s'.contents l = s.contents l :=
  List.filterMap_congr fun a ha => by rw [h a ha]

theorem chain_congr {s s' : Shared W α D} {link : Option α} {l : List α}
    (hc : Chain s.next link l) (h : ∀ a ∈ l, s'.heap a = s.heap a) : Chain s'.next link l :=
  hc.frame fun a ha => by rw [Shared.next, Shared.next, h a ha]

theorem update_off [DecidableEq α] (s : Shared W α D) {l : List α} {mp : α} (h : mp ∉ l)
    (cell : Option (Msg α D)) (a : α) (ha : a ∈ l) : Function.update s.heap mp cell a = s.heap a :=
  Function.update_of_ne (fun he : a = mp => h (he ▸ ha)) _ _

theorem update_cell [DecidableEq α] {s : Shared W α D} {mp a : α} {cell : Option (Msg α D)}
    {m : Msg α D} (h : Function.update s.heap mp cell a = some m) :
    a = mp ∧ cell = some m ∨ s.heap a = some m := by
  by_cases hne : a = mp
  · rw [hne, Function.update_self] at h
    exact .inl ⟨hne, h⟩
  · rw [Function.update_of_ne hne] at h
    exact .inr h

theorem Queued.take {s : Shared W α D} (h : Queued s) (w : W) {mp : α} {m : Msg α D}
    (hworkq : s.workq = some mp) (hm : s.heap mp = some m) :
    ∃ l, Chain s.next s.workq (mp :: l) ∧ Chain s.next m.m_next l ∧ mp ∉ l ∧
      Queued { s with workq := m.m_next, taken := s.taken ++ [(w, m.sent)] } := by
  obtain ⟨l₀, hl₀, hperm⟩ := h.conserved
  have hhead := hl₀
  rw [hworkq] at hhead
  obtain ⟨link, l, rfl, hlink, hl⟩ := hhead.cons_inv
  obtain rfl := Option.some.inj ((next_of hm).symm.trans hlink)
  refine ⟨l, hl₀, hl, (List.nodup_cons.mp hl₀.nodup).1, h.bound, h.inj, h.sent, h.nodup, l, hl, ?_⟩
  rw [contents_cons hm] at hperm
  change s.enqueued.Perm (s.contents l ++ (s.taken ++ [(w, m.sent)]).map Prod.snd)
  rw [List.map_append, ← List.append_assoc]
  exact hperm.trans (List.perm_append_singleton _ _).symm

section
variable [DecidableEq α]

theorem Queued.free {s : Shared W α D} (h : Queued s) {mp : α} (hmp : InHand s mp)
    (freed : List (W × Sent D)) :
    Queued { s with heap := Function.update s.heap mp none, freed := freed } := by
  obtain ⟨l, hl, hperm⟩ := h.conserved
  have hchain := update_off s (hmp.not_mem hl) none
  have hcell : ∀ a m, Function.update s.heap mp none a = some m → s.heap a = some m :=
    fun a m ha => (update_cell ha).resolve_left fun hno => by cases hno.2
  refine ⟨fun a m ha => h.bound a m (hcell a m ha), fun a b m m' ha hb =>
    h.inj a b m m' (hcell a m ha) (hcell b m' hb), h.sent, h.nodup, l, chain_congr hl hchain, ?_⟩
  rw [contents_congr (s := s) hchain]
  exact hperm

theorem Queued.malloc {s : Shared W α D} (h : Queued s) {mp : α} (hfree : s.heap mp = none)
    (m_next : Option α) (data : D) :
    Queued { s with
      heap := Function.update s.heap mp (some ⟨m_next, data, s.mallocs⟩)
      mallocs := s.mallocs + 1 } := by
  obtain ⟨l, hl, hperm⟩ := h.conserved
  have hchain := update_off s (not_mem_of_free hfree hl) (some ⟨m_next, data, s.mallocs⟩)
  refine ⟨fun a m ha => ?_, fun a b m m' ha hb heq => ?_, fun x hx =>
    Nat.lt_succ_of_lt (h.sent x hx), h.nodup, l, chain_congr hl hchain, ?_⟩
  · change m.serial < s.mallocs + 1
    rcases update_cell ha with ⟨_, hm⟩ | ha
    · obtain rfl := Option.some.inj hm
      exact Nat.lt_succ_self _
    · exact Nat.lt_succ_of_lt (h.bound a m ha)
  · rcases update_cell ha with ⟨hamp, hm⟩ | ha' <;> rcases update_cell hb with ⟨hbmp, hm'⟩ | hb'
    · exact hamp.trans hbmp.symm
    · obtain rfl := Option.some.inj hm
      exact absurd (heq ▸ h.bound b m' hb') (Nat.lt_irrefl _)
    · obtain rfl := Option.some.inj hm'
      exact absurd (heq ▸ h.bound a m ha') (Nat.lt_irrefl _)
    · exact h.inj a b m m' ha' hb' heq
  · rw [contents_congr (s := s) hchain]
    exact hperm

theorem chain_enqueue {s : Shared W α D} {mp : α} (m : Msg α D) {l : List α}
    (hl : Chain s.next s.workq l) (hmp : mp ∉ l) (enqueued : List (Sent D)) :
    Chain ({ s with
      heap := Function.update s.heap mp (some { m with m_next := s.workq })
      workq := some mp
      enqueued := enqueued } : Shared W α D).next (some mp) (mp :: l) := by
  refine .cons ?_ (chain_congr hl (update_off s hmp _))
  exact next_of (m := { m with m_next := s.workq }) (Function.update_self _ _ _)

theorem Queued.enqueue {s : Shared W α D} (h : Queued s) {mp : α} {m : Msg α D}
    (hmp : InHand s mp) (hm : s.heap mp = some m) (hunsent : m.sent ∉ s.enqueued) :
    Queued { s with
      heap := Function.update s.heap mp (some { m with m_next := s.workq })
      workq := some mp
      enqueued := s.enqueued ++ [m.sent] } := by
  obtain ⟨l, hl, hperm⟩ := h.conserved
  have hserial : ∀ a m', Function.update s.heap mp (some { m with m_next := s.workq }) a =
      some m' → ∃ m₀, s.heap a = some m₀ ∧ m₀.serial = m'.serial := by
    intro a m' ha
    rcases update_cell ha with ⟨rfl, hm'⟩ | ha
    · obtain rfl := Option.some.inj hm'
      exact ⟨m, hm, rfl⟩
    · exact ⟨m', ha, rfl⟩
  refine ⟨fun a m' ha => ?_, fun a b m₁ m₂ ha hb heq => ?_, fun x hx => ?_, ?_, mp :: l,
    chain_enqueue m hl (hmp.not_mem hl) _, ?_⟩
  · obtain ⟨m₀, ha₀, heq⟩ := hserial a m' ha
    exact heq ▸ h.bound a m₀ ha₀
  · obtain ⟨m₃, ha₃, h₃⟩ := hserial a m₁ ha
    obtain ⟨m₄, hb₄, h₄⟩ := hserial b m₂ hb
    exact h.inj a b m₃ m₄ ha₃ hb₄ (h₃.trans (heq.trans h₄.symm))
  · rcases List.mem_append.mp hx with hx | hx
    · exact h.sent x hx
    · rw [List.mem_singleton.mp hx]
      exact h.bound mp m hm
  · exact (List.perm_append_singleton _ _).nodup_iff.mpr (List.nodup_cons.mpr ⟨hunsent, h.nodup⟩)
  · rw [contents_cons (m := { m with m_next := s.workq }) (Function.update_self _ _ _),
      contents_congr (s := s) (update_off s (hmp.not_mem hl) _)]
    exact (List.perm_append_singleton _ _).trans (hperm.cons m.sent)

end

theorem inHands_congr {s s' : Shared W α D} {t : Thread α}
    (h : ∀ a, t.holds a → s'.heap a = s.heap a) :
    s'.toPrint t = s.toPrint t ∧ s'.toFree t = s.toFree t := by
  have hone : ∀ a, t.holds a → s'.contents [a] = s.contents [a] := fun a ha =>
    contents_congr fun b hb => by
      rw [List.mem_singleton.mp hb]
      exact h a ha
  cases t with
  | print mp => exact ⟨hone mp rfl, rfl⟩
  | free mp => exact ⟨rfl, hone mp rfl⟩
  | lock | waiting | idle | enqueue _ | signal => exact ⟨rfl, rfl⟩

section
variable [DecidableEq W]

structure Works (w : W) (s : Shared W α D) (t : Thread α) : Prop where
  awake : t ≠ .waiting → w ∉ s.waiters
  printed : doneBy w s.taken = doneBy w s.printed ++ s.toPrint t
  freed : doneBy w s.printed = doneBy w s.freed ++ s.toFree t

structure Assertion (p : W ⊕ E) (s : Shared W α D) (t : Thread α) : Prop where
  held : ∀ a, t.holds a → InHand s a
  works : ∀ w, p = .inl w → Works w s t
  unsent : ∀ a m, t = .enqueue a → s.heap a = some m → m.sent ∉ s.enqueued

def outline : Outline (W ⊕ E) (Shared W α D) (Thread α) where
  shared := Queued
  thread := Assertion
  apart t u := ∀ a, t.holds a → ¬u.holds a

theorem doneBy_append_self (w : W) (history : List (W × Sent D)) (x : Sent D) :
    doneBy w (history ++ [(w, x)]) = doneBy w history ++ [x] := by
  simp [doneBy]

theorem doneBy_append_other {w v : W} {q : W ⊕ E} (hne : q ≠ .inl w) (hv : q = .inl v)
    (history : List (W × Sent D)) (x : Sent D) :
    doneBy v (history ++ [(w, x)]) = doneBy v history := by
  have hvw : w ≠ v := fun he => hne (hv.trans (congrArg Sum.inl he.symm))
  simp [doneBy, hvw]

/-- What an action leaves to the other threads. A part of the shared data that it does not
touch needs no proof. -/
structure Leaves (q : W ⊕ E) (s s' : Shared W α D) (t : Thread α) : Prop where
  heap : ∀ a, t.holds a → s'.heap a = s.heap a := by exact fun _ _ => rfl
  off : ∀ a, t.holds a → InHand s a → ∃ l, Chain s'.next s'.workq l ∧ a ∉ l := by
    exact fun _ _ hin => hin.off
  waiters : ∀ w, q = .inl w → w ∉ s.waiters → w ∉ s'.waiters := by exact fun _ _ hout => hout
  taken : ∀ w, q = .inl w → doneBy w s'.taken = doneBy w s.taken := by exact fun _ _ => rfl
  printed : ∀ w, q = .inl w → doneBy w s'.printed = doneBy w s.printed := by
    exact fun _ _ => rfl
  freed : ∀ w, q = .inl w → doneBy w s'.freed = doneBy w s.freed := by exact fun _ _ => rfl
  unsent : ∀ a m, t = .enqueue a → s.heap a = some m → m.sent ∉ s.enqueued →
      m.sent ∉ s'.enqueued := by
    exact fun _ _ _ _ hun => hun

theorem Leaves.assertion {q : W ⊕ E} {s s' : Shared W α D} {t : Thread α}
    (h : Leaves q s s' t) (ha : Assertion q s t) : Assertion q s' t := by
  obtain ⟨hprint, hfree⟩ := inHands_congr h.heap
  refine ⟨fun a hheld => ⟨?_, h.off a hheld (ha.held a hheld)⟩, fun w hw => ?_, ?_⟩
  · rw [h.heap a hheld]
    exact (ha.held a hheld).allocated
  · obtain ⟨hawake, hprinted, hfreed⟩ := ha.works w hw
    refine ⟨fun hne => h.waiters w hw (hawake hne), ?_, ?_⟩
    · rw [h.taken w hw, h.printed w hw, hprint, hprinted]
    · rw [h.printed w hw, h.freed w hw, hfree, hfreed]
  · intro a m ht hm
    have hheld : t.holds a := by
      rw [ht]
      rfl
    rw [h.heap a hheld] at hm
    exact h.unsent a m ht hm (ha.unsent a m ht hm)

theorem apart_of {c : System W E α D} {p : W ⊕ E} {t : Thread α}
    (h : ∀ q, q ≠ p → ∀ a, t.holds a → ¬(c.thread q).holds a) (q : W ⊕ E) (hq : q ≠ p) :
    (outline (W := W) (E := E) (D := D)).apart t (c.thread q) ∧
      (outline (W := W) (E := E) (D := D)).apart (c.thread q) t :=
  ⟨h q hq, fun a hheld ht => h q hq a ht hheld⟩

theorem Works.settled {w : W} {s : Shared W α D} {t : Thread α} (h : Works w s t)
    (ht : t = .lock ∨ t = .waiting) :
    doneBy w s.taken = doneBy w s.printed ∧ doneBy w s.printed = doneBy w s.freed := by
  obtain ⟨_, hprinted, hfreed⟩ := h
  rcases ht with rfl | rfl <;>
    exact ⟨hprinted.trans (List.append_nil _), hfreed.trans (List.append_nil _)⟩

theorem works_settled {w : W} {s : Shared W α D} {t : Thread α} (ht : t = .lock ∨ t = .waiting)
    (hawake : t ≠ .waiting → w ∉ s.waiters) (hprinted : doneBy w s.taken = doneBy w s.printed)
    (hfreed : doneBy w s.printed = doneBy w s.freed) : Works w s t := by
  rcases ht with rfl | rfl <;>
    exact ⟨hawake, hprinted.trans (List.append_nil _).symm, hfreed.trans (List.append_nil _).symm⟩

section
variable {c : System W E α D} {w : W} (hc : outline.Holds c)
include hc

theorem kept_wait (ht : c.thread (.inl w) = .lock ∨ c.thread (.inl w) = .waiting)
    {waiters : Finset W} (hout : ∀ v, v ≠ w → v ∉ c.shared.waiters → v ∉ waiters) :
    outline.Kept c (.inl w) { c.shared with waiters := waiters } .waiting := by
  obtain ⟨hprinted, hfreed⟩ := ((hc.thread (.inl w)).works w rfl).settled ht
  have hq := hc.shared
  refine ⟨⟨hq.bound, hq.inj, hq.sent, hq.nodup, hq.conserved⟩, ⟨nofun, fun v hv => ?_, nofun⟩,
    fun q hne => ?_, apart_of fun _ _ _ => nofun⟩
  · obtain rfl := Sum.inl.inj hv
    exact works_settled (.inr rfl) (fun hno => absurd rfl hno) hprinted hfreed
  · exact Leaves.assertion (s := c.shared)
      { waiters := fun v hv => hout v fun he => hne (hv.trans (congrArg Sum.inl he)) }
      (hc.thread q)

theorem kept_take {mp : α} {m : Msg α D} (hworkq : c.shared.workq = some mp)
    (hm : c.shared.heap mp = some m)
    (ht : c.thread (.inl w) = .lock ∨ c.thread (.inl w) = .waiting)
    (hawake : w ∉ c.shared.waiters) :
    outline.Kept c (.inl w) { c.shared with
      workq := m.m_next
      taken := c.shared.taken ++ [(w, m.sent)] } (.print mp) := by
  obtain ⟨hprinted, hfreed⟩ := ((hc.thread (.inl w)).works w rfl).settled ht
  obtain ⟨l, hl₀, hl, hmp, hq⟩ := hc.shared.take w hworkq hm
  refine ⟨hq, ⟨?_, fun v hv => ?_, nofun⟩, fun q hne => ?_, apart_of fun q _ a ha hheld => ?_⟩
  · rintro a rfl
    exact ⟨by rw [hm]; nofun, l, hl, hmp⟩
  · obtain rfl := Sum.inl.inj hv
    refine ⟨fun _ => hawake, ?_, hfreed.trans (List.append_nil _).symm⟩
    change doneBy w (c.shared.taken ++ [(w, m.sent)]) =
      doneBy w c.shared.printed ++ c.shared.contents [mp]
    rw [doneBy_append_self, hprinted, contents_cons hm]
    rfl
  · exact Leaves.assertion (s := c.shared)
      { off := fun a _ hin =>
          ⟨l, hl, fun ha => hin.not_mem hl₀ (List.mem_cons_of_mem mp ha)⟩
        taken := fun v hv => doneBy_append_other hne hv _ _ } (hc.thread q)
  · obtain rfl := ha
    exact ((hc.thread q).held mp hheld).not_mem hl₀ List.mem_cons_self

theorem kept_print {mp : α} {m : Msg α D} (ht : c.thread (.inl w) = .print mp)
    (hm : c.shared.heap mp = some m) :
    outline.Kept c (.inl w) { c.shared with printed := c.shared.printed ++ [(w, m.sent)] }
      (.free mp) := by
  obtain ⟨hawake, hprinted, hfreed⟩ := (hc.thread (.inl w)).works w rfl
  rw [ht] at hawake hprinted hfreed
  have hq := hc.shared
  have hheld : (c.thread (.inl w)).holds mp := by
    rw [ht]
    rfl
  have hone : c.shared.contents [mp] = [m.sent] := contents_cons hm []
  refine ⟨⟨hq.bound, hq.inj, hq.sent, hq.nodup, hq.conserved⟩, ⟨?_, fun v hv => ?_, nofun⟩,
    fun q hne => ?_, apart_of fun q hne a ha => ?_⟩
  · rintro a rfl
    have hin := (hc.thread (.inl w)).held mp hheld
    exact ⟨hin.allocated, hin.off⟩
  · obtain rfl := Sum.inl.inj hv
    refine ⟨fun _ => hawake nofun, ?_, ?_⟩
    · change doneBy w c.shared.taken = doneBy w (c.shared.printed ++ [(w, m.sent)]) ++ []
      rw [doneBy_append_self, List.append_nil, ← hone]
      exact hprinted
    · change doneBy w (c.shared.printed ++ [(w, m.sent)]) =
        doneBy w c.shared.freed ++ c.shared.contents [mp]
      rw [doneBy_append_self, hone, hfreed]
      exact congrArg (· ++ [m.sent]) (List.append_nil _)
  · exact Leaves.assertion (s := c.shared)
      { printed := fun v hv => doneBy_append_other hne hv _ _ } (hc.thread q)
  · obtain rfl := ha
    exact hc.apart (.inl w) q hne.symm mp hheld

variable [DecidableEq α]

theorem kept_free {mp : α} {m : Msg α D} (ht : c.thread (.inl w) = .free mp)
    (hm : c.shared.heap mp = some m) :
    outline.Kept c (.inl w) { c.shared with
      heap := Function.update c.shared.heap mp none
      freed := c.shared.freed ++ [(w, m.sent)] } .lock := by
  obtain ⟨hawake, hprinted, hfreed⟩ := (hc.thread (.inl w)).works w rfl
  rw [ht] at hawake hprinted hfreed
  have hheld : (c.thread (.inl w)).holds mp := by
    rw [ht]
    rfl
  have hmp := (hc.thread (.inl w)).held mp hheld
  obtain ⟨l, hl, _⟩ := hc.shared.conserved
  refine ⟨hc.shared.free hmp _, ⟨nofun, fun v hv => ?_, nofun⟩, fun q hne => ?_,
    apart_of fun _ _ _ => nofun⟩
  · obtain rfl := Sum.inl.inj hv
    refine works_settled (.inl rfl) (fun _ => hawake nofun) (hprinted.trans (List.append_nil _)) ?_
    change doneBy w c.shared.printed = doneBy w (c.shared.freed ++ [(w, m.sent)])
    rw [doneBy_append_self, hfreed]
    exact congrArg (doneBy w c.shared.freed ++ ·) (contents_cons hm [])
  · have hother : ∀ a, (c.thread q).holds a → a ≠ mp := fun a ha he =>
      hc.apart (.inl w) q hne.symm mp hheld (he ▸ ha)
    exact Leaves.assertion (s := c.shared)
      { heap := fun a ha => Function.update_of_ne (hother a ha) _ _
        off := fun a _ hin =>
          ⟨l, chain_congr hl (update_off _ (hmp.not_mem hl) none), hin.not_mem hl⟩
        freed := fun v hv => doneBy_append_other hne hv _ _ } (hc.thread q)

end

section
variable {c : System W E α D} {e : E} (hc : outline.Holds c)
include hc

theorem kept_signal (woken : Finset W) :
    outline.Kept c (.inr e) { c.shared with waiters := c.shared.waiters \ woken } .idle := by
  have hq := hc.shared
  refine ⟨⟨hq.bound, hq.inj, hq.sent, hq.nodup, hq.conserved⟩, ⟨nofun, nofun, nofun⟩,
    fun q _ => ?_, apart_of fun _ _ _ => nofun⟩
  exact Leaves.assertion (s := c.shared)
    { waiters := fun _ _ hout hmem => hout (Finset.mem_sdiff.mp hmem).1 } (hc.thread q)

variable [DecidableEq α]

theorem kept_malloc {mp : α} (m_next : Option α) (data : D) (hfree : c.shared.heap mp = none) :
    outline.Kept c (.inr e) { c.shared with
      heap := Function.update c.shared.heap mp (some ⟨m_next, data, c.shared.mallocs⟩)
      mallocs := c.shared.mallocs + 1 } (.enqueue mp) := by
  obtain ⟨l, hl, _⟩ := hc.shared.conserved
  let cell : Msg α D := ⟨m_next, data, c.shared.mallocs⟩
  have hmp := not_mem_of_free hfree hl
  have hchain := update_off c.shared hmp (some cell)
  have hother : ∀ q a, (c.thread q).holds a → a ≠ mp := fun q a ha he =>
    ((hc.thread q).held a ha).allocated (he ▸ hfree)
  refine ⟨hc.shared.malloc hfree m_next data, ⟨?_, nofun, fun a m ht hm hmem => ?_⟩,
    fun q _ => ?_, apart_of fun q _ a ha hheld => ?_⟩
  · rintro a rfl
    refine ⟨?_, l, chain_congr hl hchain, hmp⟩
    change Function.update c.shared.heap mp (some cell) mp ≠ none
    rw [Function.update_self]
    nofun
  · obtain rfl := Thread.enqueue.inj ht
    change Function.update c.shared.heap mp (some cell) mp = some m at hm
    rw [Function.update_self] at hm
    obtain rfl := Option.some.inj hm
    exact absurd (hc.shared.sent _ hmem) (Nat.lt_irrefl _)
  · exact Leaves.assertion (s := c.shared)
      { heap := fun a ha => Function.update_of_ne (hother q a ha) _ _
        off := fun a _ hin => ⟨l, chain_congr hl hchain, hin.not_mem hl⟩ } (hc.thread q)
  · obtain rfl := ha
    exact hother q mp hheld rfl

theorem kept_enqueue {mp : α} {m : Msg α D} (ht : c.thread (.inr e) = .enqueue mp)
    (hm : c.shared.heap mp = some m) :
    outline.Kept c (.inr e) { c.shared with
      heap := Function.update c.shared.heap mp (some { m with m_next := c.shared.workq })
      workq := some mp
      enqueued := c.shared.enqueued ++ [m.sent] } .signal := by
  have hheld : (c.thread (.inr e)).holds mp := by
    rw [ht]
    rfl
  have hmp := (hc.thread (.inr e)).held mp hheld
  obtain ⟨l, hl, _⟩ := hc.shared.conserved
  have hunsent : m.sent ∉ c.shared.enqueued := (hc.thread (.inr e)).unsent mp m ht hm
  refine ⟨hc.shared.enqueue hmp hm hunsent, ⟨nofun, nofun, nofun⟩, fun q hne => ?_,
    apart_of fun _ _ _ => nofun⟩
  have hother : ∀ a, (c.thread q).holds a → a ≠ mp := fun a ha he =>
    hc.apart (.inr e) q hne.symm mp hheld (he ▸ ha)
  refine Leaves.assertion (s := c.shared)
    { heap := fun a ha => Function.update_of_ne (hother a ha) _ _
      off := fun a ha hin => ⟨mp :: l, chain_enqueue m hl (hmp.not_mem hl) _, fun hmem =>
        (List.mem_cons.mp hmem).elim (hother a ha) (hin.not_mem hl)⟩
      unsent := fun a m₂ hsend hm₂ hun hmem => ?_ } (hc.thread q)
  rcases List.mem_append.mp hmem with hmem | hmem
  · exact hun hmem
  · have hserial := congrArg Sent.serial (List.mem_singleton.mp hmem)
    have hholds : (c.thread q).holds a := by
      rw [hsend]
      rfl
    exact hother a hholds (hc.shared.inj a mp m₂ m hm₂ hm hserial)

end

theorem outline_start : outline.Holds (start : System W E α D) := by
  refine ⟨⟨nofun, nofun, nofun, List.nodup_nil, [], .nil, .refl _⟩, fun p => ?_,
    fun p q _ a ha => ?_⟩
  · cases p with
    | inl w => exact ⟨nofun, fun _ _ => ⟨fun _ => Finset.notMem_empty _, rfl, rfl⟩, nofun⟩
    | inr e => exact ⟨nofun, nofun, nofun⟩
  · cases p <;> exact ha.elim

end

end NetPrograms.WorkQueueOutline
