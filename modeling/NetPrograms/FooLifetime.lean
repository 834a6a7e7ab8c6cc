import NetPrograms.FooModel

set_option autoImplicit false

namespace NetPrograms.FooLifetime
open Interleaving RunInvariants FooModel

variable {T α : Type*}

def owed : Option (Foo T) → ℤ
  | some ⟨_, .uninit⟩ => 0
  | some ⟨n, _⟩ => n
  | none => 0

def Knows (p : T) (s : Shared T α) : Thread α → Prop
  | .idle => True
  | .count fp => ∃ n, s.heap fp = some ⟨n, .uninit⟩
  | .init fp => s.heap fp = some ⟨1, .uninit⟩
  | .hold fp | .rele fp => 1 ≤ s.references p fp
  | .increment fp | .decrement fp => (∃ n, s.heap fp = some ⟨n, .locked p⟩) ∧
    1 ≤ s.references p fp
  | .unlock fp => ∃ n, 0 < n ∧ s.heap fp = some ⟨n, .locked p⟩
  | .unlockLast fp => s.heap fp = some ⟨0, .locked p⟩
  | .destroy fp => s.heap fp = some ⟨0, .unlocked⟩
  | .free fp => s.heap fp = some ⟨0, .uninit⟩

def Pins (fp : α) : Thread α → Prop
  | .count a | .init a | .increment a | .decrement a | .unlock a | .unlockLast a | .destroy a
  | .free a => a = fp
  | .idle | .hold _ | .rele _ => False

theorem Knows.frame {p : T} {s s' : Shared T α} {t : Thread α} (h : Knows p s t)
    (hheap : ∀ a, Pins a t → s'.heap a = s.heap a)
    (hrefs : ∀ a, s.references p a ≤ s'.references p a) : Knows p s' t := by
  cases t with
  | idle => trivial
  | hold a | rele a => exact Nat.le_trans h (hrefs a)
  | increment a | decrement a =>
    obtain ⟨⟨n, hn⟩, href⟩ := h
    exact ⟨⟨n, (hheap a rfl).trans hn⟩, Nat.le_trans href (hrefs a)⟩
  | count a =>
    obtain ⟨n, hn⟩ := h
    exact ⟨n, (hheap a rfl).trans hn⟩
  | unlock a =>
    obtain ⟨n, hpos, hn⟩ := h
    exact ⟨n, hpos, (hheap a rfl).trans hn⟩
  | init a | unlockLast a | destroy a | free a => exact (hheap a rfl).trans h

theorem Knows.cell {p : T} {s : Shared T α} {t : Thread α} (h : Knows p s t) {a : α}
    (ha : Pins a t) :
    ∃ foo, s.heap a = some foo ∧ (foo.f_lock = .unlocked → foo.f_count = 0) := by
  cases t with
  | idle | hold _ | rele _ => exact absurd ha id
  | increment b | decrement b =>
    obtain rfl : b = a := ha
    obtain ⟨⟨n, hn⟩, _⟩ := h
    exact ⟨_, hn, nofun⟩
  | count b =>
    obtain rfl : b = a := ha
    obtain ⟨n, hn⟩ := h
    exact ⟨_, hn, nofun⟩
  | unlock b =>
    obtain rfl : b = a := ha
    obtain ⟨n, _, hn⟩ := h
    exact ⟨_, hn, nofun⟩
  | destroy b =>
    obtain rfl : b = a := ha
    exact ⟨_, h, fun _ => rfl⟩
  | init b | unlockLast b | free b =>
    obtain rfl : b = a := ha
    exact ⟨_, h, nofun⟩

theorem references_le_total [Fintype T] (p : T) (a : α) (s : Shared T α) :
    s.references p a ≤ s.total a :=
  Finset.single_le_sum (f := fun q => s.references q a) (fun _ _ => Nat.zero_le _)
    (Finset.mem_univ p)

theorem total_of_one [Fintype T] {p : T} {a : α} {s s' : Shared T α}
    (h : ∀ q b, ¬(q = p ∧ b = a) → s'.references q b = s.references q b) :
    s'.total a + s.references p a = s.total a + s'.references p a ∧
      ∀ b, b ≠ a → s'.total b = s.total b := by
  classical
  constructor
  · have hold := Finset.add_sum_erase Finset.univ (fun q => s.references q a) (Finset.mem_univ p)
    have hnew := Finset.add_sum_erase Finset.univ (fun q => s'.references q a) (Finset.mem_univ p)
    have hrest : ∑ q ∈ Finset.univ.erase p, s'.references q a =
        ∑ q ∈ Finset.univ.erase p, s.references q a :=
      Finset.sum_congr rfl fun q hq => h q a fun he => Finset.ne_of_mem_erase hq he.1
    rw [hrest] at hnew
    simp only [Shared.total]
    omega
  · exact fun b hb => Finset.sum_congr rfl fun q _ => h q b fun he => hb he.2

theorem counted_of_reference [Fintype T] {p : T} {a : α} {s : Shared T α}
    (hs : ∀ a, (s.total a : ℤ) = owed (s.heap a)) (h : 1 ≤ s.references p a) :
    ∃ n m, s.heap a = some ⟨n, m⟩ ∧ m ≠ .uninit ∧ n = s.total a ∧ 1 ≤ n := by
  have hle := references_le_total p a s
  have ha := hs a
  cases hcell : s.heap a with
  | none =>
    rw [hcell] at ha
    change (s.total a : ℤ) = 0 at ha
    omega
  | some foo =>
    obtain ⟨n, m⟩ := foo
    rw [hcell] at ha
    cases m with
    | uninit =>
      change (s.total a : ℤ) = 0 at ha
      omega
    | unlocked | locked _ =>
      change (s.total a : ℤ) = n at ha
      exact ⟨n, _, rfl, nofun, ha.symm, by omega⟩

def outline [Fintype T] : Outline T (Shared T α) (Thread α) where
  shared s := ∀ a, (s.total a : ℤ) = owed (s.heap a)
  thread := Knows
  apart t u := ∀ a, Pins a t → ¬Pins a u

/-- An action of `p` that works on the object `a` alone. It balances the cell and the references
that `p` has, and no other thread can know the cell it starts from. -/
structure Works (p : T) (a : α) (s s' : Shared T α) (t t' : Thread α) : Prop where
  heap : ∀ b, b ≠ a → s'.heap b = s.heap b
  references : ∀ q b, ¬(q = p ∧ b = a) → s'.references q b = s.references q b
  balance : (s'.references p a : ℤ) - s.references p a = owed (s'.heap a) - owed (s.heap a)
  exclusive : Pins a t ∨ s.heap a = none ∨ ∃ n, n ≠ 0 ∧ s.heap a = some ⟨n, .unlocked⟩
  own : Knows p s' t'
  starts : ∀ b, Pins b t → b = a
  stays : ∀ b, Pins b t' → b = a
  live : s'.heap a ≠ none → 0 < owed (s'.heap a) ∨ t'.Ends a

section
variable [Fintype T] {c : System T α} {p : T} {a : α} {s' : Shared T α} {t' : Thread α}
  (hc : outline.Holds c) (h : Works p a c.shared s' (c.thread p) t')
include hc h

theorem Works.alone (q : T) (hq : q ≠ p) : ¬Pins a (c.thread q) := by
  intro hpins
  obtain ⟨foo, hfoo, hzero⟩ := (hc.thread q).cell hpins
  rcases h.exclusive with hown | hnone | ⟨n, hn, hcell⟩
  · exact hc.apart p q hq.symm a hown hpins
  · cases hnone.symm.trans hfoo
  · obtain rfl := Option.some.inj (hcell.symm.trans hfoo)
    exact hn (hzero rfl)

theorem Works.balanced (b : α) : (s'.total b : ℤ) = owed (s'.heap b) := by
  obtain ⟨hself, hother⟩ := total_of_one h.references
  have hb := hc.shared b
  by_cases hba : b = a
  · subst hba
    have hbalance := h.balance
    omega
  · rw [hother b hba, h.heap b hba]
    exact hb

theorem Works.kept : outline.Kept c p s' t' := by
  refine ⟨h.balanced hc, h.own, fun q hq => ?_, fun q hq => ⟨fun b hb hpins => ?_,
    fun b hpins hb => ?_⟩⟩
  · refine (hc.thread q).frame (fun b hpins => h.heap b fun hba => ?_) fun b =>
      (h.references q b fun he => hq he.1).ge
    exact h.alone hc q hq (hba ▸ hpins)
  · obtain rfl := h.stays b hb
    exact h.alone hc q hq hpins
  · obtain rfl := h.stays b hb
    exact h.alone hc q hq hpins

end

def Live [Fintype T] (c : System T α) : Prop :=
  ∀ a, c.shared.heap a ≠ none → 1 ≤ c.shared.total a ∨ ∃ p, (c.thread p).Ends a

theorem pins_of_ends {a : α} {t : Thread α} (h : t.Ends a) : Pins a t := by
  cases t with
  | idle | hold _ | increment _ | rele _ | decrement _ | unlock _ => exact absurd h id
  | count _ | init _ | unlockLast _ | destroy _ | free _ => exact h

theorem setFoo_self [DecidableEq α] (a : α) (foo : Option (Foo T)) (s : Shared T α) :
    (s.setFoo a foo).heap a = foo := Function.update_self _ _ _

section
variable [DecidableEq T]

theorem Works.keeps_live [Fintype T] {c : System T α} {p : T} {a : α} {s' : Shared T α}
    {t' : Thread α} (hc : outline.Holds c) (h : Works p a c.shared s' (c.thread p) t')
    (hlive : Live c) : Live (c.set p s' t') := by
  intro b hb
  change s'.heap b ≠ none at hb
  change 1 ≤ s'.total b ∨ _
  by_cases hba : b = a
  · subst hba
    rcases h.live hb with hpos | hends
    · have hbal := h.balanced hc b
      exact .inl (by omega)
    · refine .inr ⟨p, ?_⟩
      rw [Config.set_self]
      exact hends
  · rw [h.heap b hba] at hb
    rw [(total_of_one h.references).2 b hba]
    refine (hlive b hb).imp_right fun ⟨q, hq⟩ => ⟨q, ?_⟩
    have hqp : q ≠ p := by
      rintro rfl
      exact hba (h.starts b (pins_of_ends hq))
    rw [c.set_of_ne hqp]
    exact hq

section
variable [DecidableEq α]

theorem setReferences_self (p : T) (a : α) (n : ℕ) (s : Shared T α) :
    (s.setReferences p a n).references p a = n := by
  change Function.update s.references p (Function.update (s.references p) a n) p a = n
  rw [Function.update_self, Function.update_self]

theorem setReferences_of_ne {p q : T} {a b : α} (h : ¬(q = p ∧ b = a)) (n : ℕ)
    (s : Shared T α) : (s.setReferences p a n).references q b = s.references q b := by
  change Function.update s.references p (Function.update (s.references p) a n) q b = _
  by_cases hq : q = p
  · subst hq
    rw [Function.update_self, Function.update_of_ne fun hb => h ⟨rfl, hb⟩]
  · rw [Function.update_of_ne hq]

theorem setReferences_same (p : T) (a : α) (s : Shared T α) :
    s.setReferences p a (s.references p a) = s := by
  rw [Shared.setReferences, Function.update_eq_self, Function.update_eq_self]

theorem works_of {p : T} {a : α} {s : Shared T α} {t t' : Thread α} {cell : Option (Foo T)}
    {n : ℕ} (hbalance : (n : ℤ) - s.references p a = owed cell - owed (s.heap a))
    (hexclusive : Pins a t ∨ s.heap a = none ∨ ∃ n, n ≠ 0 ∧ s.heap a = some ⟨n, .unlocked⟩)
    (hown : Knows p ((s.setFoo a cell).setReferences p a n) t')
    (hstarts : ∀ b, Pins b t → b = a) (hstays : ∀ b, Pins b t' → b = a)
    (hlive : cell ≠ none → 0 < owed cell ∨ t'.Ends a) :
    Works p a s ((s.setFoo a cell).setReferences p a n) t t' := by
  have hcell : ((s.setFoo a cell).setReferences p a n).heap a = cell := setFoo_self a cell s
  refine ⟨fun b hb => Function.update_of_ne hb _ _, fun q b hqb => setReferences_of_ne hqb _ _,
    ?_, hexclusive, hown, hstarts, hstays, ?_⟩
  · rw [setReferences_self, hcell]
    exact hbalance
  · rw [hcell]
    exact hlive

theorem works_cell {p : T} {a : α} {s : Shared T α} {t t' : Thread α} {cell : Option (Foo T)}
    (hbalance : owed cell = owed (s.heap a))
    (hexclusive : Pins a t ∨ s.heap a = none ∨ ∃ n, n ≠ 0 ∧ s.heap a = some ⟨n, .unlocked⟩)
    (hown : Knows p (s.setFoo a cell) t') (hstarts : ∀ b, Pins b t → b = a)
    (hstays : ∀ b, Pins b t' → b = a) (hlive : cell ≠ none → 0 < owed cell ∨ t'.Ends a) :
    Works p a s (s.setFoo a cell) t t' := by
  have hsame : (s.setFoo a cell).setReferences p a (s.references p a) = s.setFoo a cell :=
    setReferences_same p a (s.setFoo a cell)
  rw [← hsame]
  exact works_of (by rw [hbalance, sub_self, sub_self]) hexclusive (hsame.symm ▸ hown) hstarts
    hstays hlive

theorem lock_works [Fintype T] {p : T} {a : α} {s s' : Shared T α} {t t' next : Thread α}
    (hs : ∀ a, (s.total a : ℤ) = owed (s.heap a)) (href : 1 ≤ s.references p a)
    (ht : ∀ b, ¬Pins b t) (hnext : next = .increment a ∨ next = .decrement a)
    (h : lock p a s next = some (s', t')) : Works p a s s' t t' := by
  obtain ⟨n, m, hcell, _, _, hpos⟩ := counted_of_reference hs href
  cases m with
  | uninit | locked _ => simp [lock, hcell] at h
  | unlocked =>
    simp only [lock, hcell, Option.some.injEq, Prod.mk.injEq] at h
    obtain ⟨rfl, rfl⟩ := h
    refine works_cell ?_ (.inr (.inr ⟨n, by omega, hcell⟩)) ?_ (fun b hb => absurd hb (ht b)) ?_
      fun _ => .inl (by change 0 < n; omega)
    · rw [hcell]
      rfl
    · rcases hnext with rfl | rfl <;> exact ⟨⟨n, setFoo_self _ _ _⟩, href⟩
    · rcases hnext with rfl | rfl <;> exact fun b hb => hb.symm

theorem unlock_works {p : T} {a : α} {n : ℤ} {s s' : Shared T α} {t t' next : Thread α}
    (hcell : s.heap a = some ⟨n, .locked p⟩) (ht : ∀ b, Pins b t ↔ b = a)
    (hnext : next = .idle ∧ 0 < n ∨ next = .destroy a ∧ n = 0)
    (h : unlock p a s next = some (s', t')) : Works p a s s' t t' := by
  simp only [unlock, hcell, if_true, Option.some.injEq, Prod.mk.injEq] at h
  obtain ⟨rfl, rfl⟩ := h
  refine works_cell ?_ (.inl ((ht a).mpr rfl)) ?_ (fun b hb => (ht b).mp hb) ?_ fun _ => ?_
  · rw [hcell]
    rfl
  · rcases hnext with ⟨rfl, _⟩ | ⟨rfl, rfl⟩
    · trivial
    · exact setFoo_self _ _ _
  · rcases hnext with ⟨rfl, _⟩ | ⟨rfl, _⟩
    · exact fun b hb => absurd hb id
    · exact fun b hb => hb.symm
  · rcases hnext with ⟨_, hpos⟩ | ⟨rfl, _⟩
    · exact .inl hpos
    · exact .inr rfl

theorem act_works [Fintype T] {p : T} {o : Choice T α} {s s' : Shared T α} {t t' : Thread α}
    (hs : ∀ a, (s.total a : ℤ) = owed (s.heap a)) (hk : Knows p s t) (hidle : t ≠ .idle)
    (h : act p o s t = some (s', t')) : ∃ a, Works p a s s' t t' := by
  cases t with
  | idle => exact absurd rfl hidle
  | count fp =>
    obtain ⟨n, hn⟩ := hk
    simp only [act, hn, Option.map_some, Option.some.injEq, Prod.mk.injEq] at h
    obtain ⟨rfl, rfl⟩ := h
    exact ⟨fp, works_cell (by rw [hn]; rfl) (.inl rfl) (setFoo_self _ _ _) (fun _ hb => hb.symm)
      (fun _ hb => hb.symm) fun _ => .inr rfl⟩
  | init fp =>
    have hn : s.heap fp = some ⟨1, .uninit⟩ := hk
    by_cases ho : o = .initFails
    · subst ho
      simp only [act, hn, Option.map_some, Option.some.injEq, Prod.mk.injEq] at h
      obtain ⟨rfl, rfl⟩ := h
      exact ⟨fp, works_cell (by rw [hn]; rfl) (.inl rfl) trivial (fun _ hb => hb.symm)
        (fun _ hb => absurd hb id) fun hno => absurd rfl hno⟩
    · have hinit : act p o s (.init fp) =
          some ((s.setFoo fp (some ⟨1, .unlocked⟩)).gain p fp, .idle) := by
        cases o with
        | initFails => exact absurd rfl ho
        | go | malloc _ _ | foo_hold _ | foo_rele _ | give _ _ =>
          simp only [act, hn, Option.map_some]
      obtain ⟨rfl, rfl⟩ := Prod.mk.inj (Option.some.inj (hinit.symm.trans h))
      refine ⟨fp, works_of ?_ (.inl rfl) trivial (fun _ hb => hb.symm)
        (fun _ hb => absurd hb id) fun _ => .inl Int.one_pos⟩
      rw [hn]
      change ((s.references p fp + 1 : ℕ) : ℤ) - s.references p fp = 1 - 0
      omega
  | hold fp => exact ⟨fp, lock_works hs hk (fun _ hb => absurd hb id) (.inl rfl) h⟩
  | rele fp => exact ⟨fp, lock_works hs hk (fun _ hb => absurd hb id) (.inr rfl) h⟩
  | increment fp =>
    obtain ⟨⟨n, hn⟩, href⟩ := hk
    obtain ⟨n', m, hcell, _, _, hpos⟩ := counted_of_reference hs href
    obtain rfl : n' = n := (congrArg Foo.f_count (Option.some.inj (hn.symm.trans hcell))).symm
    simp only [act, hn, Option.ite_none_right_eq_some, Option.some.injEq, Prod.mk.injEq] at h
    obtain ⟨_, rfl, rfl⟩ := h
    refine ⟨fp, works_of ?_ (.inl rfl) ⟨_, ?_, setFoo_self _ _ _⟩ (fun _ hb => hb.symm)
      (fun _ hb => hb.symm) fun _ => .inl ?_⟩
    · rw [hn]
      change ((s.references p fp + 1 : ℕ) : ℤ) - s.references p fp = n' + 1 - n'
      omega
    · omega
    · change 0 < n' + 1
      omega
  | decrement fp =>
    obtain ⟨⟨n, hn⟩, href⟩ := hk
    obtain ⟨n', m, hcell, _, _, hpos⟩ := counted_of_reference hs href
    obtain rfl : n' = n := (congrArg Foo.f_count (Option.some.inj (hn.symm.trans hcell))).symm
    simp only [act, hn, Option.map_some, Option.some.injEq, Prod.mk.injEq] at h
    obtain ⟨rfl, rfl⟩ := h
    have hbalance : ((s.references p fp - 1 : ℕ) : ℤ) - s.references p fp =
        owed (some ⟨n' - 1, .locked p⟩) - owed (s.heap fp) := by
      rw [hn]
      change ((s.references p fp - 1 : ℕ) : ℤ) - s.references p fp = n' - 1 - n'
      omega
    refine ⟨fp, ?_⟩
    split_ifs with hlast
    · exact works_of hbalance (.inl rfl) (hlast ▸ setFoo_self _ _ _) (fun _ hb => hb.symm)
        (fun _ hb => hb.symm) fun _ => .inr rfl
    · refine works_of hbalance (.inl rfl) ⟨n' - 1, ?_, setFoo_self _ _ _⟩ (fun _ hb => hb.symm)
        (fun _ hb => hb.symm) fun _ => .inl ?_
      · omega
      · change 0 < n' - 1
        omega
  | unlock fp =>
    obtain ⟨n, hpos, hn⟩ := hk
    exact ⟨fp, unlock_works hn (fun _ => eq_comm) (.inl ⟨rfl, hpos⟩) h⟩
  | unlockLast fp => exact ⟨fp, unlock_works hk (fun _ => eq_comm) (.inr ⟨rfl, rfl⟩) h⟩
  | destroy fp =>
    have hn : s.heap fp = some ⟨0, .unlocked⟩ := hk
    simp only [act, hn, Option.map_some, Option.some.injEq, Prod.mk.injEq] at h
    obtain ⟨rfl, rfl⟩ := h
    exact ⟨fp, works_cell (by rw [hn]; rfl) (.inl rfl) (setFoo_self _ _ _) (fun _ hb => hb.symm)
      (fun _ hb => hb.symm) fun _ => .inr rfl⟩
  | free fp =>
    have hn : s.heap fp = some ⟨0, .uninit⟩ := hk
    simp only [act, hn, Option.map_some, Option.some.injEq, Prod.mk.injEq] at h
    obtain ⟨rfl, rfl⟩ := h
    exact ⟨fp, works_cell (by rw [hn]; rfl) (.inl rfl) trivial (fun _ hb => hb.symm)
      (fun _ hb => absurd hb id) fun hno => absurd rfl hno⟩

theorem malloc_works {p : T} {fp : α} (junk : ℤ) {s : Shared T α} (hfree : s.heap fp = none) :
    Works p fp s (s.setFoo fp (some ⟨junk, .uninit⟩)) .idle (.count fp) :=
  works_cell (by rw [hfree]; rfl) (.inr (.inl hfree)) ⟨junk, setFoo_self _ _ _⟩
    (fun _ hb => absurd hb id) (fun _ hb => hb.symm) fun _ => .inr rfl

theorem give_total [Fintype T] {p : T} {fp : α} {s : Shared T α} (q : T)
    (h : 1 ≤ s.references p fp) (b : α) : ((s.lose p fp).gain q fp).total b = s.total b := by
  have hlose : ∀ r b, ¬(r = p ∧ b = fp) → (s.lose p fp).references r b = s.references r b :=
    fun r b hrb => setReferences_of_ne hrb _ s
  have hgain : ∀ r b, ¬(r = q ∧ b = fp) →
      ((s.lose p fp).gain q fp).references r b = (s.lose p fp).references r b :=
    fun r b hrb => setReferences_of_ne hrb _ _
  obtain ⟨hlost, hlostOther⟩ := total_of_one hlose
  obtain ⟨hgained, hgainedOther⟩ := total_of_one hgain
  by_cases hb : b = fp
  · subst hb
    have hp : (s.lose p b).references p b = s.references p b - 1 := setReferences_self p b _ s
    have hq : ((s.lose p b).gain q b).references q b = (s.lose p b).references q b + 1 :=
      setReferences_self q b _ _
    omega
  · rw [hgainedOther b hb, hlostOther b hb]

theorem give_references {p q r : T} {fp : α} {s : Shared T α} (hr : r ≠ p) (b : α) :
    s.references r b ≤ ((s.lose p fp).gain q fp).references r b := by
  have hlost : (s.lose p fp).references r b = s.references r b :=
    setReferences_of_ne (fun h => hr h.1) _ s
  by_cases h : r = q ∧ b = fp
  · obtain ⟨rfl, rfl⟩ := h
    have hgained : ((s.lose p b).gain r b).references r b = (s.lose p b).references r b + 1 :=
      setReferences_self r b _ _
    omega
  · rw [Shared.gain, setReferences_of_ne h, hlost]

theorem give_kept [Fintype T] {c : System T α} {p : T} {fp : α} (q : T) (hc : outline.Holds c)
    (h : 1 ≤ c.shared.references p fp) :
    outline.Kept c p ((c.shared.lose p fp).gain q fp) .idle := by
  refine ⟨fun b => ?_, trivial, fun r hr => ?_, fun r _ => ⟨fun _ hb => absurd hb id,
    fun _ _ => id⟩⟩
  · rw [give_total q h]
    exact hc.shared b
  · exact (hc.thread r).frame (fun _ _ => rfl) (give_references hr)

theorem act_keeps [Fintype T] {c : System T α} {p : T} {o : Choice T α} {s' : Shared T α}
    {t' : Thread α} (hc : outline.Holds c) (hlive : Live c) (hpermitted : Permitted c (p, o))
    (h : act p o c.shared (c.thread p) = some (s', t')) :
    outline.Kept c p s' t' ∧ Live (c.set p s' t') := by
  by_cases hidle : c.thread p = .idle
  · have hown := hpermitted hidle
    have hcalls : ∀ s t, s.heap = c.shared.heap → (∀ a, s.total a = c.shared.total a) →
        Live (c.set p s t) := by
      intro s t hheap htotal a ha
      change s.heap a ≠ none at ha
      change 1 ≤ s.total a ∨ _
      rw [hheap] at ha
      rw [htotal]
      refine (hlive a ha).imp_right fun ⟨q, hq⟩ => ⟨q, ?_⟩
      have hqp : q ≠ p := by
        rintro rfl
        rw [hidle] at hq
        exact hq
      rw [c.set_of_ne hqp]
      exact hq
    rw [hidle] at h
    cases o with
    | go | initFails => cases h
    | malloc fp junk =>
      simp only [act, Option.ite_none_right_eq_some, Option.some.injEq, Prod.mk.injEq] at h
      obtain ⟨hfree, rfl, rfl⟩ := h
      have hworks := malloc_works (p := p) junk hfree
      rw [← hidle] at hworks
      exact ⟨hworks.kept hc, hworks.keeps_live hc hlive⟩
    | foo_hold fp | foo_rele fp =>
      obtain ⟨rfl, rfl⟩ := Prod.mk.inj (Option.some.inj h)
      exact ⟨hc.kept_local hown fun _ _ => ⟨fun _ hb => absurd hb id, fun _ _ => id⟩,
        hcalls _ _ rfl fun _ => rfl⟩
    | give fp q =>
      obtain ⟨rfl, rfl⟩ := Prod.mk.inj (Option.some.inj h)
      exact ⟨give_kept q hc hown, hcalls _ _ rfl (give_total q hown)⟩
  · obtain ⟨a, hworks⟩ := act_works hc.shared (hc.thread p) hidle h
    exact ⟨hworks.kept hc, hworks.keeps_live hc hlive⟩

end

end

theorem object_cases {fp : α} {p : T} {s : Shared T α} {t : Thread α} (hk : Knows p s t)
    (h : t.object = some fp) : Pins fp t ∨ 1 ≤ s.references p fp := by
  cases t with
  | idle => cases h
  | hold a | rele a =>
    obtain rfl := Option.some.inj h
    exact .inr hk
  | count _ | init _ | increment _ | decrement _ | unlock _ | unlockLast _ | destroy _ | free _ =>
    exact .inl (Option.some.inj h)

theorem sound_of_holds [Fintype T] {c : System T α} (hc : outline.Holds c) (hlive : Live c) :
    Sound c := by
  refine ⟨fun p fp ht => ?_, fun p fp ht => ?_, fun p fp ht => ?_, fun fp foo hfoo hinit => ?_,
    fun fp => ⟨hlive fp, ?_⟩, fun p fp ht => ?_⟩
  · rcases object_cases (hc.thread p) ht with hpins | href
    · obtain ⟨foo, hfoo, _⟩ := (hc.thread p).cell hpins
      exact hfoo ▸ nofun
    · obtain ⟨_, _, hcell, _⟩ := counted_of_reference hc.shared href
      exact hcell ▸ nofun
  · have href : 1 ≤ c.shared.references p fp := by
      have hk := hc.thread p
      rcases ht with ht | ht <;> rw [ht] at hk <;> exact hk
    obtain ⟨n, m, hcell, hm, _⟩ := counted_of_reference hc.shared href
    exact ⟨⟨n, m⟩, hcell, hm⟩
  · have hk := hc.thread p
    rcases ht with ht | ht <;> rw [ht] at hk
    · obtain ⟨n, _, hn⟩ := hk
      exact ⟨n, hn⟩
    · exact ⟨0, hk⟩
  · have htotal := hc.shared fp
    rw [hfoo] at htotal
    obtain ⟨n, m⟩ := foo
    cases m with
    | uninit => exact absurd rfl hinit
    | unlocked | locked _ => exact htotal.symm
  · rintro (htotal | ⟨p, hp⟩) hnone
    · have hzero := hc.shared fp
      rw [hnone] at hzero
      change (c.shared.total fp : ℤ) = 0 at hzero
      omega
    · obtain ⟨_, hfoo, _⟩ := (hc.thread p).cell (pins_of_ends hp)
      cases hnone.symm.trans hfoo
  · have hk := hc.thread p
    have hpins : Pins fp (c.thread p) := by
      rw [ht]
      rfl
    rw [ht] at hk
    refine ⟨hk, fun q hq hobject => ?_⟩
    rcases object_cases (hc.thread q) hobject with hother | href
    · exact hc.apart p q hq.symm fp hpins hother
    · obtain ⟨n, m, hcell, _, _, hpos⟩ := counted_of_reference hc.shared href
      obtain rfl := congrArg Foo.f_count (Option.some.inj (hcell.symm.trans hk))
      change (1 : ℤ) ≤ 0 at hpos
      omega

theorem outline_start [Fintype T] : outline.Holds (start : System T α) :=
  ⟨fun _ => by simp [Shared.total, start, owed], fun _ => trivial, fun _ _ _ _ hb => absurd hb id⟩

variable [DecidableEq T] [DecidableEq α]

/-- For any threads and every interleaving: if only who has a reference calls `foo_hold` and
`foo_rele`, the counter is the number of references, and an object lives as long as its
references. -/
theorem objects_counted [Fintype T] (actions : List (T × Choice T α))
    (h : EachStep (Interleaves act) (fun c a _ => Permitted c a) start actions) :
    Always (Interleaves act) Sound (start : System T α) actions := by
  have hinv : Always (Interleaves act) (fun c => outline.Holds c ∧ Live c)
      (start : System T α) actions := by
    refine Always.of_invariant _ (fun c a d hc hstep hpermitted => ?_) h
      ⟨outline_start, fun _ hno => absurd rfl hno⟩
    obtain ⟨s, t, hact, rfl⟩ := hstep
    obtain ⟨hkept, hlive⟩ := act_keeps hc.1 hc.2 hpermitted hact
    exact ⟨hkept.holds hc.1, hlive⟩
  exact hinv.mono fun c hc => sound_of_holds hc.1 hc.2

/-- The first thread makes an object, holds it once more and hands one reference on; both
release it, the second last. -/
def twoReferences : List (Bool × Choice Bool ℕ) :=
  [(false, .malloc 7 (-1)), (false, .go), (false, .go), (false, .foo_hold 7), (false, .go),
    (false, .go), (false, .go), (false, .give 7 true), (true, .foo_rele 7), (false, .foo_rele 7),
    (false, .go), (false, .go), (false, .go), (true, .go), (true, .go), (true, .go), (true, .go),
    (true, .go)]

theorem objects_counted_two : ∃ c : System Bool ℕ,
    Run (Interleaves act) start twoReferences c ∧ c.shared.heap 7 = none ∧
    c.thread true = .idle ∧ Sound c := by
  let c := ((start : System Bool ℕ).after act twoReferences).getD start
  have hrun : Run (Interleaves act) start twoReferences c := run_of_after rfl
  have hall := objects_counted twoReferences (by decide +kernel)
  exact ⟨c, hrun, rfl, rfl, (always_iff_run _ _ _).mp hall _ c List.prefix_rfl hrun⟩

end NetPrograms.FooLifetime
