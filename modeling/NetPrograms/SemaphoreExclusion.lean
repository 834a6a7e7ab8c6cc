import Mathlib.Data.Fintype.Basic
import NetPrograms.SemaphoreModel

set_option autoImplicit false

namespace NetPrograms.SemaphoreExclusion
open Interleaving RunInvariants SemaphoreModel

variable {P : Type*}

def Attached : Pc → Prop
  | .tryStat | .setval | .stat | .info | .askfor_res | .free_res => True
  | _ => False

def Trying : Pc → Prop
  | .semgetExcl | .semgetCreat | .tryStat => True
  | _ => False

def Knows (p : P) (s : SemSet P) : Pc → Prop
  | .semgetExcl | .semgetCreat => s.creator ≠ p
  | .tryStat => s.creator = p → s.sem_otime = 0 → s.value = 0
  | .setval => s.creator = p ∧ s.sem_otime = 0 ∧ s.value = 0
  | .free_res => s.sem_otime ≠ 0 ∧ s.value = 0
  | .stat | .info | .askfor_res | .rmid | .exited => True

structure Assertion (p : P) (k : Kernel P) (l : Process) : Prop where
  init : Trying l.pc → l.init_ok = false
  attached : Attached l.pc → ∃ s, k.find l.semid = some s
  knows : ∀ s, k.set = some s → Knows p s l.pc

def outline : Outline P (Kernel P) Process where
  shared k := ∀ s, k.set = some s → s.value ≤ 1
  thread := Assertion
  apart l m := ¬(l.pc = .free_res ∧ m.pc = .free_res)

theorem find_iff {semid : Option ℕ} {k : Kernel P} {s : SemSet P} :
    k.find semid = some s ↔ k.set = some s ∧ semid = some s.id := by
  rw [Kernel.find, Option.filter_eq_some_iff, decide_eq_true_iff]

theorem Assertion.own_set {k : Kernel P} {p : P} {l : Process} (h : Assertion p k l)
    (hatt : Attached l.pc) :
    ∃ s, k.set = some s ∧ k.find l.semid = some s ∧ Knows p s l.pc := by
  obtain ⟨s, hfind⟩ := h.attached hatt
  have hs := (find_iff.mp hfind).1
  exact ⟨s, hs, hfind, h.knows s hs⟩

theorem Assertion.change {k : Kernel P} {s s' : SemSet P} {q : P} {l : Process}
    (h : Assertion q k l) (hs : k.set = some s) (hid : s'.id = s.id)
    (hknows : Knows q s l.pc → Knows q s' l.pc) :
    Assertion q { k with set := some s' } l := by
  refine ⟨h.init, fun hatt => ?_, fun t ht => ?_⟩
  · obtain ⟨t, hfind⟩ := h.attached hatt
    obtain ⟨ht, hsemid⟩ := find_iff.mp hfind
    obtain rfl := Option.some.inj (hs.symm.trans ht)
    exact ⟨s', find_iff.mpr ⟨rfl, hsemid.trans (congrArg some hid.symm)⟩⟩
  · obtain rfl := Option.some.inj ht
    exact hknows (h.knows s hs)

theorem Assertion.create {k : Kernel P} {p q : P} {l : Process} (h : Assertion q k l)
    (hs : k.set = none) (hq : q ≠ p) (id created : ℕ) :
    Assertion q ⟨some ⟨id, 0, 0, p⟩, created⟩ l := by
  have hatt : ¬Attached l.pc := by
    intro hatt
    obtain ⟨s, hset, _⟩ := h.own_set hatt
    cases hs.symm.trans hset
  refine ⟨h.init, fun hyes => absurd hyes hatt, fun s hset => ?_⟩
  obtain rfl := Option.some.inj hset
  cases hpc : l.pc with
  | semgetExcl | semgetCreat => exact hq.symm
  | tryStat | setval | stat | info | askfor_res | free_res =>
    rw [hpc] at hatt
    exact absurd trivial hatt
  | rmid | exited => trivial

theorem knows_setval {p q : P} {s : SemSet P} (hq : q ≠ p) (hs : Knows p s .setval) (pc : Pc)
    (h : Knows q s pc) : Knows q { s with value := 1 } pc := by
  obtain ⟨hcreator, hotime, hvalue⟩ := hs
  have hne : s.creator ≠ q := fun he => hq (he.symm.trans hcreator)
  cases pc with
  | semgetExcl | semgetCreat => exact hne
  | tryStat => exact fun he => absurd he hne
  | setval => exact absurd h.1 hne
  | free_res => exact absurd hotime h.1
  | stat | info | askfor_res | rmid | exited => trivial

theorem knows_acquire {q : P} {s : SemSet P} (hs : s.value = 1) (now : ℕ+) (pc : Pc)
    (h : Knows q s pc) : Knows q { s with value := s.value + -1, sem_otime := now } pc := by
  have hnow : (now : ℕ) ≠ 0 := now.ne_zero
  cases pc with
  | semgetExcl | semgetCreat => exact h
  | tryStat => exact fun _ he => absurd he hnow
  | setval =>
    have hzero := h.2.2
    omega
  | free_res =>
    have hzero := h.2
    omega
  | stat | info | askfor_res | rmid | exited => trivial

theorem knows_release {p q : P} {s : SemSet P} (hs : Knows p s .free_res) (now : ℕ+) (pc : Pc)
    (hpc : pc ≠ .free_res) (h : Knows q s pc) :
    Knows q { s with value := s.value + 1, sem_otime := now } pc := by
  have hnow : (now : ℕ) ≠ 0 := now.ne_zero
  cases pc with
  | semgetExcl | semgetCreat => exact h
  | tryStat => exact fun _ he => absurd he hnow
  | setval => exact absurd h.2.1 hs.1
  | free_res => exact absurd rfl hpc
  | stat | info | askfor_res | rmid | exited => trivial

theorem apart_of_ne {c : System P} {p : P} {l : Process} (h : l.pc ≠ .free_res) (q : P)
    (_ : q ≠ p) : (outline (P := P)).apart l (c.thread q) ∧
      (outline (P := P)).apart (c.thread q) l :=
  ⟨fun hboth => h hboth.1, fun hboth => h hboth.2⟩

theorem semget_none {k : Kernel P} (h : k.set = none) (p : P) (excl : Bool) :
    k.semget p excl false = (.ok k.created, ⟨some ⟨k.created, 0, 0, p⟩, k.created + 1⟩) := by
  simp only [Kernel.semget, h, Bool.false_eq_true, if_false]

theorem semget_some {k : Kernel P} {s : SemSet P} (h : k.set = some s) (p : P) (excl full : Bool) :
    k.semget p excl full = (if excl then .error .EEXIST else .ok s.id, k) := by
  simp only [Kernel.semget, h]

theorem kept_create {c : System P} {p : P} {l : Process} {id created : ℕ} (hc : outline.Holds c)
    (hset : c.shared.set = none) (hsemid : l.semid = some id) (hinit : l.init_ok = false)
    (hknows : Knows p ⟨id, 0, 0, p⟩ l.pc) (hne : l.pc ≠ .free_res) :
    outline.Kept c p ⟨some ⟨id, 0, 0, p⟩, created⟩ l := by
  refine ⟨fun s hs => ?_, ⟨fun _ => hinit, fun _ => ?_, fun s hs => ?_⟩, fun q hq => ?_,
    apart_of_ne hne⟩
  · obtain rfl := Option.some.inj hs
    exact Int.zero_le_ofNat 1
  · exact ⟨_, find_iff.mpr ⟨rfl, hsemid⟩⟩
  · obtain rfl := Option.some.inj hs
    exact hknows
  · exact (hc.thread q).create hset hq id created

section
variable {c : System P} {p : P} {o : Outside} {k : Kernel P} {l : Process}
  (hc : outline.Holds c) (h : main p o c.shared (c.thread p) = some (k, l))
include hc h

theorem kept_semgetExcl (hpc : (c.thread p).pc = .semgetExcl) : outline.Kept c p k l := by
  have hinit := (hc.thread p).init (by rw [hpc]; trivial)
  have hknows := (hc.thread p).knows
  rw [hpc] at hknows
  simp only [main, hpc] at h
  cases hset : c.shared.set with
  | some s =>
    rw [semget_some hset] at h
    obtain ⟨rfl, rfl⟩ := Prod.mk.inj (Option.some.inj h)
    exact hc.kept_local ⟨fun _ => hinit, fun hatt => hatt.elim, hknows⟩ (apart_of_ne nofun)
  | none =>
    cases hfull : o.full with
    | true =>
      simp only [Kernel.semget, hset, hfull, if_true, reduceCtorEq, if_false] at h
      obtain ⟨rfl, rfl⟩ := Prod.mk.inj (Option.some.inj h)
      exact hc.kept_local ⟨fun _ => hinit, fun hatt => hatt.elim, fun _ _ => trivial⟩
        (apart_of_ne nofun)
    | false =>
      rw [hfull, semget_none hset] at h
      obtain ⟨rfl, rfl⟩ := Prod.mk.inj (Option.some.inj h)
      exact kept_create hc hset rfl hinit ⟨rfl, rfl, rfl⟩ nofun

theorem kept_semgetCreat (hg : Orderly c (p, o)) (hpc : (c.thread p).pc = .semgetCreat) :
    outline.Kept c p k l := by
  have hinit := (hc.thread p).init (by rw [hpc]; trivial)
  have hknows := (hc.thread p).knows
  rw [hpc] at hknows
  simp only [main, hpc] at h
  cases hset : c.shared.set with
  | some s =>
    rw [semget_some hset] at h
    obtain ⟨rfl, rfl⟩ := Prod.mk.inj (Option.some.inj h)
    refine hc.kept_local ⟨fun _ => hinit, fun _ => ?_, fun t ht => ?_⟩ (apart_of_ne nofun)
    · exact ⟨s, find_iff.mpr ⟨hset, rfl⟩⟩
    · exact fun he => absurd he (hknows t ht)
  | none =>
    rw [hg.semget hpc hset, semget_none hset] at h
    obtain ⟨rfl, rfl⟩ := Prod.mk.inj (Option.some.inj h)
    exact kept_create hc hset rfl hinit (fun _ _ => rfl) nofun

theorem kept_tryStat (hr : ReadsOtime c (p, o)) (hg : Punctual c (p, o))
    (hpc : (c.thread p).pc = .tryStat) : outline.Kept c p k l := by
  have hinit := (hc.thread p).init (by rw [hpc]; trivial)
  obtain ⟨s, hs, hfind, hknow⟩ := (hc.thread p).own_set (by rw [hpc]; trivial)
  rw [hpc] at hknow
  have hothers : ∀ t, c.shared.set = some t → t = s := fun t ht =>
    Option.some.inj (ht.symm.trans hs)
  have hstat : c.shared.stat (c.thread p).semid o.otime = some o.otime := by
    rw [Kernel.stat, hfind]
    rfl
  simp only [main, hpc, hstat] at h
  obtain ⟨rfl, rfl⟩ := Prod.mk.inj (Option.some.inj h)
  by_cases hotime : o.otime = 0
  · have hbody : (c.thread p).tryBody (some o.otime) = c.thread p :=
      if_neg (not_not_intro hotime)
    rw [hbody]
    by_cases hlast : (c.thread p).i + 1 < max_tries
    · rw [Process.nextTry, if_pos hlast]
      refine hc.kept_local ⟨fun _ => hinit, fun _ => ⟨s, hfind⟩, fun t ht => ?_⟩ (apart_of_ne ?_)
      · obtain rfl := hothers t ht
        rw [hpc]
        exact hknow
      · rw [hpc]
        nofun
    · have htries : max_tries ≤ (c.thread p).i + 1 := Nat.le_of_not_lt hlast
      have hzero : s.sem_otime = 0 := hr s hfind hpc htries hotime
      have hcreator : s.creator = p := hg s hfind hpc hzero htries
      rw [Process.nextTry, if_neg hlast, hinit]
      refine hc.kept_local ⟨fun _ => rfl, fun _ => ⟨s, hfind⟩, fun t ht => ?_⟩ (apart_of_ne nofun)
      obtain rfl := hothers t ht
      exact ⟨hcreator, hzero, hknow hcreator hzero⟩
  · have hbody : (c.thread p).tryBody (some o.otime) =
        { c.thread p with i := max_tries, init_ok := true } := if_pos hotime
    rw [hbody]
    exact hc.kept_local ⟨fun hno => hno.elim, fun _ => ⟨s, hfind⟩, fun _ _ => trivial⟩
      (apart_of_ne nofun)

theorem kept_setval (hpc : (c.thread p).pc = .setval) : outline.Kept c p k l := by
  obtain ⟨s, hs, hfind, hknow⟩ := (hc.thread p).own_set (by rw [hpc]; trivial)
  rw [hpc] at hknow
  simp only [main, hpc, Kernel.setval, hfind] at h
  obtain ⟨rfl, rfl⟩ := Prod.mk.inj (Option.some.inj h)
  refine ⟨fun t ht => ?_, ⟨fun hno => hno.elim, fun _ => ?_, fun t ht => ?_⟩, fun q hq => ?_,
    apart_of_ne nofun⟩
  · obtain rfl := Option.some.inj ht
    exact le_refl (1 : ℤ)
  · exact ⟨_, find_iff.mpr ⟨rfl, (find_iff.mp hfind).2⟩⟩
  · trivial
  · exact (hc.thread q).change hs rfl (knows_setval hq hknow _)

theorem kept_print (hpc : (c.thread p).pc = .stat ∨ (c.thread p).pc = .info) :
    outline.Kept c p k l := by
  obtain ⟨s, _, hfind, _⟩ := (hc.thread p).own_set (by
    rcases hpc with hpc | hpc <;> rw [hpc] <;> trivial)
  rcases hpc with hpc | hpc <;> simp only [main, hpc] at h <;>
    obtain ⟨rfl, rfl⟩ := Prod.mk.inj (Option.some.inj h)
  · exact hc.kept_local ⟨fun hno => hno.elim, fun _ => ⟨s, hfind⟩, fun _ _ => trivial⟩
      (apart_of_ne nofun)
  · exact hc.kept_local ⟨fun hno => hno.elim, fun _ => ⟨s, hfind⟩, fun _ _ => trivial⟩
      (apart_of_ne nofun)

theorem kept_askfor_res (hpc : (c.thread p).pc = .askfor_res) : outline.Kept c p k l := by
  obtain ⟨s, hs, hfind, hknow⟩ := (hc.thread p).own_set (by rw [hpc]; trivial)
  have hle : s.value ≤ 1 := hc.shared s hs
  have hmax : ¬SEMVMX < s.value + -1 := by
    unfold SEMVMX
    omega
  simp only [main, hpc, Kernel.semop, hfind, hmax, if_false] at h
  by_cases hblocks : s.value + -1 < 0
  · rw [if_pos hblocks] at h
    cases h
  · rw [if_neg hblocks] at h
    obtain ⟨rfl, rfl⟩ := Prod.mk.inj (Option.some.inj h)
    have hone : s.value = 1 := by omega
    have hfree : ∀ q, (c.thread q).pc ≠ .free_res := by
      intro q hq
      have hzero := (hc.thread q).knows s hs
      rw [hq] at hzero
      have := hzero.2
      omega
    refine ⟨fun t ht => ?_, ⟨fun hno => hno.elim, fun _ => ?_, fun t ht => ?_⟩, fun q _ => ?_,
      fun q _ => ⟨fun hboth => hfree q hboth.2, fun hboth => hfree q hboth.1⟩⟩
    · obtain rfl := Option.some.inj ht
      change s.value + -1 ≤ 1
      omega
    · exact ⟨_, find_iff.mpr ⟨rfl, (find_iff.mp hfind).2⟩⟩
    · obtain rfl := Option.some.inj ht
      refine ⟨o.now.ne_zero, ?_⟩
      change s.value + -1 = 0
      omega
    · exact (hc.thread q).change hs rfl (knows_acquire hone o.now _)

theorem kept_free_res (hpc : (c.thread p).pc = .free_res) : outline.Kept c p k l := by
  obtain ⟨s, hs, hfind, hknow⟩ := (hc.thread p).own_set (by rw [hpc]; trivial)
  rw [hpc] at hknow
  have hzero : s.value = 0 := hknow.2
  have hblocks : ¬s.value + 1 < 0 := by omega
  have hmax : ¬SEMVMX < s.value + 1 := by
    unfold SEMVMX
    omega
  simp only [main, hpc, Kernel.semop, hfind, hblocks, hmax, if_false] at h
  obtain ⟨rfl, rfl⟩ := Prod.mk.inj (Option.some.inj h)
  refine ⟨fun t ht => ?_, ⟨fun hno => hno.elim, fun hno => hno.elim, fun _ _ => trivial⟩,
    fun q hq => ?_, apart_of_ne nofun⟩
  · obtain rfl := Option.some.inj ht
    change s.value + 1 ≤ 1
    omega
  · refine (hc.thread q).change hs rfl (knows_release hknow o.now _ fun hfree => ?_)
    exact hc.apart p q hq.symm ⟨hpc, hfree⟩

theorem kept_rmid (hg : Orderly c (p, o)) (hpc : (c.thread p).pc = .rmid) :
    outline.Kept c p k l := by
  have hown : ∀ k : Kernel P, Assertion p k { c.thread p with pc := .exited } := fun _ =>
    ⟨fun hno => hno.elim, fun hno => hno.elim, fun _ _ => trivial⟩
  simp only [main, hpc] at h
  obtain ⟨rfl, rfl⟩ := Prod.mk.inj (Option.some.inj h)
  cases hfind : c.shared.find (c.thread p).semid with
  | none =>
    rw [Kernel.rmid, hfind]
    exact hc.kept_local (hown _) (apart_of_ne nofun)
  | some s =>
    rw [Kernel.rmid, hfind]
    refine ⟨fun _ hno => (by cases hno), hown _, fun q hq => ?_, apart_of_ne nofun⟩
    refine ⟨(hc.thread q).init, fun hatt => ?_, fun _ hno => (by cases hno)⟩
    obtain ⟨t, ht, hfind', _⟩ := (hc.thread q).own_set hatt
    obtain rfl := Option.some.inj (ht.symm.trans (find_iff.mp hfind).1)
    rcases hg.rmid t hfind hpc q hq (find_iff.mp hfind').2 with hdone | hdone <;>
      rw [hdone] at hatt <;> exact hatt.elim

end

theorem outline_kept (c : System P) (p : P) (o : Outside) (k : Kernel P) (l : Process)
    (hc : outline.Holds c)
    (hg : ReadsOtime c (p, o) ∧ Punctual c (p, o) ∧ Orderly c (p, o))
    (h : main p o c.shared (c.thread p) = some (k, l)) : outline.Kept c p k l := by
  cases hpc : (c.thread p).pc with
  | semgetExcl => exact kept_semgetExcl hc h hpc
  | semgetCreat => exact kept_semgetCreat hc h hg.2.2 hpc
  | tryStat => exact kept_tryStat hc h hg.1 hg.2.1 hpc
  | setval => exact kept_setval hc h hpc
  | stat => exact kept_print hc h (.inl hpc)
  | info => exact kept_print hc h (.inr hpc)
  | askfor_res => exact kept_askfor_res hc h hpc
  | free_res => exact kept_free_res hc h hpc
  | rmid => exact kept_rmid hc h hg.2.2 hpc
  | exited =>
    simp only [main, hpc, reduceCtorEq] at h

theorem outline_start : outline.Holds (start : System P) :=
  ⟨fun _ hno => (by cases hno), fun _ => ⟨fun _ => rfl, fun hno => hno.elim, fun _ hno => by
    cases hno⟩, fun _ _ _ hboth => by cases hboth.1⟩

/-- For any processes and every order of their calls: if the last tries do not miss a `semop`, a
set's creator is in time and sets are removed in good order, at most one process at a time works on
the resource. -/
theorem mutual_exclusion [DecidableEq P] (calls : List (P × Outside))
    (hreads : EachStep (Interleaves main) (fun c a _ => ReadsOtime c a) start calls)
    (hpunctual : EachStep (Interleaves main) (fun c a _ => Punctual c a) start calls)
    (horderly : EachStep (Interleaves main) (fun c a _ => Orderly c a) start calls) :
    Always (Interleaves main) Exclusive start calls := by
  have hholds : Always (Interleaves main) outline.Holds start calls :=
    outline.always (G := fun c a => ReadsOtime c a ∧ Punctual c a ∧ Orderly c a) outline_kept
      (hreads.and (hpunctual.and horderly)) outline_start
  exact hholds.mono fun _ hc => hc.apart

def twoProcesses : List (Fin 2 × Outside) :=
  let call (p : Fin 2) (otime : ℕ) : Fin 2 × Outside := (p, ⟨false, 1, otime⟩)
  [call 0 0, call 0 0, call 1 0, call 1 0, call 1 0] ++ List.replicate 3 (call 0 0) ++
    List.replicate 3 (call 1 1)

theorem mutual_exclusion_two : ∃ c, Run (Interleaves main) start twoProcesses c ∧
    (c.thread 0).pc = .free_res ∧ (c.thread 1).pc = .askfor_res ∧ Exclusive c := by
  let c := ((start : System (Fin 2)).after main twoProcesses).getD start
  have hrun : Run (Interleaves main) start twoProcesses c := run_of_after rfl
  have hall := mutual_exclusion twoProcesses (by decide +kernel) (by decide +kernel)
    (by decide +kernel)
  exact ⟨c, hrun, rfl, rfl, (always_iff_run _ _ _).mp hall _ c List.prefix_rfl hrun⟩

/-- The first process releases the resource, the second gets it, the first removes the set, and
`semop` of the third fails. -/
def removedTooEarly : List (Fin 3 × Outside) :=
  let call (p : Fin 3) : Fin 3 × Outside := (p, ⟨false, 1, 1⟩)
  List.replicate 5 (call 0) ++ List.replicate 5 (call 1) ++ List.replicate 5 (call 2) ++
    [call 0, call 1, call 0, call 2]

/-- The second process reads 0 at each of its tries, as with the layout of `linux/sem.h` on x86-64,
and sets the value to 1 again. -/
def misread : List (Fin 2 × Outside) :=
  let call (p : Fin 2) : Fin 2 × Outside := (p, ⟨false, 1, 0⟩)
  List.replicate 5 (call 0) ++ List.replicate 9 (call 1)

theorem not_always_exclusive {n : ℕ} {calls : List (Fin n × Outside)} {c : System (Fin n)}
    (hrun : Run (Interleaves main) start calls c) {p q : Fin n} (hpq : p ≠ q)
    (hp : (c.thread p).pc = .free_res) (hq : (c.thread q).pc = .free_res) :
    ¬Always (Interleaves main) Exclusive start calls := fun hall =>
  (always_iff_run _ _ _).mp hall _ c List.prefix_rfl hrun p q hpq ⟨hp, hq⟩

/-- Two processes work on the resource, although the creator is in time: in one run the set is
removed too early, in the other it is not, but `sem_otime` is not read. -/
theorem removal_or_misread_admits_two :
    (EachStep (Interleaves main) (fun c a _ => ReadsOtime c a ∧ Punctual c a) start
        removedTooEarly ∧
      ¬Always (Interleaves main) Exclusive start removedTooEarly) ∧
    EachStep (Interleaves main) (fun c a _ => Punctual c a ∧ Orderly c a) start misread ∧
      ¬Always (Interleaves main) Exclusive start misread := by
  have hremoved : Run (Interleaves main) start removedTooEarly
      (((start : System (Fin 3)).after main removedTooEarly).getD start) := run_of_after rfl
  have hmisread : Run (Interleaves main) start misread
      (((start : System (Fin 2)).after main misread).getD start) := run_of_after rfl
  exact ⟨⟨by decide +kernel, not_always_exclusive hremoved (p := 1) (q := 2) (by decide) rfl rfl⟩,
    by decide +kernel, not_always_exclusive hmisread (p := 0) (q := 1) (by decide) rfl rfl⟩

end NetPrograms.SemaphoreExclusion
