import NetPrograms.ForkServerModel

set_option autoImplicit false

namespace NetPrograms.ForkServer
open ForkServerModel RunInvariants

def childBase (listenfd : ℕ) (inherited : ℕ → Bool) : Descriptors :=
  Function.update (base listenfd inherited) listenfd none

def withConn (f : Descriptors) (x : Process) : Descriptors :=
  match x.conn with
  | some id => Function.update f x.connfd (some (.connection id))
  | none => f

def Shape (listenfd : ℕ) (inherited : ℕ → Bool) (x : Process) : Prop :=
  match x.place with
  | .accept => x.fds = base listenfd inherited
  | .fork | .closeConn | .closeListen =>
    base listenfd inherited x.connfd = none ∧ x.fds = withConn (base listenfd inherited) x
  | .read | .write | .close =>
    base listenfd inherited x.connfd = none ∧ x.fds = withConn (childBase listenfd inherited) x
  | .exit => x.fds = childBase listenfd inherited
  | .exited => x.fds = fun _ => none

def Parental : Place → Prop
  | .accept | .fork | .closeConn | .exited => True
  | .closeListen | .read | .write | .close | .exit => False

def Filial : Place → Prop
  | .closeListen | .read | .write | .close | .exit | .exited => True
  | .accept | .fork | .closeConn => False

/-- Every read has been answered, up to the one that is being answered. -/
def Answers (reads writes : ℕ) : Place → Prop
  | .closeListen | .read => reads = writes
  | .write => reads = writes + 1
  | _ => writes ≤ reads ∧ reads ≤ writes + 1

theorem Answers.bounds {reads writes : ℕ} {place : Place} (h : Answers reads writes place) :
    writes ≤ reads ∧ reads ≤ writes + 1 := by
  cases place with
  | closeListen | read | write =>
    simp only [Answers] at h
    omega
  | accept | fork | closeConn | close | exit | exited => exact h

structure Inv (listenfd : ℕ) (inherited : ℕ → Bool) (s : System) : Prop where
  shape : ∀ p, Shape listenfd inherited (s.process p)
  parent : Parental (s.process 0).place
  children : ∀ p, p ≠ 0 → Filial (s.process p).place
  born : 0 < s.processes
  unborn : ∀ p, s.processes ≤ p → (s.process p).conn = none
  known : ∀ p id, (s.process p).conn = some id → id < s.accepted
  own : ∀ p q id, p ≠ 0 → q ≠ 0 → (s.process p).conn = some id → (s.process q).conn = some id →
    p = q
  fresh : (s.process 0).place = .fork → ∀ p id, p ≠ 0 → (s.process p).conn = some id →
    (s.process 0).conn ≠ some id
  child : ∀ id < s.accepted, (∃ p, p ≠ 0 ∧ (s.process p).conn = some id) ∨
    (s.process 0).conn = some id ∧
      ((s.process 0).place = .fork ∨ (s.process 0).place = .exited)
  accesses : ∀ a ∈ s.log, a.process ≠ 0 ∧ (s.process a.process).conn = some a.connection
  answers : ∀ p id, p ≠ 0 → (s.process p).conn = some id →
    Answers (s.calls id .read) (s.calls id .write) (s.process p).place

theorem loop_cases (x : Process) : x.loop = .close ∨ x.loop = .read := by
  unfold Process.loop
  split_ifs
  · exact .inl rfl
  · exact .inr rfl

theorem base_connection {listenfd : ℕ} {inherited : ℕ → Bool} (fd : ℤ) (id : ℕ) :
    base listenfd inherited fd ≠ some (.connection id) := by
  unfold base
  split_ifs <;> nofun

theorem childBase_connection {listenfd : ℕ} {inherited : ℕ → Bool} (fd : ℤ) (id : ℕ) :
    childBase listenfd inherited fd ≠ some (.connection id) := by
  rw [childBase, Function.update_apply]
  split_ifs
  · nofun
  · exact base_connection fd id

theorem withConn_iff {f : Descriptors} (hf : ∀ fd id, f fd ≠ some (.connection id)) (x : Process)
    (fd : ℤ) (id : ℕ) :
    withConn f x fd = some (.connection id) ↔ x.conn = some id ∧ fd = x.connfd := by
  unfold withConn
  cases x.conn with
  | none => simp [hf]
  | some i =>
    simp only [Function.update_apply]
    split_ifs with hfd
    · simp [hfd]
    · simp [hf, hfd]

theorem withConn_close {f : Descriptors} {x : Process} (hf : f x.connfd = none) :
    Function.update (withConn f x) x.connfd none = f := by
  unfold withConn
  cases x.conn with
  | none => rw [← hf, Function.update_eq_self]
  | some id => rw [Function.update_idem, ← hf, Function.update_eq_self]

theorem closeListen_eq {listenfd : ℕ} {inherited : ℕ → Bool} {x : Process}
    (hx : base listenfd inherited x.connfd = none) :
    Function.update (withConn (base listenfd inherited) x) listenfd none =
      withConn (childBase listenfd inherited) x := by
  have hne : (listenfd : ℤ) ≠ x.connfd := by
    rintro hfd
    rw [← hfd, base, if_pos rfl] at hx
    cases hx
  unfold withConn childBase
  cases x.conn with
  | none => rfl
  | some id => exact Function.update_comm hne.symm _ _ _

theorem childBase_none {listenfd : ℕ} {inherited : ℕ → Bool} {fd : ℤ}
    (h : base listenfd inherited fd = none) : childBase listenfd inherited fd = none := by
  rw [childBase, Function.update_apply, h, ite_self]

theorem Shape.opened {listenfd : ℕ} {inherited : ℕ → Bool} {x : Process}
    (h : Shape listenfd inherited x) (fd : ℤ) (id : ℕ) :
    x.Holds fd id ↔ x.place.Open ∧ x.conn = some id ∧ fd = x.connfd := by
  unfold Process.Holds
  cases hplace : x.place with
  | accept =>
    rw [Shape, hplace] at h
    simp [h, base_connection, Place.Open]
  | fork | closeConn | closeListen =>
    rw [Shape, hplace] at h
    rw [h.2, withConn_iff base_connection]
    simp [Place.Open]
  | read | write | close =>
    rw [Shape, hplace] at h
    rw [h.2, withConn_iff childBase_connection]
    simp [Place.Open]
  | exit =>
    rw [Shape, hplace] at h
    simp [h, childBase_connection, Place.Open]
  | exited =>
    rw [Shape, hplace] at h
    simp [h, Place.Open]

theorem set_process (s : System) (p q : ℕ) (x : Process) :
    (s.set p x).process q = if q = p then x else s.process q :=
  Function.update_apply _ _ _ _

theorem set_conn {s : System} {p : ℕ} {x : Process} (h : x.conn = (s.process p).conn) (q : ℕ) :
    ((s.set p x).process q).conn = (s.process q).conn := by
  rw [set_process]
  split_ifs with hq
  · rw [hq, h]
  · rfl

section
variable {listenfd : ℕ} {inherited : ℕ → Bool} {s : System} (hi : Inv listenfd inherited s)
include hi

theorem Inv.zero_of {p : ℕ} (h : ¬Filial (s.process p).place) : p = 0 := by
  by_contra hp
  exact h (hi.children p hp)

theorem Inv.nonzero_of {p : ℕ} (h : ¬Parental (s.process p).place) : p ≠ 0 := by
  rintro rfl
  exact h hi.parent

theorem Inv.no_calls {id : ℕ} (h : ∀ p, p ≠ 0 → (s.process p).conn ≠ some id) (call : Call) :
    s.calls id call = 0 := by
  refine List.countP_eq_zero.mpr fun a ha => ?_
  obtain ⟨hchild, hconn⟩ := hi.accesses a ha
  simp only [decide_eq_true_eq, not_and]
  rintro rfl
  exact absurd hconn (h _ hchild)

theorem Inv.moves {p : ℕ} {x : Process} (hconn : x.conn = (s.process p).conn)
    (hshape : Shape listenfd inherited x)
    (hparent : Parental (s.process p).place → Parental x.place)
    (hchild : Filial (s.process p).place → Filial x.place) (hfork : x.place ≠ .fork)
    (hlast : (s.process p).place = .fork ∨ (s.process p).place = .exited → x.place = .exited)
    (hanswers : ∀ r w, Answers r w (s.process p).place → Answers r w x.place) :
    Inv listenfd inherited (s.set p x) := by
  have hsame := set_conn hconn
  refine ⟨fun q => ?_, ?_, fun q hq => ?_, hi.born, fun q hq => ?_, fun q id hid => ?_,
    fun q r id hq hr hqid hrid => ?_, fun hplace => ?_, fun id hid => ?_, fun a ha => ?_,
    fun q id hq hid => ?_⟩
  · rw [set_process]
    split_ifs
    · exact hshape
    · exact hi.shape q
  · rw [set_process]
    split_ifs with hp
    · exact hparent (hp ▸ hi.parent)
    · exact hi.parent
  · rw [set_process]
    split_ifs with hqp
    · exact hchild (hqp ▸ hi.children q hq)
    · exact hi.children q hq
  · exact (hsame q).trans (hi.unborn q hq)
  · exact hi.known q id ((hsame q).symm.trans hid)
  · exact hi.own q r id hq hr ((hsame q).symm.trans hqid) ((hsame r).symm.trans hrid)
  · rw [set_process] at hplace
    split_ifs at hplace with hp
    · exact absurd hplace hfork
    · intro q id hq hid
      rw [hsame 0]
      exact hi.fresh hplace q id hq ((hsame q).symm.trans hid)
  · rcases hi.child id hid with ⟨q, hq, hqid⟩ | ⟨hzero, hplace⟩
    · exact .inl ⟨q, hq, (hsame q).trans hqid⟩
    · refine .inr ⟨(hsame 0).trans hzero, ?_⟩
      rw [set_process]
      split_ifs with hp
      · exact .inr (hlast (hp ▸ hplace))
      · exact hplace
  · obtain ⟨hne, hid⟩ := hi.accesses a ha
    exact ⟨hne, (hsame _).trans hid⟩
  · have hold := hi.answers q id hq ((hsame q).symm.trans hid)
    rw [set_process]
    split_ifs with hqp
    · exact hanswers _ _ (hqp ▸ hold)
    · exact hold

theorem Inv.accessed {p id : ℕ} {call : Call} {x : Process} (hp : p ≠ 0)
    (hid : (s.process p).conn = some id) (hconn : x.conn = (s.process p).conn)
    (hshape : Shape listenfd inherited x) (hchild : Filial x.place)
    (hanswers : ∀ t : System, (∀ c, t.calls id c = s.calls id c + if c = call then 1 else 0) →
      Answers (t.calls id .read) (t.calls id .write) x.place) :
    Inv listenfd inherited { s.set p x with log := s.log ++ [⟨p, id, call⟩] } := by
  have hsame := set_conn hconn
  have hzero : (s.set p x).process 0 = s.process 0 := Function.update_of_ne hp.symm _ _
  have hcalls : ∀ i c, ({ s.set p x with log := s.log ++ [⟨p, id, call⟩] } : System).calls i c =
      s.calls i c + if id = i ∧ call = c then 1 else 0 := by
    intro i c
    simp [System.calls, List.countP_append, List.countP_singleton]
  refine ⟨fun q => ?_, ?_, fun q hq => ?_, hi.born, fun q hq => ?_, fun q i hqi => ?_,
    fun q r i hq hr hqi hri => ?_, fun hplace q i hq hqi => ?_, fun i hlt => ?_, fun a ha => ?_,
    fun q i hq hqi => ?_⟩
  · change Shape _ _ ((s.set p x).process q)
    rw [set_process]
    split_ifs
    · exact hshape
    · exact hi.shape q
  · change Parental ((s.set p x).process 0).place
    rw [hzero]
    exact hi.parent
  · change Filial ((s.set p x).process q).place
    rw [set_process]
    split_ifs
    · exact hchild
    · exact hi.children q hq
  · exact (hsame q).trans (hi.unborn q hq)
  · exact hi.known q i ((hsame q).symm.trans hqi)
  · exact hi.own q r i hq hr ((hsame q).symm.trans hqi) ((hsame r).symm.trans hri)
  · change ((s.set p x).process 0).place = .fork at hplace
    change ((s.set p x).process 0).conn ≠ some i
    rw [hzero] at hplace ⊢
    exact hi.fresh hplace q i hq ((hsame q).symm.trans hqi)
  · change (∃ q, q ≠ 0 ∧ ((s.set p x).process q).conn = some i) ∨
      ((s.set p x).process 0).conn = some i ∧ (((s.set p x).process 0).place = .fork ∨
        ((s.set p x).process 0).place = .exited)
    rw [hzero]
    exact (hi.child i hlt).imp_left fun ⟨q, hq, hqi⟩ => ⟨q, hq, (hsame q).trans hqi⟩
  · rcases List.mem_append.mp ha with ha | ha
    · obtain ⟨hne, hconn'⟩ := hi.accesses a ha
      exact ⟨hne, (hsame _).trans hconn'⟩
    · obtain rfl := List.mem_singleton.mp ha
      exact ⟨hp, (hsame p).trans hid⟩
  · have hqi' : (s.process q).conn = some i := (hsame q).symm.trans hqi
    change Answers _ _ ((s.set p x).process q).place
    rw [set_process]
    split_ifs with hqp
    · subst hqp
      obtain rfl := Option.some.inj (hid.symm.trans hqi')
      exact hanswers _ fun c => by simp [hcalls, eq_comm]
    · have hne : id ≠ i := by
        rintro rfl
        exact hqp (hi.own q p id hq hp hqi' hid)
      simp only [hcalls, hne, false_and, if_false, Nat.add_zero]
      exact hi.answers q i hq hqi'

theorem Inv.accepts {x : Process} {accepted : ℕ} (hplace : (s.process 0).place = .accept)
    (hnext : x.place = .fork) (hshape : Shape listenfd inherited x)
    (hle : s.accepted ≤ accepted)
    (hnew : ∀ id, x.conn = some id ↔ s.accepted ≤ id ∧ id < accepted) :
    Inv listenfd inherited { s.set 0 x with accepted := accepted } := by
  have hother : ∀ q, q ≠ 0 → (s.set 0 x).process q = s.process q :=
    fun q hq => Function.update_of_ne hq _ _
  have hself : (s.set 0 x).process 0 = x := (set_process s 0 0 x).trans (if_pos rfl)
  have hconn : ∀ q id, q ≠ 0 → ((s.set 0 x).process q).conn = some id → id < s.accepted :=
    fun q id hq hid => hi.known q id (hother q hq ▸ hid)
  refine ⟨fun q => ?_, ?_, fun q hq => ?_, hi.born, fun q hq => ?_, fun q id hid => ?_,
    fun q r id hq hr hqid hrid => ?_, fun _ q id hq hid hzero => ?_, fun id hid => ?_,
    fun a ha => ?_, fun q id hq hid => ?_⟩
  · change Shape _ _ ((s.set 0 x).process q)
    rw [set_process]
    split_ifs
    · exact hshape
    · exact hi.shape q
  · change Parental ((s.set 0 x).process 0).place
    rw [hself, hnext]
    trivial
  · change Filial ((s.set 0 x).process q).place
    rw [hother q hq]
    exact hi.children q hq
  · have hq0 : q ≠ 0 := by
      rintro rfl
      exact absurd hi.born (Nat.not_lt.mpr hq)
    change ((s.set 0 x).process q).conn = none
    rw [hother q hq0]
    exact hi.unborn q hq
  · by_cases hq : q = 0
    · subst hq
      exact ((hnew id).mp (hself ▸ hid)).2
    · exact Nat.lt_of_lt_of_le (hconn q id hq hid) hle
  · exact hi.own q r id hq hr (hother q hq ▸ hqid) (hother r hr ▸ hrid)
  · have hge := ((hnew id).mp (hself ▸ hzero)).1
    exact absurd (hconn q id hq hid) (Nat.not_lt.mpr hge)
  · change (∃ q, q ≠ 0 ∧ ((s.set 0 x).process q).conn = some id) ∨
      ((s.set 0 x).process 0).conn = some id ∧ (((s.set 0 x).process 0).place = .fork ∨
        ((s.set 0 x).process 0).place = .exited)
    rw [hself]
    by_cases hold : id < s.accepted
    · rcases hi.child id hold with ⟨q, hq, hqid⟩ | ⟨_, hfork | hexited⟩
      · refine .inl ⟨q, hq, ?_⟩
        rw [hother q hq]
        exact hqid
      · rw [hplace] at hfork
        cases hfork
      · rw [hplace] at hexited
        cases hexited
    · exact .inr ⟨(hnew id).mpr ⟨Nat.not_lt.mp hold, hid⟩, .inl hnext⟩
  · obtain ⟨hne, hid⟩ := hi.accesses a ha
    refine ⟨hne, ?_⟩
    change ((s.set 0 x).process a.process).conn = _
    rw [hother _ hne]
    exact hid
  · change Answers _ _ ((s.set 0 x).process q).place
    change ((s.set 0 x).process q).conn = _ at hid
    rw [hother q hq] at hid ⊢
    exact hi.answers q id hq hid

theorem Inv.forks (hplace : (s.process 0).place = .fork) :
    Inv listenfd inherited (s.fork 0 (s.process 0)) := by
  have hborn := hi.born
  have hnew : (s.fork 0 (s.process 0)).process s.processes =
      { s.process 0 with place := .closeListen } := Function.update_self _ _ _
  have hparent : (s.fork 0 (s.process 0)).process 0 =
      { s.process 0 with place := .closeConn } := by
    refine (set_process _ _ 0 _).trans ?_
    rw [if_neg (Nat.ne_of_lt hborn), set_process, if_pos rfl]
  have hother : ∀ q, q ≠ 0 → q ≠ s.processes →
      (s.fork 0 (s.process 0)).process q = s.process q := by
    intro q hq hqn
    refine (set_process _ _ q _).trans ?_
    rw [if_neg hqn, set_process, if_neg hq]
  have hshape := hi.shape 0
  rw [Shape, hplace] at hshape
  have hold : ∀ q id, q ≠ 0 → q ≠ s.processes →
      ((s.fork 0 (s.process 0)).process q).conn = some id → (s.process 0).conn ≠ some id :=
    fun q id hq hqn hid => hi.fresh hplace q id hq (hother q hq hqn ▸ hid)
  refine ⟨fun q => ?_, ?_, fun q hq => ?_, Nat.succ_pos _, fun q hq => ?_, fun q id hid => ?_,
    fun q r id hq hr hqid hrid => ?_, fun hno => ?_, fun id hid => ?_, fun a ha => ?_,
    fun q id hq hid => ?_⟩
  · by_cases hqn : q = s.processes
    · rw [hqn, hnew]
      exact hshape
    · by_cases hq : q = 0
      · rw [hq, hparent]
        exact hshape
      · rw [hother q hq hqn]
        exact hi.shape q
  · rw [hparent]
    trivial
  · by_cases hqn : q = s.processes
    · rw [hqn, hnew]
      trivial
    · rw [hother q hq hqn]
      exact hi.children q hq
  · change s.processes + 1 ≤ q at hq
    rw [hother q (by omega) (by omega)]
    exact hi.unborn q (by omega)
  · by_cases hqn : q = s.processes
    · rw [hqn, hnew] at hid
      exact hi.known 0 id hid
    · by_cases hq : q = 0
      · rw [hq, hparent] at hid
        exact hi.known 0 id hid
      · rw [hother q hq hqn] at hid
        exact hi.known q id hid
  · by_cases hqn : q = s.processes <;> by_cases hrn : r = s.processes
    · rw [hqn, hrn]
    · rw [hqn, hnew] at hqid
      exact absurd hqid (hold r id hr hrn hrid)
    · rw [hrn, hnew] at hrid
      exact absurd hrid (hold q id hq hqn hqid)
    · rw [hother q hq hqn] at hqid
      rw [hother r hr hrn] at hrid
      exact hi.own q r id hq hr hqid hrid
  · rw [hparent] at hno
    cases hno
  · have hnewChild : (s.process 0).conn = some id →
        ∃ q, q ≠ 0 ∧ ((s.fork 0 (s.process 0)).process q).conn = some id :=
      fun hzero => ⟨s.processes, by omega, by rw [hnew]; exact hzero⟩
    rcases hi.child id hid with ⟨q, hq, hqid⟩ | ⟨hzero, _⟩
    · have hqn : q ≠ s.processes := by
        rintro rfl
        rw [hi.unborn _ (Nat.le_refl _)] at hqid
        cases hqid
      exact .inl ⟨q, hq, by rw [hother q hq hqn]; exact hqid⟩
    · exact .inl (hnewChild hzero)
  · obtain ⟨hne, hid⟩ := hi.accesses a ha
    have hqn : a.process ≠ s.processes := by
      intro hqn
      rw [hqn, hi.unborn _ (Nat.le_refl _)] at hid
      cases hid
    exact ⟨hne, by rw [hother _ hne hqn]; exact hid⟩
  · by_cases hqn : q = s.processes
    · subst hqn
      rw [hnew] at hid
      rw [hnew]
      have hnone : ∀ call, s.calls id call = 0 :=
        hi.no_calls fun p hp hpid => hi.fresh hplace p id hp hpid hid
      change s.calls id .read = s.calls id .write
      rw [hnone, hnone]
    · rw [hother q hq hqn] at hid ⊢
      exact hi.answers q id hq hid

theorem access_inv {p : ℕ} {call : Call} (next : Place) {t : System} (hp : p ≠ 0)
    (hshape : ∀ id, (s.process p).conn = some id →
      Shape listenfd inherited { s.process p with place := next })
    (hchild : Filial next)
    (hanswers : ∀ id, (s.process p).conn = some id → ∀ u : System,
      (∀ c, u.calls id c = s.calls id c + if c = call then 1 else 0) →
        Answers (u.calls id .read) (u.calls id .write) next)
    (h : s.access p call (s.process p) next = some t) : Inv listenfd inherited t := by
  unfold System.access at h
  split at h
  · next id hfile =>
    obtain rfl := Option.some.inj h
    obtain ⟨_, hid, _⟩ := ((hi.shape p).opened _ id).mp hfile
    exact hi.accessed hp hid rfl (hshape id hid) hchild (hanswers id hid)
  · cases h

theorem accept_inv {o : Outcome} {t : System} (hplace : (s.process 0).place = .accept)
    (h : s.act listenfd 0 o = some t) : Inv listenfd inherited t := by
  have hshape := hi.shape 0
  rw [Shape, hplace] at hshape
  cases o with
  | ok | data | sigpipe => simp only [System.act, hplace, reduceCtorEq] at h
  | fails =>
    simp only [System.act, hplace, Option.some.injEq] at h
    subst h
    have hbase : base listenfd inherited (-1) = none := by
      rw [base, if_neg (by omega), if_neg (by omega)]
    exact hi.accepts hplace rfl ⟨hbase, hshape⟩ (Nat.le_refl _) fun id =>
      ⟨nofun, fun hid => absurd hid.2 (Nat.not_lt.mpr hid.1)⟩
  | connfd fd =>
    simp only [System.act, hplace, Option.ite_none_right_eq_some, Option.some.injEq] at h
    obtain ⟨⟨_, hfree⟩, rfl⟩ := h
    rw [hshape] at hfree ⊢
    refine hi.accepts hplace rfl ⟨hfree, rfl⟩ (Nat.le_succ _) fun id => ?_
    rw [Option.some.injEq]
    omega

theorem ended_inv (p : ℕ) : Inv listenfd inherited (s.set p (s.process p).ended) :=
  hi.moves rfl rfl (fun _ => trivial) (fun _ => trivial) nofun (fun _ => rfl)
    fun _ _ => Answers.bounds

theorem act_inv {p : ℕ} {o : Outcome} {t : System} (h : s.act listenfd p o = some t) :
    Inv listenfd inherited t := by
  have hshape := hi.shape p
  cases hplace : (s.process p).place with
  | accept =>
    obtain rfl := hi.zero_of (p := p) (hplace ▸ id)
    exact accept_inv hi hplace h
  | fork =>
    obtain rfl := hi.zero_of (p := p) (hplace ▸ id)
    cases o with
    | ok =>
      simp only [System.act, hplace, Option.some.injEq] at h
      exact h ▸ hi.forks hplace
    | fails =>
      simp only [System.act, hplace, Option.some.injEq] at h
      exact h ▸ ended_inv hi 0
    | connfd _ | data | sigpipe => simp only [System.act, hplace, reduceCtorEq] at h
  | closeConn =>
    cases o with
    | ok =>
      simp only [System.act, hplace, Option.some.injEq] at h
      rw [Shape, hplace] at hshape
      subst h
      refine hi.moves rfl ?_ (fun _ => trivial) (hplace ▸ id) nofun (hplace ▸ nofun)
        fun _ _ => hplace ▸ id
      change Function.update (s.process p).fds _ _ = _
      rw [hshape.2, withConn_close hshape.1]
    | fails | connfd _ | data | sigpipe => simp only [System.act, hplace, reduceCtorEq] at h
  | closeListen =>
    cases o with
    | ok =>
      simp only [System.act, hplace, Option.some.injEq] at h
      rw [Shape, hplace] at hshape
      subst h
      have hfds : Function.update (s.process p).fds listenfd none =
          withConn (childBase listenfd inherited) (s.process p) := by
        rw [hshape.2, closeListen_eq hshape.1]
      rcases loop_cases (s.process p) with hloop | hloop <;> rw [hloop]
      · exact hi.moves rfl ⟨hshape.1, hfds⟩ (hplace ▸ id) (fun _ => trivial) nofun (hplace ▸ nofun)
          fun _ _ => Answers.bounds
      · exact hi.moves rfl ⟨hshape.1, hfds⟩ (hplace ▸ id) (fun _ => trivial) nofun (hplace ▸ nofun)
          fun _ _ => hplace ▸ id
    | fails | connfd _ | data | sigpipe => simp only [System.act, hplace, reduceCtorEq] at h
  | read =>
    rw [Shape, hplace] at hshape
    cases o with
    | data =>
      simp only [System.act, hplace] at h
      have hp : p ≠ 0 := hi.nonzero_of (hplace ▸ id)
      refine access_inv hi .write hp (fun _ _ => hshape) trivial (fun id hid u hu => ?_) h
      have hold := hi.answers p id hp hid
      rw [hplace] at hold
      replace hold : s.calls id .read = s.calls id .write := hold
      change u.calls id .read = u.calls id .write + 1
      simp [hu, hold]
    | fails =>
      simp only [System.act, hplace, Option.some.injEq] at h
      subst h
      exact hi.moves rfl hshape (hplace ▸ id) (fun _ => trivial) nofun (hplace ▸ nofun)
        fun _ _ hr => Answers.bounds (hplace ▸ hr)
    | ok | connfd _ | sigpipe => simp only [System.act, hplace, reduceCtorEq] at h
  | write =>
    rw [Shape, hplace] at hshape
    cases o with
    | ok =>
      simp only [System.act, hplace] at h
      have hp : p ≠ 0 := hi.nonzero_of (hplace ▸ id)
      have heven : ∀ id, (s.process p).conn = some id → ∀ u : System,
          (∀ c, u.calls id c = s.calls id c + if c = .write then 1 else 0) →
            u.calls id .read = u.calls id .write := by
        intro id hid u hu
        have hold := hi.answers p id hp hid
        rw [hplace] at hold
        replace hold : s.calls id .read = s.calls id .write + 1 := hold
        simp [hu, hold]
      rcases loop_cases (s.process p) with hloop | hloop <;> rw [hloop] at h
      · refine access_inv hi .close hp (fun _ _ => hshape) trivial (fun id hid u hu => ?_) h
        have hsame := heven id hid u hu
        exact ⟨hsame.ge, by omega⟩
      · exact access_inv hi .read hp (fun _ _ => hshape) trivial heven h
    | sigpipe =>
      simp only [System.act, hplace, Option.some.injEq] at h
      exact h ▸ ended_inv hi p
    | fails | connfd _ | data => simp only [System.act, hplace, reduceCtorEq] at h
  | close =>
    cases o with
    | ok =>
      simp only [System.act, hplace, Option.some.injEq] at h
      rw [Shape, hplace] at hshape
      subst h
      refine hi.moves rfl ?_ (hplace ▸ id) (fun _ => trivial) nofun (hplace ▸ nofun)
        fun _ _ => hplace ▸ id
      change Function.update (s.process p).fds _ _ = _
      rw [hshape.2, withConn_close (childBase_none hshape.1)]
    | fails | connfd _ | data | sigpipe => simp only [System.act, hplace, reduceCtorEq] at h
  | exit =>
    cases o with
    | ok =>
      simp only [System.act, hplace, Option.some.injEq] at h
      exact h ▸ ended_inv hi p
    | fails | connfd _ | data | sigpipe => simp only [System.act, hplace, reduceCtorEq] at h
  | exited => cases o <;> simp only [System.act, hplace, reduceCtorEq] at h

end

theorem start_inv (listenfd : ℕ) (inherited : ℕ → Bool) :
    Inv listenfd inherited (System.start listenfd inherited) := by
  have hconn : ∀ p, ((System.start listenfd inherited).process p).conn = none := by
    intro p
    simp only [System.start, apply_ite Process.conn, ite_self]
  have hchild : ∀ p, p ≠ 0 → (System.start listenfd inherited).process p =
      ⟨.exited, 0, none, fun _ => none⟩ := fun p hp => if_neg hp
  refine ⟨fun p => ?_, trivial, fun p hp => ?_, Nat.one_pos, fun p _ => hconn p, fun p id hid => ?_,
    fun p _ id _ _ hid => ?_, nofun, nofun, nofun, fun p id _ hid => ?_⟩
  · by_cases hp : p = 0
    · rw [hp]
      exact rfl
    · rw [hchild p hp]
      exact rfl
  · rw [hchild p hp]
    trivial
  · exact absurd ((hconn p).symm.trans hid) nofun
  · exact absurd ((hconn p).symm.trans hid) nofun
  · exact absurd ((hconn p).symm.trans hid) nofun

theorem Inv.isolated {listenfd : ℕ} {inherited : ℕ → Bool} {s : System}
    (hi : Inv listenfd inherited s) : Isolated listenfd inherited s := by
  refine ⟨fun hplace => ?_, hi.child, hi.own, fun p => (hi.shape p).opened, hi.accesses,
    fun id => ?_⟩
  · have hshape := hi.shape 0
    rw [Shape, hplace] at hshape
    exact hshape
  · by_cases h : ∃ p, p ≠ 0 ∧ (s.process p).conn = some id
    · obtain ⟨p, hp, hid⟩ := h
      exact (hi.answers p id hp hid).bounds
    · have hnone := hi.no_calls fun p hp hid => h ⟨p, hp, hid⟩
      rw [hnone, hnone]
      exact ⟨Nat.le_refl _, Nat.zero_le _⟩

/-- However the parent and its children take turns and whatever fails: the parent loses no
descriptor, and every connection belongs to one child, which alone has it open and uses it. -/
theorem connections_isolated (listenfd : ℕ) (inherited : ℕ → Bool)
    (calls : List (ℕ × Outcome)) :
    Always (Steps listenfd) (Isolated listenfd inherited) (System.start listenfd inherited) calls :=
  (Always.of_invariant (G := fun _ _ _ => True) (Inv listenfd inherited)
    (fun _ _ _ hi h _ => act_inv hi h) (EachStep.of_labels (fun _ _ => trivial) _)
    (start_inv listenfd inherited)).mono fun _ hi => hi.isolated

end NetPrograms.ForkServer
