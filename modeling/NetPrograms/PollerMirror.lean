import Mathlib.Data.Set.Function
import NetPrograms.PollerModel
import NetPrograms.RunInvariants

set_option autoImplicit false

namespace NetPrograms.PollerMirror
open PollerModel RunInvariants

inductive ChannelOp where
  | enableReading
  | enableWriting
  | disableWriting
  | disableAll
  | remove
  deriving DecidableEq, Repr

def ChannelOp.run (p : Ptr) (r : Reactor) : ChannelOp → Reactor
  | enableReading => Channel.enableReading p r
  | enableWriting => Channel.enableWriting p r
  | disableWriting => Channel.disableWriting p r
  | disableAll => Channel.disableAll p r
  | remove => Channel.remove p r

def ChannelStep (r : Reactor) (a : Ptr × ChannelOp) (r' : Reactor) : Prop := a.2.run a.1 r = r'

structure Mirrors (r : Reactor) (p : Ptr) (fd : ℤ) : Prop where
  fd_eq : (r.channel p).fd_ = fd
  added_iff : (r.channel p).index_ = .kAdded ↔ r.kernel.interest fd ≠ none
  entry : (r.channel p).index_ = .kAdded →
    r.kernel.interest fd = some ((r.channel p).events_, p)
  table_iff : r.channels_ fd = some p ↔ (r.channel p).index_ ≠ .kNew

structure Untouched (r r' : Reactor) (p : Ptr) (fd : ℤ) : Prop where
  channel : r'.channel p = r.channel p
  interest : r'.kernel.interest fd = r.kernel.interest fd
  table : r'.channels_ fd = r.channels_ fd

def CtlValid (k : Kernel) : Prop := ∀ c ∈ k.ctlLog, c.errno = 0

/-- An operation on `p` touches only `p` and its descriptor, and its calls succeed. -/
structure Local (r r' : Reactor) (p : Ptr) (fd : ℤ) : Prop where
  channel : ∀ q, q ≠ p → r'.channel q = r.channel q
  interest : ∀ f, f ≠ fd → r'.kernel.interest f = r.kernel.interest f
  table : ∀ f, f ≠ fd → r'.channels_ f = r.channels_ f
  descriptors : r'.kernel.descriptors = r.kernel.descriptors
  ctl : CtlValid r.kernel → CtlValid r'.kernel

theorem epollCtl_valid (k : Kernel) {op : CtlOp} {fd : ℤ} (event : Mask × Ptr)
    (h : k.ctlErrno op fd = 0) (hk : CtlValid k) : CtlValid (k.epollCtl op fd event) := by
  intro c hc
  rcases List.mem_append.mp hc with hc | hc
  · exact hk c hc
  · rw [List.mem_singleton.mp hc]
    exact h

theorem ctlErrno_add {k : Kernel} {fd : ℤ} (hopen : k.descriptors fd ≠ none)
    (h : k.interest fd = none) : k.ctlErrno .add fd = 0 := by
  simp only [Kernel.ctlErrno, if_neg hopen, h]

theorem ctlErrno_present {k : Kernel} {op : CtlOp} {fd : ℤ} (hopen : k.descriptors fd ≠ none)
    (hop : op ≠ .add) (h : k.interest fd ≠ none) : k.ctlErrno op fd = 0 := by
  obtain ⟨e, he⟩ := Option.ne_none_iff_exists'.mp h
  cases op with
  | add => exact absurd rfl hop
  | mod | del => simp only [Kernel.ctlErrno, if_neg hopen, he]

theorem update_local {r : Reactor} {op : CtlOp} {p : Ptr} {fd : ℤ} (hfd : (r.channel p).fd_ = fd)
    (h : r.kernel.ctlErrno op fd = 0) : Local r (Poller.update op p r) p fd := by
  refine ⟨fun _ _ => rfl, fun f hf => ?_, fun _ _ => rfl, rfl, fun hk => ?_⟩
  · simp only [Poller.update, Kernel.epollCtl, hfd, h, if_true]
    exact Function.update_of_ne hf _ _
  · rw [Poller.update, hfd]
    exact epollCtl_valid r.kernel _ h hk

theorem update_interest {r : Reactor} {op : CtlOp} {p : Ptr} {fd : ℤ}
    (hfd : (r.channel p).fd_ = fd) (h : r.kernel.ctlErrno op fd = 0) :
    (Poller.update op p r).kernel.interest fd =
      match op with
      | .del => none
      | _ => some ((r.channel p).events_, p) := by
  cases op <;> simp only [Poller.update, Kernel.epollCtl, hfd, h, if_true, Function.update_self]

theorem setChannel_local (r : Reactor) (p : Ptr) (fd : ℤ) (f : Channel → Channel) :
    Local r (r.setChannel p f) p fd :=
  ⟨fun _ hq => Function.update_of_ne hq _ _, fun _ _ => rfl, fun _ _ => rfl, rfl, id⟩

theorem setChannel_self (r : Reactor) (p : Ptr) (f : Channel → Channel) :
    (r.setChannel p f).channel p = f (r.channel p) := Function.update_self _ _ _

theorem setEntry_local (r : Reactor) (p : Ptr) (fd : ℤ) (e : Option Ptr) :
    Local r { r with channels_ := Function.update r.channels_ fd e } p fd :=
  ⟨fun _ _ => rfl, fun _ _ => rfl, fun _ hf => Function.update_of_ne hf _ _, rfl, id⟩

theorem Local.trans {r u t : Reactor} {p : Ptr} {fd : ℤ} (h : Local r u p fd)
    (h' : Local u t p fd) : Local r t p fd :=
  ⟨fun q hq => (h'.channel q hq).trans (h.channel q hq),
    fun f hf => (h'.interest f hf).trans (h.interest f hf),
    fun f hf => (h'.table f hf).trans (h.table f hf),
    h'.descriptors.trans h.descriptors, fun hk => h'.ctl (h.ctl hk)⟩

theorem register_mirrors {t : Reactor} {op : CtlOp} {p : Ptr} {fd : ℤ} (hop : op ≠ .del)
    (hfd : (t.channel p).fd_ = fd) (hctl : t.kernel.ctlErrno op fd = 0)
    (hidx : (t.channel p).index_ = .kAdded) (htable : t.channels_ fd = some p) :
    Mirrors (Poller.update op p t) p fd := by
  have hint : (Poller.update op p t).kernel.interest fd = some ((t.channel p).events_, p) := by
    rw [update_interest hfd hctl]
    cases op with
    | add | mod => rfl
    | del => exact absurd rfl hop
  refine ⟨hfd, ?_, fun _ => hint, ?_⟩
  · rw [hint]
    exact ⟨fun _ => nofun, fun _ => hidx⟩
  · refine ⟨fun _ => ?_, fun _ => htable⟩
    change (t.channel p).index_ ≠ _
    rw [hidx]
    nofun

theorem setIndex_mirrors {t : Reactor} {i : Index} {p : Ptr} {fd : ℤ} (hi : i ≠ .kAdded)
    (hfd : (t.channel p).fd_ = fd) (hint : t.kernel.interest fd = none)
    (htable : t.channels_ fd = some p ↔ i ≠ .kNew) :
    Mirrors (t.setChannel p fun c => { c with index_ := i }) p fd := by
  have hch := setChannel_self t p fun c => { c with index_ := i }
  have hidx : ((t.setChannel p fun c => { c with index_ := i }).channel p).index_ = i :=
    congrArg Channel.index_ hch
  refine ⟨(congrArg Channel.fd_ hch).trans hfd, ?_, ?_, ?_⟩
  · rw [hidx]
    exact ⟨fun h => absurd h hi, fun h => absurd hint h⟩
  · rw [hidx]
    exact fun h => absurd h hi
  · rw [hidx]
    exact htable

/-- `updateChannel` by cases on the index and the mask. The mask registered so far may differ
from `events_`, which was changed just before. -/
theorem updateChannel_step {r : Reactor} {p : Ptr} {fd : ℤ} (hfd : (r.channel p).fd_ = fd)
    (hopen : r.kernel.descriptors fd ≠ none)
    (hadded : (r.channel p).index_ = .kAdded ↔ r.kernel.interest fd ≠ none)
    (htable : r.channels_ fd = some p ↔ (r.channel p).index_ ≠ .kNew) :
    Mirrors (Poller.updateChannel p r) p fd ∧ Local r (Poller.updateChannel p r) p fd := by
  cases hidx : (r.channel p).index_ with
  | kNew =>
    have habsent : r.kernel.interest fd = none := by simpa [hidx] using hadded
    let u : Reactor := { r with channels_ := Function.update r.channels_ fd (some p) }
    let t := u.setChannel p fun c => { c with index_ := .kAdded }
    have heq : Poller.updateChannel p r = Poller.update .add p t := by
      simp only [Poller.updateChannel, hidx, hfd, true_or, if_true]
      rfl
    have ht := setChannel_self u p fun c => { c with index_ := .kAdded }
    have htfd : (t.channel p).fd_ = fd := (congrArg Channel.fd_ ht).trans hfd
    have hctl : t.kernel.ctlErrno .add fd = 0 := ctlErrno_add hopen habsent
    rw [heq]
    refine ⟨register_mirrors nofun htfd hctl (congrArg Channel.index_ ht)
      (Function.update_self _ _ _), ?_⟩
    exact ((setEntry_local r p fd _).trans (setChannel_local u p fd _)).trans
      (update_local htfd hctl)
  | kDeleted =>
    have habsent : r.kernel.interest fd = none := by simpa [hidx] using hadded
    let t := r.setChannel p fun c => { c with index_ := .kAdded }
    have heq : Poller.updateChannel p r = Poller.update .add p t := by
      simp only [Poller.updateChannel, hidx, or_true, if_true, reduceCtorEq, if_false]
      rfl
    have ht := setChannel_self r p fun c => { c with index_ := .kAdded }
    have htfd : (t.channel p).fd_ = fd := (congrArg Channel.fd_ ht).trans hfd
    have hctl : t.kernel.ctlErrno .add fd = 0 := ctlErrno_add hopen habsent
    rw [heq]
    refine ⟨register_mirrors nofun htfd hctl (congrArg Channel.index_ ht)
      (htable.mpr (by rw [hidx]; nofun)), ?_⟩
    exact (setChannel_local r p fd _).trans (update_local htfd hctl)
  | kAdded =>
    have hpresent : r.kernel.interest fd ≠ none := hadded.mp hidx
    have htab : r.channels_ fd = some p := htable.mpr (by rw [hidx]; nofun)
    by_cases hnone : (r.channel p).isNoneEvent = true
    · let t := Poller.update .del p r
      have heq : Poller.updateChannel p r =
          t.setChannel p fun c => { c with index_ := .kDeleted } := by
        simp only [Poller.updateChannel, hidx, reduceCtorEq, or_self, if_false, hnone, if_true]
        rfl
      have hctl : r.kernel.ctlErrno .del fd = 0 := ctlErrno_present hopen nofun hpresent
      rw [heq]
      refine ⟨setIndex_mirrors nofun hfd (update_interest hfd hctl) ⟨fun _ => nofun, fun _ => htab⟩,
        ?_⟩
      exact (update_local hfd hctl).trans (setChannel_local t p fd _)
    · have heq : Poller.updateChannel p r = Poller.update .mod p r := by
        simp only [Poller.updateChannel, hidx, reduceCtorEq, or_self, if_false, hnone]
      have hctl : r.kernel.ctlErrno .mod fd = 0 := ctlErrno_present hopen nofun hpresent
      rw [heq]
      exact ⟨register_mirrors nofun hfd hctl hidx htab, update_local hfd hctl⟩

theorem removeChannel_step {r : Reactor} {p : Ptr} {fd : ℤ} (h : Mirrors r p fd)
    (hopen : r.kernel.descriptors fd ≠ none) :
    Mirrors (Poller.removeChannel p r) p fd ∧ Local r (Poller.removeChannel p r) p fd := by
  let u : Reactor := { r with channels_ := Function.update r.channels_ fd none }
  have htable : u.channels_ fd = some p ↔ Index.kNew ≠ .kNew := by
    change Function.update r.channels_ fd none fd = some p ↔ _
    rw [Function.update_self]
    exact ⟨nofun, fun h => absurd rfl h⟩
  by_cases hidx : (r.channel p).index_ = .kAdded
  · let t := Poller.update .del p u
    have heq : Poller.removeChannel p r = t.setChannel p fun c => { c with index_ := .kNew } := by
      simp only [Poller.removeChannel, hidx, h.fd_eq, if_true]
      rfl
    have hctl : u.kernel.ctlErrno .del fd = 0 :=
      ctlErrno_present hopen nofun (h.added_iff.mp hidx)
    rw [heq]
    refine ⟨setIndex_mirrors nofun h.fd_eq (update_interest h.fd_eq hctl) htable, ?_⟩
    exact ((setEntry_local r p fd none).trans (update_local h.fd_eq hctl)).trans
      (setChannel_local t p fd _)
  · have habsent : r.kernel.interest fd = none := by
      by_contra hne
      exact hidx (h.added_iff.mpr hne)
    have heq : Poller.removeChannel p r = u.setChannel p fun c => { c with index_ := .kNew } := by
      simp only [Poller.removeChannel, hidx, h.fd_eq, if_false]
      rfl
    rw [heq]
    refine ⟨setIndex_mirrors nofun h.fd_eq habsent htable, ?_⟩
    exact (setEntry_local r p fd none).trans (setChannel_local u p fd _)

theorem setEvents_step {r : Reactor} {p : Ptr} {fd : ℤ} (f : Mask → Mask) (h : Mirrors r p fd)
    (hopen : r.kernel.descriptors fd ≠ none) :
    Mirrors (Channel.setEvents f p r) p fd ∧ Local r (Channel.setEvents f p r) p fd := by
  let t := r.setChannel p fun c => { c with events_ := f c.events_ }
  have ht := setChannel_self r p fun c => { c with events_ := f c.events_ }
  have hidx : (t.channel p).index_ = (r.channel p).index_ := (congrArg Channel.index_ ht).trans rfl
  have hfd : (t.channel p).fd_ = fd := (congrArg Channel.fd_ ht).trans h.fd_eq
  obtain ⟨hm, hl⟩ := updateChannel_step (r := t) hfd hopen (by rw [hidx]; exact h.added_iff)
    (by rw [hidx]; exact h.table_iff)
  exact ⟨hm, (setChannel_local r p fd _).trans hl⟩

theorem channelOp_step {r : Reactor} {p : Ptr} {fd : ℤ} (op : ChannelOp) (h : Mirrors r p fd)
    (hopen : r.kernel.descriptors fd ≠ none) :
    Mirrors (op.run p r) p fd ∧ Local r (op.run p r) p fd := by
  cases op with
  | enableReading => exact setEvents_step (· ||| Channel.kReadEvent) h hopen
  | enableWriting => exact setEvents_step (· ||| Channel.kWriteEvent) h hopen
  | disableWriting => exact setEvents_step (· &&& ~~~Channel.kWriteEvent) h hopen
  | disableAll => exact setEvents_step (fun _ => Channel.kNoneEvent) h hopen
  | remove => exact removeChannel_step h hopen

theorem Local.untouched {r r' : Reactor} {p q : Ptr} {fd fd' : ℤ} (h : Local r r' p fd)
    (hq : q ≠ p) (hfd : fd' ≠ fd) : Untouched r r' q fd' :=
  ⟨h.channel q hq, h.interest fd' hfd, h.table fd' hfd⟩

theorem Mirrors.untouched {r r' : Reactor} {p : Ptr} {fd : ℤ} (h : Mirrors r p fd)
    (hu : Untouched r r' p fd) : Mirrors r' p fd := by
  refine ⟨?_, ?_, ?_, ?_⟩ <;> rw [hu.channel]
  · exact h.fd_eq
  · rw [hu.interest]
    exact h.added_iff
  · rw [hu.interest]
    exact h.entry
  · rw [hu.table]
    exact h.table_iff

structure Attached (S : Set Ptr) (fd : Ptr → ℤ) (r : Reactor) : Prop where
  opened : ∀ p ∈ S, r.kernel.descriptors (fd p) ≠ none
  mirrors : ∀ p ∈ S, Mirrors r p (fd p)
  ctl : CtlValid r.kernel

structure Fresh (S : Set Ptr) (fd : Ptr → ℤ) (r : Reactor) : Prop where
  opened : ∀ p ∈ S, r.kernel.descriptors (fd p) ≠ none
  channel : ∀ p ∈ S, r.channel p = Channel.new (fd p)
  interest : r.kernel.interest = fun _ => none
  channels_ : r.channels_ = fun _ => none
  ctlLog : r.kernel.ctlLog = []

theorem Fresh.attached {S : Set Ptr} {fd : Ptr → ℤ} {r : Reactor} (h : Fresh S fd r) :
    Attached S fd r := by
  refine ⟨h.opened, fun p hp => ⟨?_, ?_, ?_, ?_⟩, ?_⟩
  · rw [h.channel p hp]
    rfl
  · rw [h.channel p hp, h.interest]
    exact ⟨nofun, fun h => absurd rfl h⟩
  · rw [h.channel p hp]
    nofun
  · rw [h.channel p hp, h.channels_]
    exact ⟨nofun, fun h => absurd rfl h⟩
  · intro c hc
    rw [h.ctlLog] at hc
    cases hc

theorem attached_step {S : Set Ptr} {fd : Ptr → ℤ} (hfd : Set.InjOn fd S) {r r' : Reactor}
    {a : Ptr × ChannelOp} (h : Attached S fd r) (ha : a.1 ∈ S) (hstep : ChannelStep r a r') :
    Attached S fd r' ∧ ∀ q ∈ S, q ≠ a.1 → Untouched r r' q (fd q) := by
  obtain ⟨p, op⟩ := a
  obtain ⟨hm, hl⟩ := channelOp_step op (h.mirrors p ha) (h.opened p ha)
  change op.run p r = r' at hstep
  rw [hstep] at hm hl
  have hother : ∀ q ∈ S, q ≠ p → Untouched r r' q (fd q) := by
    intro q hq hne
    exact hl.untouched hne fun he => hne (hfd hq ha he)
  refine ⟨⟨?_, fun q hq => ?_, hl.ctl h.ctl⟩, hother⟩
  · rw [hl.descriptors]
    exact h.opened
  · by_cases hqp : q = p
    · rw [hqp]
      exact hm
    · exact (h.mirrors q hq).untouched (hother q hq hqp)

/-- In every run of the Channels in `S`, every `epoll_ctl` is valid, the index of each Channel
and the Poller's table say exactly what the kernel has, and an operation on one Channel
changes nothing about the others. -/
theorem poller_mirrors_kernel (S : Set Ptr) (fd : Ptr → ℤ) (hfd : Set.InjOn fd S) (r : Reactor)
    (hr : Fresh S fd r) (ops : List (Ptr × ChannelOp)) (hops : ∀ a ∈ ops, a.1 ∈ S) :
    Always ChannelStep (fun r => CtlValid r.kernel ∧ ∀ p ∈ S, Mirrors r p (fd p)) r ops ∧
    EachStep ChannelStep
      (fun r a r' => ∀ q ∈ S, q ≠ a.1 → Untouched r r' q (fd q)) r ops := by
  have hlabels : EachStep ChannelStep (fun _ a _ => a.1 ∈ S) r ops := EachStep.of_labels hops r
  constructor
  · refine (Always.of_invariant (Attached S fd) ?_ hlabels hr.attached).mono ?_
    · exact fun r a r' h hstep ha => (attached_step hfd h ha hstep).1
    · exact fun r h => ⟨h.ctl, h.mirrors⟩
  · refine EachStep.of_invariant (Attached S fd) ?_ hlabels hr.attached
    exact fun r a r' h hstep ha => (attached_step hfd h ha hstep).symm

theorem poller_mirrors_kernel_two :
    Always ChannelStep
      (fun r => CtlValid r.kernel ∧ ∀ p ∈ ({0, 1} : Set Ptr), Mirrors r p (5 + p))
      ⟨⟨fun _ => some .other, fun _ => none, 0, [], 0⟩, fun p => Channel.new (5 + p), fun _ => none,
        Poller.initialEvents⟩
      [(0, .enableReading), (1, .disableWriting), (0, .disableAll), (1, .remove),
        (0, .enableWriting)] := by
  refine (poller_mirrors_kernel {0, 1} (fun p => 5 + (p : ℤ)) ?_ _ ?_ _ ?_).1
  · intro p _ q _ h
    exact Int.ofNat_inj.mp (Int.add_left_cancel h)
  · exact ⟨fun _ _ => nofun, fun _ _ => rfl, rfl, rfl, rfl⟩
  · intro a ha
    simp only [List.mem_cons, List.not_mem_nil, or_false] at ha
    rcases ha with rfl | rfl | rfl | rfl | rfl <;> simp

end NetPrograms.PollerMirror
