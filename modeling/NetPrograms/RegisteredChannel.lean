import NetPrograms.PollerMirror

set_option autoImplicit false

namespace NetPrograms.PollerMirror
open PollerModel

structure Registered (r : Reactor) (p : Ptr) (fd : ℤ) : Prop where
  mirrors : Mirrors r p fd
  added : (r.channel p).index_ = .kAdded
  opened : r.kernel.descriptors fd ≠ none
  reading : (r.channel p).events_ &&& Channel.kReadEvent = Channel.kReadEvent

theorem Registered.interest {r : Reactor} {p : Ptr} {fd : ℤ} (h : Registered r p fd) :
    r.kernel.interest fd = some ((r.channel p).events_, p) :=
  h.mirrors.entry h.added

def KeepsReading (f : Mask → Mask) : Prop :=
  ∀ e, e &&& Channel.kReadEvent = Channel.kReadEvent →
    f e &&& Channel.kReadEvent = Channel.kReadEvent

theorem KeepsReading.ne_zero {f : Mask → Mask} (hf : KeepsReading f) {e : Mask}
    (he : e &&& Channel.kReadEvent = Channel.kReadEvent) : f e ≠ 0 := by
  intro h0
  have h := hf e he
  rw [h0] at h
  exact absurd h (by decide)

theorem keepsReading_enableWriting : KeepsReading (· ||| Channel.kWriteEvent) := by
  intro e he
  rw [BitVec.and_or_distrib_right, he]
  decide

theorem keepsReading_disableWriting : KeepsReading (· &&& ~~~Channel.kWriteEvent) := by
  intro e he
  have hmask : ~~~Channel.kWriteEvent &&& Channel.kReadEvent = Channel.kReadEvent := by decide
  rw [BitVec.and_assoc, hmask, he]

theorem isWriting_enableWriting (e : Mask) :
    (e ||| Channel.kWriteEvent) &&& Channel.kWriteEvent ≠ 0 := by
  intro h
  rw [BitVec.and_or_distrib_right, BitVec.and_self] at h
  have hw := (BitVec.or_eq_zero_iff.mp h).2
  exact absurd hw (by decide)

theorem isWriting_disableWriting (e : Mask) :
    (e &&& ~~~Channel.kWriteEvent) &&& Channel.kWriteEvent = 0 := by
  rw [BitVec.and_assoc, BitVec.not_and_self]
  exact BitVec.and_zero

theorem setEvents_channel {f : Mask → Mask} {r : Reactor} {p : Ptr}
    (hadded : (r.channel p).index_ = .kAdded) (hf : f (r.channel p).events_ ≠ 0) :
    (Channel.setEvents f p r).channel p =
      { r.channel p with events_ := f (r.channel p).events_ } := by
  have hself := setChannel_self r p fun c => { c with events_ := f c.events_ }
  have hnone : ((r.setChannel p fun c => { c with events_ := f c.events_ }).channel p).isNoneEvent
      = false := by
    rw [hself]
    exact decide_eq_false hf
  change (Poller.updateChannel p _).channel p = _
  unfold Poller.updateChannel
  dsimp only
  rw [if_neg, if_neg]
  · exact hself
  · rw [hnone]
    nofun
  · rw [hself, hadded]
    nofun

theorem Registered.setEvents {f : Mask → Mask} {r : Reactor} {p : Ptr} {fd : ℤ}
    (hf : KeepsReading f) (h : Registered r p fd) :
    Registered (Channel.setEvents f p r) p fd ∧ Local r (Channel.setEvents f p r) p fd ∧
      (Channel.setEvents f p r).channel p =
        { r.channel p with events_ := f (r.channel p).events_ } := by
  obtain ⟨hm, hl⟩ := setEvents_step f h.mirrors h.opened
  have hch := setEvents_channel (f := f) h.added (hf.ne_zero h.reading)
  refine ⟨⟨hm, ?_, ?_, ?_⟩, hl, hch⟩
  · rw [hch]
    exact h.added
  · rw [hl.descriptors]
    exact h.opened
  · rw [hch]
    exact hf _ h.reading

theorem updateChannel_same {r : Reactor} {p : Ptr} (hidx : (r.channel p).index_ = .kAdded)
    (hev : (r.channel p).events_ ≠ 0)
    (hint : r.kernel.interest (r.channel p).fd_ = some ((r.channel p).events_, p)) :
    (Poller.updateChannel p r).channel = r.channel ∧
      (Poller.updateChannel p r).channels_ = r.channels_ ∧
      (Poller.updateChannel p r).kernel.interest = r.kernel.interest ∧
      (Poller.updateChannel p r).kernel.descriptors = r.kernel.descriptors ∧
      (Poller.updateChannel p r).kernel.accepted = r.kernel.accepted := by
  have hnone : (r.channel p).isNoneEvent = false := decide_eq_false hev
  have hmod : Poller.updateChannel p r = Poller.update .mod p r := by
    unfold Poller.updateChannel
    dsimp only
    rw [if_neg (by rw [hidx]; nofun), if_neg (by rw [hnone]; nofun)]
  rw [hmod]
  refine ⟨rfl, rfl, ?_, rfl, rfl⟩
  simp only [Poller.update, Kernel.epollCtl]
  split_ifs
  · exact Function.update_eq_self_iff.mpr hint.symm
  · rfl

theorem updateChannel_kNew {r : Reactor} {p : Ptr} (hidx : (r.channel p).index_ = .kNew) :
    Poller.updateChannel p r = Poller.update .add p
      (Reactor.setChannel p (fun c => { c with index_ := .kAdded })
        { r with channels_ := Function.update r.channels_ (r.channel p).fd_ (some p) }) := by
  unfold Poller.updateChannel
  dsimp only
  rw [if_pos (Or.inl hidx), if_pos hidx]

/-- A new Channel on an open descriptor after its first `enableReading()`. -/
structure Reads (r r' : Reactor) (p : Ptr) (fd : ℤ) : Prop where
  channel : r'.channel = Function.update r.channel p
    { Channel.new fd with events_ := Channel.kReadEvent, index_ := .kAdded }
  channels_ : r'.channels_ = Function.update r.channels_ fd (some p)
  interest : r'.kernel.interest =
    Function.update r.kernel.interest fd (some (Channel.kReadEvent, p))
  descriptors : r'.kernel.descriptors = r.kernel.descriptors
  accepted : r'.kernel.accepted = r.kernel.accepted

theorem enableReading_new (r : Reactor) (p : Ptr) {fd : ℤ}
    (hopen : r.kernel.descriptors fd ≠ none) (hint : r.kernel.interest fd = none) :
    Reads r (Channel.enableReading p (r.setChannel p fun _ => Channel.new fd)) p fd := by
  let c : Channel := { Channel.new fd with events_ := Channel.kReadEvent }
  let t : Reactor := { r with
    channel := Function.update r.channel p { c with index_ := .kAdded }
    channels_ := Function.update r.channels_ fd (some p) }
  have hself : t.channel p = { c with index_ := .kAdded } := Function.update_self _ _ _
  have hrun : Channel.enableReading p (r.setChannel p fun _ => Channel.new fd) =
      Poller.update .add p t := by
    have hnew := setChannel_self r p fun _ => Channel.new fd
    have hread := setChannel_self (r.setChannel p fun _ => Channel.new fd) p fun c =>
      { c with events_ := c.events_ ||| Channel.kReadEvent }
    have hmask : (Channel.new fd).events_ ||| Channel.kReadEvent = Channel.kReadEvent := by
      change (0 : Mask) ||| _ = _
      decide
    change Poller.updateChannel p _ = _
    rw [hnew, hmask] at hread
    rw [updateChannel_kNew (congrArg Channel.index_ hread), hread]
    simp only [Reactor.setChannel, Function.update_self, Function.update_idem, hmask]
    rfl
  have hctl : t.kernel.ctlErrno .add fd = 0 := ctlErrno_add hopen hint
  rw [hrun]
  refine ⟨rfl, rfl, ?_, rfl, rfl⟩
  simp only [Poller.update, Kernel.epollCtl, hself]
  exact if_pos hctl

end NetPrograms.PollerMirror
