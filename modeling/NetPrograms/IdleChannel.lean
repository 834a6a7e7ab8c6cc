import NetPrograms.RegisteredChannel

set_option autoImplicit false

/-!
# Channels without interest

`Poller::updateChannel` looks at the index before it looks at the mask: a Channel that is not
added is added whatever its mask, so an empty mask can be registered, and the calls that leave
an empty mask switch the registration to and fro.
-/
namespace NetPrograms.IdleChannel
open PollerModel PollerMirror RunInvariants

def mask : ChannelOp → Mask → Mask
  | .enableReading, e => e ||| Channel.kReadEvent
  | .enableWriting, e => e ||| Channel.kWriteEvent
  | .disableWriting, e => e &&& ~~~Channel.kWriteEvent
  | .disableAll, _ => Channel.kNoneEvent
  | .remove, e => e

def nextIndex (op : ChannelOp) (c : Channel) : Index :=
  if op = .remove then .kNew
  else if c.index_ = .kAdded ∧ mask op c.events_ = 0 then .kDeleted
  else .kAdded

theorem updateChannel_channel (p : Ptr) (r : Reactor) :
    (Poller.updateChannel p r).channel p = { r.channel p with
      index_ := if (r.channel p).index_ = .kAdded ∧ (r.channel p).events_ = 0 then .kDeleted
        else .kAdded } := by
  have hnone : (r.channel p).isNoneEvent = true ↔ (r.channel p).events_ = 0 := decide_eq_true_iff
  unfold Poller.updateChannel
  dsimp only
  cases hidx : (r.channel p).index_ with
  | kNew | kDeleted =>
    simp only [reduceCtorEq, or_true, or_false, if_true, if_false, false_and]
    exact Function.update_self _ _ _
  | kAdded =>
    simp only [reduceCtorEq, or_self, if_false, true_and, hnone]
    split_ifs
    · exact setChannel_self _ p _
    · change r.channel p = _
      rw [← hidx]

theorem run_channel (op : ChannelOp) (p : Ptr) (r : Reactor) :
    (op.run p r).channel p = { r.channel p with
      events_ := mask op (r.channel p).events_, index_ := nextIndex op (r.channel p) } := by
  have hset : ∀ f : Mask → Mask, (Channel.setEvents f p r).channel p = { r.channel p with
      events_ := f (r.channel p).events_
      index_ := if (r.channel p).index_ = .kAdded ∧ f (r.channel p).events_ = 0 then .kDeleted
        else .kAdded } := by
    intro f
    change (Poller.updateChannel p (r.setChannel p _)).channel p = _
    rw [updateChannel_channel, setChannel_self]
  cases op with
  | enableReading | enableWriting | disableWriting | disableAll => exact hset _
  | remove =>
    change (Poller.removeChannel p r).channel p = _
    unfold Poller.removeChannel
    dsimp only
    rw [setChannel_self]
    split_ifs <;> rfl

theorem nextIndex_added (op : ChannelOp) (c : Channel) : nextIndex op c = .kAdded ↔
    op ≠ .remove ∧ ¬(c.index_ = .kAdded ∧ mask op c.events_ = 0) := by
  unfold nextIndex
  split_ifs with hop hclear <;> simp only [false_iff, true_iff]
  · exact fun h => h.1 hop
  · exact fun h => h.2 hclear
  · exact ⟨hop, hclear⟩

/-- No Channel without interest has its descriptor in the kernel's interest set. -/
def IdleAbsent (S : Set Ptr) (fd : Ptr → ℤ) (r : Reactor) : Prop :=
  ∀ p ∈ S, (r.channel p).events_ = 0 → r.kernel.interest (fd p) = none

/-- The operation leaves an interest, or finds the Channel added, or removes it. -/
def ClearsAdded (r : Reactor) (a : Ptr × ChannelOp) : Prop :=
  a.2 ≠ .remove → mask a.2 (r.channel a.1).events_ = 0 → (r.channel a.1).index_ = .kAdded

theorem idle_step {S : Set Ptr} {fd : Ptr → ℤ} (hfd : Set.InjOn fd S) (r : Reactor)
    (a : Ptr × ChannelOp) (r' : Reactor) (h : Attached S fd r) (hidle : IdleAbsent S fd r)
    (hstep : ChannelStep r a r') (ha : a.1 ∈ S) :
    Attached S fd r' ∧ (IdleAbsent S fd r' ↔ ClearsAdded r a) := by
  obtain ⟨h', hother⟩ := attached_step hfd h ha hstep
  obtain ⟨p, op⟩ := a
  have hch : r'.channel p = { r.channel p with
      events_ := mask op (r.channel p).events_, index_ := nextIndex op (r.channel p) } := by
    change op.run p r = r' at hstep
    rw [← hstep]
    exact run_channel op p r
  have hadded : r'.kernel.interest (fd p) = none ↔ nextIndex op (r.channel p) ≠ .kAdded := by
    have hiff := (h'.mirrors p ha).added_iff
    rw [hch] at hiff
    rw [ne_eq, hiff, not_not]
  refine ⟨h', fun hidle' hop hmask => ?_, fun hclear q hq hnone => ?_⟩
  · have hnone : (r'.channel p).events_ = 0 := by
      rw [hch]
      exact hmask
    have habsent := hadded.mp (hidle' p ha hnone)
    by_contra hidx
    exact habsent ((nextIndex_added op _).mpr ⟨hop, fun hc => hidx hc.1⟩)
  · by_cases hqp : q = p
    · subst hqp
      rw [hch] at hnone
      refine hadded.mpr fun hnext => ?_
      obtain ⟨hop, hkeep⟩ := (nextIndex_added op _).mp hnext
      exact hkeep ⟨hclear hop hnone, hnone⟩
    · have hu := hother q hq hqp
      rw [hu.interest]
      rw [hu.channel] at hnone
      exact hidle q hq hnone

structure SameTables (p : Ptr) (r r' : Reactor) : Prop where
  interest : r'.kernel.interest = r.kernel.interest
  channels_ : r'.channels_ = r.channels_
  index : (r'.channel p).index_ = (r.channel p).index_

def Disables (op : ChannelOp) : Prop := op = .disableAll ∨ op = .disableWriting

def TwiceIsOnce (_ : Reactor) (a : Ptr × ChannelOp) (r' : Reactor) : Prop :=
  Disables a.2 → SameTables a.1 r' (a.2.run a.1 r')

/-- The call leaves an interest. It never does when it is `disableAll`. -/
def LeavesInterest (r : Reactor) (a : Ptr × ChannelOp) : Prop :=
  Disables a.2 → mask a.2 (r.channel a.1).events_ ≠ 0

theorem mask_twice {op : ChannelOp} (hop : Disables op) (e : Mask) :
    mask op (mask op e) = mask op e := by
  rcases hop with rfl | rfl
  · rfl
  · change e &&& _ &&& _ = e &&& _
    rw [BitVec.and_assoc, BitVec.and_self]

theorem setEvents_same {f : Mask → Mask} {t : Reactor} {p : Ptr} {fd : ℤ} (h : Mirrors t p fd)
    (hidx : (t.channel p).index_ = .kAdded) (hev : (t.channel p).events_ ≠ 0)
    (hf : f (t.channel p).events_ = (t.channel p).events_) :
    SameTables p t (Channel.setEvents f p t) := by
  let u := t.setChannel p fun c => { c with events_ := f c.events_ }
  have hu : u.channel p = t.channel p := by
    refine (setChannel_self t p _).trans ?_
    rw [hf]
  have hint : u.kernel.interest (u.channel p).fd_ = some ((u.channel p).events_, p) := by
    rw [hu, h.fd_eq]
    exact h.entry hidx
  obtain ⟨hc, ht, hi, _⟩ := updateChannel_same (by rw [hu]; exact hidx) (by rw [hu]; exact hev) hint
  exact ⟨hi, ht, congrArg Channel.index_ ((congrFun hc p).trans hu)⟩

theorem twice_step {S : Set Ptr} {fd : Ptr → ℤ} (hfd : Set.InjOn fd S) (r : Reactor)
    (a : Ptr × ChannelOp) (r' : Reactor) (h : Attached S fd r)
    (hstep : ChannelStep r a r') (ha : a.1 ∈ S) :
    Attached S fd r' ∧ (TwiceIsOnce r a r' ↔ LeavesInterest r a) := by
  obtain ⟨h', _⟩ := attached_step hfd h ha hstep
  obtain ⟨p, op⟩ := a
  have hch : r'.channel p = { r.channel p with
      events_ := mask op (r.channel p).events_, index_ := nextIndex op (r.channel p) } := by
    change op.run p r = r' at hstep
    rw [← hstep]
    exact run_channel op p r
  refine ⟨h', forall_congr' fun hop => ?_⟩
  change Disables op at hop
  have hne : op ≠ .remove := by rcases hop with rfl | rfl <;> nofun
  have hev : (r'.channel p).events_ = mask op (r.channel p).events_ := congrArg Channel.events_ hch
  have hidx : (r'.channel p).index_ = nextIndex op (r.channel p) := congrArg Channel.index_ hch
  have htwice := mask_twice hop (r.channel p).events_
  dsimp only
  constructor
  · intro hsame hzero
    -- with an empty mask the second call turns the index over
    have hindex := hsame.index
    rw [run_channel] at hindex
    change nextIndex op (r'.channel p) = (r'.channel p).index_ at hindex
    have hcase := nextIndex_added op (r'.channel p)
    rw [hindex, hev, htwice] at hcase
    by_cases hadded : (r'.channel p).index_ = .kAdded
    · exact (hcase.mp hadded).2 ⟨hadded, hzero⟩
    · exact hadded (hcase.mpr ⟨hne, fun hc => hadded hc.1⟩)
  · intro hmask
    have hadded : (r'.channel p).index_ = .kAdded := by
      rw [hidx, nextIndex_added]
      exact ⟨hne, fun hc => hmask hc.2⟩
    have hsame : ∀ f : Mask → Mask, f (r'.channel p).events_ = (r'.channel p).events_ →
        SameTables p r' (Channel.setEvents f p r') := fun f hf =>
      setEvents_same (h'.mirrors p ha) hadded (by rw [hev]; exact hmask) hf
    rw [← hev] at htwice
    rcases hop with rfl | rfl
    · exact hsame _ htwice
    · exact hsame _ htwice

/-- In every run of the Channels in `S`, Channels without interest stay unregistered exactly
when every call that leaves no interest finds its Channel added, and `disableAll` and
`disableWriting` can be repeated exactly when they leave an interest. -/
theorem idle_channels (S : Set Ptr) (fd : Ptr → ℤ) (hfd : Set.InjOn fd S) (r : Reactor)
    (hr : Fresh S fd r) (ops : List (Ptr × ChannelOp)) (hops : ∀ a ∈ ops, a.1 ∈ S) :
    (Always ChannelStep (IdleAbsent S fd) r ops ↔
      EachStep ChannelStep (fun r a _ => ClearsAdded r a) r ops) ∧
    (EachStep ChannelStep TwiceIsOnce r ops ↔
      EachStep ChannelStep (fun r a _ => LeavesInterest r a) r ops) := by
  have hlabels : EachStep ChannelStep (fun _ a _ => a.1 ∈ S) r ops := EachStep.of_labels hops r
  have hidle : IdleAbsent S fd r := by
    intro p _ _
    rw [hr.interest]
  constructor
  · exact always_iff_eachStep (I := Attached S fd) (idle_step hfd) hlabels hr.attached hidle
  · refine eachStep_iff_eachStep (I := Attached S fd) (fun r a r' h hstep ha => ?_) hlabels
      hr.attached
    obtain ⟨h', hiff⟩ := twice_step hfd r a r' h hstep ha
    exact ⟨hiff, fun _ => h'⟩

def twoChannels : Reactor :=
  ⟨⟨fun _ => some .other, fun _ => none, 0, [], 0⟩, fun p => Channel.new (5 + p), fun _ => none,
    Poller.initialEvents⟩

def someCalls : List (Ptr × ChannelOp) :=
  [(0, .enableReading), (1, .enableWriting), (0, .disableWriting), (1, .disableWriting)]

instance (r : Reactor) (a : Ptr × ChannelOp) : Decidable (ClearsAdded r a) :=
  inferInstanceAs (Decidable (_ → _ → _))

theorem idle_channels_two :
    Always ChannelStep (IdleAbsent {0, 1} fun p => 5 + p) twoChannels someCalls ∧
      ¬EachStep ChannelStep TwiceIsOnce twoChannels someCalls := by
  have hfd : Set.InjOn (fun p : Ptr => 5 + (p : ℤ)) {0, 1} := fun p _ q _ h =>
    Int.ofNat_inj.mp (Int.add_left_cancel h)
  have hfresh : Fresh {0, 1} (fun p => 5 + (p : ℤ)) twoChannels :=
    ⟨fun _ _ => nofun, fun _ _ => rfl, rfl, rfl, rfl⟩
  have hops : ∀ a ∈ someCalls, a.1 ∈ ({0, 1} : Set Ptr) := by
    intro a ha
    simp only [someCalls, List.mem_cons, List.not_mem_nil, or_false] at ha
    rcases ha with rfl | rfl | rfl | rfl <;> simp
  obtain ⟨hidle, htwice⟩ := idle_channels {0, 1} _ hfd twoChannels hfresh someCalls hops
  refine ⟨hidle.mpr ?_, fun h => ?_⟩
  · refine EachStep.of_check (E := Empty) (f := fun r a => .ok (a.2.run a.1 r))
      (C := fun r a _ => ClearsAdded r a) id ?_ of_decide_eq_true ?_
    · exact fun hu _ hstep => (Except.ok.inj hu).symm.trans hstep
    · decide +kernel
  · have hlast := (((htwice.mp h _ rfl).2 _ rfl).2 _ rfl).2 _ rfl
    exact hlast.1 (.inr rfl) (by decide)

theorem disableAll_registers : ∃ r₁ r₂,
    ChannelStep twoChannels (0, .disableAll) r₁ ∧ ChannelStep r₁ (0, .disableAll) r₂ ∧
    (r₁.channel 0).events_ = 0 ∧ r₁.kernel.interest 5 = some (0, 0) ∧
    r₂.kernel.interest 5 = none ∧ (r₁.channel 0).index_ = .kAdded ∧
    (r₂.channel 0).index_ = .kDeleted ∧ ¬IdleAbsent {0, 1} (fun p => 5 + p) r₁ ∧
    ¬TwiceIsOnce twoChannels (0, .disableAll) r₁ := by
  refine ⟨_, _, rfl, rfl, rfl, rfl, rfl, rfl, rfl, fun hidle => ?_, fun htwice => ?_⟩
  · have habsent := hidle 0 (Set.mem_insert 0 _) rfl
    cases habsent
  · have hindex := (htwice (.inl rfl)).index
    cases hindex

end NetPrograms.IdleChannel
