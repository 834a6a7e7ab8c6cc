import NetPrograms.RegisteredChannel
import NetPrograms.SocketStream

set_option autoImplicit false

namespace NetPrograms.SocketInterest
open BufferModel PollerModel PollerMirror ServerModel SocketStream RunInvariants

def isWriting (p : Ptr) (w : World) : Bool := (w.channel p).isWriting

/-- Bytes that wait come with write interest, also in the kernel. -/
def Offered (p : Ptr) (fd : ℤ) (s : Session) : Prop :=
  pending p s.world ≠ [] → isWriting p s.world ∧
    ∃ mask, s.world.kernel.interest fd = some (mask, p) ∧ mask &&& EPOLLOUT ≠ 0

/-- With write interest, here or in the kernel, at least one byte waits. -/
def NotIdle (p : Ptr) (fd : ℤ) (s : Session) : Prop :=
  (isWriting p s.world → 0 < (pending p s.world).length) ∧
    ∀ mask q, s.world.kernel.interest fd = some (mask, q) → mask &&& EPOLLOUT ≠ 0 →
      0 < (pending p s.world).length

def ArmedOnPartial (p : Ptr) (s : Session) : StreamOp → Prop
  | .send data (.count n) => n < data.length → isWriting p s.world
  | _ => True

instance (p : Ptr) (s : Session) : (a : StreamOp) → Decidable (ArmedOnPartial p s a)
  | .send data (.count n) =>
    inferInstanceAs (Decidable (n < data.length → isWriting p s.world = true))
  | .send _ (.fail _) | .handleWrite _ => isTrue trivial

def QueuedOnAgain (p : Ptr) (s : Session) : StreamOp → Prop
  | .send _ (.fail errno) => errno = EAGAIN → pending p s.world ≠ []
  | _ => True

def Watched (p : Ptr) (fd : ℤ) (s : Session) : Prop := Registered s.world.toReactor p fd

theorem Watched.interest {p : Ptr} {fd : ℤ} {s : Session} (h : Watched p fd s) :
    s.world.kernel.interest fd = some ((s.world.channel p).events_, p) :=
  Registered.interest h

theorem isWriting_iff {p : Ptr} {w : World} :
    isWriting p w ↔ (w.channel p).events_ &&& Channel.kWriteEvent ≠ 0 :=
  decide_eq_true_iff

theorem offered_iff {p : Ptr} {fd : ℤ} {s : Session} (h : Watched p fd s) :
    Offered p fd s ↔ (pending p s.world ≠ [] → isWriting p s.world) := by
  constructor
  · exact fun ho hp => (ho hp).1
  · exact fun hw hp => ⟨hw hp, _, h.interest, isWriting_iff.mp (hw hp)⟩

theorem notIdle_iff {p : Ptr} {fd : ℤ} {s : Session} (h : Watched p fd s) :
    NotIdle p fd s ↔ (isWriting p s.world → pending p s.world ≠ []) := by
  simp only [NotIdle, List.length_pos_iff]
  constructor
  · exact fun hn => hn.1
  · refine fun hn => ⟨hn, fun mask q hint hmask => hn (isWriting_iff.mpr ?_)⟩
    rw [h.interest] at hint
    cases hint
    exact hmask

theorem registered_recorded {w w' : World} {p : Ptr} {fd : ℤ} (hr : Recorded w w')
    (h : Registered w.toReactor p fd) : Registered w'.toReactor p fd := by
  obtain ⟨⟨hfd, hadd, hentry, htable⟩, hidx, hopen, hread⟩ := h
  refine ⟨⟨?_, ?_, ?_, ?_⟩, ?_, ?_, ?_⟩
  · rw [hr.channel]
    exact hfd
  · rw [hr.channel, hr.interest]
    exact hadd
  · rw [hr.channel, hr.interest]
    exact hentry
  · rw [hr.channels_, hr.channel]
    exact htable
  · rw [hr.channel]
    exact hidx
  · rw [hr.descriptors]
    exact hopen
  · rw [hr.channel]
    exact hread

theorem Watched.open {p : Ptr} {fd : ℤ} {s : Session} (h : Watched p fd s) :
    s.world.kernel.descriptors (s.world.channel p).fd_ ≠ none := by
  rw [h.mirrors.fd_eq]
  exact h.opened

theorem send_interest {p : Ptr} {fd : ℤ} {data : List Byte} {result : IoResult} {w w' : World}
    {v : ℤ} (hadm : result.Admissible data.length) (hreg : Registered w.toReactor p fd)
    (h : Socket.Send p data result w = .ok (v, w')) :
    Registered w'.toReactor p fd ∧
      ((result = .fail EAGAIN ∧ isWriting p w') ∨
        (result ≠ .fail EAGAIN ∧ isWriting p w' = isWriting p w)) := by
  obtain ⟨k, u, hwrite, hsend⟩ := Send_outcome h
  have hrec := hwrite.recorded
  have hu := registered_recorded hrec hreg
  have hsame : isWriting p u = isWriting p w := by rw [isWriting, hrec.channel, isWriting]
  have hopen : w.kernel.descriptors (w.channel p).fd_ ≠ none := by
    rw [hreg.mirrors.fd_eq]
    exact hreg.opened
  rcases hwrite.opened hopen with ⟨rfl, rfl⟩ | ⟨n, rfl, rfl⟩
  · obtain ⟨herrno, rfl, _⟩ | ⟨herrno, rfl, _⟩ := hsend.refused
    · obtain ⟨hr, _, hch⟩ := hu.setEvents keepsReading_enableWriting
      refine ⟨hr, .inl ⟨congrArg IoResult.fail herrno, isWriting_iff.mpr ?_⟩⟩
      change ((Channel.setEvents _ p _).channel p).events_ &&& _ ≠ 0
      rw [hch]
      exact isWriting_enableWriting _
    · exact ⟨hu, .inr ⟨fun he => herrno (IoResult.fail.inj he), hsame⟩⟩
  · obtain ⟨_, ⟨_, rfl⟩ | ⟨_, q, _, rfl⟩⟩ := hsend.taken hadm <;>
      exact ⟨hu, .inr ⟨nofun, hsame⟩⟩

theorem handleWrite_interest {p : Ptr} {fd : ℤ} {result : IoResult} {w w' : World}
    (hreg : Registered w.toReactor p fd) (h : Socket.handleWrite p result w = .ok w') :
    Registered w'.toReactor p fd ∧
      ((pending p w' = [] ∧ isWriting p w' = false) ∨
        (isWriting p w' = isWriting p w ∧ (pending p w' = [] ↔ pending p w = []))) := by
  obtain ⟨n, u, hwrite, hdrain⟩ := handleWrite_outcome h
  have hrec := (log_recorded (.handleWrite p) w).trans hwrite.recorded
  have hu := registered_recorded hrec hreg
  have hsame : isWriting p u = isWriting p w := by rw [isWriting, hrec.channel, isWriting]
  have hpend : pending p u = pending p w := by rw [pending, hrec.socket, pending]
  have hoff : isWriting p (u.onReactor (Channel.disableWriting p)) = false := by
    obtain ⟨_, _, hch⟩ := hu.setEvents keepsReading_disableWriting
    rw [isWriting]
    change ((Channel.setEvents _ p _).channel p).isWriting = false
    rw [hch]
    exact decide_eq_false fun hne => hne (isWriting_disableWriting _)
  have hreg' := (hu.setEvents keepsReading_disableWriting).1
  cases hdrain with
  | failed _ => exact ⟨hu, .inr ⟨hsame, by rw [hpend]⟩⟩
  | part q _ hretrieve hq =>
    have hc := (ByteQueue.retrieve_content hretrieve).2
    refine ⟨hu, .inr ⟨hsame, ?_⟩⟩
    rw [pending_setOutputBuffer, ← hpend]
    refine iff_of_false hq fun he => ?_
    rw [show (u.socket p).outputBuffer_.content = [] from he, List.drop_nil] at hc
    exact hq hc
  | drained q _ _ hq _ => exact ⟨hreg', .inl ⟨(pending_setOutputBuffer p q u).trans hq, hoff⟩⟩
  | complete q _ _ hq _ => exact ⟨hreg', .inl ⟨(pending_setOutputBuffer p q u).trans hq, hoff⟩⟩

theorem watched_step {p : Ptr} {fd : ℤ} {s t : Session} {a : StreamOp} (hs : Watched p fd s)
    (hstep : StreamStep p s a t) (hmay : KernelMay p s a) : Watched p fd t := by
  cases a with
  | send data result =>
    obtain ⟨⟨v, w⟩, hsend, ht⟩ := bind_ok hstep
    cases ht
    exact (send_interest hmay hs hsend).1
  | handleWrite result =>
    obtain ⟨w, hwrite, ht⟩ := bind_ok hstep
    cases ht
    exact (handleWrite_interest hs hwrite).1

theorem offered_step (p : Ptr) (fd : ℤ) (s : Session) (a : StreamOp) (t : Session)
    (hs : Watched p fd s) (ho : Offered p fd s) (hstep : StreamStep p s a t)
    (hmay : KernelMay p s a) : Watched p fd t ∧ (Offered p fd t ↔ ArmedOnPartial p s a) := by
  have ht := watched_step hs hstep hmay
  refine ⟨ht, (offered_iff ht).trans ?_⟩
  rw [offered_iff hs] at ho
  cases a with
  | send data result =>
    obtain ⟨⟨v, w⟩, hsend, h⟩ := bind_ok hstep
    cases h
    dsimp only
    obtain ⟨_, ⟨rfl, hw⟩ | ⟨_, hw⟩⟩ := send_interest hmay hs hsend
    · exact iff_of_true (fun _ => hw) trivial
    rw [hw]
    rcases send_effect hmay hsend with ⟨_, _, hpend, hclosed | ⟨_, rfl⟩⟩ |
      ⟨n, rfl, _, _, hpend, _⟩
    · exact absurd hclosed hs.open
    · rw [hpend]
      exact iff_of_true ho trivial
    · rw [hpend, ArmedOnPartial]
      simp only [ne_eq, List.append_eq_nil_iff, List.drop_eq_nil_iff, not_and, not_le]
      constructor
      · intro h hn
        by_cases he : pending p s.world = []
        · exact h fun _ => hn
        · exact ho he
      · intro h hne
        by_cases he : pending p s.world = []
        · exact h (hne he)
        · exact ho he
  | handleWrite result =>
    obtain ⟨w, hwrite, h⟩ := bind_ok hstep
    cases h
    dsimp only
    refine iff_of_true (fun hne => ?_) trivial
    obtain ⟨_, ⟨he, _⟩ | ⟨hw, he⟩⟩ := handleWrite_interest hs hwrite
    · exact absurd he hne
    · rw [hw]
      exact ho fun h => hne (he.mpr h)

theorem notIdle_step (p : Ptr) (fd : ℤ) (s : Session) (a : StreamOp) (t : Session)
    (hs : Watched p fd s) (hn : NotIdle p fd s) (hstep : StreamStep p s a t)
    (hmay : KernelMay p s a) : Watched p fd t ∧ (NotIdle p fd t ↔ QueuedOnAgain p s a) := by
  have ht := watched_step hs hstep hmay
  refine ⟨ht, (notIdle_iff ht).trans ?_⟩
  rw [notIdle_iff hs] at hn
  cases a with
  | send data result =>
    obtain ⟨⟨v, w⟩, hsend, h⟩ := bind_ok hstep
    cases h
    dsimp only
    have hgrow := send_effect hmay hsend
    obtain ⟨_, ⟨rfl, hw⟩ | ⟨hne, hw⟩⟩ := send_interest hmay hs hsend
    · rcases hgrow with ⟨_, _, hpend, _⟩ | ⟨n, hcount, _⟩
      · rw [hpend]
        exact ⟨fun h _ => h hw, fun h _ => h rfl⟩
      · cases hcount
    · rw [hw]
      refine iff_of_true (fun hwriting he => ?_) ?_
      · rcases hgrow with ⟨_, _, hpend, _⟩ | ⟨n, _, _, _, hpend, _⟩
        · rw [hpend] at he
          exact hn hwriting he
        · rw [hpend] at he
          exact hn hwriting (List.append_eq_nil_iff.mp he).1
      · cases result with
        | count n => trivial
        | fail errno =>
          rintro rfl
          exact absurd rfl hne
  | handleWrite result =>
    obtain ⟨w, hwrite, h⟩ := bind_ok hstep
    cases h
    dsimp only
    refine iff_of_true (fun hwriting => ?_) trivial
    obtain ⟨_, ⟨_, hoff⟩ | ⟨hw, he⟩⟩ := handleWrite_interest hs hwrite
    · rw [hoff] at hwriting
      cases hwriting
    · rw [hw] at hwriting
      exact fun h => hn hwriting (he.mp h)

theorem constructed_watched {fd : ℤ} {w : World} (hopen : w.kernel.descriptors fd ≠ none)
    (hint : w.kernel.interest fd = none) :
    Watched w.allocated fd (constructed fd w) ∧
      isWriting w.allocated (constructed fd w).world = false := by
  have hnew := new_created hopen hint
  refine ⟨hnew.registered hopen, ?_⟩
  rw [isWriting, constructed, hnew.channel, Function.update_self]
  change decide (Channel.kReadEvent &&& Channel.kWriteEvent ≠ 0) = false
  decide

/-- In every state of a run from a new registered Socket, bytes that wait come with write
interest, exactly when every partial write of the run happens with the interest on. -/
theorem offered_iff_armed (fd : ℤ) (w : World) (hopen : w.kernel.descriptors fd ≠ none)
    (hint : w.kernel.interest fd = none) (ops : List StreamOp)
    (hmay : EachStep (StreamStep w.allocated) (fun s a _ => KernelMay w.allocated s a)
      (constructed fd w) ops) :
    Always (StreamStep w.allocated) (Offered w.allocated fd) (constructed fd w) ops ↔
      EachStep (StreamStep w.allocated) (fun s a _ => ArmedOnPartial w.allocated s a)
        (constructed fd w) ops := by
  obtain ⟨hwatched, _⟩ := constructed_watched hopen hint
  refine always_iff_eachStep (offered_step w.allocated fd) hmay hwatched ?_
  exact fun hne => absurd (pending_new fd w) hne

def refusedThenPartial : List StreamOp :=
  [.send [0x61, 0x62] (.fail EAGAIN), .send [0x63, 0x64, 0x65] (.count 1), .handleWrite (.count 1)]

theorem offered_iff_armed_partial :
    Always (StreamStep 0) (Offered 0 5) (constructed 5 oneConnection) refusedThenPartial := by
  have hchecked : EachStep (StreamStep 0) (fun s a _ => KernelMay 0 s a ∧ ArmedOnPartial 0 s a)
      (constructed 5 oneConnection) refusedThenPartial :=
    .of_check (f := StreamOp.run 0) (C := fun s a _ => KernelMay 0 s a ∧ ArmedOnPartial 0 s a) id
      (fun hu _ hstep => Except.ok.inj (hu.symm.trans hstep)) of_decide_eq_true (by decide +kernel)
  exact (offered_iff_armed 5 oneConnection (by decide) rfl _
    (EachStep.mono (fun _ _ _ h => h.1) hchecked)).mpr (EachStep.mono (fun _ _ _ h => h.2) hchecked)

/-- The kernel takes one byte of "ab": "b" waits, and no event will offer it. -/
theorem offered_stranded :
    EachStep (StreamStep 0) (fun s a _ => KernelMay 0 s a) (constructed 5 oneConnection)
      [.send [0x61, 0x62] (.count 1)] ∧
    ¬Always (StreamStep 0) (Offered 0 5) (constructed 5 oneConnection)
      [.send [0x61, 0x62] (.count 1)] := by
  have hmay : (IoResult.count 1).Admissible ([0x61, 0x62] : List Byte).length := by decide
  obtain ⟨hwatched, hoff⟩ : Watched 0 5 (constructed 5 oneConnection) ∧
      isWriting 0 (constructed 5 oneConnection).world = false :=
    constructed_watched (by decide) rfl
  refine ⟨fun _ _ => ⟨hmay, trivial⟩, ?_⟩
  rintro ⟨ho, h⟩
  obtain ⟨v, w₁, hsend⟩ : ∃ v w₁, Socket.Send 0 [0x61, 0x62] (.count 1)
      (constructed 5 oneConnection).world = .ok (v, w₁) := Send_returns (by decide)
  have hstep : StreamStep 0 (constructed 5 oneConnection) (.send [0x61, 0x62] (.count 1))
      ⟨w₁, if v = 0 then [0x61, 0x62] else []⟩ := by
    rw [StreamStep, StreamOp.run, hsend]
    rfl
  have harmed := (offered_step 0 5 _ _ _ hwatched ho hstep hmay).2.mp (h _ hstep)
  have hon : isWriting 0 (constructed 5 oneConnection).world = true := harmed (by decide)
  rw [hoff] at hon
  cases hon

/-- In every state of a run from a new registered Socket, write interest comes with bytes that
wait, exactly when `EAGAIN` refuses a `Send` of the run only while bytes wait. -/
theorem notIdle_iff_queued (fd : ℤ) (w : World) (hopen : w.kernel.descriptors fd ≠ none)
    (hint : w.kernel.interest fd = none) (ops : List StreamOp)
    (hmay : EachStep (StreamStep w.allocated) (fun s a _ => KernelMay w.allocated s a)
      (constructed fd w) ops) :
    Always (StreamStep w.allocated) (NotIdle w.allocated fd) (constructed fd w) ops ↔
      EachStep (StreamStep w.allocated) (fun s a _ => QueuedOnAgain w.allocated s a)
        (constructed fd w) ops := by
  obtain ⟨hwatched, hoff⟩ := constructed_watched hopen hint
  refine always_iff_eachStep (notIdle_step w.allocated fd) hmay hwatched ?_
  rw [notIdle_iff hwatched, hoff]
  nofun

theorem notIdle_iff_queued_behind :
    Always (StreamStep 0) (NotIdle 0 5) (constructed 5 oneConnection)
      [.send [0x61, 0x62] (.count 1), .send [0x63] (.fail EAGAIN)] := by
  have hmay : (IoResult.count 1).Admissible ([0x61, 0x62] : List Byte).length := by decide
  refine (notIdle_iff_queued 5 oneConnection (by decide) rfl _ ?_).mpr ?_
  · exact fun _ _ => ⟨hmay,
      fun _ _ => ⟨show (IoResult.fail EAGAIN).Admissible 1 by decide, trivial⟩⟩
  · intro t ht
    obtain ⟨⟨v, w⟩, hsend, h⟩ := bind_ok ht
    cases h
    refine ⟨trivial, fun _ _ => ⟨fun _ => ?_, trivial⟩⟩
    rcases send_effect hmay hsend with ⟨_, _, _, hclosed | ⟨_, hfail⟩⟩ | ⟨n, hn, _, _, hpend, _⟩
    · exact absurd hclosed (by decide)
    · cases hfail
    · cases hn
      change pending oneConnection.allocated w ≠ []
      rw [hpend]
      exact fun h => absurd (List.append_eq_nil_iff.mp h).2 (by decide)

theorem notIdle_spins :
    EachStep (StreamStep 0) (fun s a _ => KernelMay 0 s a) (constructed 5 oneConnection)
      [.send [0x61] (.fail EAGAIN)] ∧
    ¬Always (StreamStep 0) (NotIdle 0 5) (constructed 5 oneConnection)
      [.send [0x61] (.fail EAGAIN)] := by
  have hmay : (IoResult.fail EAGAIN).Admissible ([0x61] : List Byte).length := by decide
  obtain ⟨hwatched, hoff⟩ : Watched 0 5 (constructed 5 oneConnection) ∧
      isWriting 0 (constructed 5 oneConnection).world = false :=
    constructed_watched (by decide) rfl
  refine ⟨fun _ _ => ⟨hmay, trivial⟩, ?_⟩
  rintro ⟨hn, h⟩
  obtain ⟨v, w₁, hsend⟩ : ∃ v w₁, Socket.Send 0 [0x61] (.fail EAGAIN)
      (constructed 5 oneConnection).world = .ok (v, w₁) := Send_returns (by decide)
  have hstep : StreamStep 0 (constructed 5 oneConnection) (.send [0x61] (.fail EAGAIN))
      ⟨w₁, if v = 0 then [0x61] else []⟩ := by
    rw [StreamStep, StreamOp.run, hsend]
    rfl
  have hqueued := (notIdle_step 0 5 _ _ _ hwatched hn hstep hmay).2.mp (h _ hstep)
  exact hqueued rfl (pending_new 5 oneConnection)

end NetPrograms.SocketInterest
