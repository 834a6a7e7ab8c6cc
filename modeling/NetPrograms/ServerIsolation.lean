import NetPrograms.ServerActions
import NetPrograms.ServerRuns

set_option autoImplicit false

namespace NetPrograms.ServerIsolation
open BufferModel PollerModel PollerMirror ServerModel ChannelDispatch ServerTables ServerRuns
open ServerActions RunInvariants

def Dispatched (w : World) (p : Ptr) : Prop := ∃ fd mask, w.kernel.interest fd = some (mask, p)

/-- `accept` returns a descriptor that is not open. Handlers run in the dispatch of a registered
Channel, the later ones possibly after it was closed in the same dispatch. The application has
been handed the Sockets of accepted connections. -/
def MayHappen (w : World) : Action → Prop
  | .accept fd => 0 ≤ fd ∧ w.kernel.descriptors fd = none
  | .handleRead p _ => p ≠ w.server.acceptor ∧ (Dispatched w p ∨ Gone w p)
  | .handleWrite p _ => Dispatched w p ∨ Gone w p
  | .handleClose p => p ≠ w.server.acceptor ∧ Dispatched w p
  | .call (.send p data result) =>
    p < w.allocated ∧ p ≠ w.server.acceptor ∧ result.Admissible data.length
  | .call (.retrieve _ _) => True

/-- The bytes that the kernel takes in this step go to the file their Socket was made for. -/
def DeliversOwn (w t : World) : Prop :=
  ∀ d ∈ t.delivered.drop w.delivered.length, d.bytes ≠ [] → (t.socket d.sender).file = some d.file

def LeavesOthers (p : Ptr) (w t : World) : Prop :=
  ∀ q, q ≠ p → ∀ fd, (∀ mask, w.kernel.interest fd = some (mask, q) →
      t.kernel.interest fd = some (mask, q)) ∧
    (w.channels_ fd = some q → t.channels_ fd = some q)

def Isolated (w : World) (a : Action) (t : World) : Prop :=
  DeliversOwn w t ∧ match a with
    | .call (.send p _ _) => (w.socket p).closed = true → LeavesOthers p w t
    | _ => True

theorem leavesOthers_recorded {p : Ptr} {w t : World} (h : Recorded w t) : LeavesOthers p w t := by
  intro q _ fd
  rw [h.interest, h.channels_]
  exact ⟨fun _ => id, id⟩

/-- A `Send` on a closed Socket whose descriptor is open again gets no byte accepted and is not
refused with `EAGAIN`. -/
def NotReused (w : World) : Action → Prop
  | .call (.send p _ result) => (w.socket p).closed = true →
    w.kernel.descriptors (w.socket p).fd_ ≠ none →
      result = .count 0 ∨ ∃ errno, result = .fail errno ∧ errno ≠ EAGAIN
  | _ => True

theorem delivers_none {w t : World} (h : t.delivered = w.delivered) : DeliversOwn w t := by
  intro d hd
  rw [h, List.drop_length] at hd
  cases hd

theorem delivers_one {w t : World} {p : Ptr} {file : OpenFile} {bytes : List Byte}
    (h : t.delivered = w.delivered ++ [⟨p, file, bytes⟩]) :
    DeliversOwn w t ↔ (bytes ≠ [] → (t.socket p).file = some file) := by
  unfold DeliversOwn
  rw [h, List.drop_left]
  simp only [List.mem_singleton, forall_eq]

theorem writeOutcome_delivered {p : Ptr} {data : List Byte} {result : IoResult} {n : ℤ}
    {w u : World} (h : WriteOutcome p data w result n u) :
    u.delivered = w.delivered ∨ ∃ file bytes, w.kernel.descriptors (w.channel p).fd_ = some file ∧
      u.delivered = w.delivered ++ [⟨p, file, bytes⟩] := by
  cases h with
  | badf _ _ | fail _ _ _ => exact .inl rfl
  | count file n hopen => exact .inr ⟨file, _, hopen, rfl⟩

theorem sendOutcome_delivered {p : Ptr} {data : List Byte} {n v : ℤ} {u t : World}
    (h : SendOutcome p data n u v t) : t.delivered = u.delivered := by
  cases h <;> rfl

theorem live_delivers {w u t : World} (hi : ServerInv w) {fd : ℤ} {p : Ptr} (hp : Live w fd p)
    {data : List Byte} {result : IoResult} {n : ℤ} (hwrite : WriteOutcome p data w result n u)
    (ht : t.delivered = u.delivered) (hf : Frame w t) : DeliversOwn w t := by
  rcases writeOutcome_delivered hwrite with hnone | ⟨file, bytes, hopen, hone⟩
  · exact delivers_none (ht.trans hnone)
  · rw [delivers_one (ht.trans hone)]
    intro _
    rw [hi.channelFd p hp.made, hp.fd_eq, hi.opened fd p hp] at hopen
    rw [hf.file]
    exact hopen

theorem handleClose_silent {p : Ptr} {env : Env} {w t : World} (henv : env.closeCallback = [])
    (h : Socket.handleClose p env w = .ok t) : t.delivered = w.delivered := by
  have hrun := handleClose_outcome h
  rw [henv] at hrun
  rw [runCallback_nil hrun]
  rfl

theorem handleRead_delivered {p : Ptr} {result : ReadResult} {w t : World}
    (h : Socket.handleRead p { silent with readv := result } w = .ok t) :
    t.delivered = w.delivered := by
  obtain ⟨q, hout⟩ := handleRead_outcome h
  generalize (if w.kernel.descriptors (w.channel p).fd_ = none then _ else _) = r at hout
  cases hout with
  | message _ _ _ hrun =>
    rw [runCallback_nil hrun]
    rfl
  | eof _ hrun =>
    have hnil : ({ silent with readv := result } : Env).closeCallback = [] := rfl
    rw [handleClose_silent hnil hrun]
    rfl
  | error _ savedErrno =>
    unfold Socket.handleError
    split_ifs <;> rfl

theorem insertConnection_delivered (p : Ptr) (w : World) :
    (TcpServer.insertConnection p w).delivered = w.delivered := by
  unfold TcpServer.insertConnection
  dsimp only
  split <;> rfl

theorem connect_delivered (fd : ℤ) (w : World) : (connect fd w).delivered = w.delivered :=
  insertConnection_delivered _ _

theorem Dispatched.live {w : World} (hi : ServerInv w) {p : Ptr} (h : Dispatched w p) :
    ∃ fd, Live w fd p := by
  obtain ⟨fd, mask, hint⟩ := h
  exact ⟨fd, live_of_interest hi hint⟩

theorem server_action {w t : World} (hi : ServerInv w) {a : Action} (hstep : Acts w a t)
    (hmay : MayHappen w a) (ha : ∀ c, a ≠ .call c) : DeliversOwn w t ∧ ServerInv t := by
  cases a with
  | accept fd =>
    obtain ⟨hfd, hfree⟩ := hmay
    have hrun := (accept_connects rfl hfd (hi.open hi.acceptorLive)).symm.trans hstep
    refine ⟨delivers_none ?_, (accept_live hi rfl hfd hfree (sendsOnNew_nil w) hstep).1⟩
    rw [runCallback_nil hrun, connect_delivered]
  | handleRead p result =>
    obtain ⟨hacc, hp | hgone⟩ := hmay
    · obtain ⟨fd, hlive⟩ := hp.live hi
      exact ⟨delivers_none (handleRead_delivered hstep), (handleRead_live hi hlive hacc
        (sendsOnLive_nil w) (sendsBeside_nil w p) hstep).1⟩
    · exact ⟨delivers_none (handleRead_delivered hstep), hi.kept (handleRead_gone hi hgone hstep)⟩
  | handleWrite p result =>
    obtain ⟨n, u, hwrite, hdrain⟩ := handleWrite_outcome hstep
    have hu : t.delivered = u.delivered := by cases hdrain <;> rfl
    rcases hmay with hp | hgone
    · obtain ⟨fd, hlive⟩ := hp.live hi
      have hlog := kept_recorded hi.toTables (log_recorded (.handleWrite p) w)
      have hown : DeliversOwn (w.log (.handleWrite p)) t :=
        live_delivers (hi.kept hlog) (live_kept hlog hlive) hwrite hu
          (hwrite.recorded.steady.trans hdrain.steady).toFrame
      exact ⟨hown, hi.kept (handleWrite_kept hi hlive hstep)⟩
    · refine ⟨delivers_none (hu.trans ?_), hi.kept (handleWrite_gone hi hgone hstep)⟩
      rcases writeOutcome_delivered hwrite with hnone | ⟨file, _, hopen, _⟩
      · exact hnone
      · change w.kernel.descriptors (w.channel p).fd_ = _ at hopen
        rw [hi.channelFd p hgone.made, hgone.descriptor] at hopen
        cases hopen
  | handleClose p =>
    obtain ⟨fd, hlive⟩ := hmay.2.live hi
    exact ⟨delivers_none (handleClose_silent rfl hstep),
      (handleClose_live hi hlive hmay.1 (sendsBeside_nil w p) hstep).1⟩
  | call c => exact absurd rfl (ha c)

theorem send_live {w t : World} (hi : ServerInv w) {fd : ℤ} {p : Ptr} (hp : Live w fd p)
    {data : List Byte} {result : IoResult} {v : ℤ}
    (h : Socket.Send p data result w = .ok (v, t)) : DeliversOwn w t ∧ ServerInv t := by
  obtain ⟨n, u, hwrite, hsend⟩ := Send_outcome h
  exact ⟨live_delivers hi hp hwrite (sendOutcome_delivered hsend) (Send_steady h).toFrame,
    hi.kept (send_kept hi hp h)⟩

theorem send_closed {w t : World} {p : Ptr} {data : List Byte} {result : IoResult} {v : ℤ}
    (hclosed : w.kernel.descriptors (w.channel p).fd_ = none)
    (h : Socket.Send p data result w = .ok (v, t)) :
    Recorded w t ∧ t.delivered = w.delivered := by
  obtain ⟨n, u, hwrite, hsend⟩ := Send_outcome h
  have hrec := hwrite.recorded
  cases hwrite with
  | badf _ _ =>
    obtain ⟨herrno, _⟩ | ⟨_, rfl, _⟩ := hsend.refused
    · exact absurd herrno (show EBADF ≠ EAGAIN by decide)
    · exact ⟨hrec, rfl⟩
  | fail _ _ hopen | count _ _ hopen =>
    rw [hclosed] at hopen
    cases hopen

theorem enableWriting_removed {r : Reactor} {p : Ptr} (hidx : (r.channel p).index_ = .kNew) :
    (Channel.enableWriting p r).channels_ (r.channel p).fd_ = some p := by
  let c : Channel := { r.channel p with events_ := (r.channel p).events_ ||| Channel.kWriteEvent }
  let t := r.setChannel p fun c => { c with events_ := c.events_ ||| Channel.kWriteEvent }
  have hself : t.channel p = c := setChannel_self r p _
  change (Poller.updateChannel p t).channels_ _ = _
  rw [updateChannel_kNew (by rw [hself]; exact hidx), hself]
  exact Function.update_self _ _ _

section
variable {w t : World} (hi : ServerInv w) {p q : Ptr} (hmade : p < w.allocated)
  (hq : Live w (w.socket p).fd_ q) {data : List Byte} {v : ℤ}
include hi hmade hq

theorem reused_quiet {result : IoResult} (hadm : result.Admissible data.length)
    (hquiet : result = .count 0 ∨ ∃ errno, result = .fail errno ∧ errno ≠ EAGAIN)
    (h : Socket.Send p data result w = .ok (v, t)) : DeliversOwn w t ∧ Recorded w t := by
  have hopen : w.kernel.descriptors (w.channel p).fd_ ≠ none := by
    rw [hi.channelFd p hmade]
    exact hi.open hq
  obtain ⟨k, u, hwrite, hsend⟩ := Send_outcome h
  have hrec := hwrite.recorded
  rcases hquiet with rfl | ⟨errno, rfl, hne⟩
  · cases hwrite with
    | badf _ hnone => exact absurd hnone hopen
    | count file _ _ =>
      obtain ⟨_, ⟨_, rfl⟩ | ⟨hlen, _⟩⟩ := hsend.taken hadm
      · exact ⟨(delivers_one rfl).mpr fun hne => absurd rfl hne, hrec⟩
      · exact absurd (hadm.2 rfl).symm hlen
  · cases hwrite with
    | badf _ hnone => exact absurd hnone hopen
    | fail _ _ _ =>
      obtain ⟨herrno, _⟩ | ⟨_, rfl, _⟩ := hsend.refused
      · exact absurd herrno hne
      · exact ⟨delivers_none rfl, hrec⟩

variable (hclosed : (w.socket p).closed = true)
include hclosed

theorem reused_count {n : ℕ} (hadm : (IoResult.count n).Admissible data.length) (hn : n ≠ 0)
    (h : Socket.Send p data (.count n) w = .ok (v, t)) : ¬DeliversOwn w t := by
  have hopen : w.kernel.descriptors (w.channel p).fd_ = (w.socket q).file := by
    rw [hi.channelFd p hmade]
    exact hi.opened _ q hq
  obtain ⟨k, u, hwrite, hsend⟩ := Send_outcome h
  cases hwrite with
  | badf _ hnone =>
    rw [hnone] at hopen
    exact absurd (hi.open hq) (by rw [hi.opened _ q hq, ← hopen]; exact fun hne => hne rfl)
  | count file _ hfile =>
    rw [delivers_one (sendOutcome_delivered hsend), (Send_steady h).file]
    intro hown
    have hne : data.take n ≠ [] := by
      intro hnil
      have hlen := congrArg List.length hnil
      rw [List.length_take, Nat.min_eq_left hadm.1] at hlen
      exact hn hlen
    have hsame : p = q := hi.distinct p hmade q hq.made (by rw [hown hne, ← hopen, hfile])
    have hunclosed := hq.unclosed
    rw [← hsame, hclosed] at hunclosed
    cases hunclosed

theorem reused_again (h : Socket.Send p data (.fail EAGAIN) w = .ok (v, t)) :
    ¬LeavesOthers p w t := by
  have hfd := hi.channelFd p hmade
  have hopen : w.kernel.descriptors (w.channel p).fd_ ≠ none := by
    rw [hfd]
    exact hi.open hq
  obtain ⟨k, u, hwrite, hsend⟩ := Send_outcome h
  have hentry : t.channels_ (w.socket p).fd_ = some p := by
    cases hwrite with
    | badf _ hnone => exact absurd hnone hopen
    | fail _ _ _ =>
      obtain ⟨_, rfl, _⟩ | ⟨herrno, _⟩ := hsend.refused
      · rw [← hfd]
        exact enableWriting_removed (r := (World.setErrno EAGAIN _).toReactor)
          (hi.removed p hmade hclosed)
      · exact absurd rfl herrno
  intro hleaves
  have hqp : q ≠ p := by
    rintro rfl
    have hunclosed := hq.unclosed
    rw [hclosed] at hunclosed
    cases hunclosed
  have hkeep := (hleaves q hqp (w.socket p).fd_).2 ((hi.table _ q).mpr hq)
  rw [hentry] at hkeep
  exact hqp (Option.some.inj hkeep).symm

theorem send_reused {result : IoResult} (hadm : result.Admissible data.length)
    (h : Socket.Send p data result w = .ok (v, t)) :
    (DeliversOwn w t ∧ LeavesOthers p w t) ↔
      (result = .count 0 ∨ ∃ errno, result = .fail errno ∧ errno ≠ EAGAIN) := by
  constructor
  · rintro ⟨hown, hleaves⟩
    cases result with
    | count n =>
      by_cases hn : n = 0
      · rw [hn]
        exact .inl rfl
      · exact absurd hown (reused_count hi hmade hq hclosed hadm hn h)
    | fail errno =>
      refine .inr ⟨errno, rfl, ?_⟩
      rintro rfl
      exact reused_again hi hmade hq hclosed h hleaves
  · intro hquiet
    obtain ⟨hown, hrec⟩ := reused_quiet hi hmade hq hadm hquiet h
    exact ⟨hown, leavesOthers_recorded hrec⟩

end

theorem action_step (w : World) (a : Action) (t : World) (hi : ServerInv w) (hstep : Acts w a t)
    (hmay : MayHappen w a) : (Isolated w a t ↔ NotReused w a) ∧ (NotReused w a → ServerInv t) := by
  cases a with
  | accept _ | handleRead _ _ | handleWrite _ _ | handleClose _ =>
    obtain ⟨hown, ht⟩ := server_action hi hstep hmay (by nofun)
    exact ⟨iff_of_true ⟨hown, trivial⟩ trivial, fun _ => ht⟩
  | call c =>
    cases c with
    | retrieve s len =>
      obtain ⟨q, _, he⟩ := bind_ok hstep
      cases he
      exact ⟨iff_of_true ⟨delivers_none rfl, trivial⟩ trivial, fun _ => hi.kept
        (Kept.of_reactor hi.toTables (setSocket_steady s w (fun _ => rfl) fun _ => rfl)
          ⟨rfl, rfl, rfl⟩)⟩
    | send p data result =>
      obtain ⟨hmade, _, hadm⟩ := hmay
      obtain ⟨⟨v, u⟩, hsend, he⟩ := bind_ok hstep
      cases he
      by_cases hclosed : (w.socket p).closed = true
      · by_cases hopen : w.kernel.descriptors (w.socket p).fd_ = none
        · rw [← hi.channelFd p hmade] at hopen
          obtain ⟨hrec, hown⟩ := send_closed hopen hsend
          rw [hi.channelFd p hmade] at hopen
          exact ⟨iff_of_true ⟨delivers_none hown, fun _ => leavesOthers_recorded hrec⟩
            fun _ hne => absurd hopen hne, fun _ => hi.kept (kept_recorded hi.toTables hrec)⟩
        · obtain ⟨q, hq⟩ := hi.reused p hmade hopen
          have hiff := send_reused hi hmade hq hclosed hadm hsend
          refine ⟨⟨fun h _ _ => hiff.mp ⟨h.1, h.2 hclosed⟩, fun h => ?_⟩, fun h => ?_⟩
          · obtain ⟨hown, hleaves⟩ := hiff.mpr (h hclosed hopen)
            exact ⟨hown, fun _ => hleaves⟩
          · exact hi.kept (kept_recorded hi.toTables
              (reused_quiet hi hmade hq hadm (h hclosed hopen) hsend).2)
      · have hlive : Live w (w.socket p).fd_ p := ⟨hmade, by simpa using hclosed, rfl⟩
        obtain ⟨hown, ht⟩ := send_live hi hlive hsend
        exact ⟨iff_of_true ⟨hown, fun hc => absurd hc hclosed⟩ fun hc => absurd hc hclosed,
          fun _ => ht⟩

/-- In a run of a started server the connections are isolated exactly when no `Send` works on
a descriptor that is open again. -/
theorem isolated_iff_not_reused (w : World) (hw : Started w) (actions : List Action)
    (hmay : EachStep Acts (fun w a _ => MayHappen w a) w actions) :
    EachStep Acts Isolated w actions ↔ EachStep Acts (fun w a _ => NotReused w a) w actions :=
  eachStep_iff_eachStep action_step hmay hw.inv

def IoResult.refused : IoResult → Bool
  | .count n => n = 0
  | .fail errno => errno ≠ EAGAIN

def allowed (w : World) (a : Action) (_ : World) : Bool :=
  match a with
  | .accept fd => 0 ≤ fd ∧ w.kernel.descriptors fd = none
  | .handleRead p _ | .handleClose p => p ≠ w.server.acceptor ∧
    (w.kernel.interest (w.socket p).fd_).map Prod.snd = some p
  | .handleWrite p _ => (w.kernel.interest (w.socket p).fd_).map Prod.snd = some p
  | .call (.send p data result) => p < w.allocated ∧ p ≠ w.server.acceptor ∧
    result.Admissible data.length ∧ ((w.socket p).closed = true → IoResult.refused result = true)
  | .call (.retrieve _ _) => true

theorem allowed_may {w t : World} {a : Action} (h : allowed w a t = true) :
    MayHappen w a ∧ NotReused w a := by
  cases a with
  | accept fd => exact ⟨by simpa [allowed, MayHappen] using h, trivial⟩
  | handleRead p result =>
    obtain ⟨hacc, hp⟩ := of_decide_eq_true h
    exact ⟨⟨hacc, .inl (registered_of_lookup hp)⟩, trivial⟩
  | handleWrite p result => exact ⟨.inl (registered_of_lookup (of_decide_eq_true h)), trivial⟩
  | handleClose p =>
    obtain ⟨hacc, hp⟩ := of_decide_eq_true h
    exact ⟨⟨hacc, registered_of_lookup hp⟩, trivial⟩
  | call c =>
    cases c with
    | send p data result =>
      simp only [allowed, decide_eq_true_eq] at h
      obtain ⟨hmade, hacc, hadm, hrefused⟩ := h
      refine ⟨⟨hmade, hacc, hadm⟩, fun hclosed _ => ?_⟩
      cases result with
      | count n => exact .inl (congrArg _ (of_decide_eq_true (hrefused hclosed)))
      | fail errno => exact .inr ⟨errno, rfl, of_decide_eq_true (hrefused hclosed)⟩
    | retrieve p len => exact ⟨trivial, trivial⟩

theorem may_of_check {w : World} {a : List Action} (h : checkRun Action.run allowed w a = true) :
    EachStep Acts (fun w a _ => MayHappen w a ∧ NotReused w a) w a :=
  .of_check id (fun hu _ hstep => Except.ok.inj (hu.symm.trans hstep)) allowed_may h

def secondOnFive : List Action :=
  [.accept 5, .call (.send 1 [0x61] (.count 1)), .handleClose 1, .accept 5,
    .call (.send 2 [0x62] (.count 1)), .call (.send 1 [0x63] (.fail EINTR))]

theorem isolated_iff_not_reused_send :
    EachStep Acts Isolated (TcpServer.start 3 (World.boot fun _ => none)) secondOnFive := by
  have hallowed := may_of_check (w := TcpServer.start 3 (World.boot fun _ => none))
    (a := secondOnFive) (by decide +kernel)
  refine (isolated_iff_not_reused _ started_boot _ ?_).mpr ?_
  · exact EachStep.mono (fun _ _ _ h => h.1) hallowed
  · exact EachStep.mono (fun _ _ _ h => h.2) hallowed

/-- The connection on descriptor 5 is closed, the number goes to the next one, and a late `Send`
on the first Socket writes to it. -/
theorem reused_writes_to_other :
    EachStep Acts (fun w a _ => MayHappen w a) (TcpServer.start 3 (World.boot fun _ => none))
      [.accept 5, .handleClose 1, .accept 5, .call (.send 1 [0x61] (.count 1))] ∧
    ¬EachStep Acts Isolated (TcpServer.start 3 (World.boot fun _ => none))
      [.accept 5, .handleClose 1, .accept 5, .call (.send 1 [0x61] (.count 1))] := by
  obtain ⟨t₁, t₂, t₃, t₄, ht₁, ht₂, ht₃, ht₄, hint₁, hacc₁, hfree₂, halloc₃, hacc₃, hfile₄,
      hdel₃, hdel₄⟩ : ∃ t₁ t₂ t₃ t₄,
      Acts (TcpServer.start 3 (World.boot fun _ => none)) (.accept 5) t₁ ∧
      Acts t₁ (.handleClose 1) t₂ ∧ Acts t₂ (.accept 5) t₃ ∧
      Acts t₃ (.call (.send 1 [0x61] (.count 1))) t₄ ∧
      t₁.kernel.interest 5 = some (Channel.kReadEvent, 1) ∧ t₁.server.acceptor = 0 ∧
      t₂.kernel.descriptors 5 = none ∧ t₃.allocated = 3 ∧ t₃.server.acceptor = 0 ∧
      (t₄.socket 1).file = some (.connection 0) ∧ t₃.delivered = [] ∧
      t₄.delivered = [⟨1, .connection 1, [0x61]⟩] :=
    ⟨_, _, _, _, rfl, rfl, rfl, rfl, rfl, rfl, rfl, rfl, rfl, rfl, rfl, rfl⟩
  rw [acts_cons ht₁, acts_cons ht₂, acts_cons ht₃, acts_cons ht₄,
    acts_cons ht₁, acts_cons ht₂, acts_cons ht₃, acts_cons ht₄]
  constructor
  · refine ⟨⟨by decide, rfl⟩, ⟨?_, 5, _, hint₁⟩, ⟨by decide, hfree₂⟩, ⟨?_, ?_, by decide⟩, trivial⟩
    · rw [hacc₁]
      decide
    · rw [halloc₃]
      decide
    · rw [hacc₃]
      decide
  · rintro ⟨-, -, -, ⟨hown, -⟩, -⟩
    have hone : t₄.delivered = t₃.delivered ++ [⟨1, .connection 1, [0x61]⟩] := by
      rw [hdel₃, hdel₄]
      rfl
    rw [delivers_one hone, hfile₄] at hown
    cases hown (by decide)

end NetPrograms.ServerIsolation
