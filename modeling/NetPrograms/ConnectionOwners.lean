import NetPrograms.InputIsolation

set_option autoImplicit false

namespace NetPrograms.ConnectionOwners
open BufferModel PollerModel PollerMirror ServerModel ChannelDispatch ServerTables ServerRuns
open ServerActions ServerIsolation InputIsolation RunInvariants

structure Owns (w : World) (id : ℕ) (q : Ptr) : Prop where
  made : q < w.allocated
  accepted : q ≠ w.server.acceptor
  file : (w.socket q).file = some (.connection id)

def closeCount (w : World) (q : Ptr) : ℕ := w.calls.count (.handleClose q)

structure Accounted (w : World) : Prop where
  owner : ∀ id < w.kernel.accepted, ∃ q, Owns w id q ∧ ∀ q', Owns w id q' → q' = q
  known : ∀ fd id, w.kernel.descriptors fd = some (.connection id) → id < w.kernel.accepted
  opened : ∀ id q, Owns w id q → ∀ fd, w.kernel.descriptors fd = some (.connection id) ↔
    (w.socket q).closed = false ∧ fd = (w.socket q).fd_
  held : ∀ id q, Owns w id q → ∀ fd, w.server.connections_ fd = some q ↔
    (w.socket q).closed = false ∧ fd = (w.socket q).fd_
  closes : ∀ q, closeCount w q = (w.socket q).closed.toNat

structure Balanced (w : World) : Prop extends ServerInv w where
  owned : ∀ id < w.kernel.accepted, ∃ q, Owns w id q
  closes : ∀ q, closeCount w q = (w.socket q).closed.toNat
  unmade : ∀ q, w.allocated ≤ q → (w.socket q).closed = false

theorem Balanced.accounted {w : World} (hb : Balanced w) : Accounted w := by
  have hi : ServerInv w := hb.toServerInv
  have hlive : ∀ id q, Owns w id q → ∀ fd,
      Live w fd q ↔ (w.socket q).closed = false ∧ fd = (w.socket q).fd_ := fun id q hq fd =>
    ⟨fun h => ⟨h.unclosed, h.fd_eq.symm⟩, fun h => ⟨hq.made, h.1, h.2.symm⟩⟩
  have hfile : ∀ {fd id}, w.kernel.descriptors fd = some (.connection id) →
      ∃ q, Live w fd q ∧ Owns w id q := by
    intro fd id hid
    obtain ⟨q, hq⟩ := hi.connectionFds fd id hid
    have hqf := (hi.opened fd q hq).symm.trans hid
    refine ⟨q, hq, hq.made, ?_, hqf⟩
    rintro rfl
    rw [hi.acceptorFile] at hqf
    cases hqf
  refine ⟨fun id hid => ?_, fun fd id hid => ?_, fun id q hq fd => ?_, fun id q hq fd => ?_,
    hb.closes⟩
  · obtain ⟨q, hq⟩ := hb.owned id hid
    exact ⟨q, hq, fun q' hq' =>
      hi.distinct q' hq'.made q hq.made (hq'.file.trans hq.file.symm)⟩
  · obtain ⟨q, -, hq⟩ := hfile hid
    by_contra hlt
    exact file_ne_unaccepted hi.toFiles hq.made (not_lt.mp hlt) hq.file
  · rw [← hlive id q hq]
    constructor
    · intro hid
      obtain ⟨q', hlive', hq'⟩ := hfile hid
      obtain rfl := hi.distinct q' hq'.made q hq.made (hq'.file.trans hq.file.symm)
      exact hlive'
    · exact fun h => (hi.opened fd q h).trans hq.file
  · rw [connections_iff hi, ← hlive id q hq]
    exact and_iff_left hq.accepted

theorem closeCount_log (c : Call) (w : World) (q : Ptr) :
    closeCount (w.log c) q = closeCount w q + if c = .handleClose q then 1 else 0 := by
  change (w.calls ++ [c]).count (.handleClose q) = _
  rw [List.count_append, List.count_singleton]
  simp only [beq_iff_eq, closeCount]

def SameCloses (w t : World) : Prop :=
  ∀ q, closeCount t q = closeCount w q ∧ (t.socket q).closed = (w.socket q).closed

structure Closes (p : Ptr) (w t : World) : Prop where
  count : closeCount t p = closeCount w p + 1
  closed : (t.socket p).closed = true
  other : ∀ q, q ≠ p → closeCount t q = closeCount w q ∧
    (t.socket q).closed = (w.socket q).closed

theorem SameCloses.trans {w u t : World} (h : SameCloses w u) (h' : SameCloses u t) :
    SameCloses w t := fun q => ⟨(h' q).1.trans (h q).1, (h' q).2.trans (h q).2⟩

theorem Closes.after {p : Ptr} {w u t : World} (h : SameCloses w u) (h' : Closes p u t) :
    Closes p w t :=
  ⟨h'.count.trans (congrArg (· + 1) (h p).1), h'.closed, fun q hq =>
    ⟨(h'.other q hq).1.trans (h q).1, (h'.other q hq).2.trans (h q).2⟩⟩

theorem SameCloses.of_calls {w t : World} {calls : List Call} (h : t.calls = w.calls ++ calls)
    (hcalls : ∀ q, .handleClose q ∉ calls) (hs : Steady w t) : SameCloses w t := by
  intro q
  refine ⟨?_, hs.closed q⟩
  rw [closeCount, h, List.count_append, List.count_eq_zero.mpr (hcalls q), Nat.add_zero]
  rfl

theorem send_closes {p : Ptr} {data : List Byte} {result : IoResult} {v : ℤ} {w t : World}
    (h : Socket.Send p data result w = .ok (v, t)) : SameCloses w t :=
  .of_calls (send_calls h) (by simp) (Send_steady h)

theorem handleWrite_closes {p : Ptr} {result : IoResult} {w t : World}
    (h : Socket.handleWrite p result w = .ok t) : SameCloses w t :=
  .of_calls (handleWrite_calls h) (by simp) (handleWrite_steady h)

theorem handleClose_closes {p : Ptr} {env : Env} {w t : World} (henv : env.closeCallback = [])
    (h : Socket.handleClose p env w = .ok t) : Closes p w t := by
  have hrun := handleClose_outcome h
  rw [henv] at hrun
  rw [runCallback_nil hrun]
  have hcount : ∀ q, closeCount (disconnect p w) q = closeCount (w.log (.handleClose p)) q :=
    fun _ => rfl
  refine ⟨?_, ?_, fun q hq => ⟨?_, ?_⟩⟩
  · rw [hcount, closeCount_log, if_pos rfl]
  · rw [disconnect_socket, Function.update_self]
  · have hne : Call.handleClose p ≠ .handleClose q := fun he => hq (Call.handleClose.inj he).symm
    rw [hcount, closeCount_log, if_neg hne]
    rfl
  · rw [disconnect_socket, Function.update_of_ne hq]

theorem didRead_closes (p : Ptr) (q : ByteQueue) (w : World) : SameCloses w (didRead p q w) := by
  have hcalls : (didRead p q w).calls = w.calls ++ [.handleRead p, .readv (w.channel p).fd_] :=
    List.append_assoc w.calls [_] [_]
  exact .of_calls hcalls (by simp) (didRead_steady p q w)

theorem handleRead_closes {p : Ptr} {result : ReadResult} {w t : World}
    (h : Socket.handleRead p { silent with readv := result } w = .ok t) :
    SameCloses w t ∨ (w.kernel.descriptors (w.channel p).fd_ ≠ none ∧ Closes p w t) := by
  obtain ⟨q, hout⟩ := handleRead_outcome h
  have hread := didRead_closes p q w
  by_cases hclosed : w.kernel.descriptors (w.channel p).fd_ = none
  · rw [if_pos hclosed] at hout
    cases hout with
    | error _ savedErrno =>
      refine .inl (hread.trans fun r => ?_)
      unfold Socket.handleError
      split_ifs <;> exact ⟨rfl, rfl⟩
  · rw [if_neg hclosed] at hout
    change ReadOutcome p _ _ result t at hout
    cases hout with
    | message _ _ _ hrun =>
      rw [runCallback_nil hrun]
      exact .inl hread
    | eof _ hrun => exact .inr ⟨hclosed, Closes.after hread (handleClose_closes rfl hrun)⟩
    | error _ savedErrno =>
      refine .inl (hread.trans fun r => ?_)
      unfold Socket.handleError
      split_ifs <;> exact ⟨rfl, rfl⟩

theorem connect_calls (fd : ℤ) (w : World) : (connect fd w).calls = w.calls := by
  have hinsert : ∀ (p : Ptr) (u : World), (TcpServer.insertConnection p u).calls = u.calls := by
    intro p u
    unfold TcpServer.insertConnection
    dsimp only
    split <;> rfl
  exact hinsert _ _

theorem owns_frame {w t : World} (hf : Frame w t) {id : ℕ} {q : Ptr} (hq : Owns w id q) :
    Owns t id q :=
  ⟨hf.allocated ▸ hq.made, hf.acceptor ▸ hq.accepted, (hf.file q).trans hq.file⟩

theorem Balanced.same {w t : World} (hb : Balanced w) (hi : ServerInv t) (hf : Frame w t)
    (hs : SameCloses w t) : Balanced t := by
  refine ⟨hi, fun id hid => ?_, fun q => ?_, fun q hq => ?_⟩
  · rw [hf.accepted] at hid
    exact (hb.owned id hid).imp fun _ => owns_frame hf
  · rw [(hs q).1, (hs q).2]
    exact hb.closes q
  · rw [hf.allocated] at hq
    exact (hs q).2.trans (hb.unmade q hq)

theorem Balanced.close {w t : World} (hb : Balanced w) (hi : ServerInv t) (hf : Frame w t)
    {fd : ℤ} {p : Ptr} (hp : Live w fd p) (hc : Closes p w t) : Balanced t := by
  refine ⟨hi, fun id hid => ?_, fun q => ?_, fun q hq => ?_⟩
  · rw [hf.accepted] at hid
    exact (hb.owned id hid).imp fun _ => owns_frame hf
  · by_cases hqp : q = p
    · rw [hqp, hc.count, hc.closed, hb.closes p, hp.unclosed]
      rfl
    · rw [(hc.other q hqp).1, (hc.other q hqp).2]
      exact hb.closes q
  · rw [hf.allocated] at hq
    exact (hc.other q (hp.made.trans_le hq).ne').2.trans (hb.unmade q hq)

theorem Balanced.accept {w : World} (hb : Balanced w) {fd : ℤ} (hi : ServerInv (connect fd w))
    (hconn : Connected w (connect fd w) fd) : Balanced (connect fd w) := by
  have hcount : ∀ q, closeCount (connect fd w) q = closeCount w q := fun q => by
    rw [closeCount, connect_calls, closeCount]
  refine ⟨hi, fun id hid => ?_, fun q => ?_, fun q hq => ?_⟩
  · rw [hconn.accepted] at hid
    rcases Nat.lt_succ_iff_lt_or_eq.mp hid with hold | rfl
    · obtain ⟨q, hmade, hacc, hfile⟩ := hb.owned id hold
      refine ⟨q, ?_, hconn.acceptor ▸ hacc, ?_⟩
      · rw [hconn.allocated]
        exact Nat.lt_succ_of_lt hmade
      · rw [hconn.other q (Nat.ne_of_lt hmade)]
        exact hfile
    · refine ⟨w.allocated, ?_, ?_, hconn.file⟩
      · rw [hconn.allocated]
        exact Nat.lt_succ_self _
      · rw [hconn.acceptor]
        exact (Nat.ne_of_lt hb.acceptorLive.made).symm
  · rw [hcount, hb.closes q]
    by_cases hq : q = w.allocated
    · rw [hq, hconn.unclosed, hb.unmade _ (le_refl _)]
    · rw [hconn.other q hq]
  · rw [hconn.allocated] at hq
    rw [hconn.other q (Nat.lt_of_succ_le hq).ne']
    exact hb.unmade q ((Nat.le_succ _).trans hq)

theorem balanced_step (w : World) (a : Action) (t : World) (hb : Balanced w) (hstep : Acts w a t)
    (hmay : MayHappen w a ∧ NotReused w a) : Balanced t := by
  have hi : ServerInv t := (action_step w a t hb.toServerInv hstep hmay.1).2 hmay.2
  cases a with
  | accept fd =>
    obtain ⟨hfd, hfree⟩ := hmay.1
    have hrun := (accept_connects rfl hfd (hb.open hb.acceptorLive)).symm.trans hstep
    rw [runCallback_nil hrun] at hi ⊢
    exact hb.accept hi (connect_step hb.toServerInv hfree).2
  | handleRead p result =>
    have hf := handleRead_frame hstep
    rcases handleRead_closes hstep with hsame | ⟨hopen, hc⟩
    · exact hb.same hi hf hsame
    · rcases hmay.1.2 with hp | hgone
      · obtain ⟨fd, hlive⟩ := hp.live hb.toServerInv
        exact hb.close hi hf hlive hc
      · rw [hb.channelFd p hgone.made] at hopen
        exact absurd hgone.descriptor hopen
  | handleWrite p result =>
    exact hb.same hi (acts_frame (by rintro _ ⟨⟩) hstep) (handleWrite_closes hstep)
  | handleClose p =>
    obtain ⟨fd, hlive⟩ := hmay.1.2.live hb.toServerInv
    exact hb.close hi (acts_frame (by rintro _ ⟨⟩) hstep) hlive (handleClose_closes rfl hstep)
  | call c =>
    have hf : Frame w t := acts_frame (by rintro _ ⟨⟩) hstep
    cases c with
    | send p data result =>
      obtain ⟨⟨v, x⟩, hsend, he⟩ := bind_ok hstep
      obtain rfl : x = t := Except.ok.inj he
      exact hb.same hi hf (send_closes hsend)
    | retrieve p len =>
      have hclosed := (appCall_steady (c := .retrieve p len) hstep).closed
      obtain ⟨q, -, he⟩ := bind_ok hstep
      refine hb.same hi hf fun r => ⟨?_, hclosed r⟩
      obtain rfl := Except.ok.inj he
      rfl

theorem started_balanced {w : World} (hw : Started w) : Balanced w := by
  have hi := hw.inv
  obtain ⟨descriptors, fd, _, _, rfl⟩ := hw
  have hclosed : ∀ q,
      ((TcpServer.start fd (World.boot descriptors)).socket q).closed = false := by
    intro q
    change (Function.update (fun _ => Socket.init (-1) none) 0 (Socket.init fd _) q).closed = _
    by_cases hq : q = 0
    · rw [hq, Function.update_self]
      rfl
    · rw [Function.update_of_ne hq]
      rfl
  refine ⟨hi, fun id hid => absurd hid (Nat.not_lt_zero id), fun q => ?_, fun q _ => hclosed q⟩
  rw [hclosed]
  rfl

/-- In every run of a started server in which no late `Send` works on a descriptor that is open
again, every accepted connection has its own Socket, is open exactly until that one is closed,
and no Socket is closed twice. -/
theorem connections_accounted (w : World) (hw : Started w) (actions : List Action)
    (hmay : EachStep Acts (fun w a _ => MayHappen w a ∧ NotReused w a) w actions) :
    Always Acts Accounted w actions :=
  (Always.of_invariant Balanced balanced_step hmay (started_balanced hw)).mono fun _ h =>
    h.accounted

theorem connections_accounted_eof :
    Always Acts Accounted (TcpServer.start 3 (World.boot fun _ => none))
      [.accept 5, .handleRead 1 (.data [])] :=
  connections_accounted _ started_boot _ (may_of_check (by decide +kernel))

end NetPrograms.ConnectionOwners
