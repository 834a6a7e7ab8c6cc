import NetPrograms.RunInvariants
import NetPrograms.ServerFrames

set_option autoImplicit false

namespace NetPrograms.SocketStream
open BufferModel PollerModel ServerModel RunInvariants

inductive StreamOp where
  | send (data : List Byte) (result : IoResult)
  | handleWrite (result : IoResult)
  deriving DecidableEq, Repr

/-- `acked` is the data of the `Send` calls that returned 0, in call order. -/
structure Session where
  world : World
  acked : List Byte

def StreamOp.run (p : Ptr) (s : Session) : StreamOp → Except Fault Session
  | send data result => do
    let (v, w) ← Socket.Send p data result s.world
    return ⟨w, if v = 0 then s.acked ++ data else s.acked⟩
  | handleWrite result => do
    let w ← Socket.handleWrite p result s.world
    return ⟨w, s.acked⟩

def StreamStep (p : Ptr) (s : Session) (a : StreamOp) (t : Session) : Prop := a.run p s = .ok t

def accepted (p : Ptr) (w : World) : List Byte :=
  (w.delivered.filter (·.sender = p)).flatMap (·.bytes)

def pending (p : Ptr) (w : World) : List Byte := (w.socket p).outputBuffer_.content

def Conserved (p : Ptr) (s : Session) : Prop := accepted p s.world ++ pending p s.world = s.acked

def KernelMay (p : Ptr) (s : Session) : StreamOp → Prop
  | .send data result => result.Admissible data.length
  | .handleWrite result => result.Admissible (pending p s.world).length

instance (p : Ptr) (s : Session) : (a : StreamOp) → Decidable (KernelMay p s a)
  | .send data result => inferInstanceAs (Decidable (result.Admissible data.length))
  | .handleWrite result =>
    inferInstanceAs (Decidable (result.Admissible (pending p s.world).length))

/-- The bytes that the kernel takes from `data` may stand before or after those that wait. -/
def InOrder (p : Ptr) (s : Session) : StreamOp → Prop
  | .send data (.count n) => data.take n ++ pending p s.world = pending p s.world ++ data.take n
  | _ => True

def EmptyIfClosed (p : Ptr) (s : Session) : Prop :=
  s.world.kernel.descriptors (s.world.channel p).fd_ = none → pending p s.world = []

theorem accepted_append (p : Ptr) (w : World) (file : OpenFile) (bytes : List Byte) :
    accepted p { w with delivered := w.delivered ++ [⟨p, file, bytes⟩] } =
      accepted p w ++ bytes := by
  simp [accepted]

theorem pending_setOutputBuffer (p : Ptr) (q : ByteQueue) (w : World) :
    pending p (setOutputBuffer p q w) = q.content := by
  rw [pending, setOutputBuffer_self]

theorem update_errno (op : CtlOp) (p : Ptr) (r : Reactor) (h : r.kernel.errno ≠ 0) :
    (Poller.update op p r).kernel.errno ≠ 0 := by
  simp only [Poller.update, Kernel.epollCtl]
  split_ifs with h0
  · exact h
  · exact h0

theorem enableWriting_errno (p : Ptr) (r : Reactor) (h : r.kernel.errno ≠ 0) :
    (Channel.enableWriting p r).kernel.errno ≠ 0 := by
  change (Poller.updateChannel p _).kernel.errno ≠ 0
  unfold Poller.updateChannel
  dsimp only
  split_ifs
  · exact update_errno .add p _ h
  · exact update_errno .add p _ h
  · exact update_errno .del p _ h
  · exact update_errno .mod p _ h

theorem send_effect {p : Ptr} {data : List Byte} {result : IoResult} {w w' : World} {v : ℤ}
    (hadm : result.Admissible data.length) (h : Socket.Send p data result w = .ok (v, w')) :
    (v ≠ 0 ∧ accepted p w' = accepted p w ∧ pending p w' = pending p w ∧
      (w.kernel.descriptors (w.channel p).fd_ = none ∨ ∃ errno, result = .fail errno)) ∨
    ∃ n, result = .count n ∧ v = 0 ∧ accepted p w' = accepted p w ++ data.take n ∧
      pending p w' = pending p w ++ data.drop n ∧
      w.kernel.descriptors (w.channel p).fd_ ≠ none := by
  obtain ⟨k, u, hwrite, hsend⟩ := Send_outcome h
  cases hwrite with
  | badf _ hclosed =>
    left
    obtain ⟨herrno, _⟩ | ⟨_, rfl, rfl⟩ := hsend.refused
    · exact absurd herrno (show EBADF ≠ EAGAIN by decide)
    · exact ⟨show (EBADF : ℤ) ≠ 0 by decide, rfl, rfl, .inl hclosed⟩
  | fail file errno _ =>
    left
    change errno ≠ 0 at hadm
    obtain ⟨_, rfl, rfl⟩ | ⟨_, rfl, rfl⟩ := hsend.refused
    · have herrno := enableWriting_errno p
        ((w.log (.write (w.channel p).fd_)).setErrno errno).toReactor hadm
      exact ⟨by exact_mod_cast herrno, rfl, rfl, .inr ⟨errno, rfl⟩⟩
    · exact ⟨by exact_mod_cast hadm, rfl, rfl, .inr ⟨errno, rfl⟩⟩
  | count file n hopen =>
    right
    have hfd : w.kernel.descriptors (w.channel p).fd_ ≠ none := by
      rw [hopen]
      nofun
    have hacc := accepted_append p (w.log (.write (w.channel p).fd_)) file (data.take n)
    obtain ⟨hv, ⟨hlen, rfl⟩ | ⟨_, q, happend, rfl⟩⟩ := hsend.taken hadm
    · refine ⟨n, rfl, hv, hacc, ?_, hfd⟩
      rw [hlen, List.drop_length, List.append_nil]
      rfl
    · refine ⟨n, rfl, hv, hacc, ?_, hfd⟩
      rw [pending_setOutputBuffer]
      exact ByteQueue.append_content happend

theorem handleWrite_effect {p : Ptr} {result : IoResult} {w w' : World}
    (hadm : result.Admissible (pending p w).length)
    (h : Socket.handleWrite p result w = .ok w') :
    (accepted p w' = accepted p w ∧ pending p w' = pending p w) ∨
    ∃ n, accepted p w' = accepted p w ++ (pending p w).take n ∧
      pending p w' = (pending p w).drop n := by
  obtain ⟨k, u, hwrite, hdrain⟩ := handleWrite_outcome h
  cases hwrite with
  | badf _ _ | fail _ _ _ =>
    left
    rw [hdrain.unchanged]
    exact ⟨rfl, rfl⟩
  | count file n _ =>
    have hacc := accepted_append p
      ((w.log (.handleWrite p)).log (.write ((w.log (.handleWrite p)).channel p).fd_)) file
      ((pending p w).take n)
    right
    refine ⟨n, ?_⟩
    cases hdrain with
    | failed hpos =>
      have hn : n = 0 := by omega
      refine ⟨hacc, ?_⟩
      rw [hn]
      rfl
    | part q _ hretrieve _ | drained q _ hretrieve _ _ | complete q _ hretrieve _ _ =>
      refine ⟨hacc, (pending_setOutputBuffer p q _).trans ?_⟩
      exact (ByteQueue.retrieve_content hretrieve).2

theorem emptyIfClosed_send {p : Ptr} {s t : Session} {data : List Byte} {result : IoResult}
    (hadm : result.Admissible data.length) {v : ℤ}
    (h : Socket.Send p data result s.world = .ok (v, t.world)) (hs : EmptyIfClosed p s) :
    EmptyIfClosed p t := by
  have hsteady := Send_steady h
  intro hclosed
  rw [hsteady.descriptors, hsteady.channel_fd] at hclosed
  rcases send_effect hadm h with ⟨_, _, hpend, _⟩ | ⟨_, _, _, _, _, hopen⟩
  · rw [hpend]
    exact hs hclosed
  · exact absurd hclosed hopen

theorem emptyIfClosed_handleWrite {p : Ptr} {s t : Session} {result : IoResult}
    (hadm : result.Admissible (pending p s.world).length)
    (h : Socket.handleWrite p result s.world = .ok t.world) (hs : EmptyIfClosed p s) :
    EmptyIfClosed p t := by
  have hsteady := handleWrite_steady h
  intro hclosed
  rw [hsteady.descriptors, hsteady.channel_fd] at hclosed
  rcases handleWrite_effect hadm h with ⟨_, hpend⟩ | ⟨n, _, hpend⟩
  · rw [hpend]
    exact hs hclosed
  · rw [hpend, hs hclosed, List.drop_nil]

theorem stream_step (p : Ptr) (s : Session) (a : StreamOp) (t : Session)
    (hs : EmptyIfClosed p s) (hc : Conserved p s) (hstep : StreamStep p s a t)
    (hmay : KernelMay p s a) : EmptyIfClosed p t ∧ (Conserved p t ↔ InOrder p s a) := by
  cases a with
  | send data result =>
    obtain ⟨⟨v, w⟩, hsend, ht⟩ := bind_ok hstep
    cases ht
    refine ⟨emptyIfClosed_send hmay hsend hs, ?_⟩
    unfold Conserved at hc ⊢
    rcases send_effect hmay hsend with ⟨hv, hacc, hpend, hnone⟩ | ⟨n, rfl, rfl, hacc, hpend, _⟩
    · have hin : InOrder p s (.send data result) := by
        rcases hnone with hclosed | ⟨errno, rfl⟩
        · cases result with
          | fail _ => trivial
          | count n =>
            change _ ++ pending p s.world = pending p s.world ++ _
            rw [hs hclosed, List.append_nil, List.nil_append]
        · trivial
      simp only [hacc, hpend, if_neg hv]
      exact iff_of_true hc hin
    · simp only [hacc, hpend, if_pos]
      rw [← hc, InOrder]
      calc _ ↔ accepted p s.world ++ (data.take n ++ pending p s.world) ++ data.drop n =
              accepted p s.world ++ (pending p s.world ++ data.take n) ++ data.drop n := by
            simp only [List.append_assoc, List.take_append_drop]
        _ ↔ _ := by rw [List.append_cancel_right_eq, List.append_cancel_left_eq]
  | handleWrite result =>
    obtain ⟨w, hwrite, ht⟩ := bind_ok hstep
    cases ht
    refine ⟨emptyIfClosed_handleWrite hmay hwrite hs, iff_of_true ?_ trivial⟩
    unfold Conserved at hc ⊢
    dsimp only
    rw [← hc]
    rcases handleWrite_effect hmay hwrite with ⟨hacc, hpend⟩ | ⟨n, hacc, hpend⟩
    · rw [hacc, hpend]
    · rw [hacc, hpend, List.append_assoc, List.take_append_drop]

def constructed (fd : ℤ) (w : World) : Session := ⟨(Socket.new fd w).2, []⟩

theorem pending_new (fd : ℤ) (w : World) : pending w.allocated (Socket.new fd w).2 = [] := by
  rw [pending, new_outputBuffer]
  exact ByteQueue.new_content

/-- In every state of a run from a new Socket, what the kernel accepted and what waits in the
output buffer are together the data of the acknowledged `Send` calls in call order, exactly
when every `Send` of the run is in order. -/
theorem stream_conserved_iff (fd : ℤ) (w : World) (hw : accepted w.allocated w = [])
    (ops : List StreamOp)
    (hmay : EachStep (StreamStep w.allocated) (fun s a _ => KernelMay w.allocated s a)
      (constructed fd w) ops) :
    Always (StreamStep w.allocated) (Conserved w.allocated) (constructed fd w) ops ↔
      EachStep (StreamStep w.allocated) (fun s a _ => InOrder w.allocated s a)
        (constructed fd w) ops := by
  have hpend := pending_new fd w
  refine always_iff_eachStep (stream_step w.allocated) hmay ?_ ?_
  · exact fun _ => hpend
  · change accepted w.allocated w ++ pending w.allocated (Socket.new fd w).2 = []
    rw [hw, hpend]
    rfl

def oneConnection : World := World.boot fun fd => if fd = 5 then some (.connection 0) else none

theorem stream_conserved_iff_pending :
    Always (StreamStep 0) (Conserved 0) (constructed 5 oneConnection)
      [.send [0x61, 0x62] (.count 1), .handleWrite (.fail EAGAIN),
        .send [0x63] (.fail EAGAIN)] := by
  have hagain : (IoResult.fail EAGAIN).Admissible 1 := by decide
  refine (stream_conserved_iff 5 oneConnection rfl _ ?_).mpr ?_
  · exact fun _ _ => ⟨show (IoResult.count 1).Admissible 2 by decide,
      fun _ _ => ⟨hagain, fun _ _ => ⟨hagain, trivial⟩⟩⟩
  · refine fun _ _ => ⟨?_, fun _ _ => ⟨trivial, fun _ _ => ⟨trivial, trivial⟩⟩⟩
    have hpend : pending 0 (constructed 5 oneConnection).world = [] := pending_new 5 oneConnection
    change _ ++ pending 0 _ = pending 0 _ ++ _
    rw [hpend]
    rfl

theorem stream_overtaken :
    EachStep (StreamStep 0) (fun s a _ => KernelMay 0 s a) (constructed 5 oneConnection)
      [.send [0x61, 0x62] (.count 1), .send [0x63, 0x64] (.count 2)] ∧
    ¬Always (StreamStep 0) (Conserved 0) (constructed 5 oneConnection)
      [.send [0x61, 0x62] (.count 1), .send [0x63, 0x64] (.count 2)] := by
  have hmay₁ : (IoResult.count 1).Admissible ([0x61, 0x62] : List Byte).length := by decide
  have hmay₂ : (IoResult.count 2).Admissible ([0x63, 0x64] : List Byte).length := by decide
  have hpend₀ : pending 0 (constructed 5 oneConnection).world = [] := pending_new 5 oneConnection
  refine ⟨fun _ _ => ⟨hmay₁, fun _ _ => ⟨hmay₂, trivial⟩⟩, ?_⟩
  rintro ⟨hc₀, h⟩
  obtain ⟨v, w₁, hsend⟩ : ∃ v w₁, Socket.Send 0 [0x61, 0x62] (.count 1)
      (constructed 5 oneConnection).world = .ok (v, w₁) := Send_returns (by decide)
  obtain ⟨_, _, _, hclosed | ⟨_, hfail⟩⟩ | ⟨n, hn, rfl, _, hpend, hopen⟩ :=
    send_effect hmay₁ hsend
  · exact absurd hclosed (by decide)
  · cases hfail
  cases hn
  rw [hpend₀] at hpend
  have hsteady := Send_steady hsend
  rw [← hsteady.descriptors, ← hsteady.channel_fd] at hopen
  have hstep₁ : StreamStep 0 (constructed 5 oneConnection) (.send [0x61, 0x62] (.count 1))
      ⟨w₁, [0x61, 0x62]⟩ := by
    rw [StreamStep, StreamOp.run, hsend]
    rfl
  have hstep₂ : StreamStep 0 ⟨w₁, [0x61, 0x62]⟩ (.send [0x63, 0x64] (.count 2))
      ⟨(w₁.write 0 [0x63, 0x64] (.count 2)).2, [0x61, 0x62, 0x63, 0x64]⟩ := by
    have hfull : Socket.Send 0 [0x63, 0x64] (.count 2) w₁ =
        .ok (0, (w₁.write 0 [0x63, 0x64] (.count 2)).2) := Send_full (write_count hopen)
    simp only [StreamStep, StreamOp.run, hfull]
    rfl
  obtain ⟨hc₁, htail⟩ := h _ hstep₁
  obtain ⟨he₁, _⟩ := stream_step 0 _ _ _ (fun _ => hpend₀) hc₀ hstep₁ hmay₁
  have horder : [0x63, 0x64] ++ pending 0 w₁ = pending 0 w₁ ++ [0x63, 0x64] :=
    (stream_step 0 _ _ _ he₁ hc₁ hstep₂ hmay₂).2.mp (htail _ hstep₂)
  rw [hpend] at horder
  exact absurd horder (by decide)

end NetPrograms.SocketStream
