import NetPrograms.CtlHistory
import NetPrograms.ServerRuns

set_option autoImplicit false

namespace NetPrograms.AcceptFailure
open BufferModel PollerModel PollerMirror ServerModel ChannelDispatch ServerTables ServerRuns
open CtlHistory

def tolerated : List ℕ := [EAGAIN, ECONNABORTED, EINTR, EPROTO, EPERM, EMFILE]

/-- The call returns with all tables as they were, without an `epoll_ctl`, a new Socket or a
call of `connectionCallback_`. -/
def LeavesAlone (env : Env) (w : World) : Prop :=
  ∃ t, TcpServer.accept env w = .ok t ∧
    t.server.connections_ = w.server.connections_ ∧ t.channels_ = w.channels_ ∧
    t.kernel.interest = w.kernel.interest ∧ t.kernel.ctlLog = w.kernel.ctlLog ∧
    t.allocated = w.allocated ∧
    ∀ calls, TcpServer.accept { env with connectionCallback := calls } w = .ok t

def adopt (connfd : ℤ) (w : World) : World :=
  let (newSocket, w) := Socket.new connfd w
  let w := w.setSocket newSocket fun s => { s with
    messageCallback_ := w.server.messageCallback_
    writeCallback_ := w.server.writeCompleteCallback_
    closeCallback_ := true }
  let w := TcpServer.insertConnection newSocket w
  w.onReactor (EventLoop.updateChannel newSocket)

theorem accept_adopts {env : Env} {errno : ℕ} {w : World}
    (hopen : w.kernel.descriptors (w.socket w.server.acceptor).fd_ ≠ none)
    (hresult : env.accept = .fail errno) (herrno : errno ∈ tolerated) :
    TcpServer.accept env w = runCallback (adopt (-1) (w.setErrno errno)).server.connectionCallback_
      env.connectionCallback (adopt (-1) (w.setErrno errno)) := by
  obtain ⟨file, hfile⟩ := Option.ne_none_iff_exists'.mp hopen
  have hkernel : TcpServer.kernelAccept env.accept w = (-1, w.setErrno errno) := by
    unfold TcpServer.kernelAccept
    simp only [hfile, hresult]
  have hcase : (w.setErrno errno).kernel.errno ∈
      [EAGAIN, ECONNABORTED, EINTR, EPROTO, EPERM, EMFILE] := herrno
  unfold TcpServer.accept
  rw [hkernel]
  dsimp only
  rw [if_pos (by decide), if_pos hcase]
  rfl

/-- `u` is `w` with a Socket on a descriptor that is none. -/
structure Adopted (w u : World) (fd : ℤ) : Prop where
  ctl : w.kernel.ctlLog ++ [⟨.add, fd, w.kernel.ctlErrno .add fd⟩] <+: u.kernel.ctlLog
  allocated : u.allocated = w.allocated + 1
  socket : (u.socket w.allocated).fd_ = fd
  table : u.channels_ fd = some w.allocated
  connection : u.server.connections_ fd ≠ none

theorem updateChannel_table {r : Reactor} {p : Ptr} {fd : ℤ} (h : r.channels_ fd = some p) :
    (Poller.updateChannel p r).channels_ fd = some p := by
  unfold Poller.updateChannel
  dsimp only
  split_ifs
  · change Function.update r.channels_ _ _ fd = _
    rw [Function.update_apply]
    split_ifs
    · rfl
    · exact h
  all_goals exact h

theorem new_table (fd : ℤ) (w : World) :
    (Socket.new fd w).2.channels_ fd = some w.allocated := by
  obtain ⟨hidx, hfd⟩ := fresh_channel fd w
  change (Poller.updateChannel w.allocated (fresh fd w)).channels_ fd = _
  rw [updateChannel_kNew hidx, hfd]
  exact Function.update_self _ _ _

theorem adopted (fd : ℤ) (w : World) : Adopted w (adopt fd w) fd := by
  let p := w.allocated
  let w₁ := (Socket.new fd w).2
  let w₂ := w₁.setSocket p fun s => { s with
    messageCallback_ := w₁.server.messageCallback_
    writeCallback_ := w₁.server.writeCompleteCallback_
    closeCallback_ := true }
  let w₃ := TcpServer.insertConnection p w₂
  obtain ⟨hreactor, hsocket, hallocated, hconn⟩ := insertConnection_fields p w₂
  have hself : w₂.socket p = { w₁.socket p with
      messageCallback_ := w₁.server.messageCallback_
      writeCallback_ := w₁.server.writeCompleteCallback_
      closeCallback_ := true } := Function.update_self _ _ _
  have hinit : w₁.socket p = Socket.init fd (w.kernel.descriptors fd) := Function.update_self _ _ _
  have hfd : (w₂.socket p).fd_ = fd := by
    rw [hself, hinit]
    rfl
  have hadopt : adopt fd w = w₃.onReactor (EventLoop.updateChannel p) := rfl
  rw [hadopt]
  refine ⟨?_, hallocated, ?_, ?_, ?_⟩
  · rw [← new_log fd w]
    change w₁.kernel.ctlLog <+: (Poller.updateChannel p w₃.toReactor).kernel.ctlLog
    rw [hreactor]
    exact updateChannel_grows p w₁.toReactor
  · change (w₃.socket p).fd_ = fd
    rw [hsocket, hfd]
  · refine updateChannel_table ?_
    rw [hreactor]
    exact new_table fd w
  · change w₃.server.connections_ fd ≠ none
    rw [← hfd]
    exact hconn

/-- A Socket is made for the descriptor -1, registered and handed to the application. -/
theorem failed_accept_adopts {env : Env} {errno : ℕ} {w : World}
    (hopen : w.kernel.descriptors (w.socket w.server.acceptor).fd_ ≠ none)
    (hresult : env.accept = .fail errno) (herrno : errno ∈ tolerated) :
    (∃ u, Adopted (w.setErrno errno) u (-1) ∧ TcpServer.accept env w =
      runCallback u.server.connectionCallback_ env.connectionCallback u) ∧
    ¬LeavesAlone env w := by
  have hrun := accept_adopts hopen hresult herrno
  have hadopted := adopted (-1) (w.setErrno errno)
  refine ⟨⟨_, hadopted, hrun⟩, ?_⟩
  rintro ⟨t, ht, _, _, _, _, hallocated, _⟩
  rw [hrun] at ht
  have hmade := (runCallback_steady ht).allocated
  rw [hadopted.allocated, hallocated] at hmade
  exact Nat.succ_ne_self _ hmade.symm

def failedOnce : World :=
  match TcpServer.accept { idle with accept := .fail EAGAIN } (firstConnection 0) with
  | .ok w => w
  | .error _ => firstConnection 0

theorem failed_accept_adopts_again :
    failedOnce.server.connections_ 5 = some 1 ∧ failedOnce.server.connections_ (-1) = some 2 ∧
    (∃ u, Adopted (failedOnce.setErrno EMFILE) u (-1) ∧
      TcpServer.accept { idle with accept := .fail EMFILE } failedOnce =
        runCallback u.server.connectionCallback_ [] u) ∧
    ¬LeavesAlone { idle with accept := .fail EMFILE } failedOnce :=
  ⟨rfl, rfl, failed_accept_adopts (by decide +kernel) rfl (by decide)⟩

theorem accept_registers_invalid : ∃ t,
    TcpServer.accept { idle with accept := .fail EAGAIN }
      (TcpServer.start 3 (World.boot fun _ => none)) = .ok t ∧
    Started (TcpServer.start 3 (World.boot fun _ => none)) ∧
    t.kernel.ctlLog = [⟨.add, 3, 0⟩, ⟨.add, -1, EBADF⟩, ⟨.mod, -1, EBADF⟩] ∧
    t.channels_ (-1) = some 1 ∧ t.server.connections_ (-1) = some 1 ∧
    ¬LeavesAlone { idle with accept := .fail EAGAIN }
      (TcpServer.start 3 (World.boot fun _ => none)) := by
  refine ⟨_, rfl, started_boot, rfl, rfl, rfl, ?_⟩
  rintro ⟨t, ht, _, htable, _⟩
  cases ht
  have hat := congrFun htable (-1)
  cases hat

end NetPrograms.AcceptFailure
