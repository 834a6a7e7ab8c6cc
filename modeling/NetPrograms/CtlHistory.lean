import NetPrograms.ServerAccept

set_option autoImplicit false

namespace NetPrograms.CtlHistory
open BufferModel PollerModel PollerMirror ServerModel ChannelDispatch ServerTables

theorem update_log (op : CtlOp) (p : Ptr) (r : Reactor) :
    (Poller.update op p r).kernel.ctlLog = r.kernel.ctlLog ++
      [⟨op, (r.channel p).fd_, r.kernel.ctlErrno op (r.channel p).fd_⟩] := rfl

theorem update_grows (op : CtlOp) (p : Ptr) (r : Reactor) :
    r.kernel.ctlLog <+: (Poller.update op p r).kernel.ctlLog := by
  rw [update_log]
  exact List.prefix_append _ _

theorem updateChannel_grows (p : Ptr) (r : Reactor) :
    r.kernel.ctlLog <+: (Poller.updateChannel p r).kernel.ctlLog := by
  unfold Poller.updateChannel
  dsimp only
  split_ifs <;> exact List.prefix_append _ _

theorem removeChannel_grows (p : Ptr) (r : Reactor) :
    r.kernel.ctlLog <+: (Poller.removeChannel p r).kernel.ctlLog := by
  unfold Poller.removeChannel
  dsimp only
  split_ifs
  · exact update_grows .del p { r with channels_ := _ }
  · exact List.prefix_rfl

theorem setEvents_grows (f : Mask → Mask) (p : Ptr) (r : Reactor) :
    r.kernel.ctlLog <+: (Channel.setEvents f p r).kernel.ctlLog :=
  updateChannel_grows p (r.setChannel p fun c => { c with events_ := f c.events_ })

def Grows (w w' : World) : Prop := w.kernel.ctlLog <+: w'.kernel.ctlLog

theorem Grows.refl (w : World) : Grows w w := List.prefix_rfl

theorem Grows.trans {w u t : World} (h : Grows w u) (h' : Grows u t) : Grows w t :=
  List.IsPrefix.trans h h'

theorem Grows.invalid {w w' : World} (h : Grows w w') (hw : ¬CtlValid w.kernel) :
    ¬CtlValid w'.kernel :=
  fun hv => hw fun c hc => hv c (h.subset hc)

theorem writeOutcome_log {p : Ptr} {data : List Byte} {w u : World} {result : IoResult} {n : ℤ}
    (h : WriteOutcome p data w result n u) : u.kernel.ctlLog = w.kernel.ctlLog := by
  cases h <;> rfl

theorem send_grows {p : Ptr} {data : List Byte} {result : IoResult} {w w' : World} {v : ℤ}
    (h : Socket.Send p data result w = .ok (v, w')) : Grows w w' := by
  obtain ⟨n, u, hwrite, hsend⟩ := Send_outcome h
  rw [Grows, ← writeOutcome_log hwrite]
  cases hsend with
  | full _ | failed _ _ _ | part _ _ _ _ => exact List.prefix_rfl
  | again _ _ _ => exact setEvents_grows _ p u.toReactor

theorem handleWrite_grows {p : Ptr} {result : IoResult} {w w' : World}
    (h : Socket.handleWrite p result w = .ok w') : Grows w w' := by
  obtain ⟨n, u, hwrite, hdrain⟩ := handleWrite_outcome h
  have hlog := writeOutcome_log hwrite
  change u.kernel.ctlLog = w.kernel.ctlLog at hlog
  rw [Grows, ← hlog]
  cases hdrain with
  | failed _ | part _ _ _ _ => exact List.prefix_rfl
  | drained q _ _ _ _ | complete q _ _ _ _ =>
    exact setEvents_grows _ p (setOutputBuffer p q u).toReactor

theorem appCall_grows {c : AppCall} {w w' : World} (h : c.run w = .ok w') : Grows w w' := by
  cases c with
  | send s data result =>
    obtain ⟨_, hsend, h⟩ := bind_ok h
    cases h
    exact send_grows hsend
  | retrieve s len =>
    obtain ⟨_, _, h⟩ := bind_ok h
    cases h
    exact List.prefix_rfl

theorem runCallback_grows {set : Bool} {calls : List AppCall} {w w' : World}
    (h : runCallback set calls w = .ok w') : Grows w w' :=
  runCallback_induction h (fun _ _ _ _ hu hc => hu.trans (appCall_grows hc)) (Grows.refl w)

theorem close_log (fd : ℤ) (k : Kernel) : (k.close fd).ctlLog = k.ctlLog := by
  unfold Kernel.close
  split_ifs <;> rfl

theorem disconnect_grows (p : Ptr) (w : World) : Grows w (disconnect p w) := by
  have hremove := removeChannel_grows p
    { w.toReactor with kernel := w.kernel.close (w.socket p).fd_ }
  dsimp only at hremove
  rw [close_log] at hremove
  exact hremove

theorem handleClose_grows {p : Ptr} {env : Env} {w w' : World}
    (h : Socket.handleClose p env w = .ok w') : Grows w w' :=
  (disconnect_grows p w).trans (runCallback_grows (handleClose_outcome h))

theorem handleError_log (p : Ptr) (w : World) :
    (Socket.handleError p w).kernel.ctlLog = w.kernel.ctlLog := by
  unfold Socket.handleError
  split_ifs <;> rfl

theorem handleRead_grows {p : Ptr} {env : Env} {w w' : World}
    (h : Socket.handleRead p env w = .ok w') : Grows w w' := by
  obtain ⟨q, hout⟩ := handleRead_outcome h
  generalize (if w.kernel.descriptors (w.channel p).fd_ = none then _ else env.readv) = result
    at hout
  change Grows (didRead p q w) w'
  cases hout with
  | message _ _ _ h => exact runCallback_grows h
  | eof _ h => exact handleClose_grows h
  | error _ savedErrno =>
    rw [Grows, handleError_log]
    exact List.prefix_rfl

theorem updateChannel_kNew_log {r : Reactor} {p : Ptr} (hidx : (r.channel p).index_ = .kNew) :
    (Poller.updateChannel p r).kernel.ctlLog = r.kernel.ctlLog ++
      [⟨.add, (r.channel p).fd_, r.kernel.ctlErrno .add (r.channel p).fd_⟩] := by
  rw [updateChannel_kNew hidx, update_log, setChannel_self]
  rfl

def fresh (fd : ℤ) (w : World) : Reactor :=
  (w.toReactor.setChannel w.allocated fun _ => Channel.new fd).setChannel w.allocated
    fun c => { c with events_ := c.events_ ||| Channel.kReadEvent }

theorem fresh_channel (fd : ℤ) (w : World) : ((fresh fd w).channel w.allocated).index_ = .kNew ∧
    ((fresh fd w).channel w.allocated).fd_ = fd := by
  have hnew := setChannel_self w.toReactor w.allocated fun _ => Channel.new fd
  rw [fresh, setChannel_self]
  dsimp only
  rw [hnew]
  exact ⟨rfl, rfl⟩

theorem new_log (fd : ℤ) (w : World) : (Socket.new fd w).2.kernel.ctlLog =
    w.kernel.ctlLog ++ [⟨.add, fd, w.kernel.ctlErrno .add fd⟩] := by
  obtain ⟨hidx, hfd⟩ := fresh_channel fd w
  have hlog := updateChannel_kNew_log hidx
  rw [hfd] at hlog
  exact hlog

theorem insertConnection_fields (p : Ptr) (w : World) :
    (TcpServer.insertConnection p w).toReactor = w.toReactor ∧
    (TcpServer.insertConnection p w).socket = w.socket ∧
    (TcpServer.insertConnection p w).allocated = w.allocated ∧
    (TcpServer.insertConnection p w).server.connections_ (w.socket p).fd_ ≠ none := by
  unfold TcpServer.insertConnection
  dsimp only
  cases hconn : w.server.connections_ (w.socket p).fd_ with
  | none =>
    refine ⟨rfl, rfl, rfl, ?_⟩
    change Function.update w.server.connections_ (w.socket p).fd_ (some p) _ ≠ none
    rw [Function.update_self]
    nofun
  | some q =>
    refine ⟨rfl, rfl, rfl, ?_⟩
    dsimp only
    rw [hconn]
    nofun

end NetPrograms.CtlHistory
