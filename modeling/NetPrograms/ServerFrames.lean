import NetPrograms.RegisteredChannel
import NetPrograms.SocketCalls

set_option autoImplicit false

namespace NetPrograms.ServerModel
open BufferModel PollerModel PollerMirror

def Channel.bound (c : Channel) : Channel :=
  { c with events_ := 0, index_ := .kNew, eventHandling_ := false }

def Socket.bound (s : Socket) : Socket :=
  { s with inputBuffer_ := ByteQueue.new, outputBuffer_ := ByteQueue.new, closed := false }

def TcpServer.bound (s : TcpServer) : TcpServer := { s with connections_ := fun _ => none }

structure ReactorFrame (r r' : Reactor) : Prop where
  channel : ∀ q, Channel.bound (r'.channel q) = Channel.bound (r.channel q)
  descriptors : r'.kernel.descriptors = r.kernel.descriptors
  accepted : r'.kernel.accepted = r.kernel.accepted

theorem ReactorFrame.trans {r u t : Reactor} (h : ReactorFrame r u) (h' : ReactorFrame u t) :
    ReactorFrame r t :=
  ⟨fun q => (h'.channel q).trans (h.channel q), h'.descriptors.trans h.descriptors,
    h'.accepted.trans h.accepted⟩

theorem update_frame (op : CtlOp) (p : Ptr) (r : Reactor) : ReactorFrame r (Poller.update op p r) :=
  ⟨fun _ => rfl, rfl, rfl⟩

theorem setChannel_frame (f : Channel → Channel) (p : Ptr) (r : Reactor)
    (hf : ∀ c, Channel.bound (f c) = Channel.bound c) : ReactorFrame r (r.setChannel p f) := by
  refine ⟨fun q => ?_, rfl, rfl⟩
  by_cases hq : q = p
  · rw [hq, setChannel_self, hf]
  · exact congrArg Channel.bound (Function.update_of_ne hq _ _)

theorem setIndex_frame (i : Index) (p : Ptr) (r : Reactor) :
    ReactorFrame r (r.setChannel p fun c => { c with index_ := i }) :=
  setChannel_frame _ p r fun _ => rfl

theorem setEntry_frame (fd : ℤ) (e : Option Ptr) (r : Reactor) :
    ReactorFrame r { r with channels_ := Function.update r.channels_ fd e } :=
  ⟨fun _ => rfl, rfl, rfl⟩

theorem updateChannel_frame (p : Ptr) (r : Reactor) :
    ReactorFrame r (Poller.updateChannel p r) := by
  unfold Poller.updateChannel
  dsimp only
  split_ifs
  · exact (setEntry_frame _ _ r).trans ((setIndex_frame .kAdded p _).trans (update_frame _ p _))
  · exact (setIndex_frame .kAdded p r).trans (update_frame _ p _)
  · exact (update_frame _ p r).trans (setIndex_frame .kDeleted p _)
  · exact update_frame _ p r

theorem removeChannel_frame (p : Ptr) (r : Reactor) :
    ReactorFrame r (Poller.removeChannel p r) := by
  unfold Poller.removeChannel
  dsimp only
  split_ifs
  · exact (setEntry_frame _ _ r).trans ((update_frame .del p _).trans (setIndex_frame .kNew p _))
  · exact (setEntry_frame _ _ r).trans (setIndex_frame .kNew p _)

theorem setEvents_frame (f : Mask → Mask) (p : Ptr) (r : Reactor) :
    ReactorFrame r (Channel.setEvents f p r) :=
  (setChannel_frame (fun c => { c with events_ := f c.events_ }) p r fun _ => rfl).trans
    (updateChannel_frame p _)

/-- What every call on a Socket leaves alone. -/
structure Frame (w w' : World) : Prop where
  channel : ∀ q, Channel.bound (w'.channel q) = Channel.bound (w.channel q)
  socket : ∀ q, Socket.bound (w'.socket q) = Socket.bound (w.socket q)
  server : TcpServer.bound w'.server = TcpServer.bound w.server
  allocated : w'.allocated = w.allocated
  accepted : w'.kernel.accepted = w.kernel.accepted

structure Steady (w w' : World) : Prop extends Frame w w' where
  closed : ∀ q, (w'.socket q).closed = (w.socket q).closed
  descriptors : w'.kernel.descriptors = w.kernel.descriptors
  connections_ : w'.server.connections_ = w.server.connections_

theorem Frame.trans {w u t : World} (h : Frame w u) (h' : Frame u t) : Frame w t :=
  ⟨fun q => (h'.channel q).trans (h.channel q), fun q => (h'.socket q).trans (h.socket q),
    h'.server.trans h.server, h'.allocated.trans h.allocated, h'.accepted.trans h.accepted⟩

theorem Steady.trans {w u t : World} (h : Steady w u) (h' : Steady u t) : Steady w t :=
  ⟨h.toFrame.trans h'.toFrame, fun q => (h'.closed q).trans (h.closed q),
    h'.descriptors.trans h.descriptors, h'.connections_.trans h.connections_⟩

theorem Steady.refl (w : World) : Steady w w :=
  ⟨⟨fun _ => rfl, fun _ => rfl, rfl, rfl, rfl⟩, fun _ => rfl, rfl, rfl⟩

section
variable {w w' : World} (h : Frame w w') (q : Ptr)
include h

theorem Frame.channel_fd : (w'.channel q).fd_ = (w.channel q).fd_ :=
  (congrArg Channel.fd_ (h.channel q) :)

theorem Frame.revents : (w'.channel q).revents_ = (w.channel q).revents_ :=
  (congrArg Channel.revents_ (h.channel q) :)

theorem Frame.socket_fd : (w'.socket q).fd_ = (w.socket q).fd_ :=
  (congrArg Socket.fd_ (h.socket q) :)

theorem Frame.file : (w'.socket q).file = (w.socket q).file :=
  (congrArg Socket.file (h.socket q) :)

theorem Frame.acceptor : w'.server.acceptor = w.server.acceptor :=
  (congrArg TcpServer.acceptor h.server :)

end

theorem Recorded.steady {w w' : World} (h : Recorded w w') : Steady w w' := by
  refine ⟨⟨fun q => ?_, fun q => ?_, ?_, h.allocated, h.accepted⟩, fun q => ?_, h.descriptors, ?_⟩
  · rw [h.channel]
  · rw [h.socket]
  · rw [h.server]
  · rw [h.socket]
  · rw [h.server]

theorem onReactor_steady {f : Reactor → Reactor} {w : World}
    (h : ReactorFrame w.toReactor (f w.toReactor)) : Steady w (w.onReactor f) :=
  ⟨⟨h.channel, fun _ => rfl, rfl, rfl, h.accepted⟩, fun _ => rfl, h.descriptors, rfl⟩

theorem setSocket_steady {f : Socket → Socket} (p : Ptr) (w : World)
    (hf : ∀ s, Socket.bound (f s) = Socket.bound s) (hc : ∀ s, (f s).closed = s.closed) :
    Steady w (w.setSocket p f) := by
  have hself : (w.setSocket p f).socket p = f (w.socket p) := Function.update_self _ _ _
  have hother : ∀ q, q ≠ p → (w.setSocket p f).socket q = w.socket q :=
    fun q hq => Function.update_of_ne hq _ _
  refine ⟨⟨fun _ => rfl, fun q => ?_, rfl, rfl, rfl⟩, fun q => ?_, rfl, rfl⟩ <;>
    by_cases hq : q = p
  · rw [hq, hself, hf]
  · rw [hother q hq]
  · rw [hq, hself, hc]
  · rw [hother q hq]

theorem enableWriting_steady (p : Ptr) (w : World) :
    Steady w (w.onReactor (Channel.enableWriting p)) :=
  onReactor_steady (setEvents_frame _ p _)

theorem disableWriting_steady (p : Ptr) (w : World) :
    Steady w (w.onReactor (Channel.disableWriting p)) :=
  onReactor_steady (setEvents_frame _ p _)

theorem setOutputBuffer_steady (p : Ptr) (q : ByteQueue) (w : World) :
    Steady w (setOutputBuffer p q w) :=
  setSocket_steady p w (fun _ => rfl) fun _ => rfl

theorem Send_steady {p : Ptr} {data : List Byte} {result : IoResult} {w w' : World} {v : ℤ}
    (h : Socket.Send p data result w = .ok (v, w')) : Steady w w' := by
  obtain ⟨n, u, hwrite, hsend⟩ := Send_outcome h
  have hu := hwrite.recorded.steady
  cases hsend with
  | full _ | failed _ _ _ => exact hu
  | part q _ _ _ => exact hu.trans (setOutputBuffer_steady p q u)
  | again _ _ _ => exact hu.trans (enableWriting_steady p u)

theorem DrainOutcome.steady {p : Ptr} {n : ℤ} {u w' : World} (h : DrainOutcome p n u w') :
    Steady u w' := by
  cases h with
  | failed _ => exact Steady.refl u
  | part q _ _ _ => exact setOutputBuffer_steady p q u
  | drained q _ _ _ _ =>
    exact (setOutputBuffer_steady p q u).trans (disableWriting_steady p _)
  | complete q _ _ _ _ =>
    have h := (setOutputBuffer_steady p q u).trans (disableWriting_steady p _)
    exact ⟨⟨h.channel, h.socket, h.server, h.allocated, h.accepted⟩, h.closed, h.descriptors,
      h.connections_⟩

theorem handleWrite_steady {p : Ptr} {result : IoResult} {w w' : World}
    (h : Socket.handleWrite p result w = .ok w') : Steady w w' := by
  obtain ⟨n, u, hwrite, hdrain⟩ := handleWrite_outcome h
  exact (log_recorded _ w).steady.trans (hwrite.recorded.steady.trans hdrain.steady)

theorem appCall_steady {c : AppCall} {w w' : World} (h : c.run w = .ok w') : Steady w w' := by
  cases c with
  | send s data result =>
    obtain ⟨_, hsend, h⟩ := bind_ok h
    cases h
    exact Send_steady hsend
  | retrieve s len =>
    obtain ⟨q, _, h⟩ := bind_ok h
    cases h
    exact setSocket_steady s w (fun _ => rfl) fun _ => rfl

theorem require_ok {set : Bool} {v : Unit} (h : World.require set = .ok v) : set = true := by
  cases set with
  | true => rfl
  | false => cases h

/-- The run rule for the calls of a callback. -/
theorem runCallback_induction {P : World → Prop} {set : Bool} {calls : List AppCall}
    {w w' : World} (h : runCallback set calls w = .ok w')
    (hp : ∀ u u' : World, ∀ c ∈ calls, P u → c.run u = .ok u' → P u') (hw : P w) : P w' := by
  obtain ⟨_, _, hrun⟩ := bind_ok h
  clear h
  induction calls generalizing w with
  | nil =>
    cases hrun
    exact hw
  | cons c calls ih =>
    obtain ⟨u, hc, hrest⟩ := bind_ok hrun
    exact ih (fun v v' d hd => hp v v' d (List.mem_cons_of_mem c hd))
      (hp w u c List.mem_cons_self hw hc) hrest

theorem runCallback_steady {set : Bool} {calls : List AppCall} {w w' : World}
    (h : runCallback set calls w = .ok w') : Steady w w' :=
  runCallback_induction h (fun _ _ _ _ hu hc => hu.trans (appCall_steady hc)) (Steady.refl w)

/-- `handleClose` up to the application's callback. -/
def disconnect (p : Ptr) (w : World) : World :=
  let w := w.log (.handleClose p)
  let w := w.onReactor fun r => { r with kernel := r.kernel.close (w.socket p).fd_ }
  let w := w.onReactor (Channel.remove p)
  let w := w.setSocket p fun s => { s with closed := true }
  w.onConnections (Function.update · (w.socket p).fd_ none)

theorem handleClose_outcome {p : Ptr} {env : Env} {w w' : World}
    (h : Socket.handleClose p env w = .ok w') :
    runCallback w.server.closeCallback_ env.closeCallback (disconnect p w) = .ok w' := by
  obtain ⟨_, _, h⟩ := bind_ok h
  exact h

theorem disconnect_socket (p : Ptr) (w : World) : (disconnect p w).socket =
    Function.update w.socket p { w.socket p with closed := true } := rfl

theorem close_frame (fd : ℤ) (r : Reactor) :
    (∀ q, Channel.bound (({ r with kernel := r.kernel.close fd } : Reactor).channel q) =
      Channel.bound (r.channel q)) ∧ (r.kernel.close fd).accepted = r.kernel.accepted := by
  refine ⟨fun _ => rfl, ?_⟩
  unfold Kernel.close
  split_ifs <;> rfl

theorem disconnect_frame (p : Ptr) (w : World) : Frame w (disconnect p w) := by
  obtain ⟨_, hacc⟩ := close_frame (w.socket p).fd_ w.toReactor
  have hrem := removeChannel_frame p
    { w.toReactor with kernel := w.kernel.close (w.socket p).fd_ }
  refine ⟨hrem.channel, fun q => ?_, rfl, rfl, hrem.accepted.trans hacc⟩
  rw [disconnect_socket]
  by_cases hq : q = p
  · rw [hq, Function.update_self]
    rfl
  · rw [Function.update_of_ne hq]

theorem disconnect_descriptors (p : Ptr) (w : World) :
    (disconnect p w).kernel.descriptors =
      Function.update w.kernel.descriptors (w.socket p).fd_ none := by
  have h := (removeChannel_frame p
    { w.toReactor with kernel := w.kernel.close (w.socket p).fd_ }).descriptors
  refine h.trans ?_
  dsimp only [Kernel.close]
  split_ifs with hfd
  · exact (Function.update_eq_self_iff.mpr hfd.symm).symm
  · rfl

theorem handleClose_frame {p : Ptr} {env : Env} {w w' : World}
    (h : Socket.handleClose p env w = .ok w') : Frame w w' :=
  (disconnect_frame p w).trans (runCallback_steady (handleClose_outcome h)).toFrame

inductive ReadOutcome (p : Ptr) (env : Env) (u : World) : ReadResult → World → Prop where
  | message (bytes : List Byte) (w' : World) (hne : bytes ≠ [])
      (h : runCallback (u.socket p).messageCallback_ env.messageCallback u = .ok w') :
      ReadOutcome p env u (.data bytes) w'
  | eof (w' : World) (h : Socket.handleClose p env u = .ok w') :
      ReadOutcome p env u (.data []) w'
  | error (errno savedErrno : ℕ) :
      ReadOutcome p env u (.fail errno) (Socket.handleError p (u.setErrno savedErrno))

def didRead (p : Ptr) (q : ByteQueue) (w : World) : World :=
  ((w.log (.handleRead p)).log (.readv (w.channel p).fd_)).setSocket p fun s =>
    { s with inputBuffer_ := q }

theorem didRead_steady (p : Ptr) (q : ByteQueue) (w : World) : Steady w (didRead p q w) :=
  ((log_recorded _ w).steady.trans (log_recorded _ _).steady).trans
    (setSocket_steady p _ (fun _ => rfl) fun _ => rfl)

theorem handleRead_outcome {p : Ptr} {env : Env} {w w' : World}
    (h : Socket.handleRead p env w = .ok w') :
    ∃ q, ReadOutcome p env (didRead p q w)
      (if w.kernel.descriptors (w.channel p).fd_ = none then .fail EBADF else env.readv) w' := by
  obtain ⟨⟨⟨n, savedErrno⟩, u⟩, hread, h⟩ := bind_ok h
  obtain ⟨⟨v, q⟩, hfd, hu⟩ := bind_ok hread
  cases hu
  refine ⟨q, ?_⟩
  have hcount := (ByteQueue.readFd_result hfd).1
  change n = ReadResult.count (if w.kernel.descriptors (w.channel p).fd_ = none then _ else _)
    at hcount
  generalize (if w.kernel.descriptors (w.channel p).fd_ = none then _ else env.readv) = result
    at hcount ⊢
  dsimp only at h
  cases result with
  | data bytes =>
    change n = (bytes.length : ℤ) at hcount
    cases bytes with
    | nil =>
      rw [hcount] at h
      exact .eof w' h
    | cons b bytes =>
      rw [if_pos (by rw [hcount, List.length_cons]; omega)] at h
      exact .message _ w' (List.cons_ne_nil b bytes) h
  | fail errno =>
    change n = -1 at hcount
    rw [hcount] at h
    cases h
    exact .error errno savedErrno

theorem handleError_recorded (p : Ptr) (w : World) : Recorded w (Socket.handleError p w) := by
  unfold Socket.handleError
  split_ifs
  · exact setErrno_recorded EBADF w
  · exact Recorded.refl w

theorem handleRead_frame {p : Ptr} {env : Env} {w w' : World}
    (h : Socket.handleRead p env w = .ok w') : Frame w w' := by
  obtain ⟨q, hout⟩ := handleRead_outcome h
  refine (didRead_steady p q w).toFrame.trans ?_
  generalize (if w.kernel.descriptors (w.channel p).fd_ = none then _ else env.readv) = result
    at hout
  cases hout with
  | message _ _ _ h => exact (runCallback_steady h).toFrame
  | eof _ h => exact handleClose_frame h
  | error _ savedErrno =>
    exact ((setErrno_recorded savedErrno _).trans (handleError_recorded p _)).steady.toFrame

def socketChannel (fd : ℤ) : Channel :=
  ⟨fd, Channel.kReadEvent, 0, .kAdded, false, some .handleRead, some .handleWrite,
    some .handleClose, none⟩

structure Created (w w' : World) (fd : ℤ) : Prop where
  channel : w'.channel = Function.update w.channel w.allocated (socketChannel fd)
  channels_ : w'.channels_ = Function.update w.channels_ fd (some w.allocated)
  interest : w'.kernel.interest =
    Function.update w.kernel.interest fd (some (Channel.kReadEvent, w.allocated))
  descriptors : w'.kernel.descriptors = w.kernel.descriptors
  accepted : w'.kernel.accepted = w.kernel.accepted
  socket : w'.socket =
    Function.update w.socket w.allocated (Socket.init fd (w.kernel.descriptors fd))
  allocated : w'.allocated = w.allocated + 1
  server : w'.server = w.server

theorem new_created {fd : ℤ} {w : World} (hopen : w.kernel.descriptors fd ≠ none)
    (hint : w.kernel.interest fd = none) : Created w (Socket.new fd w).2 fd := by
  let r := Channel.enableReading w.allocated
    (w.toReactor.setChannel w.allocated fun _ => Channel.new fd)
  have h : Reads w.toReactor r w.allocated fd := enableReading_new w.toReactor _ hopen hint
  refine ⟨?_, h.channels_, h.interest, h.descriptors, h.accepted, rfl, rfl, rfl⟩
  change Function.update r.channel w.allocated { r.channel w.allocated with
    readCallback_ := some .handleRead
    writeCallback_ := some .handleWrite
    closeCallback_ := some .handleClose } = _
  rw [h.channel, Function.update_self, Function.update_idem]
  rfl

theorem Created.registered {w w' : World} {fd : ℤ} (h : Created w w' fd)
    (hopen : w.kernel.descriptors fd ≠ none) : Registered w'.toReactor w.allocated fd := by
  have hch : w'.channel w.allocated = socketChannel fd := by rw [h.channel, Function.update_self]
  have hint : w'.kernel.interest fd = some (Channel.kReadEvent, w.allocated) := by
    rw [h.interest, Function.update_self]
  have htable : w'.channels_ fd = some w.allocated := by rw [h.channels_, Function.update_self]
  refine ⟨⟨?_, ?_, ?_, ?_⟩, ?_, ?_, ?_⟩
  · rw [hch]
    rfl
  · rw [hch, hint]
    exact ⟨fun _ => nofun, fun _ => rfl⟩
  · rw [hch, hint]
    exact fun _ => rfl
  · rw [hch, htable]
    exact ⟨fun _ => nofun, fun _ => rfl⟩
  · rw [hch]
    rfl
  · rw [h.descriptors]
    exact hopen
  · rw [hch]
    exact BitVec.and_self

theorem new_outputBuffer (fd : ℤ) (w : World) :
    ((Socket.new fd w).2.socket w.allocated).outputBuffer_ = ByteQueue.new := by
  have h : (Socket.new fd w).2.socket w.allocated = Socket.init fd (w.kernel.descriptors fd) :=
    Function.update_self _ _ _
  rw [h]
  rfl

end NetPrograms.ServerModel
