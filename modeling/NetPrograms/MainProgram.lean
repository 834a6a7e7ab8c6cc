import NetPrograms.BufferCodec
import NetPrograms.InputIsolation
import NetPrograms.PendingFunctors
import NetPrograms.ScatterRead
import NetPrograms.StorageBound

set_option autoImplicit false

/-!
# The server of main.cpp

`message` takes everything out of the input buffer and sends one reply, the other two callbacks
only log, and there is no callback for a completed write. However much the clients send, an
input buffer is empty again after every dispatch, and its vector stays below a fixed size. Closed
objects stay alive, as in all the model of the server.
-/
namespace NetPrograms.MainProgram
open BufferModel BufferCodec PollerModel PollerMirror ServerModel ChannelDispatch ServerRuns
open InputIsolation ServerLoop PendingFunctors StorageBound ListSegments RunInvariants

def reply : List Byte := [0x61, 0x61, 0x61, 0x61, 0x62, 0x62, 0x62, 0x62, 0x00]

/-- The string that `retrieveAllAsString` returns is only logged. -/
def message (s : Ptr) (result : IoResult) (w : World) : Except Fault World := do
  let inputBuffer_ ← (w.socket s).inputBuffer_.retrieve (w.socket s).inputBuffer_.readableBytes
  let w := w.setSocket s fun s => { s with inputBuffer_ := inputBuffer_ }
  let (_, w) ← Socket.Send s reply result w
  return w

def messageCalls (s : Ptr) (readable : ℕ) (result : IoResult) : List AppCall :=
  [.retrieve s readable, .send s reply result]

theorem message_calls (s : Ptr) (result : IoResult) (w : World) :
    (messageCalls s (w.socket s).inputBuffer_.readableBytes result).foldlM AppCall.run w =
      message s result w := by
  rw [message, messageCalls, List.foldlM_cons]
  change ((w.socket s).inputBuffer_.retrieve _ >>= _) >>= _ = _
  rw [bind_assoc]
  refine bind_congr fun q => ?_
  change (List.foldlM AppCall.run _ [.send s reply result]) = _
  rw [List.foldlM_cons]
  exact bind_pure _

/-- The dispatch of `a` calls back into main.cpp: `message` finds what was readable and what
this `readv` adds, which is no more than it asked for. -/
structure CallsMain (w : World) (a : Ptr × Env) : Prop where
  requested : a.2.readv.delivered.length ≤ (w.socket a.1).inputBuffer_.val.readFdRequest
  message : ∃ result, a.2.messageCallback = messageCalls a.1
    ((w.socket a.1).inputBuffer_.readableBytes + a.2.readv.delivered.length) result
  close : a.2.closeCallback = []
  connection : a.2.connectionCallback = []

def RunsMain (w : World) (it : Iteration) : Prop :=
  EachStep Handles (fun u a _ => CallsMain u a) (EventLoop.poll it.result w)
    (EventLoop.activeChannels_ it w)

def storageLimit : ℕ := kCheapPrepend + (extrabufSize - 1) + extrabufSize

structure Quiet (w : World) : Prop where
  empty : ∀ q, (w.socket q).inputBuffer_.content = []
  storage : ∀ q, (w.socket q).inputBuffer_.val.buffer_.length ≤ storageLimit
  functors : w.loop_.pendingFunctors_ = []

structure Cleared (b : Buffer) : Prop where
  reader : b.readerIndex_ = kCheapPrepend
  writer : b.writerIndex_ = kCheapPrepend
  size : b.buffer_.length ≤ storageLimit

theorem Cleared.content {q : ByteQueue} (h : Cleared q.val) : q.content = [] := by
  have hlen : q.content.length = q.val.writerIndex_ - q.val.readerIndex_ := by
    have hc := q.property.content_length
    exact hc
  rw [h.reader, h.writer, Nat.sub_self] at hlen
  exact List.length_eq_zero_iff.mp hlen

theorem new_cleared : Cleared ByteQueue.new.val := by
  refine ⟨rfl, rfl, ?_⟩
  change Buffer.new.buffer_.length ≤ _
  rw [new_length]
  decide

/-- A spill happens only while the vector is smaller than `extrabuf`, and what is free in front
is never enough for it. -/
theorem readFd_storage {b b' : Buffer} {result : ReadResult} {savedErrno : ℕ} {v : ℤ × ℕ}
    (hb : b.Valid) (hc : Cleared b) (hn : result.delivered.length ≤ b.readFdRequest)
    (h : (Buffer.readFd result savedErrno).run b = .ok v b') :
    b'.buffer_.length ≤ storageLimit := by
  have hsize := hc.size
  cases result with
  | fail errno =>
    cases h
    exact hsize
  | data bytes =>
    have hlen := overwrite_length b.buffer_ b.writerIndex_ _ (readFd_fills hb bytes)
    rcases (readFd_steps h).2 with ⟨_, rfl⟩ | ⟨hspill, happend⟩
    · exact hlen.trans_le hsize
    · have hgrows := append_grows (filledUp_becomes hb hspill).valid happend
      have hwr := hb.writable
      have hwle := hb.writer_le
      have hw := hc.writer
      change bytes.length ≤ b.readFdRequest at hn
      have hextra : b.writableBytes < extrabufSize := by
        by_contra hfull
        rw [Buffer.readFdRequest, if_neg hfull] at hn
        exact absurd hspill (Nat.not_lt.mpr hn)
      rw [Buffer.readFdRequest, if_pos hextra] at hn
      rw [List.length_drop] at hgrows
      unfold Grows filledUp at hgrows
      simp only [hlen] at hgrows
      simp only [storageLimit, extrabufSize, kCheapPrepend] at hsize hextra hn hw ⊢
      rcases hgrows with hsame | ⟨_, hgrown⟩
      · exact hsame.trans_le hsize
      · omega

theorem retrieve_cleared {b b' : Buffer} (hb : b.Valid) (hsize : b.buffer_.length ≤ storageLimit)
    (h : (Buffer.retrieve b.content.length).run b = .ok () b') : Cleared b' := by
  have hdrop := (retrieve_ok hb h).2.content
  rw [List.drop_length] at hdrop
  obtain ⟨hreader, hwriter⟩ := retrieve_drained hb (le_refl _) h hdrop
  exact ⟨hreader, hwriter, (retrieve_length h).trans_le hsize⟩

theorem readFd_nothing {b b' : Buffer} {result : ReadResult} {savedErrno : ℕ} {v : ℤ × ℕ}
    (hb : b.Valid) (hc : Cleared b) (hnone : result.delivered = [])
    (h : (Buffer.readFd result savedErrno).run b = .ok v b') : Cleared b' := by
  have hsize := readFd_storage hb hc (by rw [hnone]; exact Nat.zero_le _) h
  cases result with
  | fail errno =>
    cases h
    exact hc
  | data bytes =>
    obtain rfl : bytes = [] := hnone
    rcases (readFd_steps h).2 with ⟨_, rfl⟩ | ⟨hspill, _⟩
    · have hs := hb.size_lt
      have hw := hb.writer_le
      refine ⟨hc.reader, ?_, hsize⟩
      change sizeAdd b.writerIndex_ 0 = _
      rw [sizeAdd_eq _ _ (by omega), Nat.add_zero]
      exact hc.writer
    · exact absurd hspill (Nat.not_lt_zero _)

theorem run_of_readFd {q q' : ByteQueue} {result : ReadResult} {savedErrno : ℕ} {v : ℤ × ℕ}
    (h : q.readFd result savedErrno = .ok (v, q')) :
    (Buffer.readFd result savedErrno).run q.val = .ok v q'.val := by
  unfold ByteQueue.readFd at h
  split at h
  · rename_i hrun
    cases h
    exact hrun
  · cases h

theorem run_of_retrieve {q q' : ByteQueue} {len : ℕ} (h : q.retrieve len = .ok q') :
    (Buffer.retrieve len).run q.val = .ok () q'.val := by
  unfold ByteQueue.retrieve at h
  split at h
  · rename_i hrun
    cases h
    exact hrun
  · cases h

structure Bindings (c : Channel) : Prop where
  read : c.readCallback_ = none ∨ c.readCallback_ = some .handleRead ∨
    c.readCallback_ = some .accept
  write : c.writeCallback_ = none ∨ c.writeCallback_ = some .handleWrite
  close : c.closeCallback_ = none ∨ c.closeCallback_ = some .handleClose ∨
    c.closeCallback_ = some .acceptorCloseCallback
  error : c.errorCallback_ = none

theorem Bindings.bound {c c' : Channel} (h : Bindings c) (hb : Channel.bound c' = Channel.bound c) :
    Bindings c' := by
  have hread : c'.readCallback_ = c.readCallback_ := (congrArg Channel.readCallback_ hb :)
  have hwrite : c'.writeCallback_ = c.writeCallback_ := (congrArg Channel.writeCallback_ hb :)
  have hclose : c'.closeCallback_ = c.closeCallback_ := (congrArg Channel.closeCallback_ hb :)
  have herror : c'.errorCallback_ = c.errorCallback_ := (congrArg Channel.errorCallback_ hb :)
  exact ⟨hread ▸ h.read, hwrite ▸ h.write, hclose ▸ h.close, herror ▸ h.error⟩

structure Serving (w : World) : Prop where
  input : ∀ q, Cleared (w.socket q).inputBuffer_.val
  bindings : ∀ q, Bindings (w.channel q)
  unset : ∀ q, (w.socket q).writeCallback_ = false
  completes : w.server.writeCompleteCallback_ = false
  functors : w.loop_.pendingFunctors_ = []

theorem Serving.quiet {w : World} (hw : Serving w) : Quiet w :=
  ⟨fun q => (hw.input q).content, fun q => (hw.input q).size, hw.functors⟩

theorem Serving.framed {w t : World} (hw : Serving w) (hf : Frame w t)
    (hin : ∀ q, Cleared (t.socket q).inputBuffer_.val) (hloop : t.loop_ = w.loop_) :
    Serving t := by
  refine ⟨hin, fun q => (hw.bindings q).bound (hf.channel q), fun q => ?_, ?_, ?_⟩
  · exact (congrArg Socket.writeCallback_ (hf.socket q) :).trans (hw.unset q)
  · exact (congrArg TcpServer.writeCompleteCallback_ hf.server :).trans hw.completes
  · rw [hloop]
    exact hw.functors

theorem Serving.same {w t : World} (hw : Serving w) (hf : Frame w t) (hin : SameInput w t)
    (hloop : t.loop_ = w.loop_) : Serving t :=
  hw.framed hf (fun q => by rw [hin q]; exact hw.input q) hloop

theorem send_serving {p : Ptr} {data : List Byte} {result : IoResult} {v : ℤ} {w t : World}
    (h : Socket.Send p data result w = .ok (v, t)) :
    Frame w t ∧ SameInput w t ∧ t.loop_ = w.loop_ :=
  ⟨(Send_steady h).toFrame, send_input h, send_loop h⟩

theorem handleWrite_serving {p : Ptr} {result : IoResult} {w t : World} (hw : Serving w)
    (h : Socket.handleWrite p result w = .ok t) : Serving t :=
  hw.same (handleWrite_steady h).toFrame (handleWrite_input h) (handleWrite_loop (hw.unset p) h)

theorem handleClose_serving {p : Ptr} {env : Env} {w t : World} (hw : Serving w)
    (henv : env.closeCallback = []) (h : Socket.handleClose p env w = .ok t) : Serving t := by
  refine hw.same (handleClose_frame h) (handleClose_input henv h) ?_
  have hrun := handleClose_outcome h
  rw [henv] at hrun
  rw [ServerActions.runCallback_nil hrun]
  rfl

theorem Serving.setInput {w u t : World} {p : Ptr} {q : ByteQueue} (hw : Serving w)
    (hq : Cleared q.val)
    (hother : ∀ r, r ≠ p → (u.socket r).inputBuffer_ = (w.socket r).inputBuffer_)
    (hself : (u.socket p).inputBuffer_ = q) (hf : Frame w t) (hin : SameInput u t)
    (hloop : t.loop_ = w.loop_) : Serving t := by
  refine hw.framed hf (fun r => ?_) hloop
  rw [hin r]
  by_cases hr : r = p
  · rw [hr, hself]
    exact hq
  · rw [hother r hr]
    exact hw.input r

theorem didRead_other {p r : Ptr} (q : ByteQueue) (w : World) (hr : r ≠ p) :
    ((didRead p q w).socket r).inputBuffer_ = (w.socket r).inputBuffer_ :=
  congrArg Socket.inputBuffer_ (Function.update_of_ne hr _ _)

theorem didRead_self (p : Ptr) (q : ByteQueue) (w : World) :
    ((didRead p q w).socket p).inputBuffer_ = q := by
  have hself : (didRead p q w).socket p = { w.socket p with inputBuffer_ := q } :=
    Function.update_self _ _ _
  rw [hself]

theorem message_serving {p : Ptr} {q : ByteQueue} {result : IoResult} {w t : World}
    (hw : Serving w) (hsize : q.val.buffer_.length ≤ storageLimit)
    (h : message p result (didRead p q w) = .ok t) : Serving t := by
  obtain ⟨q₁, hq₁, h⟩ := bind_ok h
  obtain ⟨⟨v, u⟩, hsend, he⟩ := bind_ok h
  obtain rfl : u = t := Except.ok.inj he
  rw [didRead_self, ByteQueue.readableBytes_eq] at hq₁
  have hcleared : Cleared q₁.val := retrieve_cleared q.property hsize (run_of_retrieve hq₁)
  obtain ⟨hf, hin, hloop⟩ := send_serving hsend
  let w₁ := (didRead p q w).setSocket p fun s => { s with inputBuffer_ := q₁ }
  have hself : w₁.socket p = { (didRead p q w).socket p with inputBuffer_ := q₁ } :=
    Function.update_self _ _ _
  have hset : Steady (didRead p q w) w₁ := setSocket_steady p _ (fun _ => rfl) fun _ => rfl
  refine hw.setInput (p := p) hcleared (fun r hr => ?_) ?_
    (((didRead_steady p q w).trans hset).toFrame.trans hf) hin hloop
  · exact (congrArg Socket.inputBuffer_ (Function.update_of_ne hr _ _)).trans
      (didRead_other q w hr)
  · exact congrArg Socket.inputBuffer_ hself

theorem handleRead_serving {p : Ptr} {env : Env} {w t : World} (hw : Serving w)
    (hmain : CallsMain w (p, env)) (h : Socket.handleRead p env w = .ok t) : Serving t := by
  obtain ⟨⟨⟨n, savedErrno⟩, u⟩, hread, h⟩ := bind_ok h
  obtain ⟨⟨v, q⟩, hfd, hu⟩ := bind_ok hread
  obtain ⟨hcount, hcontent⟩ := ByteQueue.readFd_result hfd
  have hrun := run_of_readFd hfd
  have hvalid := (w.socket p).inputBuffer_.property
  have hcleared := hw.input p
  have hcase : (if w.kernel.descriptors (w.channel p).fd_ = none then ReadResult.fail EBADF
      else env.readv) = .fail EBADF ∨ (if w.kernel.descriptors (w.channel p).fd_ = none then
      ReadResult.fail EBADF else env.readv) = env.readv := by
    split_ifs
    · exact .inl rfl
    · exact .inr rfl
  change v.1 = ReadResult.count (if w.kernel.descriptors (w.channel p).fd_ = none then _ else _)
    at hcount
  change (Buffer.readFd (if w.kernel.descriptors (w.channel p).fd_ = none then _ else _) _).run _ =
    _ at hrun
  change q.content = _ ++ (if w.kernel.descriptors (w.channel p).fd_ = none then ReadResult.fail _
    else _).delivered at hcontent
  generalize (if w.kernel.descriptors (w.channel p).fd_ = none then ReadResult.fail EBADF
    else env.readv) = result at hcount hcontent hrun hcase
  have hsize : q.val.buffer_.length ≤ storageLimit := by
    refine readFd_storage hvalid hcleared ?_ hrun
    rcases hcase with rfl | rfl
    · exact Nat.zero_le _
    · exact hmain.requested
  have hnothing : result.delivered = [] → Serving (didRead p q w) := fun hnone =>
    hw.setInput (readFd_nothing hvalid hcleared hnone hrun) (fun r => didRead_other q w)
      (didRead_self p q w) (didRead_steady p q w).toFrame (fun _ => rfl) rfl
  cases hu
  change n = result.count at hcount
  change (if 0 < n then runCallback ((didRead p q w).socket p).messageCallback_ _ (didRead p q w)
    else if n = 0 then Socket.handleClose p env (didRead p q w) else _) = _ at h
  split_ifs at h with hpos hzero
  · obtain rfl : result = env.readv := by
      rcases hcase with rfl | rfl
      · rw [hcount] at hpos
        exact absurd hpos (by decide)
      · rfl
    obtain ⟨sent, hmessage⟩ := hmain.message
    obtain ⟨_, _, hcalls⟩ := bind_ok h
    have hreadable : (w.socket p).inputBuffer_.readableBytes + env.readv.delivered.length =
        ((didRead p q w).socket p).inputBuffer_.readableBytes := by
      rw [didRead_self, ByteQueue.readableBytes_eq, ByteQueue.readableBytes_eq, hcontent,
        List.length_append]
      rfl
    change List.foldlM AppCall.run (didRead p q w) env.messageCallback = _ at hcalls
    rw [hmessage, hreadable, message_calls] at hcalls
    exact message_serving hw hsize hcalls
  · refine handleClose_serving (hnothing ?_) hmain.close h
    cases result with
    | fail _ => rfl
    | data bytes =>
      change n = (bytes.length : ℤ) at hcount
      change bytes = []
      exact List.length_eq_zero_iff.mp (by omega)
  · have hnone : result.delivered = [] := by
      cases result with
      | fail _ => rfl
      | data bytes =>
        change n = (bytes.length : ℤ) at hcount
        omega
    cases h
    have hrec := (setErrno_recorded savedErrno (didRead p q w)).trans (handleError_recorded p _)
    refine (hnothing hnone).same hrec.steady.toFrame (recorded_input hrec) ?_
    unfold Socket.handleError
    split_ifs <;> rfl

theorem Serving.kernel {w : World} (hw : Serving w) (k : Kernel) :
    Serving (w.onReactor fun r => { r with kernel := k }) :=
  ⟨hw.input, hw.bindings, hw.unset, hw.completes, hw.functors⟩

theorem setChannel_bindings {w : World} (hw : Serving w) {f : Channel → Channel} {p : Ptr}
    (hf : Bindings (f (w.channel p))) : Serving (w.onReactor (·.setChannel p f)) := by
  refine ⟨hw.input, fun q => ?_, hw.unset, hw.completes, hw.functors⟩
  change Bindings ((w.toReactor.setChannel p f).channel q)
  by_cases hq : q = p
  · rw [hq, setChannel_self]
    exact hf
  · have hother : (w.toReactor.setChannel p f).channel q = w.channel q :=
      Function.update_of_ne hq _ _
    rw [hother]
    exact hw.bindings q

theorem setSocket_serving {w : World} (hw : Serving w) {f : Socket → Socket} {p : Ptr}
    (hinput : Cleared (f (w.socket p)).inputBuffer_.val)
    (hunset : (f (w.socket p)).writeCallback_ = false) : Serving (w.setSocket p f) := by
  have hself : (w.setSocket p f).socket p = f (w.socket p) := Function.update_self _ _ _
  have hother : ∀ q, q ≠ p → (w.setSocket p f).socket q = w.socket q :=
    fun q hq => Function.update_of_ne hq _ _
  refine ⟨fun q => ?_, hw.bindings, fun q => ?_, hw.completes, hw.functors⟩ <;>
    by_cases hq : q = p
  · rw [hq, hself]
    exact hinput
  · rw [hother q hq]
    exact hw.input q
  · rw [hq, hself]
    exact hunset
  · rw [hother q hq]
    exact hw.unset q

theorem new_serving (fd : ℤ) {w : World} (hw : Serving w) : Serving (Socket.new fd w).2 := by
  let p := w.allocated
  let w₀ : World := { w with allocated := p + 1 }
  have hw₀ : Serving w₀ := ⟨hw.input, hw.bindings, hw.unset, hw.completes, hw.functors⟩
  let w₁ := w₀.setSocket p fun _ => Socket.init fd (w.kernel.descriptors fd)
  have hw₁ : Serving w₁ := setSocket_serving hw₀ new_cleared rfl
  let w₂ := w₁.onReactor (·.setChannel p fun _ => Channel.new fd)
  have hw₂ : Serving w₂ := setChannel_bindings hw₁ ⟨.inl rfl, .inl rfl, .inl rfl, rfl⟩
  have hw₃ : Serving (w₂.onReactor (Channel.enableReading p)) :=
    hw₂.same (onReactor_steady (setEvents_frame _ p _)).toFrame (fun _ => rfl) rfl
  exact setChannel_bindings hw₃
    ⟨.inr (.inl rfl), .inr rfl, .inr (.inl rfl), (hw₃.bindings p).error⟩

theorem adopt_serving (fd : ℤ) {w : World} (hw : Serving w) :
    Serving (AcceptFailure.adopt fd w) := by
  let p := w.allocated
  let w₁ := (Socket.new fd w).2
  have hw₁ : Serving w₁ := new_serving fd hw
  let w₂ := w₁.setSocket p fun s => { s with
    messageCallback_ := w₁.server.messageCallback_
    writeCallback_ := w₁.server.writeCompleteCallback_
    closeCallback_ := true }
  have hw₂ : Serving w₂ := setSocket_serving hw₁ (hw₁.input p) hw₁.completes
  have hw₃ : Serving (TcpServer.insertConnection p w₂) := by
    unfold TcpServer.insertConnection
    dsimp only
    split
    · exact hw₂
    · exact ⟨hw₂.input, hw₂.bindings, hw₂.unset, hw₂.completes, hw₂.functors⟩
  exact hw₃.same (onReactor_steady (updateChannel_frame p _)).toFrame (fun _ => rfl) rfl

theorem accept_serving {env : Env} {w t : World} (hw : Serving w)
    (henv : env.connectionCallback = []) (h : TcpServer.accept env w = .ok t) : Serving t := by
  have hu : Serving (TcpServer.kernelAccept env.accept w).2 := by
    unfold TcpServer.kernelAccept
    split <;> exact hw.kernel _
  unfold TcpServer.accept at h
  generalize TcpServer.kernelAccept env.accept w = x at h hu
  obtain ⟨connfd, u⟩ := x
  have hadopt : ∀ {set}, runCallback set env.connectionCallback (AcceptFailure.adopt connfd u) =
      .ok t → Serving t := by
    intro set hrun
    rw [henv] at hrun
    rw [ServerActions.runCallback_nil hrun]
    exact adopt_serving connfd hu
  dsimp only at h
  split_ifs at h
  · exact hadopt h
  · cases h
  · cases h
  · exact hadopt h

theorem acceptorClose_serving {w : World} (hw : Serving w) :
    Serving (TcpServer.acceptorCloseCallback w) :=
  ⟨hw.input, hw.bindings, hw.unset, hw.completes, hw.functors⟩

theorem setEventHandling_serving (b : Bool) (p : Ptr) {w : World} (hw : Serving w) :
    Serving (Channel.setEventHandling b p w) :=
  hw.same (setEventHandling_steady b p w).toFrame (fun _ => rfl) rfl

theorem handleHangUp_serving {p : Ptr} {env : Env} {w t : World} (hw : Serving w)
    (henv : env.closeCallback = []) (h : Channel.handleHangUp p env w = .ok t) :
    Serving t ∧ SameInput w t := by
  unfold Channel.handleHangUp at h
  split_ifs at h
  · rcases (hw.bindings p).close with hcb | hcb | hcb <;> rw [hcb] at h
    · cases h
      exact ⟨hw, fun _ => rfl⟩
    · have hclose : Socket.handleClose p env w = .ok t := h
      exact ⟨handleClose_serving hw henv hclose, handleClose_input henv hclose⟩
    · cases h
      exact ⟨acceptorClose_serving hw, fun _ => rfl⟩
  · cases h
    exact ⟨hw, fun _ => rfl⟩

theorem handleErr_same {p : Ptr} {env : Env} {w t : World} (hw : Serving w)
    (h : Channel.handleErr p env w = .ok t) : t = w := by
  unfold Channel.handleErr at h
  rw [(hw.bindings p).error] at h
  split_ifs at h <;> cases h <;> rfl

theorem handleIn_serving {p : Ptr} {env : Env} {w t : World} (hw : Serving w)
    (hmain : CallsMain w (p, env)) (h : Channel.handleIn p env w = .ok t) : Serving t := by
  unfold Channel.handleIn at h
  split_ifs at h
  · rcases (hw.bindings p).read with hcb | hcb | hcb <;> rw [hcb] at h
    · cases h
      exact hw
    · exact handleRead_serving hw hmain h
    · exact accept_serving hw hmain.connection h
  · cases h
    exact hw

theorem handleOut_serving {p : Ptr} {env : Env} {w t : World} (hw : Serving w)
    (h : Channel.handleOut p env w = .ok t) : Serving t := by
  unfold Channel.handleOut at h
  split_ifs at h
  · rcases (hw.bindings p).write with hcb | hcb <;> rw [hcb] at h
    · cases h
      exact hw
    · exact handleWrite_serving hw h
  · cases h
    exact hw

theorem handle_serving (w : World) (a : Ptr × Env) (t : World) (hw : Serving w)
    (hstep : Handles w a t) (hmain : CallsMain w a) : Serving t := by
  obtain ⟨p, env⟩ := a
  obtain ⟨w₁, w₂, w₃, w₄, h₁, h₂, h₃, h₄, rfl⟩ := handleEvent_parts hstep
  obtain ⟨hw₁, hin⟩ := handleHangUp_serving (setEventHandling_serving true p hw) hmain.close h₁
  obtain rfl := handleErr_same hw₁ h₂
  have hbuffer : (w₂.socket p).inputBuffer_ = (w.socket p).inputBuffer_ := hin p
  have hmain₂ : CallsMain w₂ (p, env) :=
    ⟨hbuffer ▸ hmain.requested, hbuffer ▸ hmain.message, hmain.close, hmain.connection⟩
  exact setEventHandling_serving false p (handleOut_serving (handleIn_serving hw₁ hmain₂ h₃) h₄)

theorem markAll_bindings (events : List EpollEvent) {r : Reactor}
    (hr : ∀ q, Bindings (r.channel q)) (q : Ptr) :
    Bindings ((markAll events r).channel q) := by
  induction events generalizing r with
  | nil => exact hr q
  | cons e events ih =>
    refine ih fun s => ?_
    by_cases hs : s = e.ptr
    · rw [hs]
      have hself : (Channel.set_revents e.events e.ptr r).channel e.ptr =
          { r.channel e.ptr with revents_ := e.events } := setChannel_self r _ _
      rw [hself]
      exact ⟨(hr _).read, (hr _).write, (hr _).close, (hr _).error⟩
    · have hother : (Channel.set_revents e.events e.ptr r).channel s = r.channel s :=
        Function.update_of_ne hs _ _
      rw [hother]
      exact hr s

theorem poll_serving (result : WaitResult) {w : World} (hw : Serving w) :
    Serving (EventLoop.poll result w) := by
  refine ⟨hw.input, fun q => ?_, hw.unset, hw.completes, hw.functors⟩
  change Bindings ((Poller.poll result w.toReactor []).1.channel q)
  cases result with
  | fail errno => exact hw.bindings q
  | ready events =>
    let r : Reactor := { w.toReactor with events_ := overwrite w.events_ 0 events }
    have hr : ∀ s, Bindings (r.channel s) := hw.bindings
    simp only [Poller.poll, Poller.fillActiveChannels, fill_eq]
    split_ifs
    · exact markAll_bindings _ hr q
    · exact hw.bindings q

theorem iterate_serving (w : World) (it : Iteration) (t : World) (hw : Serving w)
    (hstep : Iterates w it t) (hmain : RunsMain w it) : Serving t := by
  have hu : Unqueued w := ⟨hw.unset, hw.completes, hw.functors⟩
  exact (always_iff_run _ _ _).mp
    (Always.of_invariant Serving handle_serving hmain (poll_serving it.result hw)) _ t
    List.prefix_rfl (handleEvents_run ((iterates_iff hu).mp hstep).2)

theorem started_serving {w : World} (hw : Started w) : Serving (EventLoop.enter w) := by
  obtain ⟨descriptors, fd, _, _, rfl⟩ := hw
  have hboot : Serving (World.boot descriptors) :=
    ⟨fun _ => new_cleared, fun _ => ⟨.inl rfl, .inl rfl, .inl rfl, rfl⟩, fun _ => rfl, rfl, rfl⟩
  let w₁ := (Socket.new fd ((World.boot descriptors).onReactor fun r => { r with
    kernel := { r.kernel with
      descriptors := Function.update r.kernel.descriptors fd (some .other) } })).2
  have hw₁ : Serving w₁ := new_serving fd (hboot.kernel _)
  let w₂ := { w₁ with server := { w₁.server with acceptor := 0 } }
  have hw₂ : Serving w₂ := ⟨hw₁.input, hw₁.bindings, hw₁.unset, hw₁.completes, hw₁.functors⟩
  have hb₂ := hw₂.bindings 0
  have hw₃ : Serving (Socket.setChanReadCallback .accept 0 w₂) :=
    setChannel_bindings hw₂ ⟨.inr (.inr rfl), hb₂.write, hb₂.close, hb₂.error⟩
  have hb₃ := hw₃.bindings 0
  have hw₄ : Serving (Socket.setChanCloseCallback .acceptorCloseCallback 0
      (Socket.setChanReadCallback .accept 0 w₂)) :=
    setChannel_bindings hw₃ ⟨hb₃.read, hb₃.write, .inr (.inr rfl), hb₃.error⟩
  exact ⟨hw₄.input, hw₄.bindings, hw₄.unset, hw₄.completes, hw₄.functors⟩

/-- While main.cpp runs, every input buffer is empty again after each iteration, no vector is
larger than 131079 bytes whatever the clients send, and no functor is ever queued. -/
theorem main_drains (w : World) (hw : Started w) (its : List Iteration)
    (hmain : EachStep Iterates (fun w it _ => RunsMain w it) (EventLoop.enter w) its) :
    Always Iterates Quiet (EventLoop.enter w) its :=
  (Always.of_invariant Serving iterate_serving hmain (started_serving hw)).mono fun _ h =>
    h.quiet

def callsMain (w : World) (a : Ptr × Env) (_ : World) : Bool :=
  a.2.readv.delivered.length ≤ (w.socket a.1).inputBuffer_.val.readFdRequest ∧
    a.2.messageCallback = messageCalls a.1
      ((w.socket a.1).inputBuffer_.readableBytes + a.2.readv.delivered.length) (.count 9) ∧
    a.2.closeCallback = [] ∧ a.2.connectionCallback = []

def runsMain (w : World) (it : Iteration) (t : World) : Bool :=
  checkRun (fun w a => Channel.handleEvent a.1 a.2 w) callsMain (EventLoop.poll it.result w)
      (EventLoop.activeChannels_ it w) = true ∧ t.loop_.pendingFunctors_ = []

theorem runsMain_of_check {w : World} {its : List Iteration}
    (h : checkRun dispatched runsMain w its = true) :
    EachStep Iterates (fun w it _ => RunsMain w it) w its := by
  refine .of_check id (fun hu hc hstep => ?_) (fun hc => ?_) h
  · exact ((iterates_of_dispatched hu (of_decide_eq_true hc).2).mp hstep).2
  · refine .of_check id (fun hu _ hstep => Except.ok.inj (hu.symm.trans hstep)) (fun ha => ?_)
      (of_decide_eq_true hc).1
    obtain ⟨hrequested, hmessage, hclose, hconnection⟩ := of_decide_eq_true ha
    exact ⟨hrequested, ⟨_, hmessage⟩, hclose, hconnection⟩

theorem main_drains_session :
    Always Iterates Quiet (EventLoop.enter (TcpServer.start 3 (World.boot fun _ => none)))
      (session fun p readable => messageCalls p readable (.count 9)) :=
  main_drains _ started_boot _ (runsMain_of_check (by decide +kernel))

end NetPrograms.MainProgram
