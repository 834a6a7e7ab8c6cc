import NetPrograms.ServerFrames

set_option autoImplicit false

namespace NetPrograms.ChannelDispatch
open BufferModel PollerModel ServerModel

def Concerns (p : Ptr) (fd : ℤ) : Call → Prop
  | .handleRead q | .handleWrite q | .handleClose q => q = p
  | .readv f | .write f => f = fd

/-- At most one `handleClose` of `p`, and nothing that concerns `p` after it. -/
def Quiet (p : Ptr) (fd : ℤ) (calls : List Call) : Prop :=
  calls.Pairwise fun c c' => c = .handleClose p → ¬Concerns p fd c'

theorem quiet_of_open {p : Ptr} {fd : ℤ} {calls : List Call}
    (h : ∀ c ∈ calls, c ≠ .handleClose p) : Quiet p fd calls :=
  List.pairwise_iff_forall_sublist.mpr fun hsub hc =>
    absurd hc (h _ (hsub.subset List.mem_cons_self))

theorem quiet_close {p : Ptr} {fd : ℤ} {before after : List Call}
    (hb : ∀ c ∈ before, c ≠ .handleClose p) :
    Quiet p fd (before ++ .handleClose p :: after) ↔ ∀ c ∈ after, ¬Concerns p fd c := by
  rw [Quiet, List.pairwise_append, List.pairwise_cons]
  constructor
  · exact fun h c hc => h.2.1.1 c hc rfl
  · refine fun h => ⟨quiet_of_open hb, ⟨fun c hc _ => h c hc, ?_⟩, fun c hc _ _ he =>
      absurd he (hb c hc)⟩
    refine quiet_of_open fun c hc he => h c hc ?_
    rw [he]
    rfl

def appCalls (w : World) : AppCall → List Call
  | .send s _ _ => [.write (w.channel s).fd_]
  | .retrieve _ _ => []

theorem appCalls_frame {w w' : World} (h : Frame w w') : appCalls w' = appCalls w := by
  funext c
  cases c with
  | send s _ _ => rw [appCalls, appCalls, h.channel_fd]
  | retrieve _ _ => rfl

theorem writeOutcome_calls {p : Ptr} {data : List Byte} {result : IoResult} {n : ℤ} {w u : World}
    (h : WriteOutcome p data w result n u) :
    u.calls = w.calls ++ [.write (w.channel p).fd_] := by
  cases h <;> rfl

theorem send_calls {p : Ptr} {data : List Byte} {result : IoResult} {v : ℤ} {w w' : World}
    (h : Socket.Send p data result w = .ok (v, w')) :
    w'.calls = w.calls ++ [.write (w.channel p).fd_] := by
  obtain ⟨n, u, hwrite, hsend⟩ := Send_outcome h
  rw [← writeOutcome_calls hwrite]
  cases hsend <;> rfl

theorem handleWrite_calls {p : Ptr} {result : IoResult} {w w' : World}
    (h : Socket.handleWrite p result w = .ok w') :
    w'.calls = w.calls ++ [.handleWrite p, .write (w.channel p).fd_] := by
  obtain ⟨n, u, hwrite, hdrain⟩ := handleWrite_outcome h
  have hu : w'.calls = u.calls := by cases hdrain <;> rfl
  rw [hu, writeOutcome_calls hwrite]
  exact List.append_assoc w.calls [_] [_]

theorem runCallback_calls {set : Bool} {calls : List AppCall} {w w' : World}
    (h : runCallback set calls w = .ok w') :
    w'.calls = w.calls ++ calls.flatMap (appCalls w) := by
  obtain ⟨_, _, hrun⟩ := bind_ok h
  clear h
  induction calls generalizing w with
  | nil =>
    cases hrun
    exact (List.append_nil _).symm
  | cons c calls ih =>
    obtain ⟨u, hc, hrest⟩ := bind_ok hrun
    have hu : u.calls = w.calls ++ appCalls w c := by
      cases c with
      | send s data result =>
        obtain ⟨_, hsend, h⟩ := bind_ok hc
        cases h
        exact send_calls hsend
      | retrieve s len =>
        obtain ⟨_, _, h⟩ := bind_ok hc
        cases h
        exact (List.append_nil _).symm
    rw [ih hrest, hu, appCalls_frame (appCall_steady hc).toFrame, List.append_assoc]
    rfl

theorem appCalls_open (p : Ptr) (w : World) (calls : List AppCall) :
    ∀ c ∈ calls.flatMap (appCalls w), c ≠ .handleClose p := by
  intro c hc
  obtain ⟨a, _, ha⟩ := List.mem_flatMap.mp hc
  cases a with
  | send _ _ _ =>
    rw [List.mem_singleton.mp ha]
    nofun
  | retrieve _ _ => cases ha

theorem handleClose_calls {p : Ptr} {env : Env} {w w' : World}
    (h : Socket.handleClose p env w = .ok w') :
    w'.calls = w.calls ++ .handleClose p :: env.closeCallback.flatMap (appCalls w) ∧
      w'.kernel.descriptors (w.socket p).fd_ = none := by
  have hrun := handleClose_outcome h
  constructor
  · rw [runCallback_calls hrun, appCalls_frame (disconnect_frame p w)]
    exact List.append_assoc w.calls [_] _
  · rw [(runCallback_steady hrun).descriptors, disconnect_descriptors, Function.update_self]

def SeesEof (p : Ptr) (env : Env) (w : World) : Prop :=
  w.kernel.descriptors (w.channel p).fd_ ≠ none ∧ env.readv = .data []

theorem handleRead_calls {p : Ptr} {env : Env} {w w' : World}
    (h : Socket.handleRead p env w = .ok w') :
    ∃ tail, w'.calls = w.calls ++ ([.handleRead p, .readv (w.channel p).fd_] ++ tail) ∧
      ((SeesEof p env w ∧ tail = .handleClose p :: env.closeCallback.flatMap (appCalls w)) ∨
        (¬SeesEof p env w ∧ ∀ c ∈ tail, c ≠ .handleClose p)) := by
  obtain ⟨q, hout⟩ := handleRead_outcome h
  have hcalls : (didRead p q w).calls =
      w.calls ++ [.handleRead p, .readv (w.channel p).fd_] := List.append_assoc w.calls [_] [_]
  have happ := appCalls_frame (didRead_steady p q w).toFrame
  generalize hr : (if w.kernel.descriptors (w.channel p).fd_ = none then .fail EBADF
    else env.readv) = result at hout
  cases hout with
  | message bytes _ hne hrun =>
    refine ⟨env.messageCallback.flatMap (appCalls w), ?_, .inr ⟨?_, appCalls_open p w _⟩⟩
    · rw [runCallback_calls hrun, happ, hcalls, List.append_assoc]
    · rintro ⟨hopen, heof⟩
      rw [if_neg hopen, heof] at hr
      cases hr
      exact hne rfl
  | eof _ hclose =>
    refine ⟨.handleClose p :: env.closeCallback.flatMap (appCalls w), ?_, .inl ⟨?_, rfl⟩⟩
    · rw [(handleClose_calls hclose).1, happ, hcalls, List.append_assoc]
    · split_ifs at hr with hclosed
      exact ⟨hclosed, hr⟩
  | error errno savedErrno =>
    refine ⟨[], ?_, .inr ⟨?_, nofun⟩⟩
    · have hsame : (Socket.handleError p ((didRead p q w).setErrno savedErrno)).calls =
          (didRead p q w).calls := by
        unfold Socket.handleError
        split_ifs <;> rfl
      rw [hsame, hcalls]
      rfl
    · rintro ⟨hopen, heof⟩
      rw [if_neg hopen, heof] at hr
      cases hr

def hungUp (revents : Mask) : Bool := revents &&& EPOLLHUP ≠ 0 ∧ ¬revents &&& EPOLLIN ≠ 0

def readable (revents : Mask) : Bool := revents &&& (EPOLLIN ||| EPOLLPRI ||| EPOLLRDHUP) ≠ 0

def writable (revents : Mask) : Bool := revents &&& EPOLLOUT ≠ 0

/-- The Channel of a connection: its callbacks are the Socket's. -/
structure Connection (w : World) (p : Ptr) : Prop where
  fd : (w.channel p).fd_ = (w.socket p).fd_
  read : (w.channel p).readCallback_ = some .handleRead
  write : (w.channel p).writeCallback_ = some .handleWrite
  close : (w.channel p).closeCallback_ = some .handleClose
  error : (w.channel p).errorCallback_ = none

theorem Connection.frame {w w' : World} {p : Ptr} (hc : Connection w p) (h : Frame w w') :
    Connection w' p := by
  have hch := h.channel p
  refine ⟨?_, ?_, ?_, ?_, ?_⟩
  · rw [h.channel_fd, h.socket_fd]
    exact hc.fd
  · exact (congrArg Channel.readCallback_ hch :).trans hc.read
  · exact (congrArg Channel.writeCallback_ hch :).trans hc.write
  · exact (congrArg Channel.closeCallback_ hch :).trans hc.close
  · exact (congrArg Channel.errorCallback_ hch :).trans hc.error

theorem setEventHandling_steady (b : Bool) (p : Ptr) (w : World) :
    Steady w (Channel.setEventHandling b p w) :=
  onReactor_steady (setChannel_frame (fun c => { c with eventHandling_ := b }) p _ fun _ => rfl)

section
variable {p : Ptr} {env : Env} {w w' : World} (hc : Connection w p)
include hc

theorem handleHangUp_cases (h : Channel.handleHangUp p env w = .ok w') :
    (hungUp (w.channel p).revents_ = true ∧ Socket.handleClose p env w = .ok w') ∨
      (hungUp (w.channel p).revents_ = false ∧ w' = w) := by
  rw [Channel.handleHangUp, hc.close] at h
  simp only [Channel.hasEvent, decide_eq_true_eq] at h
  split_ifs at h with hmask
  · exact .inl ⟨decide_eq_true hmask, h⟩
  · cases h
    exact .inr ⟨decide_eq_false hmask, rfl⟩

theorem handleErr_none (h : Channel.handleErr p env w = .ok w') : w' = w := by
  rw [Channel.handleErr, hc.error] at h
  split_ifs at h <;> cases h <;> rfl

theorem handleIn_cases (h : Channel.handleIn p env w = .ok w') :
    (readable (w.channel p).revents_ = true ∧ Socket.handleRead p env w = .ok w') ∨
      (readable (w.channel p).revents_ = false ∧ w' = w) := by
  rw [Channel.handleIn, hc.read] at h
  simp only [Channel.hasEvent, decide_eq_true_eq] at h
  split_ifs at h with hmask
  · exact .inl ⟨decide_eq_true hmask, h⟩
  · cases h
    exact .inr ⟨decide_eq_false hmask, rfl⟩

theorem handleOut_cases (h : Channel.handleOut p env w = .ok w') :
    (writable (w.channel p).revents_ = true ∧ Socket.handleWrite p env.write w = .ok w') ∨
      (writable (w.channel p).revents_ = false ∧ w' = w) := by
  rw [Channel.handleOut, hc.write] at h
  simp only [Channel.hasEvent, decide_eq_true_eq] at h
  split_ifs at h with hmask
  · exact .inl ⟨decide_eq_true hmask, h⟩
  · cases h
    exact .inr ⟨decide_eq_false hmask, rfl⟩

end

theorem handleEvent_parts {p : Ptr} {env : Env} {w t : World}
    (h : Channel.handleEvent p env w = .ok t) :
    ∃ w₁ w₂ w₃ w₄, Channel.handleHangUp p env (Channel.setEventHandling true p w) = .ok w₁ ∧
      Channel.handleErr p env w₁ = .ok w₂ ∧ Channel.handleIn p env w₂ = .ok w₃ ∧
      Channel.handleOut p env w₃ = .ok w₄ ∧ t = Channel.setEventHandling false p w₄ := by
  obtain ⟨w₁, h₁, h⟩ := bind_ok h
  obtain ⟨w₂, h₂, h⟩ := bind_ok h
  obtain ⟨w₃, h₃, h⟩ := bind_ok h
  obtain ⟨w₄, h₄, h⟩ := bind_ok h
  cases h
  exact ⟨w₁, w₂, w₃, w₄, h₁, h₂, h₃, h₄, rfl⟩

def writeCalls (p : Ptr) (w : World) : List Call :=
  if writable (w.channel p).revents_ then [.handleWrite p, .write (w.channel p).fd_] else []

def readCalls (p : Ptr) (w : World) (tail : List Call) : List Call :=
  if readable (w.channel p).revents_ then [.handleRead p, .readv (w.channel p).fd_] ++ tail else []

inductive DispatchCalls (p : Ptr) (env : Env) (w : World) : List Call → Prop where
  | hangUp (tail : List Call) (h : hungUp (w.channel p).revents_) :
      DispatchCalls p env w (.handleClose p :: (env.closeCallback.flatMap (appCalls w) ++
        (readCalls p w tail ++ writeCalls p w)))
  | eof (h : ¬hungUp (w.channel p).revents_) (hr : readable (w.channel p).revents_)
      (heof : SeesEof p env w) :
      DispatchCalls p env w ([.handleRead p, .readv (w.channel p).fd_] ++ .handleClose p ::
        (env.closeCallback.flatMap (appCalls w) ++ writeCalls p w))
  | stays (calls : List Call) (h : ¬hungUp (w.channel p).revents_)
      (hr : ¬(readable (w.channel p).revents_ ∧ SeesEof p env w))
      (hcalls : ∀ c ∈ calls, c ≠ .handleClose p) : DispatchCalls p env w calls

theorem writeCalls_open (p : Ptr) (w : World) : ∀ c ∈ writeCalls p w, c ≠ .handleClose p := by
  unfold writeCalls
  split_ifs
  · intro c hc
    simp only [List.mem_cons, List.not_mem_nil, or_false] at hc
    rcases hc with rfl | rfl <;> nofun
  · nofun

theorem handleOut_calls {p : Ptr} {env : Env} {w w' : World} (hc : Connection w p)
    (h : Channel.handleOut p env w = .ok w') : w'.calls = w.calls ++ writeCalls p w := by
  unfold writeCalls
  rcases handleOut_cases hc h with ⟨hmask, hrun⟩ | ⟨hmask, rfl⟩
  · rw [if_pos hmask]
    exact handleWrite_calls hrun
  · rw [hmask]
    exact (List.append_nil _).symm

theorem handleIn_calls {p : Ptr} {env : Env} {w w' : World} (hc : Connection w p)
    (h : Channel.handleIn p env w = .ok w') :
    ∃ tail, w'.calls = w.calls ++ readCalls p w tail ∧
      ((readable (w.channel p).revents_ ∧ SeesEof p env w ∧
          tail = .handleClose p :: env.closeCallback.flatMap (appCalls w)) ∨
        (¬(readable (w.channel p).revents_ ∧ SeesEof p env w) ∧
          ∀ c ∈ readCalls p w tail, c ≠ .handleClose p)) := by
  unfold readCalls
  rcases handleIn_cases hc h with ⟨hmask, hrun⟩ | ⟨hmask, rfl⟩
  · obtain ⟨tail, hcalls, htail⟩ := handleRead_calls hrun
    refine ⟨tail, ?_, ?_⟩
    · rw [if_pos hmask]
      exact hcalls
    · rcases htail with ⟨heof, ht⟩ | ⟨heof, ht⟩
      · exact .inl ⟨hmask, heof, ht⟩
      · refine .inr ⟨fun hand => heof hand.2, ?_⟩
        rw [if_pos hmask]
        intro c hmem
        rcases List.mem_append.mp hmem with hmem | hmem
        · simp only [List.mem_cons, List.not_mem_nil, or_false] at hmem
          rcases hmem with rfl | rfl <;> nofun
        · exact ht c hmem
  · rw [hmask]
    exact ⟨[], (List.append_nil _).symm, .inr ⟨fun hand => absurd hand.1 nofun, nofun⟩⟩

theorem handleIn_frame {p : Ptr} {env : Env} {w w' : World} (hc : Connection w p)
    (h : Channel.handleIn p env w = .ok w') : Frame w w' := by
  rcases handleIn_cases hc h with ⟨_, hrun⟩ | ⟨_, rfl⟩
  · exact handleRead_frame hrun
  · exact (Steady.refl _).toFrame

theorem dispatch_calls {p : Ptr} {env : Env} {w t : World} (hc : Connection w p)
    (h : Channel.handleEvent p env w = .ok t) :
    ∃ calls, t.calls = w.calls ++ calls ∧ DispatchCalls p env w calls := by
  obtain ⟨w₁, w₂, w₃, w₄, h₁, h₂, h₃, h₄, rfl⟩ := handleEvent_parts h
  change ∃ calls, w₄.calls = _ ∧ _
  have hs₀ := setEventHandling_steady true p w
  have hc₀ := hc.frame hs₀.toFrame
  have happ₀ := appCalls_frame hs₀.toFrame
  have hrev₀ := hs₀.revents p
  rcases handleHangUp_cases hc₀ h₁ with ⟨hup, hclose⟩ | ⟨hup, rfl⟩
  · rw [hrev₀] at hup
    have hf := hs₀.toFrame.trans (handleClose_frame hclose)
    have hc₁ := hc.frame hf
    obtain rfl := handleErr_none hc₁ h₂
    obtain ⟨tail, hin, _⟩ := handleIn_calls hc₁ h₃
    have hf₃ := hf.trans (handleIn_frame hc₁ h₃)
    refine ⟨_, ?_, .hangUp tail hup⟩
    rw [handleOut_calls (hc.frame hf₃) h₄, hin, (handleClose_calls hclose).1, happ₀]
    simp only [readCalls, writeCalls, hf.revents, hf.channel_fd, hf₃.revents, hf₃.channel_fd]
    simp only [List.append_assoc, List.cons_append]
    rfl
  · obtain rfl := handleErr_none hc₀ h₂
    rw [hrev₀] at hup
    have hup' : ¬hungUp (w.channel p).revents_ = true := by
      rw [hup]
      nofun
    obtain ⟨tail, hin, hcases⟩ := handleIn_calls hc₀ h₃
    have hf₃ := hs₀.toFrame.trans (handleIn_frame hc₀ h₃)
    have hout := handleOut_calls (hc.frame hf₃) h₄
    have hsees : SeesEof p env (Channel.setEventHandling true p w) ↔ SeesEof p env w := by
      rw [SeesEof, SeesEof, hs₀.channel_fd, hs₀.descriptors]
    rw [hsees, hrev₀, happ₀] at hcases
    rw [hin] at hout
    simp only [readCalls, writeCalls, hf₃.revents, hf₃.channel_fd, hrev₀, hs₀.channel_fd] at hout
    rcases hcases with ⟨hr, heof, rfl⟩ | ⟨hno, hopen⟩
    · refine ⟨_, ?_, .eof hup' hr heof⟩
      rw [if_pos hr] at hout
      rw [hout, writeCalls]
      simp only [List.append_assoc, List.cons_append]
      rfl
    · refine ⟨readCalls p (Channel.setEventHandling true p w) tail ++ writeCalls p w, ?_,
        .stays _ hup' hno fun c hmem => ?_⟩
      · rw [hout, readCalls, writeCalls, hrev₀, hs₀.channel_fd, List.append_assoc]
        rfl
      · rcases List.mem_append.mp hmem with hmem | hmem
        · exact hopen c hmem
        · exact writeCalls_open p w c hmem

def NoSendOn (w : World) (fd : ℤ) (calls : List AppCall) : Prop :=
  ∀ c ∈ calls.flatMap (appCalls w), c ≠ .write fd

/-- The close is the last thing of the dispatch: with a hang-up no read or write event comes,
with end of file no write event, and the application's close callback does not send on the
closed descriptor. -/
def ClosesLast (p : Ptr) (env : Env) (w : World) : Prop :=
  (hungUp (w.channel p).revents_ →
    ¬readable (w.channel p).revents_ ∧ ¬writable (w.channel p).revents_ ∧
      NoSendOn w (w.channel p).fd_ env.closeCallback) ∧
  (¬hungUp (w.channel p).revents_ → readable (w.channel p).revents_ → env.readv = .data [] →
    ¬writable (w.channel p).revents_ ∧ NoSendOn w (w.channel p).fd_ env.closeCallback)

theorem appCalls_quiet {p : Ptr} {w : World} {fd : ℤ} {calls : List AppCall} :
    (∀ c ∈ calls.flatMap (appCalls w), ¬Concerns p fd c) ↔ NoSendOn w fd calls := by
  constructor
  · intro h c hc he
    refine h c hc ?_
    rw [he]
    rfl
  · intro h c hc hcon
    obtain ⟨a, _, ha⟩ := List.mem_flatMap.mp hc
    cases a with
    | send s _ _ =>
      obtain rfl := List.mem_singleton.mp ha
      exact h _ hc (congrArg Call.write hcon)
    | retrieve _ _ => cases ha

theorem writeCalls_quiet {p : Ptr} {w : World} :
    (∀ c ∈ writeCalls p w, ¬Concerns p (w.channel p).fd_ c) ↔
      ¬writable (w.channel p).revents_ := by
  unfold writeCalls
  split_ifs with h
  · exact iff_of_false (fun hq => hq _ List.mem_cons_self rfl) (not_not_intro h)
  · exact iff_of_true nofun h

theorem readCalls_quiet {p : Ptr} {w : World} {tail : List Call} :
    (∀ c ∈ readCalls p w tail, ¬Concerns p (w.channel p).fd_ c) ↔
      ¬readable (w.channel p).revents_ := by
  unfold readCalls
  split_ifs with h
  · exact iff_of_false (fun hq => hq _ List.mem_cons_self rfl) (not_not_intro h)
  · exact iff_of_true nofun h

/-- In a dispatch of an open connection, for every mask and all results, nothing that concerns
the connection follows its `handleClose`, exactly when the close comes last. -/
theorem dispatch_quiet_iff (p : Ptr) (env : Env) (w t : World) (hc : Connection w p)
    (hopen : w.kernel.descriptors (w.channel p).fd_ ≠ none)
    (h : Channel.handleEvent p env w = .ok t) :
    Quiet p (w.channel p).fd_ (t.calls.drop w.calls.length) ↔ ClosesLast p env w := by
  obtain ⟨calls, hcalls, hdispatch⟩ := dispatch_calls hc h
  rw [hcalls, List.drop_left, ClosesLast]
  cases hdispatch with
  | hangUp tail hup =>
    rw [← List.nil_append (Call.handleClose p :: _),
      quiet_close fun _ hmem => absurd hmem List.not_mem_nil]
    simp only [List.forall_mem_append, appCalls_quiet, readCalls_quiet, writeCalls_quiet]
    constructor
    · exact fun hq => ⟨fun _ => ⟨hq.2.1, hq.2.2, hq.1⟩, fun hn => absurd hup hn⟩
    · intro hq
      obtain ⟨hr, hw, hs⟩ := hq.1 hup
      exact ⟨hs, hr, hw⟩
  | eof hup hr heof =>
    rw [quiet_close]
    · simp only [List.forall_mem_append, appCalls_quiet, writeCalls_quiet]
      constructor
      · exact fun hq => ⟨fun hn => absurd hn hup, fun _ _ _ => ⟨hq.2, hq.1⟩⟩
      · intro hq
        obtain ⟨hw, hs⟩ := hq.2 hup hr heof.2
        exact ⟨hs, hw⟩
    · intro c hmem
      simp only [List.mem_cons, List.not_mem_nil, or_false] at hmem
      rcases hmem with rfl | rfl <;> nofun
  | stays _ hup hr hstay =>
    refine iff_of_true (quiet_of_open hstay) ⟨fun hn => absurd hn hup, fun _ hread heof => ?_⟩
    exact absurd ⟨hread, hopen, heof⟩ hr

def firstConnection (revents : Mask) : World :=
  match TcpServer.accept ⟨.fail 0, .fail 0, .connfd 5, [], [], []⟩
      (TcpServer.start 3 (World.boot fun _ => none)) with
  | .ok w => w.onReactor (Channel.set_revents revents 1)
  | .error _ => World.boot fun _ => none

theorem firstConnection_connection (revents : Mask) :
    Connection (firstConnection revents) 1 := ⟨rfl, rfl, rfl, rfl, rfl⟩

theorem firstConnection_open (revents : Mask) :
    (firstConnection revents).kernel.descriptors ((firstConnection revents).channel 1).fd_ ≠
      none := by
  have h : (firstConnection revents).kernel.descriptors
      ((firstConnection revents).channel 1).fd_ = some (.connection 0) := rfl
  rw [h]
  nofun

def idle : Env := ⟨.fail EAGAIN, .fail EAGAIN, .fail EAGAIN, [], [], []⟩

theorem dispatch_quiet_iff_hangUp : ∃ t,
    Channel.handleEvent 1 idle (firstConnection EPOLLHUP) = .ok t ∧
      Quiet 1 5 (t.calls.drop (firstConnection EPOLLHUP).calls.length) := by
  obtain ⟨t, ht⟩ : ∃ t, Channel.handleEvent 1 idle (firstConnection EPOLLHUP) = .ok t := ⟨_, rfl⟩
  refine ⟨t, ht, (dispatch_quiet_iff 1 idle (firstConnection EPOLLHUP) t
    (firstConnection_connection _) (firstConnection_open _) ht).mpr ⟨fun _ => ?_, ?_⟩⟩
  · exact ⟨by decide, by decide, fun _ h => absurd h List.not_mem_nil⟩
  · exact fun hup => absurd (by decide) hup

/-- End of file with a write event: the write callback runs after the close. -/
theorem dispatch_writes_after_close :
    let w := firstConnection (EPOLLIN ||| EPOLLOUT)
    let env := { idle with readv := .data [] }
    Connection w 1 ∧ w.kernel.descriptors (w.channel 1).fd_ ≠ none ∧
      ∃ t, Channel.handleEvent 1 env w = .ok t ∧
        ¬Quiet 1 (w.channel 1).fd_ (t.calls.drop w.calls.length) := by
  intro w env
  have hrun : (Channel.handleEvent 1 env w).toOption.map (·.calls.drop w.calls.length) =
      some ([.handleRead 1, .readv 5] ++ .handleClose 1 :: [.handleWrite 1, .write 5]) := by
    decide +kernel
  obtain ⟨t, ht, hcalls⟩ := ok_of_map hrun
  refine ⟨firstConnection_connection _, firstConnection_open _, t, ht, ?_⟩
  change ¬Quiet 1 5 _
  rw [hcalls, quiet_close (by simp)]
  exact fun h => h _ List.mem_cons_self rfl

end NetPrograms.ChannelDispatch
