import NetPrograms.AcceptFailure
import NetPrograms.ServerLoop

set_option autoImplicit false

namespace NetPrograms.PendingFunctors
open BufferModel EventLoopModel PollerModel ServerModel ChannelDispatch ServerTables ServerRuns
open ServerLoop RunInvariants

/-- No functor is queued, and none will be: nothing sets the write callback of the server. -/
structure Unqueued (w : World) : Prop where
  unset : ∀ q, (w.socket q).writeCallback_ = false
  completes : w.server.writeCompleteCallback_ = false
  functors : w.loop_.pendingFunctors_ = []

theorem Unqueued.frame {w t : World} (hw : Unqueued w) (hf : Frame w t)
    (hloop : t.loop_ = w.loop_) : Unqueued t := by
  refine ⟨fun q => ?_, ?_, ?_⟩
  · exact (congrArg Socket.writeCallback_ (hf.socket q) :).trans (hw.unset q)
  · exact (congrArg TcpServer.writeCompleteCallback_ hf.server :).trans hw.completes
  · rw [hloop]
    exact hw.functors

theorem Unqueued.setSocket {w : World} (hw : Unqueued w) {f : Socket → Socket} {p : Ptr}
    (hf : (f (w.socket p)).writeCallback_ = false) : Unqueued (w.setSocket p f) := by
  refine ⟨fun q => ?_, hw.completes, hw.functors⟩
  by_cases hq : q = p
  · simpa [hq, World.setSocket] using hf
  · simpa [hq, World.setSocket] using hw.unset q

theorem writeOutcome_loop {p : Ptr} {data : List Byte} {result : IoResult} {n : ℤ}
    {w u : World} (h : WriteOutcome p data w result n u) : u.loop_ = w.loop_ := by
  cases h <;> rfl

theorem send_loop {p : Ptr} {data : List Byte} {result : IoResult} {v : ℤ} {w t : World}
    (h : Socket.Send p data result w = .ok (v, t)) : t.loop_ = w.loop_ := by
  obtain ⟨n, u, hwrite, hout⟩ := Send_outcome h
  have hu : t.loop_ = u.loop_ := by cases hout <;> rfl
  exact hu.trans (writeOutcome_loop hwrite)

theorem handleWrite_loop {p : Ptr} {result : IoResult} {w t : World}
    (hunset : (w.socket p).writeCallback_ = false)
    (h : Socket.handleWrite p result w = .ok t) : t.loop_ = w.loop_ := by
  rw [handleWrite_queues h, hunset]
  exact if_neg fun hset => Bool.false_ne_true hset.1

theorem runCallback_unqueued {set : Bool} {calls : List AppCall} {w t : World}
    (hw : Unqueued w) (h : runCallback set calls w = .ok t) : Unqueued t := by
  refine runCallback_induction h (fun u u' c _ hu hrun => ?_) hw
  cases c with
  | send s data result =>
    obtain ⟨⟨v, x⟩, hsend, he⟩ := bind_ok hrun
    cases he
    exact hu.frame (Send_steady hsend).toFrame (send_loop hsend)
  | retrieve s len =>
    obtain ⟨q, _, he⟩ := bind_ok hrun
    cases he
    exact hu.setSocket (hu.unset s)

theorem handleClose_unqueued {p : Ptr} {env : Env} {w t : World} (hw : Unqueued w)
    (h : Socket.handleClose p env w = .ok t) : Unqueued t :=
  runCallback_unqueued (hw.frame (disconnect_frame p w) rfl) (handleClose_outcome h)

theorem handleError_unqueued (p : Ptr) {w : World} (hw : Unqueued w) :
    Unqueued (Socket.handleError p w) := by
  unfold Socket.handleError
  split_ifs
  · exact ⟨hw.unset, hw.completes, hw.functors⟩
  · exact hw

theorem handleRead_unqueued {p : Ptr} {env : Env} {w t : World} (hw : Unqueued w)
    (h : Socket.handleRead p env w = .ok t) : Unqueued t := by
  obtain ⟨q, hout⟩ := handleRead_outcome h
  have hread : Unqueued (didRead p q w) := hw.frame (didRead_steady p q w).toFrame rfl
  generalize (if w.kernel.descriptors (w.channel p).fd_ = none then _ else env.readv) = result
    at hout
  cases hout with
  | message _ _ _ hrun => exact runCallback_unqueued hread hrun
  | eof _ hclose => exact handleClose_unqueued hread hclose
  | error _ savedErrno =>
    exact handleError_unqueued p ⟨hread.unset, hread.completes, hread.functors⟩

theorem handleWrite_unqueued {p : Ptr} {result : IoResult} {w t : World} (hw : Unqueued w)
    (h : Socket.handleWrite p result w = .ok t) : Unqueued t :=
  hw.frame (handleWrite_steady h).toFrame (handleWrite_loop (hw.unset p) h)

theorem new_unqueued (fd : ℤ) {w : World} (hw : Unqueued w) : Unqueued (Socket.new fd w).2 := by
  let p := w.allocated
  have hinit : Unqueued (w.setSocket p fun _ => Socket.init fd (w.kernel.descriptors fd)) :=
    hw.setSocket rfl
  exact ⟨hinit.unset, hinit.completes, hinit.functors⟩

theorem adopt_unqueued (fd : ℤ) {w : World} (hw : Unqueued w) :
    Unqueued (AcceptFailure.adopt fd w) := by
  let w₁ := (Socket.new fd w).2
  have hw₁ : Unqueued w₁ := new_unqueued fd hw
  let w₂ := w₁.setSocket w.allocated fun s => { s with
    messageCallback_ := w₁.server.messageCallback_
    writeCallback_ := w₁.server.writeCompleteCallback_
    closeCallback_ := true }
  have hw₂ : Unqueued w₂ := hw₁.setSocket hw₁.completes
  have hw₃ : Unqueued (TcpServer.insertConnection w.allocated w₂) := by
    unfold TcpServer.insertConnection
    dsimp only
    split <;> exact ⟨hw₂.unset, hw₂.completes, hw₂.functors⟩
  exact ⟨hw₃.unset, hw₃.completes, hw₃.functors⟩

theorem accept_unqueued {env : Env} {w t : World} (hw : Unqueued w)
    (h : TcpServer.accept env w = .ok t) : Unqueued t := by
  have hu : Unqueued (TcpServer.kernelAccept env.accept w).2 := by
    unfold TcpServer.kernelAccept
    split <;> exact ⟨hw.unset, hw.completes, hw.functors⟩
  unfold TcpServer.accept at h
  generalize TcpServer.kernelAccept env.accept w = x at h hu
  obtain ⟨connfd, u⟩ := x
  have hadopt : ∀ {set}, runCallback set env.connectionCallback (AcceptFailure.adopt connfd u) =
      .ok t → Unqueued t := runCallback_unqueued (adopt_unqueued connfd hu)
  dsimp only at h
  split_ifs at h
  · exact hadopt h
  · cases h
  · cases h
  · exact hadopt h

theorem invoke_unqueued {cb : Option Callback} {p : Ptr} {env : Env} {w t : World}
    (hw : Unqueued w) (h : Channel.invoke cb p env w = .ok t) : Unqueued t := by
  cases cb with
  | none =>
    cases h
    exact hw
  | some cb =>
    cases cb with
    | handleRead => exact handleRead_unqueued hw h
    | handleWrite => exact handleWrite_unqueued hw h
    | handleClose => exact handleClose_unqueued hw h
    | accept => exact accept_unqueued hw h
    | acceptorCloseCallback =>
      cases h
      exact ⟨hw.unset, hw.completes, hw.functors⟩

theorem handle_unqueued {u t : World} {a : Ptr × Env} (hu : Unqueued u) (h : Handles u a t) :
    Unqueued t := by
  obtain ⟨w₁, w₂, w₃, w₄, h₁, h₂, h₃, h₄, rfl⟩ := handleEvent_parts h
  have hpart : ∀ {c : Prop} [Decidable c] {cb : Option Callback} {v v' : World}, Unqueued v →
      (if c then Channel.invoke cb a.1 a.2 v else return v) = Except.ok v' → Unqueued v' := by
    intro c _ cb v v' hv hrun
    split_ifs at hrun
    · exact invoke_unqueued hv hrun
    · cases hrun
      exact hv
  have hu₀ : Unqueued (Channel.setEventHandling true a.1 u) :=
    ⟨hu.unset, hu.completes, hu.functors⟩
  have hu₄ := hpart (hpart (hpart (hpart hu₀ h₁) h₂) h₃) h₄
  exact ⟨hu₄.unset, hu₄.completes, hu₄.functors⟩

theorem run_unqueued {u t : World} {turns : List (Ptr × Env)} (hu : Unqueued u)
    (hrun : Run Handles u turns t) : Unqueued t := by
  induction hrun with
  | refl _ => exact hu
  | next h _ ih => exact ih (handle_unqueued hu h)

theorem poll_unqueued (result : WaitResult) {w : World} (hw : Unqueued w) :
    Unqueued (EventLoop.poll result w) := ⟨hw.unset, hw.completes, hw.functors⟩

/-- With enough fuel an iteration has a result exactly when its dispatches have one, and then the
same. -/
theorem iterates_iff {w t : World} {it : Iteration} (hw : Unqueued w) :
    Iterates w it t ↔ w.quit_ = false ∧ dispatched w it = .ok t := by
  have hafter : ∀ {u}, dispatched w it = .ok u → Unqueued u := fun hu =>
    run_unqueued (poll_unqueued it.result hw) (handleEvents_run hu)
  constructor
  · intro hstep
    obtain ⟨u, hu, _⟩ := bind_ok hstep.2.choose_spec
    obtain ⟨hquit, rfl⟩ := (iterates_of_dispatched hu (hafter hu).functors).mp hstep
    exact ⟨hquit, hu⟩
  · rintro ⟨hquit, hu⟩
    exact (iterates_of_dispatched hu (hafter hu).functors).mpr ⟨hquit, rfl⟩

theorem iterate_unqueued {w t : World} {it : Iteration} (hw : Unqueued w)
    (h : Iterates w it t) : Unqueued t :=
  run_unqueued (poll_unqueued it.result hw) (handleEvents_run ((iterates_iff hw).mp h).2)

theorem started_unqueued {w : World} (hw : Started w) : Unqueued (EventLoop.enter w) := by
  obtain ⟨descriptors, fd, _, _, rfl⟩ := hw
  let w₀ := (World.boot descriptors).onReactor fun r => { r with
    kernel := { r.kernel with
      descriptors := Function.update r.kernel.descriptors fd (some .other) } }
  have hw₀ : Unqueued w₀ := ⟨fun _ => rfl, rfl, rfl⟩
  have hnew := new_unqueued fd hw₀
  exact ⟨hnew.unset, hnew.completes, hnew.functors⟩

end NetPrograms.PendingFunctors
