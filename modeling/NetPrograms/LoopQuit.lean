import NetPrograms.PendingFunctors

set_option autoImplicit false

namespace NetPrograms.LoopQuit
open BufferModel PollerModel PollerMirror ServerModel ChannelDispatch ServerTables ServerRuns
open ServerLoop PendingFunctors RunInvariants

theorem writeOutcome_quit {p : Ptr} {data : List Byte} {result : IoResult} {n : ℤ}
    {w u : World} (h : WriteOutcome p data w result n u) : u.quit_ = w.quit_ := by
  cases h <;> rfl

theorem handleWrite_quit {p : Ptr} {result : IoResult} {w t : World}
    (h : Socket.handleWrite p result w = .ok t) : t.quit_ = w.quit_ := by
  obtain ⟨n, u, hwrite, hdrain⟩ := handleWrite_outcome h
  have hu : t.quit_ = u.quit_ := by cases hdrain <;> rfl
  have hlog : u.quit_ = (w.log (.handleWrite p)).quit_ := writeOutcome_quit hwrite
  exact hu.trans hlog

theorem appCall_quit {c : AppCall} {w t : World} (h : c.run w = .ok t) : t.quit_ = w.quit_ := by
  cases c with
  | send s data result =>
    obtain ⟨⟨v, x⟩, hsend, he⟩ := bind_ok h
    cases he
    obtain ⟨n, u, hwrite, hout⟩ := Send_outcome hsend
    have hu : t.quit_ = u.quit_ := by cases hout <;> rfl
    exact hu.trans (writeOutcome_quit hwrite)
  | retrieve s len =>
    obtain ⟨q, _, he⟩ := bind_ok h
    cases he
    rfl

theorem runCallback_quit {set : Bool} {calls : List AppCall} {w t : World}
    (h : runCallback set calls w = .ok t) : t.quit_ = w.quit_ :=
  runCallback_induction (P := fun u => u.quit_ = w.quit_) h
    (fun _ _ _ _ hu hc => (appCall_quit hc).trans hu) rfl

theorem handleClose_quit {p : Ptr} {env : Env} {w t : World}
    (h : Socket.handleClose p env w = .ok t) : t.quit_ = w.quit_ := by
  have hrun : t.quit_ = (disconnect p w).quit_ := runCallback_quit (handleClose_outcome h)
  exact hrun

theorem handleRead_quit {p : Ptr} {env : Env} {w t : World}
    (h : Socket.handleRead p env w = .ok t) : t.quit_ = w.quit_ := by
  obtain ⟨q, hout⟩ := handleRead_outcome h
  have hread : (didRead p q w).quit_ = w.quit_ := rfl
  rw [← hread]
  generalize (if w.kernel.descriptors (w.channel p).fd_ = none then _ else env.readv) = result
    at hout
  cases hout with
  | message _ _ _ hrun => exact runCallback_quit hrun
  | eof _ hclose => exact handleClose_quit hclose
  | error _ savedErrno =>
    unfold Socket.handleError
    split_ifs <;> rfl

theorem connect_quit (fd : ℤ) (w : World) : (connect fd w).quit_ = w.quit_ := by
  change (TcpServer.insertConnection _ _).quit_ = _
  unfold TcpServer.insertConnection
  dsimp only
  split <;> rfl

theorem connection_quit {p : Ptr} {env : Env} {w t : World} (hc : Connection w p)
    (h : Channel.handleEvent p env w = .ok t) : t.quit_ = w.quit_ := by
  obtain ⟨w₁, w₂, w₃, w₄, h₁, h₂, h₃, h₄, rfl⟩ := handleEvent_parts h
  have hc₀ := hc.frame (setEventHandling_steady true p w).toFrame
  have hq₀ : (Channel.setEventHandling true p w).quit_ = w.quit_ := rfl
  obtain ⟨hq₁, hc₁⟩ : w₁.quit_ = w.quit_ ∧ Connection w₁ p := by
    rcases handleHangUp_cases hc₀ h₁ with ⟨_, hrun⟩ | ⟨_, rfl⟩
    · exact ⟨(handleClose_quit hrun).trans hq₀, hc₀.frame (handleClose_frame hrun)⟩
    · exact ⟨hq₀, hc₀⟩
  obtain rfl := handleErr_none hc₁ h₂
  have hq₃ : w₃.quit_ = w.quit_ := by
    rcases handleIn_cases hc₁ h₃ with ⟨_, hrun⟩ | ⟨_, rfl⟩
    · exact (handleRead_quit hrun).trans hq₁
    · exact hq₁
  change w₄.quit_ = _
  rcases handleOut_cases (hc₁.frame (handleIn_frame hc₁ h₃)) h₄ with ⟨_, hrun⟩ | ⟨_, rfl⟩
  · exact (handleWrite_quit hrun).trans hq₃
  · exact hq₃

theorem acceptor_quit {w t : World} (hi : ServerInv w) {env : Env} {fd : ℤ}
    (hresult : env.accept = .connfd fd) (hfd : 0 ≤ fd) (hfree : w.kernel.descriptors fd = none)
    (h : Channel.handleEvent w.server.acceptor env w = .ok t) :
    t.quit_ = (w.quit_ || hungUp (w.channel w.server.acceptor).revents_) := by
  obtain ⟨w₁, w₂, w₃, hi₁, _, hquit, haccept, hwrite, rfl⟩ :=
    acceptor_steps hi hresult hfd hfree h
  have h₂ : w₂.quit_ = w₁.quit_ := by
    rcases haccept with hrun | rfl
    · rw [accept_connects hresult hfd (hi₁.open hi₁.acceptorLive)] at hrun
      exact (runCallback_quit hrun).trans (connect_quit fd w₁)
    · rfl
  have h₃ : w₃.quit_ = w₂.quit_ := by
    rcases hwrite with hrun | rfl
    · exact handleWrite_quit hrun
    · rfl
  exact h₃.trans (h₂.trans hquit)

theorem handle_quit {u t : World} (hi : ServerInv u) {a : Ptr × Env} {fd : ℤ}
    (hp : Live u fd a.1) (hperm : Permitted u a) (h : Handles u a t) :
    t.quit_ = true ↔
      u.quit_ = true ∨ a.1 = u.server.acceptor ∧ hungUp (u.channel a.1).revents_ = true := by
  by_cases hacc : a.1 = u.server.acceptor
  · obtain ⟨f, hresult, hpos, hfree⟩ := hperm.accepts hacc
    have h' : Channel.handleEvent u.server.acceptor a.2 u = .ok t := hacc ▸ h
    rw [acceptor_quit hi hresult hpos hfree h', Bool.or_eq_true, hacc, eq_self, true_and]
  · rw [connection_quit (hi.connection a.1 hp.made hacc) h]
    simp only [hacc, false_and, or_false]

def HangsUp (acceptor : Ptr) (it : Iteration) : Prop :=
  ∃ e ∈ reported it.result, e.ptr = acceptor ∧ hungUp e.events = true

instance (acceptor : Ptr) (it : Iteration) : Decidable (HangsUp acceptor it) :=
  inferInstanceAs (Decidable (∃ e ∈ reported it.result, _))

theorem batch_quit {events : List EpollEvent} {turns : List (Ptr × Env)} {u t : World}
    (hi : ServerInv u) (honce : (turns.map Prod.fst).Nodup)
    (hwaits : ∀ a ∈ turns, Waits events u a.1)
    (hperm : EachStep Handles (fun u a _ => Permitted u a) u turns)
    (hrun : Run Handles u turns t) :
    t.server.acceptor = u.server.acceptor ∧ (t.quit_ = true ↔ u.quit_ = true ∨
      ∃ a ∈ turns, a.1 = u.server.acceptor ∧ hungUp (u.channel a.1).revents_ = true) := by
  induction hrun with
  | refl u => simp
  | @next u v t a turns hv _ ih =>
    obtain ⟨hfirst, hrest⟩ := List.nodup_cons.mp honce
    obtain ⟨_, _, _, ⟨fd, hlive⟩, _⟩ := hwaits a List.mem_cons_self
    obtain ⟨hpa, hperms⟩ := hperm v hv
    obtain ⟨hiv, hspares⟩ := handle_step hi hlive hpa hv
    have hne : ∀ b ∈ turns, b.1 ≠ a.1 := fun b hb heq =>
      hfirst (heq ▸ List.mem_map_of_mem hb)
    have hold : ∀ b ∈ turns, Waits events u b.1 := fun b hb =>
      hwaits b (List.mem_cons_of_mem a hb)
    obtain ⟨hacc, hquit⟩ :=
      ih hiv hrest (fun b hb => hspares.waits (hold b hb) (hne b hb)) hperms
    refine ⟨hacc.trans hspares.acceptor, ?_⟩
    have hlater : (∃ b ∈ turns, b.1 = v.server.acceptor ∧
        hungUp (v.channel b.1).revents_ = true) ↔ ∃ b ∈ turns, b.1 = u.server.acceptor ∧
        hungUp (u.channel b.1).revents_ = true := by
      rw [hspares.acceptor]
      refine exists_congr fun b => and_congr_right fun hb => ?_
      obtain ⟨_, _, _, ⟨f, hf⟩, _⟩ := hold b hb
      rw [hspares.revents hf.made]
    rw [hquit, hlater, handle_quit hi hlive hpa hv, or_assoc, List.exists_mem_cons_iff]

theorem doPendingFunctors_quit {functors : ℕ → List AppCall} {fuel i : ℕ} {w t : World}
    (h : EventLoop.doPendingFunctors functors fuel i w = .ok (some t)) : t.quit_ = w.quit_ := by
  induction fuel generalizing i w with
  | zero => cases h
  | succ fuel ih =>
    rw [EventLoop.doPendingFunctors] at h
    split at h
    · cases h
      rfl
    · next p _ =>
      obtain ⟨u, hu, hrest⟩ := bind_ok h
      let v : World := { w with loop_ := { w.loop_ with executed := w.loop_.executed ++ [p] } }
      have hcall : runCallback true (functors i) v = .ok u := hu
      have hv : v.quit_ = w.quit_ := rfl
      exact ((ih hrest).trans (runCallback_quit hcall)).trans hv

theorem iterate_quit (w : World) (it : Iteration) (t : World) (hi : ServerInv w)
    (hstep : Iterates w it t) (hadm : Admits w it) :
    t.server.acceptor = w.server.acceptor ∧
      (t.quit_ = true ↔ HangsUp w.server.acceptor it) := by
  obtain ⟨hquit, fuel, h⟩ := hstep
  obtain ⟨hi₀, honce, hwaits, hpointers, hmarked⟩ := poll_waits hi hadm.reported
  obtain ⟨u, hu, hfunctors⟩ := bind_ok h
  have hrun := handleEvents_run hu
  obtain ⟨hacc, hiff⟩ := batch_quit hi₀ honce hwaits hadm.permitted hrun
  have hiu := (batch_served hi₀ honce hwaits hadm.permitted).2 u hrun
  have hkept := doPendingFunctors_kept hiu (hadm.functorSends u hrun) hfunctors
  have hstart : (EventLoop.poll it.result w).quit_ = false := hquit
  refine ⟨hkept.acceptor.trans hacc, ?_⟩
  rw [doPendingFunctors_quit hfunctors, hiff, hstart]
  simp only [Bool.false_eq_true, false_or]
  change (∃ a ∈ EventLoop.activeChannels_ it w, a.1 = w.server.acceptor ∧ _) ↔ _
  constructor
  · rintro ⟨a, ha, hptr, hup⟩
    obtain ⟨e, he, hea, _, hrev⟩ := hwaits a ha
    exact ⟨e, he, hea.trans hptr, hrev ▸ hup⟩
  · rintro ⟨e, he, hptr, hup⟩
    have hmem : e.ptr ∈ (EventLoop.activeChannels_ it w).map Prod.fst :=
      hpointers ▸ List.mem_map_of_mem he
    obtain ⟨a, ha, hae⟩ := List.mem_map.mp hmem
    refine ⟨a, ha, hae.trans hptr, ?_⟩
    rw [hae, hmarked e he]
    exact hup

/-- `loop` goes on until the first iteration in which the acceptor hangs up, and returns after
that one: until then every iteration whose dispatches return is completed. -/
theorem loop_returns_iff (w : World) (hw : Started w) (its : List Iteration)
    (hadm : EachStep Iterates (fun w it _ => Admits w it) (EventLoop.enter w) its) (t : World)
    (hrun : Run Iterates (EventLoop.enter w) its t) :
    (∀ it ∈ its.dropLast, ¬HangsUp w.server.acceptor it) ∧
      (t.quit_ = true ↔ ∃ it ∈ its.getLast?, HangsUp w.server.acceptor it) ∧
      ∀ it u, t.quit_ = false → dispatched t it = .ok u → Iterates t it u := by
  have hacc : (EventLoop.enter w).server.acceptor = w.server.acceptor := rfl
  rw [← hacc]
  have hi := enter_inv hw.inv
  have hu := started_unqueued hw
  have hquit : (EventLoop.enter w).quit_ = false := rfl
  generalize EventLoop.enter w = s at *
  clear hacc
  induction hrun with
  | refl s =>
    refine ⟨by simp, by simp [hquit], fun it u hno hdispatched => ?_⟩
    exact (iterates_iff hu).mpr ⟨hno, hdispatched⟩
  | @next s u t it its hstep hrest ih =>
    obtain ⟨hit, hits⟩ := hadm u hstep
    obtain ⟨hacc, hiff⟩ := iterate_quit s it u hi hstep hit
    have hiu := (iterate_step s it u hi hstep hit).2
    have huu := iterate_unqueued hu hstep
    cases hrest with
    | refl _ =>
      refine ⟨by simp, by simpa using hiff, fun it' v hno hdispatched => ?_⟩
      exact (iterates_iff huu).mpr ⟨hno, hdispatched⟩
    | @next _ v _ it' its' hstep' hrest' =>
      obtain ⟨hlater, hlast, hgoes⟩ := ih hits hiu huu hstep'.1
      rw [hacc] at hlater hlast
      rw [List.dropLast_cons_cons, List.getLast?_cons_cons]
      refine ⟨List.forall_mem_cons.mpr ⟨fun hup => ?_, hlater⟩, hlast, hgoes⟩
      exact Bool.false_ne_true (hstep'.1.symm.trans (hiff.mpr hup))

def acceptThenHangUp : List Iteration :=
  [⟨.ready [⟨EPOLLIN, 0⟩], fun _ => { idle with accept := .connfd 5 }, fun _ => []⟩,
    ⟨.ready [⟨EPOLLIN, 1⟩, ⟨EPOLLHUP, 0⟩], fun _ => { idle with accept := .connfd 6 }, fun _ => []⟩]

theorem loop_returns_iff_hangUp :
    ∃ t, Run Iterates (EventLoop.enter (TcpServer.start 3 (World.boot fun _ => none)))
      acceptThenHangUp t ∧ t.quit_ = true := by
  obtain ⟨t₁, t₂, ht₁, ht₂⟩ : ∃ t₁ t₂,
      Iterates (EventLoop.enter (TcpServer.start 3 (World.boot fun _ => none)))
        ⟨.ready [⟨EPOLLIN, 0⟩], fun _ => { idle with accept := .connfd 5 }, fun _ => []⟩ t₁ ∧
      Iterates t₁ ⟨.ready [⟨EPOLLIN, 1⟩, ⟨EPOLLHUP, 0⟩],
        fun _ => { idle with accept := .connfd 6 }, fun _ => []⟩ t₂ :=
    ⟨_, _, ⟨rfl, 1, rfl⟩, rfl, 1, rfl⟩
  have hrun := Run.next ht₁ (.next ht₂ (.refl t₂))
  have hadm : EachStep Iterates (fun w it _ => Admits w it)
      (EventLoop.enter (TcpServer.start 3 (World.boot fun _ => none))) acceptThenHangUp :=
    admitted_of_check (by simp [acceptThenHangUp]) (by decide +kernel)
  refine ⟨t₂, hrun, (loop_returns_iff _ started_boot _ hadm t₂ hrun).2.1.mpr ?_⟩
  exact ⟨_, rfl, ⟨EPOLLHUP, 0⟩, by decide, rfl, by decide⟩

end NetPrograms.LoopQuit
