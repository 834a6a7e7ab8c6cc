import NetPrograms.ServerRuns

set_option autoImplicit false

namespace NetPrograms.ServerLoop
open BufferModel PollerModel PollerMirror ServerModel ChannelDispatch ServerTables ServerRuns
open ListSegments RunInvariants

def reported : WaitResult → List EpollEvent
  | .ready events => events
  | .fail _ => []

/-- The outside in one iteration: what `epoll_wait` gives, what happens during each dispatch by
its place in the batch, and what the application does in each functor. -/
structure Iteration where
  result : WaitResult
  envs : ℕ → Env
  functors : ℕ → List AppCall

namespace EventLoop

def poll (result : WaitResult) (w : World) : World :=
  w.onReactor fun r => (Poller.poll result r []).1

def activeChannels_ (it : Iteration) (w : World) : List (Ptr × Env) :=
  (Poller.poll it.result w.toReactor []).2.mapIdx fun i p => (p, it.envs i)

def handleEvents (active : List (Ptr × Env)) (w : World) : Except Fault World :=
  active.foldlM (fun w a => Channel.handleEvent a.1 a.2 w) w

/-- The loop of `doPendingFunctors` from index `i` on; the size is read again each time. -/
def doPendingFunctors (functors : ℕ → List AppCall) :
    ℕ → ℕ → World → Except Fault (Option World)
  | 0, _, _ => return none
  | fuel + 1, i, w =>
    match w.loop_.pendingFunctors_[i]? with
    | none => return some w
    | some p => do
      let w := { w with loop_ := { w.loop_ with executed := w.loop_.executed ++ [p] } }
      let w ← (functors i).foldlM AppCall.run w
      doPendingFunctors functors fuel (i + 1) w

def iterate (it : Iteration) (fuel : ℕ) (w : World) : Except Fault (Option World) := do
  let active := activeChannels_ it w
  let w := poll it.result w
  let w ← handleEvents active w
  doPendingFunctors it.functors fuel 0 w

def enter (w : World) : World := { w with quit_ := false }

end EventLoop

def Iterates (w : World) (it : Iteration) (t : World) : Prop :=
  w.quit_ = false ∧ ∃ fuel, EventLoop.iterate it fuel w = .ok (some t)

def Handles (w : World) (a : Ptr × Env) (t : World) : Prop :=
  Channel.handleEvent a.1 a.2 w = .ok t

/-- What one dispatch may meet: an accept succeeds with a descriptor that is not open, and the
application calls `Send` on open Sockets only. -/
structure Permitted (w : World) (a : Ptr × Env) : Prop where
  accepts : a.1 = w.server.acceptor →
    ∃ fd, a.2.accept = .connfd fd ∧ 0 ≤ fd ∧ w.kernel.descriptors fd = none
  messageSends : SendsOnLive w a.2.messageCallback
  closeSends : SendsBeside w a.1 a.2.closeCallback
  connectionSends : SendsOnNew w a.2.connectionCallback

/-- The kernel reports registered Channels, each once, and no more than there is room for. -/
structure Reported (w : World) (events : List EpollEvent) : Prop where
  registered : ∀ e ∈ events, ∃ fd mask, w.kernel.interest fd = some (mask, e.ptr)
  once : (events.map EpollEvent.ptr).Nodup
  fits : events.length ≤ w.events_.length

structure Admits (w : World) (it : Iteration) : Prop where
  reported : Reported w (reported it.result)
  permitted : EachStep Handles (fun u a _ => Permitted u a) (EventLoop.poll it.result w)
    (EventLoop.activeChannels_ it w)
  functorSends : ∀ u, Run Handles (EventLoop.poll it.result w) (EventLoop.activeChannels_ it w) u →
    ∀ i, SendsOnLive u (it.functors i)

structure Due (w : World) (e : EpollEvent) : Prop where
  revents : (w.channel e.ptr).revents_ = e.events
  unclosed : (w.socket e.ptr).closed = false
  opened : w.kernel.descriptors (w.socket e.ptr).fd_ = (w.socket e.ptr).file
  registered : w.kernel.interest (w.socket e.ptr).fd_ = some ((w.channel e.ptr).events_, e.ptr)

/-- Every event that `epoll_wait` has given is dispatched, in order and once, while its Channel
is registered and with its own mask. -/
def Serves (w : World) (it : Iteration) (_ : World) : Prop :=
  (EventLoop.activeChannels_ it w).map Prod.fst = (reported it.result).map EpollEvent.ptr ∧
    EachStep Handles (fun u a _ => ∃ e ∈ reported it.result, e.ptr = a.1 ∧ Due u e)
      (EventLoop.poll it.result w) (EventLoop.activeChannels_ it w)

def markAll (events : List EpollEvent) (r : Reactor) : Reactor :=
  events.foldl (fun r e => Channel.set_revents e.events e.ptr r) r

theorem fill_eq (events : List EpollEvent) (r : Reactor) (active : List Ptr) :
    events.foldl (fun (r, active) e => (Channel.set_revents e.events e.ptr r, active ++ [e.ptr]))
      (r, active) = (markAll events r, active ++ events.map EpollEvent.ptr) := by
  induction events generalizing r active with
  | nil => simp [markAll]
  | cons e events ih =>
    rw [List.foldl_cons, ih, List.append_assoc]
    rfl

theorem markAll_events (events : List EpollEvent) (r : Reactor) (array : List EpollEvent) :
    markAll events { r with events_ := array } = { markAll events r with events_ := array } := by
  induction events generalizing r with
  | nil => rfl
  | cons e events ih => exact ih (Channel.set_revents e.events e.ptr r)

theorem poll_eq (result : WaitResult) {r : Reactor}
    (hfits : (reported result).length ≤ r.events_.length) :
    ∃ array, Poller.poll result r [] = ({ markAll (reported result) r with events_ := array },
      (reported result).map EpollEvent.ptr) := by
  cases result with
  | fail errno => exact ⟨r.events_, rfl⟩
  | ready events =>
    have htake : (overwrite r.events_ 0 events).take events.length = events := by
      rw [overwrite, List.take_zero, List.nil_append, List.take_left]
    by_cases hpos : 0 < events.length
    · simp only [Poller.poll, if_pos hpos, Poller.fillActiveChannels, htake, fill_eq,
        markAll_events, List.nil_append]
      exact ⟨_, rfl⟩
    · obtain rfl := List.length_eq_zero_iff.mp (Nat.eq_zero_of_not_pos hpos)
      exact ⟨_, rfl⟩

theorem markAll_other {events : List EpollEvent} {p : Ptr}
    (hp : p ∉ events.map EpollEvent.ptr) (r : Reactor) :
    (markAll events r).channel p = r.channel p := by
  induction events generalizing r with
  | nil => rfl
  | cons e events ih =>
    rw [List.map_cons, List.mem_cons, not_or] at hp
    exact (ih hp.2 (Channel.set_revents e.events e.ptr r)).trans (Function.update_of_ne hp.1 _ _)

theorem markAll_revents {events : List EpollEvent} (honce : (events.map EpollEvent.ptr).Nodup)
    (r : Reactor) {e : EpollEvent} (he : e ∈ events) :
    ((markAll events r).channel e.ptr).revents_ = e.events := by
  induction events generalizing r with
  | nil => cases he
  | cons f events ih =>
    obtain ⟨hf, hrest⟩ := List.nodup_cons.mp honce
    rcases List.mem_cons.mp he with rfl | he
    · rw [markAll, List.foldl_cons]
      refine (congrArg Channel.revents_ (markAll_other hf _)).trans ?_
      exact congrArg Channel.revents_ (setChannel_self r _ _)
    · exact ih hrest (Channel.set_revents f.events f.ptr r) he

theorem serverInv_markAll (events : List EpollEvent) {w : World} (hi : ServerInv w) :
    ServerInv (w.onReactor (markAll events)) ∧
      ∀ fd q, Live (w.onReactor (markAll events)) fd q ↔ Live w fd q := by
  refine ⟨?_, fun fd q => live_onReactor⟩
  induction events generalizing w with
  | nil => exact hi
  | cons e events ih =>
    exact ih (serverInv_setChannel hi e.ptr (fun c => { c with revents_ := e.events })
      fun _ => rfl)

structure Spares (p : Ptr) (w t : World) : Prop where
  allocated : w.allocated ≤ t.allocated
  acceptor : t.server.acceptor = w.server.acceptor
  closed : ∀ q < w.allocated, q ≠ p → (t.socket q).closed = (w.socket q).closed
  fd_eq : ∀ q < w.allocated, (t.socket q).fd_ = (w.socket q).fd_
  channel : ∀ q < w.allocated, Channel.bound (t.channel q) = Channel.bound (w.channel q)

theorem Spares.trans {p : Ptr} {w u t : World} (h : Spares p w u) (h' : Spares p u t) :
    Spares p w t := by
  have hmade : ∀ q < w.allocated, q < u.allocated := fun q hq => hq.trans_le h.allocated
  exact ⟨h.allocated.trans h'.allocated, h'.acceptor.trans h.acceptor,
    fun q hq hne => (h'.closed q (hmade q hq) hne).trans (h.closed q hq hne),
    fun q hq => (h'.fd_eq q (hmade q hq)).trans (h.fd_eq q hq),
    fun q hq => (h'.channel q (hmade q hq)).trans (h.channel q hq)⟩

theorem Spares.of_frame {p : Ptr} {w t : World} (h : Frame w t)
    (hclosed : ∀ q, q ≠ p → (t.socket q).closed = (w.socket q).closed) : Spares p w t :=
  ⟨h.allocated.ge, h.acceptor, fun q _ hne => hclosed q hne, fun q _ => h.socket_fd q,
    fun q _ => h.channel q⟩

theorem Spares.of_steady {w t : World} (p : Ptr) (h : Steady w t) : Spares p w t :=
  .of_frame h.toFrame fun q _ => h.closed q

theorem Spares.live {p q : Ptr} {w t : World} {fd : ℤ} (h : Spares p w t) (hq : Live w fd q)
    (hne : q ≠ p) : Live t fd q :=
  ⟨hq.made.trans_le h.allocated, (h.closed q hq.made hne).trans hq.unclosed,
    (h.fd_eq q hq.made).trans hq.fd_eq⟩

theorem Spares.revents {p q : Ptr} {w t : World} (h : Spares p w t) (hq : q < w.allocated) :
    (t.channel q).revents_ = (w.channel q).revents_ :=
  (congrArg Channel.revents_ (h.channel q hq) :)

theorem handleClose_spares {p : Ptr} {env : Env} {w t : World}
    (h : Socket.handleClose p env w = .ok t) : Spares p w t := by
  refine Spares.trans (.of_frame (disconnect_frame p w) fun q hne => ?_)
    (.of_steady p (runCallback_steady (handleClose_outcome h)))
  rw [disconnect_socket, Function.update_of_ne hne]

theorem handleRead_spares {p : Ptr} {env : Env} {w t : World}
    (h : Socket.handleRead p env w = .ok t) : Spares p w t := by
  obtain ⟨q, hout⟩ := handleRead_outcome h
  refine Spares.trans (.of_steady p (didRead_steady p q w)) ?_
  generalize (if w.kernel.descriptors (w.channel p).fd_ = none then _ else env.readv) = result
    at hout
  cases hout with
  | message _ _ _ hrun => exact .of_steady p (runCallback_steady hrun)
  | eof _ hclose => exact handleClose_spares hclose
  | error _ savedErrno =>
    exact .of_steady p ((setErrno_recorded savedErrno _).trans (handleError_recorded p _)).steady

theorem connection_spares {p : Ptr} {env : Env} {w t : World} (hc : Connection w p)
    (h : Channel.handleEvent p env w = .ok t) : Spares p w t := by
  obtain ⟨w₁, w₂, w₃, w₄, h₁, h₂, h₃, h₄, rfl⟩ := handleEvent_parts h
  have hs₀ := setEventHandling_steady true p w
  have hc₀ := hc.frame hs₀.toFrame
  obtain ⟨hs₁, hc₁⟩ : Spares p w w₁ ∧ Connection w₁ p := by
    rcases handleHangUp_cases hc₀ h₁ with ⟨_, hrun⟩ | ⟨_, rfl⟩
    · exact ⟨(Spares.of_steady p hs₀).trans (handleClose_spares hrun),
        hc₀.frame (handleClose_frame hrun)⟩
    · exact ⟨.of_steady p hs₀, hc₀⟩
  obtain rfl := handleErr_none hc₁ h₂
  obtain ⟨hs₃, hc₃⟩ : Spares p w w₃ ∧ Connection w₃ p := by
    refine ⟨hs₁.trans ?_, hc₁.frame (handleIn_frame hc₁ h₃)⟩
    rcases handleIn_cases hc₁ h₃ with ⟨_, hrun⟩ | ⟨_, rfl⟩
    · exact handleRead_spares hrun
    · exact .of_steady p (Steady.refl _)
  refine (hs₃.trans ?_).trans (.of_steady p (setEventHandling_steady false p w₄))
  rcases handleOut_cases hc₃ h₄ with ⟨_, hrun⟩ | ⟨_, rfl⟩
  · exact .of_steady p (handleWrite_steady hrun)
  · exact .of_steady p (Steady.refl _)

theorem accept_spares {w t : World} (hi : ServerInv w) {env : Env} {fd : ℤ}
    (hresult : env.accept = .connfd fd) (hfd : 0 ≤ fd) (hfree : w.kernel.descriptors fd = none)
    (h : TcpServer.accept env w = .ok t) (p : Ptr) : Spares p w t := by
  rw [accept_connects hresult hfd (hi.open hi.acceptorLive)] at h
  refine Spares.trans ?_ (.of_steady p (runCallback_steady h))
  obtain ⟨_, hconn⟩ := connect_step hi hfree
  have hold : ∀ q < w.allocated, (connect fd w).socket q = w.socket q := fun q hq =>
    hconn.other q (Nat.ne_of_lt hq)
  refine ⟨hconn.allocated.ge.trans' (Nat.le_succ _), hconn.acceptor, fun q hq _ => ?_,
    fun q hq => ?_, fun q hq => ?_⟩
  · rw [hold q hq]
  · rw [hold q hq]
  · rw [channel_connected hconn (Nat.ne_of_lt hq)]

theorem acceptor_steps {w t : World} (hi : ServerInv w) {env : Env} {fd : ℤ}
    (hresult : env.accept = .connfd fd) (hfd : 0 ≤ fd) (hfree : w.kernel.descriptors fd = none)
    (h : Channel.handleEvent w.server.acceptor env w = .ok t) :
    ∃ w₁ w₂ w₃, ServerInv w₁ ∧ Steady w w₁ ∧
      w₁.quit_ = (w.quit_ || hungUp (w.channel w.server.acceptor).revents_) ∧
      (TcpServer.accept env w₁ = .ok w₂ ∨ w₂ = w₁) ∧
      (Socket.handleWrite w.server.acceptor env.write w₂ = .ok w₃ ∨ w₃ = w₂) ∧
      t = Channel.setEventHandling false w.server.acceptor w₃ := by
  obtain ⟨w₁, w₂, w₃, w₄, h₁, h₂, h₃, h₄, rfl⟩ := handleEvent_parts h
  let p := w.server.acceptor
  let w₀ := Channel.setEventHandling true p w
  have hs₀ : Steady w w₀ := setEventHandling_steady true p w
  have hi₀ : ServerInv w₀ := serverInv_setChannel hi p _ fun _ => rfl
  have hclose : (w₀.channel p).closeCallback_ = some .acceptorCloseCallback := hi₀.acceptorClose
  have herror : (w₀.channel p).errorCallback_ = none := hi₀.acceptorError
  have hrev : (w₀.channel p).revents_ = (w.channel p).revents_ := hs₀.revents p
  obtain ⟨hch₁, hq₁⟩ : w₁.channel = w₀.channel ∧
      w₁.quit_ = (w.quit_ || hungUp (w.channel p).revents_) := by
    change (if _ then Channel.invoke (w₀.channel p).closeCallback_ p env w₀ else _) = _ at h₁
    simp only [hclose, Channel.hasEvent, decide_eq_true_eq] at h₁
    rw [← hrev, hungUp]
    split_ifs at h₁ with hmask <;> cases h₁
    · rw [decide_eq_true hmask, Bool.or_true]
      exact ⟨rfl, rfl⟩
    · rw [decide_eq_false hmask, Bool.or_false]
      exact ⟨rfl, rfl⟩
  have hsame : w₂ = w₁ := by
    change (if _ then Channel.invoke (w₁.channel p).errorCallback_ p env w₁ else _) = _ at h₂
    rw [hch₁, herror] at h₂
    split_ifs at h₂ <;> cases h₂ <;> rfl
  obtain ⟨hr, hif⟩ := acceptor_accepts (p := p) hi₀ rfl h₁ h₂ h₃
  have hi₂ := hi₀.kept (kept_recorded hi₀.toTables hr)
  have hs₂ : Steady w w₂ := hs₀.trans hr.steady
  have haccept : TcpServer.accept env w₂ = .ok w₃ ∨ w₃ = w₂ := by
    split_ifs at hif with hread
    · exact .inl hif
    · exact .inr hif
  have hs₃ : Spares p w w₃ := by
    refine (Spares.of_steady p hs₂).trans ?_
    rcases haccept with hrun | rfl
    · refine accept_spares hi₂ hresult hfd ?_ hrun p
      rw [hs₂.descriptors]
      exact hfree
    · exact .of_steady p (Steady.refl _)
  have hwired : (w₃.channel p).writeCallback_ = some .handleWrite := by
    have hbound := hs₃.channel p hi.acceptorLive.made
    exact (congrArg Channel.writeCallback_ hbound :).trans hi.acceptorWrite
  refine ⟨w₂, w₃, w₄, hi₂, hs₂, hsame ▸ hq₁, haccept, ?_, rfl⟩
  rw [Channel.handleOut, hwired] at h₄
  split_ifs at h₄
  · exact .inl h₄
  · cases h₄
    exact .inr rfl

theorem acceptor_spares {w t : World} (hi : ServerInv w) {env : Env} {fd : ℤ}
    (hresult : env.accept = .connfd fd) (hfd : 0 ≤ fd) (hfree : w.kernel.descriptors fd = none)
    (h : Channel.handleEvent w.server.acceptor env w = .ok t) :
    Spares w.server.acceptor w t := by
  obtain ⟨w₁, w₂, w₃, hi₁, hs₁, _, haccept, hwrite, rfl⟩ :=
    acceptor_steps hi hresult hfd hfree h
  let p := w.server.acceptor
  have h₂ : Spares p w₁ w₂ := by
    rcases haccept with hrun | rfl
    · refine accept_spares hi₁ hresult hfd ?_ hrun p
      rw [hs₁.descriptors]
      exact hfree
    · exact .of_steady p (Steady.refl _)
  have h₃ : Steady w₂ w₃ := by
    rcases hwrite with hrun | rfl
    · exact handleWrite_steady hrun
    · exact Steady.refl _
  exact ((Spares.of_steady p hs₁).trans h₂).trans
    (.of_steady p (h₃.trans (setEventHandling_steady false p w₃)))

theorem handle_step {u t : World} (hi : ServerInv u) {a : Ptr × Env} {fd : ℤ}
    (hp : Live u fd a.1) (hperm : Permitted u a) (h : Handles u a t) :
    ServerInv t ∧ Spares a.1 u t := by
  obtain ⟨p, env⟩ := a
  obtain ⟨haccepts, hmessage, hclose, hconnection⟩ := hperm
  by_cases hacc : p = u.server.acceptor
  · obtain ⟨f, hresult, hpos, hfree⟩ := haccepts hacc
    have h' : Channel.handleEvent u.server.acceptor env u = .ok t := hacc ▸ h
    refine ⟨(acceptor_dispatch hi hresult hpos hfree hconnection h').1, ?_⟩
    have hspares := acceptor_spares hi hresult hpos hfree h'
    rwa [← hacc] at hspares
  · exact ⟨connection_dispatch hi hp hacc hmessage hclose h,
      connection_spares (hi.connection p hp.made hacc) h⟩

theorem due_of_live {u : World} (hi : ServerInv u) {e : EpollEvent} {fd : ℤ}
    (hp : Live u fd e.ptr) (hrev : (u.channel e.ptr).revents_ = e.events) : Due u e := by
  obtain rfl := hp.fd_eq
  refine ⟨hrev, hp.unclosed, hi.opened _ _ hp, ?_⟩
  rw [hi.interest, (hi.table _ _).mpr hp]
  rfl

def Waits (events : List EpollEvent) (u : World) (p : Ptr) : Prop :=
  ∃ e ∈ events, e.ptr = p ∧ (∃ fd, Live u fd p) ∧ (u.channel p).revents_ = e.events

theorem Spares.waits {events : List EpollEvent} {p q : Ptr} {u t : World} (h : Spares p u t)
    (hq : Waits events u q) (hne : q ≠ p) : Waits events t q := by
  obtain ⟨e, he, hptr, ⟨fd, hlive⟩, hrev⟩ := hq
  exact ⟨e, he, hptr, ⟨fd, h.live hlive hne⟩, (h.revents hlive.made).trans hrev⟩

theorem batch_served {events : List EpollEvent} {turns : List (Ptr × Env)} {u : World}
    (hi : ServerInv u) (honce : (turns.map Prod.fst).Nodup)
    (hwaits : ∀ a ∈ turns, Waits events u a.1)
    (hperm : EachStep Handles (fun u a _ => Permitted u a) u turns) :
    EachStep Handles (fun u a _ => ∃ e ∈ events, e.ptr = a.1 ∧ Due u e) u turns ∧
      ∀ t, Run Handles u turns t → ServerInv t := by
  induction turns generalizing u with
  | nil =>
    refine ⟨trivial, fun t ht => ?_⟩
    cases ht
    exact hi
  | cons a turns ih =>
    obtain ⟨hfirst, hrest⟩ := List.nodup_cons.mp honce
    obtain ⟨e, he, hptr, ⟨fd, hlive⟩, hrev⟩ := hwaits a List.mem_cons_self
    have hnext : ∀ v, Handles u a v → ServerInv v ∧ ∀ b ∈ turns, Waits events v b.1 := by
      intro v hv
      obtain ⟨hiv, hspares⟩ := handle_step hi hlive (hperm v hv).1 hv
      refine ⟨hiv, fun b hb => hspares.waits (hwaits b (List.mem_cons_of_mem a hb)) ?_⟩
      exact fun heq => hfirst (heq ▸ List.mem_map_of_mem hb)
    constructor
    · rw [← hptr] at hlive hrev
      intro v hv
      obtain ⟨hiv, hlater⟩ := hnext v hv
      exact ⟨⟨e, he, hptr, due_of_live hi hlive hrev⟩, (ih hiv hrest hlater (hperm v hv).2).1⟩
    · intro t ht
      cases ht with
      | next hv htail =>
        obtain ⟨hiv, hlater⟩ := hnext _ hv
        exact (ih hiv hrest hlater (hperm _ hv).2).2 t htail

theorem handleEvents_run {turns : List (Ptr × Env)} {w t : World}
    (h : EventLoop.handleEvents turns w = .ok t) : Run Handles w turns t := by
  induction turns generalizing w with
  | nil =>
    cases h
    exact .refl _
  | cons a turns ih =>
    obtain ⟨u, hu, hrest⟩ := bind_ok h
    exact .next hu (ih hrest)

theorem doPendingFunctors_kept {functors : ℕ → List AppCall} {fuel i : ℕ} {w t : World}
    (hi : ServerInv w) (hsends : ∀ i, SendsOnLive w (functors i))
    (h : EventLoop.doPendingFunctors functors fuel i w = .ok (some t)) : Kept w t := by
  induction fuel generalizing i w with
  | zero => cases h
  | succ fuel ih =>
    rw [EventLoop.doPendingFunctors] at h
    split at h
    · cases h
      exact kept_refl hi.toTables
    · next p _ =>
      obtain ⟨u, hu, hrest⟩ := bind_ok h
      let v : World := { w with loop_ := { w.loop_ with executed := w.loop_.executed ++ [p] } }
      have hv : Kept w v := kept_recorded hi.toTables ⟨rfl, rfl, rfl, rfl, rfl, rfl, rfl, rfl⟩
      have hcall : runCallback true (functors i) v = .ok u := hu
      have hkept : Kept w u :=
        hv.trans (runCallback_kept (hi.kept hv) (sendsOnLive_kept hv (hsends i)) hcall)
      exact hkept.trans (ih (hi.kept hkept) (fun j => sendsOnLive_kept hkept (hsends j)) hrest)

theorem doPendingFunctors_nil (functors : ℕ → List AppCall) (fuel : ℕ) {w : World}
    (hw : w.loop_.pendingFunctors_ = []) :
    EventLoop.doPendingFunctors functors (fuel + 1) 0 w = .ok (some w) := by
  rw [EventLoop.doPendingFunctors, hw]
  rfl

def dispatched (w : World) (it : Iteration) : Except Fault World :=
  EventLoop.handleEvents (EventLoop.activeChannels_ it w) (EventLoop.poll it.result w)

theorem iterates_of_dispatched {w u t : World} {it : Iteration}
    (hu : dispatched w it = .ok u) (hnone : u.loop_.pendingFunctors_ = []) :
    Iterates w it t ↔ w.quit_ = false ∧ u = t := by
  have hiterate : ∀ fuel, EventLoop.iterate it fuel w =
      EventLoop.doPendingFunctors it.functors fuel 0 u := by
    intro fuel
    change (dispatched w it >>= _) = _
    rw [hu]
    rfl
  refine and_congr_right fun _ => ⟨fun ⟨fuel, h⟩ => ?_, ?_⟩
  · rw [hiterate] at h
    cases fuel with
    | zero => cases h
    | succ fuel =>
      rw [doPendingFunctors_nil it.functors fuel hnone] at h
      exact Option.some.inj (Except.ok.inj h)
  · rintro rfl
    exact ⟨1, (hiterate 1).trans (doPendingFunctors_nil it.functors 0 hnone)⟩

theorem active_pointers (it : Iteration) {w : World} (hrep : Reported w (reported it.result)) :
    (EventLoop.activeChannels_ it w).map Prod.fst = (reported it.result).map EpollEvent.ptr := by
  obtain ⟨_, hpoll⟩ := poll_eq it.result hrep.fits
  rw [EventLoop.activeChannels_, hpoll]
  refine List.ext_getElem? fun i => ?_
  simp [Function.comp_def]

theorem poll_live (it : Iteration) {w : World} (hi : ServerInv w)
    (hrep : Reported w (reported it.result)) : ServerInv (EventLoop.poll it.result w) ∧
      ∀ e ∈ reported it.result, (∃ fd, Live (EventLoop.poll it.result w) fd e.ptr) ∧
        ((EventLoop.poll it.result w).channel e.ptr).revents_ = e.events := by
  obtain ⟨array, hpoll⟩ := poll_eq it.result hrep.fits
  let u := w.onReactor (markAll (reported it.result))
  obtain ⟨hiu, hlive⟩ := serverInv_markAll (reported it.result) hi
  have heq : EventLoop.poll it.result w = u.onReactor fun r => { r with events_ := array } := by
    rw [EventLoop.poll, World.onReactor, hpoll]
    rfl
  have hkept : Kept u (EventLoop.poll it.result w) := by
    rw [heq]
    exact kept_recorded hiu.toTables ⟨rfl, rfl, rfl, rfl, rfl, rfl, rfl, rfl⟩
  refine ⟨hiu.kept hkept, fun e he => ⟨?_, ?_⟩⟩
  · obtain ⟨fd, mask, hint⟩ := hrep.registered e he
    exact ⟨fd, live_kept hkept ((hlive fd e.ptr).mpr (live_of_interest hi hint))⟩
  · rw [heq]
    exact markAll_revents hrep.once w.toReactor he

theorem poll_waits {it : Iteration} {w : World} (hi : ServerInv w)
    (hrep : Reported w (reported it.result)) :
    ServerInv (EventLoop.poll it.result w) ∧
      ((EventLoop.activeChannels_ it w).map Prod.fst).Nodup ∧
      (∀ a ∈ EventLoop.activeChannels_ it w,
        Waits (reported it.result) (EventLoop.poll it.result w) a.1) ∧
      (EventLoop.activeChannels_ it w).map Prod.fst =
        (reported it.result).map EpollEvent.ptr ∧
      ∀ e ∈ reported it.result,
        ((EventLoop.poll it.result w).channel e.ptr).revents_ = e.events := by
  obtain ⟨hi₀, hmarked⟩ := poll_live it hi hrep
  have hpointers := active_pointers it hrep
  refine ⟨hi₀, hpointers ▸ hrep.once, fun a ha => ?_, hpointers, fun e he => (hmarked e he).2⟩
  have hmem : a.1 ∈ (reported it.result).map EpollEvent.ptr :=
    hpointers ▸ List.mem_map_of_mem ha
  obtain ⟨e, he, hptr⟩ := List.mem_map.mp hmem
  obtain ⟨hlive, hrev⟩ := hmarked e he
  rw [hptr] at hlive hrev
  exact ⟨e, he, hptr, hlive, hrev⟩

theorem iterate_step (w : World) (it : Iteration) (t : World) (hi : ServerInv w)
    (hstep : Iterates w it t) (hadm : Admits w it) : Serves w it t ∧ ServerInv t := by
  obtain ⟨_, fuel, h⟩ := hstep
  obtain ⟨hi₀, honce, hwaits, hpointers, _⟩ := poll_waits hi hadm.reported
  obtain ⟨hserved, hafter⟩ := batch_served hi₀ honce hwaits hadm.permitted
  obtain ⟨u, hu, hfunctors⟩ := bind_ok h
  have hrun := handleEvents_run hu
  have hiu := hafter u hrun
  have hsends := hadm.functorSends u hrun
  exact ⟨⟨hpointers, hserved⟩, hiu.kept (doPendingFunctors_kept hiu hsends hfunctors)⟩

theorem enter_inv {w : World} (hi : ServerInv w) : ServerInv (EventLoop.enter w) :=
  hi.kept (kept_recorded hi.toTables ⟨rfl, rfl, rfl, rfl, rfl, rfl, rfl, rfl⟩)

def freshAccept (w : World) : AcceptResult → Bool
  | .connfd fd => 0 ≤ fd ∧ w.kernel.descriptors fd = none
  | .fail _ => false

def sendsLive (w : World) : AppCall → Bool
  | .send s _ _ => s < w.allocated ∧ (w.socket s).closed = false
  | .retrieve _ _ => true

def permits (w : World) (a : Ptr × Env) (_ : World) : Bool :=
  (a.1 = w.server.acceptor → freshAccept w a.2.accept = true) ∧
    (∀ c ∈ a.2.messageCallback, sendsLive w c = true) ∧
    a.2.closeCallback = [] ∧ a.2.connectionCallback = []

def admits (w : World) (it : Iteration) (t : World) : Bool :=
  (∀ e ∈ reported it.result,
      (w.kernel.interest (w.socket e.ptr).fd_).map Prod.snd = some e.ptr) ∧
    ((reported it.result).map EpollEvent.ptr).Nodup ∧
    (reported it.result).length ≤ w.events_.length ∧
    checkRun (fun w a => Channel.handleEvent a.1 a.2 w) permits (EventLoop.poll it.result w)
      (EventLoop.activeChannels_ it w) = true ∧
    t.loop_.pendingFunctors_ = []

theorem permitted_of_permits {w t : World} {a : Ptr × Env} (h : permits w a t = true) :
    Permitted w a := by
  obtain ⟨haccept, hsends, hclose, hconnection⟩ := of_decide_eq_true h
  refine ⟨fun hacc => ?_, fun s data result hs => ?_, hclose ▸ sendsBeside_nil w a.1,
    hconnection ▸ sendsOnNew_nil w⟩
  · have hfresh := haccept hacc
    cases hresult : a.2.accept with
    | connfd fd =>
      rw [hresult] at hfresh
      exact ⟨fd, rfl, of_decide_eq_true hfresh⟩
    | fail errno =>
      rw [hresult] at hfresh
      cases hfresh
  · obtain ⟨hmade, hunclosed⟩ := of_decide_eq_true (hsends _ hs)
    exact ⟨_, hmade, hunclosed, rfl⟩

theorem admitted_of_check {w : World} {its : List Iteration}
    (hfunctors : ∀ it ∈ its, it.functors = fun _ => [])
    (h : checkRun dispatched admits w its = true) :
    EachStep Iterates (fun w it _ => Admits w it) w its := by
  have hchecked : EachStep Iterates (fun w it t => admits w it t = true) w its := by
    refine .of_check id (fun hu hc hstep => ?_) id h
    obtain ⟨_, _, _, _, hnone⟩ := of_decide_eq_true hc
    exact ((iterates_of_dispatched hu hnone).mp hstep).2
  refine EachStep.mono (fun w it t hboth => ?_) (hchecked.and (.of_labels hfunctors w))
  obtain ⟨hc, hnone⟩ := hboth
  obtain ⟨hregistered, honce, hfits, hpermits, _⟩ := of_decide_eq_true hc
  refine ⟨⟨fun e he => registered_of_lookup (hregistered e he), honce, hfits⟩, ?_,
    fun u _ i => by simpa [hnone] using sendsOnLive_nil u⟩
  exact .of_check id (fun hu _ hstep => Except.ok.inj (hu.symm.trans hstep))
    permitted_of_permits hpermits

/-- A connection is accepted; it sends two bytes and another one is accepted; the first one ends
while the other sends a byte. `calls` is what the message callback does for a Socket and the number
of bytes that it finds. -/
def session (calls : Ptr → ℕ → List AppCall) : List Iteration :=
  [⟨.ready [⟨EPOLLIN, 0⟩],
      fun _ => { idle with accept := .connfd 5, messageCallback := calls 0 0 }, fun _ => []⟩,
    ⟨.ready [⟨EPOLLIN, 1⟩, ⟨EPOLLIN, 0⟩], fun i =>
      if i = 0 then
        { idle with readv := .data [0x61, 0x62], messageCallback := calls 1 2 }
      else { idle with accept := .connfd 6, messageCallback := calls 0 0 }, fun _ => []⟩,
    ⟨.ready [⟨EPOLLIN, 1⟩, ⟨EPOLLIN, 2⟩], fun i =>
      if i = 0 then { idle with readv := .data [], messageCallback := calls 1 0 }
      else { idle with readv := .data [0x63], messageCallback := calls 2 1 }, fun _ => []⟩]

def echoed (s : Ptr) (readable : ℕ) : List AppCall :=
  [.retrieve s readable, .send s [0x61] (.count 1)]

theorem session_admitted : EachStep Iterates (fun w it _ => Admits w it)
    (EventLoop.enter (TcpServer.start 3 (World.boot fun _ => none))) (session echoed) :=
  admitted_of_check (by simp [session]) (by decide +kernel)

end NetPrograms.ServerLoop
