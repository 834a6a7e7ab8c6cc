import NetPrograms.PendingFunctors

set_option autoImplicit false

/-!
# Lifetime of Sockets

A Socket owns its Channel, and the shared pointers to a Socket are in `acceptor`, in
`connections_`, in queued functors and with the application. The Poller, the kernel and
`activeChannels_` have raw pointers to Channels. `handleEvent` runs in a Channel whose last
shared pointer may go in the middle of it.
-/
namespace NetPrograms.SocketLifetime
open BufferModel EventLoopModel PollerModel ServerModel ChannelDispatch ServerTables ServerRuns
open ServerLoop PendingFunctors RunInvariants

def Owned (w : World) (p : Ptr) : Prop :=
  p = w.server.acceptor ∨ ∃ fd, w.server.connections_ fd = some p

def Held (app : Set Ptr) (w : World) (p : Ptr) : Prop :=
  Owned w p ∨ p ∈ w.loop_.pendingFunctors_ ∨ p ∈ app

def Ends (u : World) (a : Ptr × Env) : Prop :=
  a.1 ≠ u.server.acceptor ∧ (hungUp (u.channel a.1).revents_ ∨
    readable (u.channel a.1).revents_ ∧ a.2.readv = .data [])

instance (u : World) (a : Ptr × Env) : Decidable (Ends u a) :=
  inferInstanceAs (Decidable (_ ∧ _))

/-- What one dispatch means for the Sockets. With no shared pointer left at its end, the last
assignment of `handleEvent` is to a Channel that has been freed. -/
structure Lifetime (u : World) (a : Ptr × Env) (t : World) : Prop where
  owned : Owned u a.1
  freed : ∀ app, ¬Held app t a.1 ↔ Ends u a ∧ a.1 ∉ app
  others : ∀ q, q ≠ a.1 → Owned u q → Owned t q

/-- Every raw pointer to a Channel is to one of a Socket that the server owns. No functor is
ever queued, so none keeps a Socket alive. -/
structure Sound (w : World) : Prop where
  table : ∀ fd q, w.channels_ fd = some q → Owned w q
  kernel : ∀ fd mask q, w.kernel.interest fd = some (mask, q) → Owned w q
  functors : w.loop_.pendingFunctors_ = []

theorem owned_iff {w : World} (hi : ServerInv w) (q : Ptr) : Owned w q ↔ ∃ fd, Live w fd q := by
  constructor
  · rintro (rfl | ⟨fd, hfd⟩)
    · exact ⟨_, hi.acceptorLive⟩
    · exact ⟨fd, ((connections_iff hi fd q).mp hfd).1⟩
  · rintro ⟨fd, hlive⟩
    by_cases hacc : q = w.server.acceptor
    · exact .inl hacc
    · exact .inr ⟨fd, (connections_iff hi fd q).mpr ⟨hlive, hacc⟩⟩

theorem gone_disowned {w : World} (hi : ServerInv w) {p : Ptr} (hp : Gone w p) : ¬Owned w p := by
  intro howned
  obtain ⟨fd, hlive⟩ := (owned_iff hi p).mp howned
  have hclosed := hp.closed
  rw [hlive.unclosed] at hclosed
  cases hclosed

theorem sound {w : World} (hi : ServerInv w) (hfunctors : w.loop_.pendingFunctors_ = []) :
    Sound w :=
  ⟨fun fd q hq => (owned_iff hi q).mpr ⟨fd, (hi.table fd q).mp hq⟩,
    fun fd _ q hq => (owned_iff hi q).mpr ⟨fd, live_of_interest hi hq⟩, hfunctors⟩

theorem handleClose_gone {p : Ptr} {env : Env} {w t : World} (hmade : p < w.allocated)
    (h : Socket.handleClose p env w = .ok t) : Gone t p := by
  have hframe := disconnect_frame p w
  refine gone_steady (runCallback_steady (handleClose_outcome h)) ⟨?_, ?_, ?_⟩
  · rw [hframe.allocated]
    exact hmade
  · rw [disconnect_socket, Function.update_self]
  · rw [hframe.socket_fd, disconnect_descriptors, Function.update_self]

theorem handleRead_ends {p : Ptr} {env : Env} {w t : World} (hmade : p < w.allocated)
    (hopen : w.kernel.descriptors (w.channel p).fd_ ≠ none)
    (h : Socket.handleRead p env w = .ok t) :
    if env.readv = .data [] then Gone t p else Steady w t := by
  obtain ⟨q, hout⟩ := handleRead_outcome h
  have hread : Steady w (didRead p q w) := didRead_steady p q w
  rw [if_neg hopen] at hout
  generalize env.readv = result at hout ⊢
  cases hout with
  | message bytes _ hne hrun =>
    rw [if_neg (by simpa using hne)]
    exact hread.trans (runCallback_steady hrun)
  | eof _ hclose =>
    rw [if_pos rfl]
    exact handleClose_gone (hread.allocated ▸ hmade) hclose
  | error _ savedErrno =>
    rw [if_neg (by simp)]
    exact hread.trans ((setErrno_recorded savedErrno _).trans (handleError_recorded p _)).steady

theorem handleRead_closed {p : Ptr} {env : Env} {w t : World}
    (hclosed : w.kernel.descriptors (w.channel p).fd_ = none)
    (h : Socket.handleRead p env w = .ok t) : Steady w t := by
  obtain ⟨q, hout⟩ := handleRead_outcome h
  rw [if_pos hclosed] at hout
  cases hout with
  | error _ savedErrno =>
    exact (didRead_steady p q w).trans
      ((setErrno_recorded savedErrno _).trans (handleError_recorded p _)).steady

theorem handleOut_steady {p : Ptr} {env : Env} {w t : World} (hc : Connection w p)
    (h : Channel.handleOut p env w = .ok t) : Steady w t := by
  rcases handleOut_cases hc h with ⟨_, hrun⟩ | ⟨_, rfl⟩
  · exact handleWrite_steady hrun
  · exact Steady.refl _

theorem connection_ends {u t : World} (hi : ServerInv u) {fd : ℤ} {p : Ptr} (hp : Live u fd p)
    (hacc : p ≠ u.server.acceptor) {env : Env} (h : Channel.handleEvent p env u = .ok t) :
    if Ends u (p, env) then Gone t p else Live t fd p := by
  obtain ⟨w₁, w₂, w₃, w₄, h₁, h₂, h₃, h₄, rfl⟩ := handleEvent_parts h
  let w₀ := Channel.setEventHandling true p u
  have hs₀ : Steady u w₀ := setEventHandling_steady true p u
  have hc₀ : Connection w₀ p := (hi.connection p hp.made hacc).frame hs₀.toFrame
  have hmade₀ : p < w₀.allocated := hp.made
  have hends : Ends u (p, env) ↔ hungUp (w₀.channel p).revents_ = true ∨
      readable (w₀.channel p).revents_ = true ∧ env.readv = .data [] := by
    rw [hs₀.revents p]
    exact and_iff_right hacc
  have hlast : ∀ {w}, Connection w p → Channel.handleOut p env w = .ok w₄ →
      Steady w (Channel.setEventHandling false p w₄) := fun hc hout =>
    (handleOut_steady hc hout).trans (setEventHandling_steady false p w₄)
  rcases handleHangUp_cases hc₀ h₁ with ⟨hup, hclose⟩ | ⟨hup, rfl⟩
  · rw [if_pos (hends.mpr (.inl hup))]
    have hc₁ := hc₀.frame (handleClose_frame hclose)
    obtain rfl := handleErr_none hc₁ h₂
    have hgone : Gone w₂ p := handleClose_gone hmade₀ hclose
    have hs₃ : Steady w₂ w₃ := by
      rcases handleIn_cases hc₁ h₃ with ⟨_, hrun⟩ | ⟨_, rfl⟩
      · refine handleRead_closed ?_ hrun
        rw [hc₁.fd]
        exact hgone.descriptor
      · exact Steady.refl _
    exact gone_steady (hs₃.trans (hlast (hc₁.frame hs₃.toFrame) h₄)) hgone
  · obtain rfl := handleErr_none hc₀ h₂
    have hc₃ := hc₀.frame (handleIn_frame hc₀ h₃)
    have hs₄ := hlast hc₃ h₄
    rcases handleIn_cases hc₀ h₃ with ⟨hread, hrun⟩ | ⟨hread, rfl⟩
    · have hopen : w₀.kernel.descriptors (w₀.channel p).fd_ ≠ none := by
        rw [hc₀.fd, hs₀.socket_fd, hp.fd_eq]
        exact hi.open hp
      have hcase := handleRead_ends hmade₀ hopen hrun
      by_cases heof : env.readv = .data []
      · rw [if_pos (hends.mpr (.inr ⟨hread, heof⟩))]
        rw [if_pos heof] at hcase
        exact gone_steady hs₄ hcase
      · have hno : ¬Ends u (p, env) := fun he => by
          rcases hends.mp he with hup' | ⟨_, heof'⟩
          · rw [hup] at hup'
            cases hup'
          · exact heof heof'
        rw [if_neg hno]
        rw [if_neg heof] at hcase
        exact (live_steady ((hs₀.trans hcase).trans hs₄)).mpr hp
    · have hno : ¬Ends u (p, env) := fun he => by
        rcases hends.mp he with hup' | ⟨hread', _⟩
        · rw [hup] at hup'
          cases hup'
        · rw [hread] at hread'
          cases hread'
      rw [if_neg hno]
      exact (live_steady (hs₀.trans hs₄)).mpr hp

theorem handle_lifetime {u t : World} (hi : ServerInv u) {a : Ptr × Env} {fd : ℤ}
    (hp : Live u fd a.1) (hperm : Permitted u a) (hfunctors : t.loop_.pendingFunctors_ = [])
    (h : Handles u a t) : Lifetime u a t := by
  obtain ⟨hit, hspares⟩ := handle_step hi hp hperm h
  have hempty : a.1 ∉ t.loop_.pendingFunctors_ := by simp [hfunctors]
  refine ⟨(owned_iff hi a.1).mpr ⟨fd, hp⟩, fun app => ?_, fun q hne hq => ?_⟩
  · have howned : ¬Owned t a.1 ↔ Ends u a := by
      by_cases hacc : a.1 = u.server.acceptor
      · have hstays : Owned t a.1 := .inl (hacc.trans hspares.acceptor.symm)
        exact iff_of_false (not_not.mpr hstays) fun hends => hends.1 hacc
      · have hcase := connection_ends hi hp hacc h
        split_ifs at hcase with hends
        · exact iff_of_true (gone_disowned hit hcase) hends
        · exact iff_of_false (not_not.mpr ((owned_iff hit a.1).mpr ⟨fd, hcase⟩)) hends
    simp [Held, howned, hempty]
  · obtain ⟨f, hlive⟩ := (owned_iff hi q).mp hq
    exact (owned_iff hit q).mpr ⟨f, hspares.live hlive hne⟩

theorem batch_lifetime {events : List EpollEvent} {turns : List (Ptr × Env)} {u : World}
    (hi : ServerInv u) (hu : Unqueued u) (honce : (turns.map Prod.fst).Nodup)
    (hwaits : ∀ a ∈ turns, Waits events u a.1)
    (hperm : EachStep Handles (fun u a _ => Permitted u a) u turns) :
    EachStep Handles Lifetime u turns := by
  induction turns generalizing u with
  | nil => trivial
  | cons a turns ih =>
    obtain ⟨hfirst, hrest⟩ := List.nodup_cons.mp honce
    obtain ⟨e, _, _, ⟨fd, hlive⟩, _⟩ := hwaits a List.mem_cons_self
    intro v hv
    obtain ⟨hnow, hlater⟩ := hperm v hv
    obtain ⟨hiv, hspares⟩ := handle_step hi hlive hnow hv
    have huv := handle_unqueued hu hv
    refine ⟨handle_lifetime hi hlive hnow huv.functors hv, ih hiv huv hrest (fun b hb => ?_) hlater⟩
    refine hspares.waits (hwaits b (List.mem_cons_of_mem a hb)) fun heq => hfirst ?_
    exact heq ▸ List.mem_map_of_mem hb

def Lifetimes (w : World) (it : Iteration) (_ : World) : Prop :=
  EachStep Handles Lifetime (EventLoop.poll it.result w) (EventLoop.activeChannels_ it w)

theorem iterate_lifetimes (w : World) (it : Iteration) (t : World)
    (hw : ServerInv w ∧ Unqueued w) (hstep : Iterates w it t) (hadm : Admits w it) :
    Lifetimes w it t ∧ ServerInv t ∧ Unqueued t := by
  obtain ⟨hi, hu⟩ := hw
  obtain ⟨hi₀, honce, hwaits, _⟩ := poll_waits hi hadm.reported
  exact ⟨batch_lifetime hi₀ (poll_unqueued it.result hu) honce hwaits hadm.permitted,
    (iterate_step w it t hi hstep hadm).2, iterate_unqueued hu hstep⟩

/-- In every run of the loop of a started server, whatever the callbacks of the application do,
each dispatch finds its Channel alive, and frees it before `handleEvent` is done with it exactly
when it closes the connection and the application has no shared pointer to the Socket. -/
theorem channel_freed_iff (w : World) (hw : Started w) (its : List Iteration)
    (hadm : EachStep Iterates (fun w it _ => Admits w it) (EventLoop.enter w) its) :
    EachStep Iterates Lifetimes (EventLoop.enter w) its ∧
      Always Iterates Sound (EventLoop.enter w) its := by
  have hi : ServerInv (EventLoop.enter w) ∧ Unqueued (EventLoop.enter w) :=
    ⟨enter_inv hw.inv, started_unqueued hw⟩
  let I : World → Prop := fun w => ServerInv w ∧ Unqueued w
  constructor
  · exact EachStep.of_invariant I iterate_lifetimes hadm hi
  · refine (Always.of_invariant I ?_ hadm hi).mono fun _ h => sound h.1 h.2.functors
    exact fun w it t hw hstep ha => (iterate_lifetimes w it t hw hstep ha).2

theorem channel_freed_iff_session :
    EachStep Iterates Lifetimes (EventLoop.enter (TcpServer.start 3 (World.boot fun _ => none)))
        (session echoed) ∧
      Always Iterates Sound (EventLoop.enter (TcpServer.start 3 (World.boot fun _ => none)))
        (session echoed) :=
  channel_freed_iff _ started_boot _ session_admitted

end NetPrograms.SocketLifetime
