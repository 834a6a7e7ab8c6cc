import NetPrograms.RunInvariants
import NetPrograms.ServerAccept

set_option autoImplicit false

namespace NetPrograms.ServerActions
open BufferModel PollerModel ServerModel ChannelDispatch ServerTables RunInvariants

/-- The atomic actions. What application code does is an action of its own, at any time. -/
inductive Action where
  | accept (fd : ℤ)
  | handleRead (p : Ptr) (result : ReadResult)
  | handleWrite (p : Ptr) (result : IoResult)
  | handleClose (p : Ptr)
  | call (c : AppCall)
  deriving DecidableEq, Repr

def silent : Env := ⟨.fail 0, .fail 0, .fail 0, [], [], []⟩

def Action.run (w : World) : Action → Except Fault World
  | accept fd => TcpServer.accept { silent with accept := .connfd fd } w
  | handleRead p result => Socket.handleRead p { silent with readv := result } w
  | handleWrite p result => Socket.handleWrite p result w
  | handleClose p => Socket.handleClose p silent w
  | call c => c.run w

def Acts (w : World) (a : Action) (t : World) : Prop := a.run w = .ok t

theorem acts_cons {C : World → Action → World → Prop} {w t : World} {a : Action}
    {actions : List Action} (h : Acts w a t) :
    EachStep Acts C w (a :: actions) ↔ C w a t ∧ EachStep Acts C t actions :=
  eachStep_cons h fun _ ht => Except.ok.inj (ht.symm.trans h)

theorem runCallback_nil {set : Bool} {w t : World} (h : runCallback set [] w = .ok t) : t = w := by
  obtain ⟨_, _, h⟩ := bind_ok h
  cases h
  rfl

theorem runCallback_acts {set : Bool} {calls : List AppCall} {w t : World}
    (h : runCallback set calls w = .ok t) : Run Acts w (calls.map .call) t := by
  obtain ⟨_, _, hrun⟩ := bind_ok h
  clear h
  induction calls generalizing w with
  | nil =>
    cases hrun
    exact .refl _
  | cons c calls ih =>
    obtain ⟨u, hc, hrest⟩ := bind_ok hrun
    exact .next hc (ih hrest)

theorem runCallback_silent {set : Bool} {calls : List AppCall} {w t : World}
    (h : runCallback set calls w = .ok t) : runCallback set [] w = .ok w := by
  obtain ⟨_, hset, _⟩ := bind_ok h
  rw [require_ok hset]
  rfl

theorem handleClose_acts {p : Ptr} {env : Env} {w t : World}
    (h : Socket.handleClose p env w = .ok t) :
    Run Acts w (.handleClose p :: env.closeCallback.map .call) t := by
  have hrun := handleClose_outcome h
  refine .next ?_ (runCallback_acts hrun)
  obtain ⟨_, hset, _⟩ := bind_ok h
  change Socket.handleClose p silent w = .ok (disconnect p w)
  unfold Socket.handleClose
  dsimp only
  rw [require_ok hset]
  exact runCallback_silent hrun

theorem handleRead_acts {p : Ptr} {env : Env} {w t : World}
    (h : Socket.handleRead p env w = .ok t) : ∃ actions, Run Acts w actions t := by
  obtain ⟨⟨⟨n, savedErrno⟩, u⟩, hread, h⟩ := bind_ok h
  have hacts : ∀ {v}, (if 0 < n then runCallback (u.socket p).messageCallback_ [] u
      else if n = 0 then Socket.handleClose p { silent with readv := env.readv } u
      else pure (Socket.handleError p (u.setErrno savedErrno))) = .ok v →
      Acts w (.handleRead p env.readv) v := by
    intro v hv
    change Socket.handleRead p { silent with readv := env.readv } w = .ok v
    unfold Socket.handleRead
    dsimp only
    rw [hread]
    exact hv
  dsimp only at h
  split_ifs at h with hpos hzero
  · exact ⟨_, .next (hacts ((if_pos hpos).trans (runCallback_silent h))) (runCallback_acts h)⟩
  · have hclose := handleClose_acts h
    cases hclose with
    | next hstep hrest =>
      refine ⟨_, .next (hacts ((if_neg hpos).trans ((if_pos hzero).trans ?_))) hrest⟩
      exact hstep
  · exact ⟨_, .next (hacts ((if_neg hpos).trans ((if_neg hzero).trans h))) (.refl t)⟩

theorem accept_acts {env : Env} {fd : ℤ} {w t : World} (hresult : env.accept = .connfd fd)
    (hfd : 0 ≤ fd) (hacc : w.kernel.descriptors (w.socket w.server.acceptor).fd_ ≠ none)
    (h : TcpServer.accept env w = .ok t) :
    Run Acts w (.accept fd :: env.connectionCallback.map .call) t := by
  rw [accept_connects hresult hfd hacc] at h
  exact .next ((accept_connects rfl hfd hacc).trans (runCallback_silent h)) (runCallback_acts h)

theorem dispatch_acts {p : Ptr} {env : Env} {w t : World} (hc : Connection w p)
    (h : Channel.handleEvent p env w = .ok t) :
    ∃ actions u, Run Acts (Channel.setEventHandling true p w) actions u ∧
      t = Channel.setEventHandling false p u := by
  obtain ⟨w₁, w₂, w₃, w₄, h₁, h₂, h₃, h₄, rfl⟩ := handleEvent_parts h
  have hc₀ := hc.frame (setEventHandling_steady true p w).toFrame
  have hclose : Frame (Channel.setEventHandling true p w) w₁ ∧
      ∃ actions, Run Acts (Channel.setEventHandling true p w) actions w₁ := by
    rcases handleHangUp_cases hc₀ h₁ with ⟨_, hrun⟩ | ⟨_, rfl⟩
    · exact ⟨handleClose_frame hrun, _, handleClose_acts hrun⟩
    · exact ⟨(Steady.refl _).toFrame, _, .refl _⟩
  obtain ⟨hf₁, actions₁, hrun₁⟩ := hclose
  have hc₁ := hc₀.frame hf₁
  obtain rfl := handleErr_none hc₁ h₂
  have hread : ∃ actions, Run Acts w₂ actions w₃ := by
    rcases handleIn_cases hc₁ h₃ with ⟨_, hrun⟩ | ⟨_, rfl⟩
    · exact handleRead_acts hrun
    · exact ⟨_, .refl _⟩
  have hwrite : ∃ actions, Run Acts w₃ actions w₄ := by
    rcases handleOut_cases (hc₁.frame (handleIn_frame hc₁ h₃)) h₄ with ⟨_, hrun⟩ | ⟨_, rfl⟩
    · exact ⟨[.handleWrite p env.write], .next hrun (.refl w₄)⟩
    · exact ⟨_, .refl _⟩
  obtain ⟨actions₂, hrun₂⟩ := hread
  obtain ⟨actions₃, hrun₃⟩ := hwrite
  exact ⟨_, w₄, (hrun₁.trans hrun₂).trans hrun₃, rfl⟩

end NetPrograms.ServerActions
