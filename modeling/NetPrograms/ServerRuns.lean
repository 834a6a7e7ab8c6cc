import NetPrograms.RunInvariants
import NetPrograms.ServerAccept

set_option autoImplicit false

namespace NetPrograms.ServerRuns
open BufferModel PollerModel PollerMirror ServerModel ChannelDispatch ServerTables RunInvariants

def undispatched (c : Channel) : Channel := { c with revents_ := 0, eventHandling_ := false }

theorem live_onReactor {f : Reactor → Reactor} {w : World} {fd : ℤ} {q : Ptr} :
    Live (w.onReactor f) fd q ↔ Live w fd q :=
  ⟨fun h => ⟨h.made, h.unclosed, h.fd_eq⟩, fun h => ⟨h.made, h.unclosed, h.fd_eq⟩⟩

theorem serverInv_setChannel {w : World} (hi : ServerInv w) (p : Ptr) (f : Channel → Channel)
    (hf : ∀ c, undispatched (f c) = undispatched c) :
    ServerInv (w.onReactor (·.setChannel p f)) := by
  have hch : ∀ q, undispatched ((w.onReactor (·.setChannel p f)).channel q) =
      undispatched (w.channel q) := by
    intro q
    by_cases hq : q = p
    · rw [hq]
      exact (congrArg undispatched (setChannel_self w.toReactor p f)).trans (hf _)
    · exact congrArg undispatched (Function.update_of_ne hq _ _)
  have hevent : event (w.onReactor (·.setChannel p f)) = event w := by
    funext q
    exact (congrArg (fun c : Channel => (c.events_, q)) (hch q) :)
  refine ⟨⟨fun fd q => ?_, fun fd => ?_, hi.connections, fun q hq => ?_, fun fd q hq => ?_,
    fun fd q hq => ?_, fun q hq hc => ?_⟩, ⟨fun fd q hq => ?_, hi.identity, hi.distinct,
    hi.acceptorFile, live_onReactor.mpr hi.acceptorLive, fun q hq hne => ?_, fun fd id hid => ?_⟩,
    ⟨fun q hq hne => ?_, ?_, ?_, ?_, ?_⟩⟩
  · rw [live_onReactor]
    exact hi.table fd q
  · rw [hevent]
    exact hi.interest fd
  · exact (congrArg Channel.fd_ (hch q) :).trans (hi.channelFd q hq)
  · exact (congrArg Channel.index_ (hch q) :).trans (hi.added fd q (live_onReactor.mp hq))
  · have hev : ((w.onReactor (·.setChannel p f)).channel q).events_ = (w.channel q).events_ :=
      (congrArg Channel.events_ (hch q) :)
    rw [hev]
    exact hi.reading fd q (live_onReactor.mp hq)
  · exact (congrArg Channel.index_ (hch q) :).trans (hi.removed q hq hc)
  · exact hi.opened fd q (live_onReactor.mp hq)
  · obtain ⟨q', hq'⟩ := hi.reused q hq hne
    exact ⟨q', live_onReactor.mpr hq'⟩
  · obtain ⟨q, hq⟩ := hi.connectionFds fd id hid
    exact ⟨q, live_onReactor.mpr hq⟩
  · obtain ⟨hfd, hread, hwrite, hclose, herror⟩ := hi.connection q hq hne
    exact ⟨(congrArg Channel.fd_ (hch q) :).trans hfd,
      (congrArg Channel.readCallback_ (hch q) :).trans hread,
      (congrArg Channel.writeCallback_ (hch q) :).trans hwrite,
      (congrArg Channel.closeCallback_ (hch q) :).trans hclose,
      (congrArg Channel.errorCallback_ (hch q) :).trans herror⟩
  · exact (congrArg Channel.readCallback_ (hch _) :).trans hi.acceptorRead
  · exact (congrArg Channel.writeCallback_ (hch _) :).trans hi.acceptorWrite
  · exact (congrArg Channel.closeCallback_ (hch _) :).trans hi.acceptorClose
  · exact (congrArg Channel.errorCallback_ (hch _) :).trans hi.acceptorError

def SendsBeside (w : World) (p : Ptr) (calls : List AppCall) : Prop :=
  ∀ s data result, AppCall.send s data result ∈ calls → (∃ fd, Live w fd s) ∧ s ≠ p

theorem sendsBeside_nil (w : World) (p : Ptr) : SendsBeside w p [] :=
  fun _ _ _ h => absurd h List.not_mem_nil

theorem handleClose_live {w w' : World} (hi : ServerInv w) {fd : ℤ} {p : Ptr} (hp : Live w fd p)
    (hacc : p ≠ w.server.acceptor) {env : Env} (hsends : SendsBeside w p env.closeCallback)
    (h : Socket.handleClose p env w = .ok w') : ServerInv w' ∧ Gone w' p := by
  obtain ⟨hi', hgone, hlive⟩ := disconnect_step hi hp hacc
  have hcalls : SendsOnLive (disconnect p w) env.closeCallback := by
    intro s data result hs
    obtain ⟨⟨f, hf⟩, hne⟩ := hsends s data result hs
    exact ⟨f, (hlive f s).mpr ⟨hf, hne⟩⟩
  have hkept := runCallback_kept hi' hcalls (handleClose_outcome h)
  exact ⟨hi'.kept hkept, gone_steady hkept.toSteady hgone⟩

theorem sendsOnLive_kept {w w' : World} (h : Kept w w') {calls : List AppCall}
    (hcalls : SendsOnLive w calls) : SendsOnLive w' calls := by
  intro s data result hs
  obtain ⟨fd, hlive⟩ := hcalls s data result hs
  exact ⟨fd, live_kept h hlive⟩

theorem sendsBeside_kept {w w' : World} (h : Kept w w') {p : Ptr} {calls : List AppCall}
    (hcalls : SendsBeside w p calls) : SendsBeside w' p calls := by
  intro s data result hs
  obtain ⟨⟨fd, hlive⟩, hne⟩ := hcalls s data result hs
  exact ⟨⟨fd, live_kept h hlive⟩, hne⟩

theorem handleRead_live {w w' : World} (hi : ServerInv w) {fd : ℤ} {p : Ptr} (hp : Live w fd p)
    (hacc : p ≠ w.server.acceptor) {env : Env} (hmessage : SendsOnLive w env.messageCallback)
    (hclose : SendsBeside w p env.closeCallback) (h : Socket.handleRead p env w = .ok w') :
    ServerInv w' ∧ (Live w' fd p ∨ Gone w' p) := by
  obtain ⟨q, hout⟩ := handleRead_outcome h
  have hread := didRead_kept hi.toTables p q
  have hi' := hi.kept hread
  have hp' := live_kept hread hp
  generalize (if w.kernel.descriptors (w.channel p).fd_ = none then _ else env.readv) = result
    at hout
  cases hout with
  | message _ _ _ hrun =>
    have hkept := runCallback_kept hi' (sendsOnLive_kept hread hmessage) hrun
    exact ⟨hi'.kept hkept, .inl (live_kept hkept hp')⟩
  | eof _ hrun =>
    have hacc' : p ≠ (didRead p q w).server.acceptor := hacc
    obtain ⟨hc, hgone⟩ :=
      handleClose_live hi' hp' hacc' (sendsBeside_kept hread hclose) hrun
    exact ⟨hc, .inr hgone⟩
  | error _ savedErrno =>
    have hkept := handleError_kept hi' p savedErrno
    exact ⟨hi'.kept hkept, .inl (live_kept hkept hp')⟩

theorem connection_dispatch {w t : World} (hi : ServerInv w) {fd : ℤ} {p : Ptr}
    (hp : Live w fd p) (hacc : p ≠ w.server.acceptor) {env : Env}
    (hmessage : SendsOnLive w env.messageCallback) (hclose : SendsBeside w p env.closeCallback)
    (h : Channel.handleEvent p env w = .ok t) : ServerInv t := by
  obtain ⟨w₁, w₂, w₃, w₄, h₁, h₂, h₃, h₄, rfl⟩ := handleEvent_parts h
  let w₀ := Channel.setEventHandling true p w
  have hi₀ : ServerInv w₀ := serverInv_setChannel hi p _ fun _ => rfl
  have hp₀ : Live w₀ fd p := live_onReactor.mpr hp
  have hc₀ : Connection w₀ p := hi₀.connection p hp₀.made hacc
  have hmessage₀ : SendsOnLive w₀ env.messageCallback := fun s data result hs =>
    (hmessage s data result hs).imp fun _ => live_onReactor.mpr
  have hclose₀ : SendsBeside w₀ p env.closeCallback := fun s data result hs =>
    ⟨(hclose s data result hs).1.imp fun _ => live_onReactor.mpr, (hclose s data result hs).2⟩
  have hfalse : ∀ u : World, ServerInv u → ServerInv (Channel.setEventHandling false p u) :=
    fun u hu => serverInv_setChannel hu p _ fun _ => rfl
  obtain ⟨hi₁, hp₁, hc₁⟩ : ServerInv w₁ ∧ (w₁ = w₀ ∨ Gone w₁ p) ∧ Connection w₁ p := by
    rcases handleHangUp_cases hc₀ h₁ with ⟨_, hrun⟩ | ⟨_, rfl⟩
    · obtain ⟨hi₁, hgone⟩ := handleClose_live hi₀ hp₀ hacc hclose₀ hrun
      exact ⟨hi₁, .inr hgone, hc₀.frame (handleClose_frame hrun)⟩
    · exact ⟨hi₀, .inl rfl, hc₀⟩
  obtain rfl := handleErr_none hc₁ h₂
  obtain ⟨hi₃, hp₃, hc₃⟩ : ServerInv w₃ ∧ (Live w₃ fd p ∨ Gone w₃ p) ∧ Connection w₃ p := by
    rcases handleIn_cases hc₁ h₃ with ⟨_, hrun⟩ | ⟨_, rfl⟩
    · have hc₃ := hc₁.frame (handleRead_frame hrun)
      rcases hp₁ with rfl | hgone
      · obtain ⟨hi₃, hp₃⟩ := handleRead_live hi₀ hp₀ hacc hmessage₀ hclose₀ hrun
        exact ⟨hi₃, hp₃, hc₃⟩
      · have hkept := handleRead_gone hi₁ hgone hrun
        exact ⟨hi₁.kept hkept, .inr (gone_steady hkept.toSteady hgone), hc₃⟩
    · refine ⟨hi₁, ?_, hc₁⟩
      rcases hp₁ with rfl | hgone
      · exact .inl hp₀
      · exact .inr hgone
  refine hfalse w₄ ?_
  rcases handleOut_cases hc₃ h₄ with ⟨_, hrun⟩ | ⟨_, rfl⟩
  · rcases hp₃ with hlive | hgone
    · exact hi₃.kept (handleWrite_kept hi₃ hlive hrun)
    · exact hi₃.kept (handleWrite_gone hi₃ hgone hrun)
  · exact hi₃

theorem acceptor_accepts {w₀ w₁ w₂ w₃ : World} (hi : ServerInv w₀) {p : Ptr}
    (hp : p = w₀.server.acceptor) {env : Env}
    (h₁ : Channel.handleHangUp p env w₀ = .ok w₁) (h₂ : Channel.handleErr p env w₁ = .ok w₂)
    (h₃ : Channel.handleIn p env w₂ = .ok w₃) :
    Recorded w₀ w₂ ∧ if readable (w₀.channel p).revents_ then TcpServer.accept env w₂ = .ok w₃
      else w₃ = w₂ := by
  have hr₁ : Recorded w₀ w₁ := by
    rw [Channel.handleHangUp, hp, hi.acceptorClose] at h₁
    split_ifs at h₁ <;> cases h₁ <;> exact ⟨rfl, rfl, rfl, rfl, rfl, rfl, rfl, rfl⟩
  have hr₂ : w₂ = w₁ := by
    rw [Channel.handleErr, hr₁.channel, hp, hi.acceptorError] at h₂
    split_ifs at h₂ <;> cases h₂ <;> rfl
  subst hr₂
  refine ⟨hr₁, ?_⟩
  rw [Channel.handleIn, Channel.hasEvent, hr₁.channel, hp, hi.acceptorRead, ← hp] at h₃
  change (if readable (w₀.channel p).revents_ then Channel.invoke (some .accept) p env w₂
    else _) = _ at h₃
  by_cases hread : readable (w₀.channel p).revents_
  · rw [if_pos hread] at h₃ ⊢
    exact h₃
  · rw [if_neg hread] at h₃ ⊢
    cases h₃
    rfl

structure Inserted (w w' : World) (fd : ℤ) : Prop where
  absent : w.server.connections_ fd = none
  present : w'.server.connections_ fd = some w.allocated

def SendsOnNew (w : World) (calls : List AppCall) : Prop :=
  ∀ s data result, AppCall.send s data result ∈ calls → (∃ fd, Live w fd s) ∨ s = w.allocated

theorem sendsOnNew_nil (w : World) : SendsOnNew w [] :=
  fun _ _ _ h => absurd h List.not_mem_nil

theorem accept_live {w w' : World} (hi : ServerInv w) {env : Env} {fd : ℤ}
    (hresult : env.accept = .connfd fd) (hfd : 0 ≤ fd) (hfree : w.kernel.descriptors fd = none)
    (hsends : SendsOnNew w env.connectionCallback) (h : TcpServer.accept env w = .ok w') :
    ServerInv w' ∧ Inserted w w' fd ∧ w'.server.acceptor = w.server.acceptor := by
  obtain ⟨hi', hadm⟩ := connect_step hi hfree
  have hrun := (accept_connects hresult hfd (hi.open hi.acceptorLive)).symm.trans h
  have hcalls : SendsOnLive (connect fd w) env.connectionCallback := by
    intro s data result hs
    rcases hsends s data result hs with ⟨f, hf⟩ | rfl
    · exact ⟨f, (live_connected hadm).mpr (.inl hf)⟩
    · exact ⟨fd, (live_connected hadm).mpr (.inr ⟨rfl, rfl⟩)⟩
  have hkept := runCallback_kept hi' hcalls hrun
  obtain ⟨_, _, _, hconn⟩ := free_tables hi hfree
  refine ⟨hi'.kept hkept, ⟨hconn, ?_⟩, hkept.acceptor.trans hadm.acceptor⟩
  rw [hkept.connections_, hadm.connections_, Function.update_self]

theorem acceptor_writes {w w' : World} (hi : ServerInv w) {env : Env}
    (h : Channel.handleOut w.server.acceptor env w = .ok w') :
    ServerInv w' ∧ w'.server.connections_ = w.server.connections_ := by
  rw [Channel.handleOut, hi.acceptorWrite] at h
  split_ifs at h
  · have hkept := handleWrite_kept hi hi.acceptorLive h
    exact ⟨hi.kept hkept, hkept.connections_⟩
  · cases h
    exact ⟨hi, rfl⟩

theorem acceptor_dispatch {w t : World} (hi : ServerInv w) {env : Env} {fd : ℤ}
    (hresult : env.accept = .connfd fd) (hfd : 0 ≤ fd) (hfree : w.kernel.descriptors fd = none)
    (hsends : SendsOnNew w env.connectionCallback)
    (h : Channel.handleEvent w.server.acceptor env w = .ok t) :
    ServerInv t ∧ (readable (w.channel w.server.acceptor).revents_ → Inserted w t fd) := by
  obtain ⟨w₁, w₂, w₃, w₄, h₁, h₂, h₃, h₄, rfl⟩ := handleEvent_parts h
  let p := w.server.acceptor
  let w₀ := Channel.setEventHandling true p w
  have hi₀ : ServerInv w₀ := serverInv_setChannel hi p _ fun _ => rfl
  obtain ⟨hr, hif⟩ := acceptor_accepts (p := p) hi₀ rfl h₁ h₂ h₃
  have hi₂ := hi₀.kept (kept_recorded hi₀.toTables hr)
  have hrev : (w₀.channel p).revents_ = (w.channel p).revents_ :=
    (setEventHandling_steady true p w).revents p
  rw [hrev] at hif
  have hlive₂ : ∀ f q, Live w f q → Live w₂ f q := fun f q hq =>
    live_kept (kept_recorded hi₀.toTables hr) (live_onReactor.mpr hq)
  have hsends₂ : SendsOnNew w₂ env.connectionCallback := by
    intro s data result hs
    rcases hsends s data result hs with ⟨f, hf⟩ | rfl
    · exact .inl ⟨f, hlive₂ f s hf⟩
    · exact .inr hr.allocated.symm
  have hfree₂ : w₂.kernel.descriptors fd = none := by
    rw [hr.descriptors]
    exact hfree
  obtain ⟨hi₃, hins, hacc₃⟩ : ServerInv w₃ ∧
      (readable (w.channel p).revents_ → Inserted w w₃ fd) ∧ w₃.server.acceptor = p := by
    split_ifs at hif with hread
    · obtain ⟨hi₃, ⟨habs, hpres⟩, hacc₃⟩ := accept_live hi₂ hresult hfd hfree₂ hsends₂ hif
      rw [hr.server] at habs hacc₃
      rw [hr.allocated] at hpres
      exact ⟨hi₃, fun _ => ⟨habs, hpres⟩, hacc₃⟩
    · rw [hif]
      refine ⟨hi₂, fun hn => absurd hn hread, ?_⟩
      rw [hr.server]
      rfl
  rw [show w.server.acceptor = w₃.server.acceptor from hacc₃.symm] at h₄
  have hlast := acceptor_writes hi₃ h₄
  refine ⟨serverInv_setChannel hlast.1 _ _ fun _ => rfl, fun hread => ?_⟩
  obtain ⟨habs, hpres⟩ := hins hread
  refine ⟨habs, ?_⟩
  change w₄.server.connections_ fd = _
  rw [hlast.2]
  exact hpres

/-- A server in its loop, before the first event: no descriptor is a connection's yet, and
`socket` has returned a descriptor that was not open. -/
def Started (w : World) : Prop :=
  ∃ (descriptors : ℤ → Option OpenFile) (fd : ℤ),
    (∀ f id, descriptors f ≠ some (.connection id)) ∧ descriptors fd = none ∧
      w = TcpServer.start fd (World.boot descriptors)

theorem started_boot : Started (TcpServer.start 3 (World.boot fun _ => none)) :=
  ⟨fun _ => none, 3, fun _ _ => nofun, rfl, rfl⟩

structure StartState (w : World) (descriptors : ℤ → Option OpenFile) (fd : ℤ) : Prop where
  channel : w.channel 0 = { socketChannel fd with
    readCallback_ := some .accept
    closeCallback_ := some .acceptorCloseCallback }
  channels_ : w.channels_ = Function.update (fun _ => none) fd (some 0)
  interest : w.kernel.interest =
    Function.update (fun _ => none) fd (some (Channel.kReadEvent, 0))
  descriptors : w.kernel.descriptors = Function.update descriptors fd (some .other)
  socket : w.socket 0 = Socket.init fd (some .other)
  allocated : w.allocated = 1
  acceptor : w.server.acceptor = 0
  connections_ : w.server.connections_ = fun _ => none

theorem startState (descriptors : ℤ → Option OpenFile) (fd : ℤ) :
    StartState (TcpServer.start fd (World.boot descriptors)) descriptors fd := by
  let w₀ := (World.boot descriptors).onReactor fun r => { r with
    kernel := { r.kernel with
      descriptors := Function.update r.kernel.descriptors fd (some .other) } }
  let w₁ := (Socket.new fd w₀).2
  have hopen : w₀.kernel.descriptors fd = some .other := Function.update_self _ _ _
  have hnew : Created w₀ w₁ fd := new_created (by rw [hopen]; nofun) rfl
  refine ⟨?_, hnew.channels_, hnew.interest, hnew.descriptors, ?_, hnew.allocated, rfl, ?_⟩
  · have hch : w₁.channel 0 = socketChannel fd := by
      rw [hnew.channel]
      exact Function.update_self _ _ _
    change ((w₁.toReactor.setChannel 0 fun c => { c with readCallback_ := some .accept }).setChannel
      0 fun c => { c with closeCallback_ := some .acceptorCloseCallback }).channel 0 = _
    rw [setChannel_self, setChannel_self, hch]
  · change w₁.socket 0 = _
    rw [hnew.socket, ← hopen]
    exact Function.update_self _ _ _
  · change w₁.server.connections_ = _
    rw [hnew.server]
    rfl

theorem live_started {w : World} {descriptors : ℤ → Option OpenFile} {fd : ℤ}
    (h : StartState w descriptors fd) {f : ℤ} {q : Ptr} : Live w f q ↔ f = fd ∧ q = 0 := by
  constructor
  · rintro ⟨hmade, _, hfd⟩
    rw [h.allocated] at hmade
    obtain rfl := Nat.lt_one_iff.mp hmade
    rw [h.socket] at hfd
    exact ⟨hfd.symm, rfl⟩
  · rintro ⟨rfl, rfl⟩
    refine ⟨?_, ?_, ?_⟩
    · rw [h.allocated]
      exact Nat.one_pos
    · rw [h.socket]
      rfl
    · rw [h.socket]
      rfl

theorem Started.inv {w : World} (hw : Started w) : ServerInv w := by
  obtain ⟨descriptors, fd, hnone, hfree, rfl⟩ := hw
  have h := startState descriptors fd
  generalize TcpServer.start fd (World.boot descriptors) = w at h
  have hlive := fun f q => live_started h (f := f) (q := q)
  have hone : ∀ q, q < w.allocated ↔ q = 0 := by
    intro q
    rw [h.allocated]
    exact Nat.lt_one_iff
  refine ⟨⟨fun f q => ?_, fun f => ?_, fun f => ?_, fun q hq => ?_, fun f q hq => ?_,
    fun f q hq => ?_, fun q hq hc => ?_⟩, ⟨fun f q hq => ?_, fun q hq hne => ?_,
    fun q hq q' hq' _ => ?_, ?_, ?_, fun q hq _ => ?_, fun f id hid => ?_⟩,
    ⟨fun q hq hne => ?_, ?_, ?_, ?_, ?_⟩⟩
  · rw [hlive, h.channels_]
    by_cases hf : f = fd
    · rw [hf, Function.update_self, Option.some.injEq]
      exact ⟨fun hq => ⟨rfl, hq.symm⟩, fun hq => hq.2.symm⟩
    · rw [Function.update_of_ne hf]
      exact iff_of_false nofun fun hq => hf hq.1
  · rw [h.interest, h.channels_]
    by_cases hf : f = fd
    · rw [hf, Function.update_self, Function.update_self, Option.map_some, event, h.channel]
      rfl
    · rw [Function.update_of_ne hf, Function.update_of_ne hf]
      rfl
  · rw [h.connections_, h.channels_, h.acceptor]
    by_cases hf : f = fd
    · rw [hf, Function.update_self]
      rfl
    · rw [Function.update_of_ne hf]
      rfl
  · rw [(hone q).mp hq, h.channel, h.socket]
    rfl
  · rw [((hlive f q).mp hq).2, h.channel]
    rfl
  · rw [((hlive f q).mp hq).2, h.channel]
    exact BitVec.and_self
  · rw [(hone q).mp hq, h.socket] at hc
    cases hc
  · obtain ⟨rfl, rfl⟩ := (hlive f q).mp hq
    rw [h.descriptors, h.socket, Function.update_self]
    rfl
  · rw [h.acceptor] at hne
    exact absurd ((hone q).mp hq) hne
  · rw [(hone q).mp hq, (hone q').mp hq']
  · rw [h.acceptor, h.socket]
    rfl
  · rw [h.acceptor, h.socket, hlive]
    exact ⟨rfl, rfl⟩
  · rw [(hone q).mp hq, h.socket]
    exact ⟨0, (hlive _ _).mpr ⟨rfl, rfl⟩⟩
  · rw [h.descriptors] at hid
    by_cases hf : f = fd
    · rw [hf, Function.update_self] at hid
      cases hid
    · rw [Function.update_of_ne hf] at hid
      exact absurd hid (hnone f id)
  · rw [h.acceptor] at hne
    exact absurd ((hone q).mp hq) hne
  all_goals simp only [h.acceptor, h.channel, socketChannel]

/-- One entry of `activeChannels_`: its Channel, the mask that `poll` has set in it, and what
happens during its dispatch. -/
structure Event where
  channel : Ptr
  revents : Mask
  env : Env

def Event.dispatch (e : Event) (w : World) : Except Fault World :=
  Channel.handleEvent e.channel e.env (w.onReactor (Channel.set_revents e.revents e.channel))

def Dispatches (w : World) (e : Event) (t : World) : Prop := e.dispatch w = .ok t

/-- The kernel has the Channel registered, an accept succeeds with a descriptor that is not
open, and the application calls `Send` on open Sockets only. -/
structure Admissible (w : World) (e : Event) : Prop where
  registered : ∃ fd mask, w.kernel.interest fd = some (mask, e.channel)
  accepts : e.channel = w.server.acceptor →
    ∃ fd, e.env.accept = .connfd fd ∧ 0 ≤ fd ∧ w.kernel.descriptors fd = none
  messageSends : SendsOnLive w e.env.messageCallback
  closeSends : SendsBeside w e.channel e.env.closeCallback
  connectionSends : SendsOnNew w e.env.connectionCallback

structure TablesAgree (w : World) : Prop where
  keys : ∀ fd, w.server.connections_ fd ≠ none ↔
    ∃ id, w.kernel.descriptors fd = some (.connection id)
  entry : ∀ fd q, w.server.connections_ fd = some q →
    (w.socket q).fd_ = fd ∧ (w.channel q).index_ = .kAdded ∧ w.channels_ fd = some q ∧
      (w.channel q).events_ &&& Channel.kReadEvent = Channel.kReadEvent
  unclosed : ∀ fd q, w.server.connections_ fd = some q ∨ w.channels_ fd = some q →
    (w.socket q).closed = false

def Inserts (w : World) (e : Event) (t : World) : Prop :=
  e.channel = w.server.acceptor → readable e.revents →
    ∃ fd, e.env.accept = .connfd fd ∧ Inserted w t fd

theorem live_of_interest {w : World} (hi : ServerInv w) {fd : ℤ} {mask : Mask} {q : Ptr}
    (h : w.kernel.interest fd = some (mask, q)) : Live w fd q := by
  rw [hi.interest, Option.map_eq_some_iff] at h
  obtain ⟨q', hq', he⟩ := h
  obtain rfl : q' = q := congrArg Prod.snd he
  exact (hi.table fd q').mp hq'

theorem registered_of_lookup {w : World} {p : Ptr}
    (h : (w.kernel.interest (w.socket p).fd_).map Prod.snd = some p) :
    ∃ fd mask, w.kernel.interest fd = some (mask, p) := by
  obtain ⟨⟨mask, _⟩, hint, rfl⟩ := Option.map_eq_some_iff.mp h
  exact ⟨_, mask, hint⟩

theorem connections_iff {w : World} (hi : ServerInv w) (fd : ℤ) (q : Ptr) :
    w.server.connections_ fd = some q ↔ Live w fd q ∧ q ≠ w.server.acceptor := by
  rw [hi.connections, Option.filter_eq_some_iff, hi.table, decide_eq_true_iff]

theorem tablesAgree {w : World} (hi : ServerInv w) : TablesAgree w := by
  refine ⟨fun fd => ?_, fun fd q hq => ?_, fun fd q hq => ?_⟩
  · constructor
    · intro hne
      obtain ⟨q, hq⟩ := Option.ne_none_iff_exists'.mp hne
      obtain ⟨hlive, hacc⟩ := (connections_iff hi fd q).mp hq
      obtain ⟨id, _, hfile⟩ := hi.identity q hlive.made hacc
      exact ⟨id, (hi.opened fd q hlive).trans hfile⟩
    · rintro ⟨id, hid⟩
      obtain ⟨q, hlive⟩ := hi.connectionFds fd id hid
      have hacc : q ≠ w.server.acceptor := by
        rintro rfl
        rw [hi.opened fd _ hlive, hi.acceptorFile] at hid
        cases hid
      rw [(connections_iff hi fd q).mpr ⟨hlive, hacc⟩]
      nofun
  · obtain ⟨hlive, _⟩ := (connections_iff hi fd q).mp hq
    exact ⟨hlive.fd_eq, hi.added fd q hlive, (hi.table fd q).mpr hlive, hi.reading fd q hlive⟩
  · rcases hq with hq | hq
    · exact ((connections_iff hi fd q).mp hq).1.unclosed
    · exact ((hi.table fd q).mp hq).unclosed

theorem dispatch_step (w : World) (e : Event) (t : World) (hi : ServerInv w)
    (hstep : Dispatches w e t) (hadm : Admissible w e) : Inserts w e t ∧ ServerInv t := by
  obtain ⟨p, revents, env⟩ := e
  obtain ⟨⟨fd, mask, hfd⟩, haccepts, hmessage, hclose, hconnection⟩ := hadm
  let w₀ := w.onReactor (Channel.set_revents revents p)
  have hi₀ : ServerInv w₀ := serverInv_setChannel hi p _ fun _ => rfl
  have hlive : Live w₀ fd p := live_onReactor.mpr (live_of_interest hi hfd)
  have hto : ∀ {f q}, Live w f q → Live w₀ f q := live_onReactor.mpr
  by_cases hacc : p = w.server.acceptor
  · obtain ⟨f, hresult, hpos, hfree⟩ := haccepts hacc
    have hsends : SendsOnNew w₀ env.connectionCallback := fun s data result hs =>
      (hconnection s data result hs).imp (fun h => h.imp fun _ => hto) id
    have hstep' : Channel.handleEvent w₀.server.acceptor env w₀ = .ok t := hacc ▸ hstep
    obtain ⟨ht, hins⟩ := acceptor_dispatch hi₀ hresult hpos hfree hsends hstep'
    have hrev : (w₀.channel w₀.server.acceptor).revents_ = revents := by
      change (w₀.channel w.server.acceptor).revents_ = _
      rw [← hacc]
      exact congrArg Channel.revents_
        (setChannel_self w.toReactor p fun c => { c with revents_ := revents })
    rw [hrev] at hins
    exact ⟨fun _ hread => ⟨f, hresult, (hins hread).absent, (hins hread).present⟩, ht⟩
  · refine ⟨fun h => absurd h hacc, connection_dispatch hi₀ hlive hacc ?_ ?_ hstep⟩
    · exact fun s data result hs => (hmessage s data result hs).imp fun _ => hto
    · exact fun s data result hs => ⟨(hclose s data result hs).1.imp fun _ => hto,
        (hclose s data result hs).2⟩

/-- In every run of a started server the tables agree about the open connections, and every
accepted connection is inserted. -/
theorem server_tables_agree (w : World) (hw : Started w) (events : List Event)
    (hadm : EachStep Dispatches (fun w e _ => Admissible w e) w events) :
    Always Dispatches TablesAgree w events ∧ EachStep Dispatches Inserts w events := by
  constructor
  · refine (Always.of_invariant ServerInv ?_ hadm hw.inv).mono fun _ h => tablesAgree h
    exact fun w e t hi hstep ha => (dispatch_step w e t hi hstep ha).2
  · exact EachStep.of_invariant ServerInv dispatch_step hadm hw.inv

theorem server_tables_agree_hangUp :
    Always Dispatches TablesAgree (TcpServer.start 3 (World.boot fun _ => none))
      [⟨0, EPOLLIN, { idle with accept := .connfd 5 }⟩, ⟨1, EPOLLHUP ||| EPOLLOUT, idle⟩] := by
  obtain ⟨t₁, ht₁, hint, hacc⟩ : ∃ t₁, Dispatches (TcpServer.start 3 (World.boot fun _ => none))
      ⟨0, EPOLLIN, { idle with accept := .connfd 5 }⟩ t₁ ∧
      t₁.kernel.interest 5 = some (Channel.kReadEvent, 1) ∧ t₁.server.acceptor = 0 :=
    ⟨_, rfl, rfl, rfl⟩
  refine (server_tables_agree _ started_boot [_, _] ?_).1
  intro t ht
  refine ⟨?_, fun _ _ => ⟨?_, trivial⟩⟩
  · exact ⟨⟨3, Channel.kReadEvent, rfl⟩, fun _ => ⟨5, rfl, by decide, rfl⟩, sendsOnLive_nil _,
      sendsBeside_nil _ _, sendsOnNew_nil _⟩
  · obtain rfl : t = t₁ := Except.ok.inj (ht.symm.trans ht₁)
    refine ⟨⟨5, _, hint⟩, fun he => ?_, sendsOnLive_nil _, sendsBeside_nil _ _,
      sendsOnNew_nil _⟩
    rw [hacc] at he
    cases he

end NetPrograms.ServerRuns
