import NetPrograms.CtlHistory
import NetPrograms.ServerRuns

set_option autoImplicit false

namespace NetPrograms.CtlOrder
open BufferModel PollerModel PollerMirror ServerModel ChannelDispatch ServerTables ServerRuns
open RunInvariants CtlHistory

def Succeeds (w w' : World) : Prop := CtlValid w.kernel → CtlValid w'.kernel

theorem Succeeds.refl (w : World) : Succeeds w w := id

theorem Succeeds.trans {w u t : World} (h : Succeeds w u) (h' : Succeeds u t) : Succeeds w t :=
  fun hw => h' (h hw)

theorem Succeeds.of_log {w w' : World} (h : w'.kernel.ctlLog = w.kernel.ctlLog) :
    Succeeds w w' := by
  intro hw c hc
  rw [h] at hc
  exact hw c hc

structure Clean (w w' : World) : Prop extends Kept w w' where
  succeeds : Succeeds w w'

theorem Clean.trans {w u t : World} (h : Clean w u) (h' : Clean u t) : Clean w t :=
  ⟨h.toKept.trans h'.toKept, h.succeeds.trans h'.succeeds⟩

theorem clean_refl {w : World} (ht : Tables w) : Clean w w := ⟨kept_refl ht, .refl w⟩

theorem setEvents_succeeds {w : World} (hi : ServerInv w) {fd : ℤ} {p : Ptr} (hp : Live w fd p)
    {f : Mask → Mask} (hf : KeepsReading f) :
    Succeeds w (w.onReactor (Channel.setEvents f p)) := by
  have hreg := hi.toTables.registered hi.toFiles hp
  obtain ⟨_, hl, _⟩ := hreg.setEvents hf
  exact hl.ctl

theorem send_clean {w w' : World} (hi : ServerInv w) {fd : ℤ} {p : Ptr} (hp : Live w fd p)
    {data : List Byte} {result : IoResult} {v : ℤ}
    (h : Socket.Send p data result w = .ok (v, w')) : Clean w w' := by
  refine ⟨send_kept hi hp h, ?_⟩
  obtain ⟨n, u, hwrite, hsend⟩ := Send_outcome h
  have hu : Succeeds w u := .of_log (writeOutcome_log hwrite)
  have hku := kept_recorded hi.toTables hwrite.recorded
  cases hsend with
  | full _ | failed _ _ _ | part _ _ _ _ => exact hu
  | again _ _ _ =>
    exact hu.trans (setEvents_succeeds (hi.kept hku) (live_kept hku hp) keepsReading_enableWriting)

theorem handleWrite_clean {w w' : World} (hi : ServerInv w) {fd : ℤ} {p : Ptr} (hp : Live w fd p)
    {result : IoResult} (h : Socket.handleWrite p result w = .ok w') : Clean w w' := by
  refine ⟨handleWrite_kept hi hp h, ?_⟩
  obtain ⟨n, u, hwrite, hdrain⟩ := handleWrite_outcome h
  have hlog := writeOutcome_log hwrite
  have hu : Succeeds w u := .of_log hlog
  have hku := kept_recorded hi.toTables ((log_recorded (.handleWrite p) w).trans hwrite.recorded)
  have hoff : ∀ q, Succeeds u ((setOutputBuffer p q u).onReactor (Channel.disableWriting p)) := by
    intro q
    have hset := kept_setOutputBuffer (hi.kept hku).toTables p q
    exact setEvents_succeeds ((hi.kept hku).kept hset) (live_kept hset (live_kept hku hp))
      keepsReading_disableWriting
  cases hdrain with
  | failed _ | part _ _ _ _ => exact hu
  | drained q _ _ _ _ | complete q _ _ _ _ => exact hu.trans (hoff q)

theorem runCallback_clean {set : Bool} {calls : List AppCall} {w w' : World} (hi : ServerInv w)
    (hcalls : SendsOnLive w calls) (h : runCallback set calls w = .ok w') : Clean w w' := by
  refine runCallback_induction h (fun u u' c hc hu hrun => ?_) (clean_refl hi.toTables)
  change Clean w u at hu
  cases c with
  | send s data result =>
    obtain ⟨⟨v, x⟩, hsend, he⟩ := bind_ok hrun
    cases he
    obtain ⟨fd, hlive⟩ := hcalls s data result hc
    exact hu.trans (send_clean (hi.kept hu.toKept) (live_kept hu.toKept hlive) hsend)
  | retrieve s len =>
    obtain ⟨q, _, he⟩ := bind_ok hrun
    cases he
    refine hu.trans ⟨Kept.of_reactor (hi.kept hu.toKept).toTables
      (setSocket_steady s u (fun _ => rfl) fun _ => rfl) ⟨rfl, rfl, rfl⟩, .of_log rfl⟩

theorem handleRead_clean {w w' : World} (hi : ServerInv w) {fd : ℤ} {p : Ptr} (hp : Live w fd p)
    {env : Env} (hmessage : SendsOnLive w env.messageCallback) (hdata : env.readv ≠ .data [])
    (h : Socket.handleRead p env w = .ok w') : Clean w w' := by
  obtain ⟨q, hout⟩ := handleRead_outcome h
  have hread : Clean w (didRead p q w) := ⟨didRead_kept hi.toTables p q, .of_log rfl⟩
  have hi' := hi.kept hread.toKept
  have hopen : w.kernel.descriptors (w.channel p).fd_ ≠ none := by
    rw [hi.channelFd p hp.made, hp.fd_eq]
    exact hi.open hp
  rw [if_neg hopen] at hout
  generalize env.readv = result at hout hdata
  cases hout with
  | message _ _ _ hrun =>
    exact hread.trans (runCallback_clean hi' (sendsOnLive_kept hread.toKept hmessage) hrun)
  | eof _ _ => exact absurd rfl hdata
  | error _ savedErrno =>
    exact hread.trans ⟨handleError_kept hi' p savedErrno, .of_log (handleError_log p _)⟩

theorem disconnect_log {w : World} (hi : ServerInv w) {fd : ℤ} {p : Ptr} (hp : Live w fd p) :
    (disconnect p w).kernel.ctlLog = w.kernel.ctlLog ++ [⟨.del, fd, EBADF⟩] := by
  let r : Reactor := { w.toReactor with kernel := w.kernel.close (w.socket p).fd_ }
  have hfd : (w.channel p).fd_ = fd := (hi.channelFd p hp.made).trans hp.fd_eq
  have hclosed : r.kernel.descriptors fd = none := by
    change (w.kernel.close (w.socket p).fd_).descriptors fd = none
    rw [hp.fd_eq, Kernel.close, if_neg (hi.open hp)]
    exact Function.update_self _ _ _
  have hlog : r.kernel.ctlLog = w.kernel.ctlLog := close_log _ _
  have hctl : r.kernel.ctlErrno .del fd = EBADF := if_pos hclosed
  change (Poller.removeChannel p r).kernel.ctlLog = _
  unfold Poller.removeChannel
  dsimp only
  rw [if_pos (hi.added fd p hp)]
  change r.kernel.ctlLog ++ [⟨.del, (w.channel p).fd_, r.kernel.ctlErrno .del (w.channel p).fd_⟩]
    = _
  rw [hlog, hfd, hctl]

theorem handleClose_fails {w w' : World} (hi : ServerInv w) {fd : ℤ} {p : Ptr}
    (hp : Live w fd p) {env : Env} (h : Socket.handleClose p env w = .ok w') :
    ¬CtlValid w'.kernel := by
  refine (runCallback_grows (handleClose_outcome h)).invalid fun hv => ?_
  have hlast : (⟨.del, fd, EBADF⟩ : CtlCall) ∈ (disconnect p w).kernel.ctlLog := by
    rw [disconnect_log hi hp]
    exact List.mem_append_right _ List.mem_cons_self
  exact absurd (hv _ hlast) (show EBADF ≠ 0 by decide)

theorem handleRead_eof_fails {w w' : World} (hi : ServerInv w) {fd : ℤ} {p : Ptr}
    (hp : Live w fd p) {env : Env} (heof : env.readv = .data [])
    (h : Socket.handleRead p env w = .ok w') : ¬CtlValid w'.kernel := by
  obtain ⟨q, hout⟩ := handleRead_outcome h
  have hread := didRead_kept hi.toTables p q
  have hopen : w.kernel.descriptors (w.channel p).fd_ ≠ none := by
    rw [hi.channelFd p hp.made, hp.fd_eq]
    exact hi.open hp
  rw [if_neg hopen, heof] at hout
  cases hout with
  | message _ _ hne _ => exact absurd rfl hne
  | eof _ hrun => exact handleClose_fails (hi.kept hread) (live_kept hread hp) hrun

/-- A dispatch that closes no connection: the acceptor's, and one without a hang-up in which
`readv` does not see the end of file. -/
def ClosesNone (w : World) (e : Event) : Prop :=
  e.channel = w.server.acceptor ∨
    hungUp e.revents = false ∧ ¬(readable e.revents = true ∧ e.env.readv = .data [])

section
variable {p : Ptr} {env : Env} {w₀ t : World}

theorem connection_clean (hi : ServerInv w₀) {fd : ℤ} (hp : Live w₀ fd p)
    (hc : Connection w₀ p) (hmessage : SendsOnLive w₀ env.messageCallback)
    {w₁ w₂ w₃ w₄ : World} (h₁ : Channel.handleHangUp p env w₀ = .ok w₁)
    (h₂ : Channel.handleErr p env w₁ = .ok w₂) (h₃ : Channel.handleIn p env w₂ = .ok w₃)
    (h₄ : Channel.handleOut p env w₃ = .ok w₄)
    (hhup : hungUp (w₀.channel p).revents_ = false)
    (hdata : ¬(readable (w₀.channel p).revents_ = true ∧ env.readv = .data [])) :
    Clean w₀ w₄ := by
  rcases handleHangUp_cases hc h₁ with ⟨hmask, _⟩ | ⟨_, rfl⟩
  · rw [hhup] at hmask
    cases hmask
  obtain rfl := handleErr_none hc h₂
  have hread : Clean w₂ w₃ := by
    rcases handleIn_cases hc h₃ with ⟨hmask, hrun⟩ | ⟨_, rfl⟩
    · exact handleRead_clean hi hp hmessage (fun he => hdata ⟨hmask, he⟩) hrun
    · exact clean_refl hi.toTables
  rcases handleOut_cases (hc.frame hread.toFrame) h₄ with ⟨_, hrun⟩ | ⟨_, rfl⟩
  · exact hread.trans
      (handleWrite_clean (hi.kept hread.toKept) (live_kept hread.toKept hp) hrun)
  · exact hread

theorem connection_fails (hi : ServerInv w₀) {fd : ℤ} (hp : Live w₀ fd p)
    (hc : Connection w₀ p)
    {w₁ w₂ w₃ w₄ : World} (h₁ : Channel.handleHangUp p env w₀ = .ok w₁)
    (h₂ : Channel.handleErr p env w₁ = .ok w₂) (h₃ : Channel.handleIn p env w₂ = .ok w₃)
    (h₄ : Channel.handleOut p env w₃ = .ok w₄)
    (hcloses : ¬(hungUp (w₀.channel p).revents_ = false ∧
      ¬(readable (w₀.channel p).revents_ = true ∧ env.readv = .data []))) :
    ¬CtlValid w₄.kernel := by
  have hout : Connection w₃ p → Grows w₃ w₄ := by
    intro hc₃
    rcases handleOut_cases hc₃ h₄ with ⟨_, hrun⟩ | ⟨_, rfl⟩
    · exact handleWrite_grows hrun
    · exact .refl _
  rcases handleHangUp_cases hc h₁ with ⟨_, hrun⟩ | ⟨hmask, rfl⟩
  · have hc₁ := hc.frame (handleClose_frame hrun)
    obtain rfl := handleErr_none hc₁ h₂
    have hin : Grows w₂ w₃ := by
      rcases handleIn_cases hc₁ h₃ with ⟨_, hrun⟩ | ⟨_, rfl⟩
      · exact handleRead_grows hrun
      · exact .refl _
    exact (hin.trans (hout (hc₁.frame (handleIn_frame hc₁ h₃)))).invalid
      (handleClose_fails hi hp hrun)
  · obtain rfl := handleErr_none hc h₂
    obtain ⟨hread, heof⟩ := not_not.mp fun h => hcloses ⟨hmask, h⟩
    rcases handleIn_cases hc h₃ with ⟨_, hrun⟩ | ⟨hnone, _⟩
    · exact (hout (hc.frame (handleRead_frame hrun))).invalid
        (handleRead_eof_fails hi hp heof hrun)
    · rw [hread] at hnone
      cases hnone

end

theorem connect_succeeds {w : World} {fd : ℤ} (hint : w.kernel.interest fd = none) :
    Succeeds w (connect fd w) := by
  let w₀ := w.onReactor fun r => { r with kernel := r.kernel.accept fd }
  let w₁ := (Socket.new fd w₀).2
  have hopen : w₀.kernel.descriptors fd ≠ none := by
    change Function.update w.kernel.descriptors fd _ fd ≠ none
    rw [Function.update_self]
    nofun
  have hadd : w₀.kernel.ctlErrno .add fd = 0 := ctlErrno_add hopen hint
  have hnew : Succeeds w w₁ := by
    intro hw c hc
    rw [new_log, hadd] at hc
    rcases List.mem_append.mp hc with hc | hc
    · exact hw c hc
    · rw [List.mem_singleton.mp hc]
  have hreg := (new_created hopen hint).registered hopen
  obtain ⟨_, hl⟩ := updateChannel_step hreg.mirrors.fd_eq hreg.opened hreg.mirrors.added_iff
    hreg.mirrors.table_iff
  have hreactor : (connect fd w).toReactor = Poller.updateChannel w.allocated w₁.toReactor :=
    congrArg (Poller.updateChannel w.allocated) (insertConnection_fields _ _).1
  refine hnew.trans fun hw => ?_
  rw [hreactor]
  exact hl.ctl hw

def NoneClosed (w : World) : Prop := ∀ q < w.allocated, (w.socket q).closed = false

theorem NoneClosed.live {w : World} (hn : NoneClosed w) {q : Ptr} (hq : q < w.allocated) :
    ∃ fd, Live w fd q :=
  ⟨_, hq, hn q hq, rfl⟩

theorem NoneClosed.steady {w w' : World} (hn : NoneClosed w) (h : Steady w w') :
    NoneClosed w' := by
  intro q hq
  rw [h.closed]
  exact hn q (h.allocated ▸ hq)

theorem NoneClosed.connected {w w' : World} {fd : ℤ} (hn : NoneClosed w)
    (h : Connected w w' fd) : NoneClosed w' := by
  intro q hq
  by_cases hnew : q = w.allocated
  · rw [hnew]
    exact h.unclosed
  · rw [h.other q hnew]
    exact hn q (made_connected h hq hnew)

structure Open (w : World) : Prop where
  inv : ServerInv w
  noneClosed : NoneClosed w

theorem open_setChannel {w : World} (h : Open w) (p : Ptr) (f : Channel → Channel)
    (hf : ∀ c, undispatched (f c) = undispatched c) : Open (w.onReactor (·.setChannel p f)) :=
  ⟨serverInv_setChannel h.inv p f hf, h.noneClosed⟩

theorem accept_clean {w w' : World} (hw : Open w) {env : Env} {fd : ℤ}
    (hresult : env.accept = .connfd fd) (hfd : 0 ≤ fd) (hfree : w.kernel.descriptors fd = none)
    (hsends : ∀ s data result, AppCall.send s data result ∈ env.connectionCallback →
      s ≤ w.allocated)
    (h : TcpServer.accept env w = .ok w') :
    Succeeds w w' ∧ Open w' ∧ w'.server.acceptor = w.server.acceptor := by
  obtain ⟨hi', hconn⟩ := connect_step hw.inv hfree
  obtain ⟨_, _, hint, _⟩ := free_tables hw.inv hfree
  have hrun := (accept_connects hresult hfd (hw.inv.open hw.inv.acceptorLive)).symm.trans h
  have hn' := hw.noneClosed.connected hconn
  have hcalls : SendsOnLive (connect fd w) env.connectionCallback := by
    intro s data result hs
    refine hn'.live ?_
    rw [hconn.allocated]
    exact Nat.lt_succ_of_le (hsends s data result hs)
  have hclean := runCallback_clean hi' hcalls hrun
  exact ⟨(connect_succeeds hint).trans hclean.succeeds,
    ⟨hi'.kept hclean.toKept, hn'.steady hclean.toSteady⟩,
    hclean.acceptor.trans hconn.acceptor⟩

/-- The kernel has the Channel registered, an accept succeeds with a descriptor that is not
open, and the application calls `Send` on Sockets it has been handed. -/
structure Permitted (w : World) (e : Event) : Prop where
  registered : ∃ fd mask, w.kernel.interest fd = some (mask, e.channel)
  accepts : e.channel = w.server.acceptor →
    ∃ fd, e.env.accept = .connfd fd ∧ 0 ≤ fd ∧ w.kernel.descriptors fd = none
  messageSends : ∀ s data result, AppCall.send s data result ∈ e.env.messageCallback →
    s < w.allocated
  connectionSends : ∀ s data result, AppCall.send s data result ∈ e.env.connectionCallback →
    s ≤ w.allocated

theorem connection_step {w t : World} (h : Open w) {p : Ptr} (hp : p < w.allocated)
    (hacc : p ≠ w.server.acceptor) {env : Env}
    (hmessage : ∀ s data result, AppCall.send s data result ∈ env.messageCallback →
      s < w.allocated)
    (hv : CtlValid w.kernel) (hrun : Channel.handleEvent p env w = .ok t) :
    (CtlValid t.kernel ↔ hungUp (w.channel p).revents_ = false ∧
      ¬(readable (w.channel p).revents_ = true ∧ env.readv = .data [])) ∧
    (CtlValid t.kernel → Open t) := by
  obtain ⟨w₁, w₂, w₃, w₄, h₁, h₂, h₃, h₄, rfl⟩ := handleEvent_parts hrun
  let w₀ := Channel.setEventHandling true p w
  have h₀ : Open w₀ := open_setChannel h p _ fun _ => rfl
  obtain ⟨fd, hlive⟩ := h₀.noneClosed.live hp
  have hc : Connection w₀ p := h₀.inv.connection p hp hacc
  have hrev : (w₀.channel p).revents_ = (w.channel p).revents_ :=
    (setEventHandling_steady true p w).revents p
  rw [← hrev]
  by_cases hopen : hungUp (w₀.channel p).revents_ = false ∧
      ¬(readable (w₀.channel p).revents_ = true ∧ env.readv = .data [])
  · have hclean := connection_clean h₀.inv hlive hc
      (fun s data result hs => h₀.noneClosed.live (hmessage s data result hs)) h₁ h₂ h₃ h₄
      hopen.1 hopen.2
    have hend : Open w₄ :=
      ⟨h₀.inv.kept hclean.toKept, h₀.noneClosed.steady hclean.toSteady⟩
    exact ⟨iff_of_true (hclean.succeeds hv) hopen,
      fun _ => open_setChannel hend p _ fun _ => rfl⟩
  · have hfails := connection_fails h₀.inv hlive hc h₁ h₂ h₃ h₄ hopen
    exact ⟨iff_of_false hfails hopen, fun hvalid => absurd hvalid hfails⟩

theorem acceptor_log {w₀ w₁ w₂ : World} (hi : ServerInv w₀) {p : Ptr}
    (hp : p = w₀.server.acceptor) {env : Env}
    (h₁ : Channel.handleHangUp p env w₀ = .ok w₁) (h₂ : Channel.handleErr p env w₁ = .ok w₂) :
    w₂.kernel.ctlLog = w₀.kernel.ctlLog := by
  have hw₁ : w₁.kernel.ctlLog = w₀.kernel.ctlLog ∧ w₁.channel = w₀.channel := by
    rw [Channel.handleHangUp, hp, hi.acceptorClose] at h₁
    split_ifs at h₁ <;> cases h₁ <;> exact ⟨rfl, rfl⟩
  rw [Channel.handleErr, hw₁.2, hp, hi.acceptorError] at h₂
  split_ifs at h₂ <;> cases h₂ <;> exact hw₁.1

theorem acceptor_step {w t : World} (h : Open w) {env : Env} {fd : ℤ}
    (hresult : env.accept = .connfd fd) (hfd : 0 ≤ fd) (hfree : w.kernel.descriptors fd = none)
    (hsends : ∀ s data result, AppCall.send s data result ∈ env.connectionCallback →
      s ≤ w.allocated)
    (hv : CtlValid w.kernel) (hrun : Channel.handleEvent w.server.acceptor env w = .ok t) :
    CtlValid t.kernel ∧ Open t := by
  obtain ⟨w₁, w₂, w₃, w₄, h₁, h₂, h₃, h₄, rfl⟩ := handleEvent_parts hrun
  let p := w.server.acceptor
  let w₀ := Channel.setEventHandling true p w
  have h₀ : Open w₀ := open_setChannel h p _ fun _ => rfl
  obtain ⟨hr, hif⟩ := acceptor_accepts (p := p) h₀.inv rfl h₁ h₂ h₃
  have hp : p = w₀.server.acceptor := rfl
  have hlog := acceptor_log h₀.inv hp h₁ h₂
  have h₂ : Open w₂ := ⟨h₀.inv.kept (kept_recorded h₀.inv.toTables hr),
    h₀.noneClosed.steady hr.steady⟩
  have hv₂ : CtlValid w₂.kernel := by
    intro c hc
    rw [hlog] at hc
    exact hv c hc
  have hfree₂ : w₂.kernel.descriptors fd = none := by
    rw [hr.descriptors]
    exact hfree
  obtain ⟨hv₃, h₃, hacc₃⟩ : CtlValid w₃.kernel ∧ Open w₃ ∧ w₃.server.acceptor = p := by
    split_ifs at hif with hread
    · obtain ⟨hs, ho, ha⟩ := accept_clean h₂ hresult hfd hfree₂
        (by rw [hr.allocated]; exact hsends) hif
      rw [hr.server] at ha
      exact ⟨hs hv₂, ho, ha⟩
    · rw [hif]
      refine ⟨hv₂, h₂, ?_⟩
      rw [hr.server]
      rfl
  have hlast : CtlValid w₄.kernel ∧ Open w₄ := by
    change Channel.handleOut p env w₃ = _ at h₄
    rw [← hacc₃, Channel.handleOut, h₃.inv.acceptorWrite] at h₄
    split_ifs at h₄
    · have hclean := handleWrite_clean h₃.inv h₃.inv.acceptorLive h₄
      exact ⟨hclean.succeeds hv₃, h₃.inv.kept hclean.toKept, h₃.noneClosed.steady hclean.toSteady⟩
    · cases h₄
      exact ⟨hv₃, h₃⟩
  exact ⟨hlast.1, open_setChannel hlast.2 _ _ fun _ => rfl⟩

theorem ctl_step (w : World) (e : Event) (t : World) (h : Open w) (hv : CtlValid w.kernel)
    (hstep : Dispatches w e t) (hmay : Permitted w e) :
    (CtlValid t.kernel ↔ ClosesNone w e) ∧ (ClosesNone w e → Open t) := by
  obtain ⟨p, revents, env⟩ := e
  obtain ⟨⟨fd, mask, hfd⟩, haccepts, hmessage, hconnection⟩ := hmay
  let w₀ := w.onReactor (Channel.set_revents revents p)
  have h₀ : Open w₀ := open_setChannel h p _ fun _ => rfl
  have hmade : p < w.allocated := (live_of_interest h.inv hfd).made
  have hrev : (w₀.channel p).revents_ = revents :=
    congrArg Channel.revents_
      (setChannel_self w.toReactor p fun c => { c with revents_ := revents })
  by_cases hacc : p = w.server.acceptor
  · obtain ⟨f, hresult, hpos, hfree⟩ := haccepts hacc
    have hstep' : Channel.handleEvent w₀.server.acceptor env w₀ = .ok t := hacc ▸ hstep
    obtain ⟨hvt, hot⟩ := acceptor_step h₀ hresult hpos hfree hconnection hv hstep'
    exact ⟨iff_of_true hvt (.inl hacc), fun _ => hot⟩
  · obtain ⟨hiff, hopen⟩ := connection_step h₀ hmade hacc hmessage hv hstep
    rw [hrev] at hiff
    have hcloses : ClosesNone w ⟨p, revents, env⟩ ↔ hungUp revents = false ∧
        ¬(readable revents = true ∧ env.readv = .data []) := or_iff_right hacc
    rw [hcloses]
    exact ⟨hiff, fun hc => hopen (hiff.mpr hc)⟩

theorem started_open {w : World} (hw : Started w) : Open w ∧ CtlValid w.kernel := by
  have hinv := hw.inv
  obtain ⟨descriptors, fd, _, _, rfl⟩ := hw
  have hstart := startState descriptors fd
  refine ⟨⟨hinv, fun q hq => ?_⟩, ?_⟩
  · rw [hstart.allocated] at hq
    rw [Nat.lt_one_iff.mp hq, hstart.socket]
    rfl
  · let w₀ := (World.boot descriptors).onReactor fun r => { r with
      kernel := { r.kernel with
        descriptors := Function.update r.kernel.descriptors fd (some .other) } }
    have hopen : w₀.kernel.descriptors fd ≠ none := by
      change Function.update descriptors fd _ fd ≠ none
      rw [Function.update_self]
      nofun
    have hadd : w₀.kernel.ctlErrno .add fd = 0 := ctlErrno_add hopen rfl
    intro c hc
    change c ∈ (Socket.new fd w₀).2.kernel.ctlLog at hc
    rw [new_log, hadd] at hc
    rw [List.mem_singleton.mp hc]

/-- Every `epoll_ctl` of a run succeeds exactly when no dispatch of the run closes a
connection. -/
theorem ctl_valid_iff_none_closed (w : World) (hw : Started w) (events : List Event)
    (hmay : EachStep Dispatches (fun w e _ => Permitted w e) w events) :
    Always Dispatches (fun w => CtlValid w.kernel) w events ↔
      EachStep Dispatches (fun w e _ => ClosesNone w e) w events := by
  obtain ⟨hopen, hv⟩ := started_open hw
  exact always_iff_eachStep_while (I := Open) ctl_step hmay hopen hv

theorem ctl_valid_iff_none_closed_open :
    Always Dispatches (fun w => CtlValid w.kernel)
        (TcpServer.start 3 (World.boot fun _ => none))
        [⟨0, EPOLLIN, { idle with accept := .connfd 5 }⟩,
          ⟨1, EPOLLIN, { idle with readv := .data [104] }⟩] ↔
      EachStep Dispatches (fun w e _ => ClosesNone w e)
        (TcpServer.start 3 (World.boot fun _ => none))
        [⟨0, EPOLLIN, { idle with accept := .connfd 5 }⟩,
          ⟨1, EPOLLIN, { idle with readv := .data [104] }⟩] := by
  obtain ⟨t₁, ht₁, hint, hacc⟩ : ∃ t₁, Dispatches (TcpServer.start 3 (World.boot fun _ => none))
      ⟨0, EPOLLIN, { idle with accept := .connfd 5 }⟩ t₁ ∧
      t₁.kernel.interest 5 = some (Channel.kReadEvent, 1) ∧ t₁.server.acceptor = 0 :=
    ⟨_, rfl, rfl, rfl⟩
  refine ctl_valid_iff_none_closed _ started_boot _ ?_
  intro t ht
  obtain rfl : t = t₁ := Except.ok.inj (ht.symm.trans ht₁)
  refine ⟨⟨⟨3, Channel.kReadEvent, rfl⟩, fun _ => ⟨5, rfl, by decide, rfl⟩, nofun, nofun⟩,
    fun _ _ => ⟨⟨⟨5, _, hint⟩, fun he => ?_, nofun, nofun⟩, trivial⟩⟩
  rw [hacc] at he
  cases he

/-- A connection is accepted and hangs up. -/
theorem close_before_del : ∃ t₁ t₂,
    Dispatches (TcpServer.start 3 (World.boot fun _ => none))
      ⟨0, EPOLLIN, { idle with accept := .connfd 5 }⟩ t₁ ∧
    Dispatches t₁ ⟨1, EPOLLHUP, idle⟩ t₂ ∧
    Started (TcpServer.start 3 (World.boot fun _ => none)) ∧
    t₁.kernel.interest 5 = some (Channel.kReadEvent, 1) ∧
    t₂.kernel.ctlLog = [⟨.add, 3, 0⟩, ⟨.add, 5, 0⟩, ⟨.mod, 5, 0⟩, ⟨.del, 5, EBADF⟩] ∧
    ¬CtlValid t₂.kernel := by
  obtain ⟨t₁, t₂, h₁, h₂, hint, hlog⟩ : ∃ t₁ t₂,
      Dispatches (TcpServer.start 3 (World.boot fun _ => none))
        ⟨0, EPOLLIN, { idle with accept := .connfd 5 }⟩ t₁ ∧
      Dispatches t₁ ⟨1, EPOLLHUP, idle⟩ t₂ ∧
      t₁.kernel.interest 5 = some (Channel.kReadEvent, 1) ∧
      t₂.kernel.ctlLog = [⟨.add, 3, 0⟩, ⟨.add, 5, 0⟩, ⟨.mod, 5, 0⟩, ⟨.del, 5, EBADF⟩] :=
    ⟨_, _, rfl, rfl, rfl, rfl⟩
  refine ⟨t₁, t₂, h₁, h₂, started_boot, hint, hlog, fun hv => ?_⟩
  have hdel := hv ⟨.del, 5, EBADF⟩ (by rw [hlog]; decide)
  cases hdel

end NetPrograms.CtlOrder
