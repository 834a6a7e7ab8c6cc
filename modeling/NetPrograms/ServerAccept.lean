import NetPrograms.ServerTables

set_option autoImplicit false

namespace NetPrograms.ServerTables
open BufferModel PollerModel PollerMirror ServerModel ChannelDispatch

/-- `TcpServer::accept` up to `connectionCallback_`, when `::accept` returns `fd`. -/
def connect (fd : ℤ) (w : World) : World :=
  let w := w.onReactor fun r => { r with kernel := r.kernel.accept fd }
  let (newSocket, w) := Socket.new fd w
  let w := w.setSocket newSocket fun s => { s with
    messageCallback_ := w.server.messageCallback_
    writeCallback_ := w.server.writeCompleteCallback_
    closeCallback_ := true }
  let w := TcpServer.insertConnection newSocket w
  w.onReactor (EventLoop.updateChannel newSocket)

theorem accept_connects {env : Env} {fd : ℤ} {w : World} (hresult : env.accept = .connfd fd)
    (hfd : 0 ≤ fd) (hacc : w.kernel.descriptors (w.socket w.server.acceptor).fd_ ≠ none) :
    TcpServer.accept env w = runCallback (connect fd w).server.connectionCallback_
      env.connectionCallback (connect fd w) := by
  obtain ⟨file, hfile⟩ := Option.ne_none_iff_exists'.mp hacc
  have hkernel : TcpServer.kernelAccept env.accept w =
      (fd, w.onReactor fun r => { r with kernel := r.kernel.accept fd }) := by
    unfold TcpServer.kernelAccept
    simp only [hfile, hresult]
  unfold TcpServer.accept
  rw [hkernel]
  dsimp only
  rw [if_neg (by omega)]
  rfl

structure Connected (w w' : World) (fd : ℤ) : Prop where
  channel : w'.channel = Function.update w.channel w.allocated (socketChannel fd)
  channels_ : w'.channels_ = Function.update w.channels_ fd (some w.allocated)
  interest : w'.kernel.interest =
    Function.update w.kernel.interest fd (some (Channel.kReadEvent, w.allocated))
  descriptors : w'.kernel.descriptors =
    Function.update w.kernel.descriptors fd (some (.connection w.kernel.accepted))
  accepted : w'.kernel.accepted = w.kernel.accepted + 1
  other : ∀ q, q ≠ w.allocated → w'.socket q = w.socket q
  fd_eq : (w'.socket w.allocated).fd_ = fd
  file : (w'.socket w.allocated).file = some (.connection w.kernel.accepted)
  unclosed : (w'.socket w.allocated).closed = false
  allocated : w'.allocated = w.allocated + 1
  acceptor : w'.server.acceptor = w.server.acceptor
  connections_ :
    w'.server.connections_ = Function.update w.server.connections_ fd (some w.allocated)

theorem insertConnection_absent {w : World} {p : Ptr} {fd : ℤ} (hfd : (w.socket p).fd_ = fd)
    (hnone : w.server.connections_ fd = none) :
    TcpServer.insertConnection p w = w.onConnections (Function.update · fd (some p)) := by
  unfold TcpServer.insertConnection
  dsimp only
  rw [hfd, hnone]

theorem connected {w : World} {fd : ℤ} (hint : w.kernel.interest fd = none)
    (hconn : w.server.connections_ fd = none) : Connected w (connect fd w) fd := by
  let w₀ := w.onReactor fun r => { r with kernel := r.kernel.accept fd }
  let w₁ := (Socket.new fd w₀).2
  let w₂ := w₁.setSocket w.allocated fun s => { s with
    messageCallback_ := w₁.server.messageCallback_
    writeCallback_ := w₁.server.writeCompleteCallback_
    closeCallback_ := true }
  have hopen₀ : w₀.kernel.descriptors fd = some (.connection w.kernel.accepted) :=
    Function.update_self _ _ _
  have hnew : Created w₀ w₁ fd := new_created (by rw [hopen₀]; nofun) hint
  have hsock : w₂.socket w.allocated = { w₁.socket w.allocated with
      messageCallback_ := w₁.server.messageCallback_
      writeCallback_ := w₁.server.writeCompleteCallback_
      closeCallback_ := true } := Function.update_self _ _ _
  have hsock₁ : w₁.socket w.allocated = Socket.init fd (some (.connection w.kernel.accepted)) := by
    rw [hnew.socket, hopen₀]
    exact Function.update_self _ _ _
  have hfd : (w₂.socket w.allocated).fd_ = fd := by
    rw [hsock, hsock₁]
    rfl
  have hnone : w₂.server.connections_ fd = none := by
    change w₁.server.connections_ fd = none
    rw [hnew.server]
    exact hconn
  have hconnect : connect fd w = (w₂.onConnections
      (Function.update · fd (some w.allocated))).onReactor (Poller.updateChannel w.allocated) := by
    rw [← insertConnection_absent hfd hnone]
    rfl
  have hch : w₁.channel w.allocated = socketChannel fd := by
    rw [hnew.channel]
    exact Function.update_self _ _ _
  obtain ⟨hc, ht, hi, hd, ha⟩ := updateChannel_same (r := w₁.toReactor) (p := w.allocated)
    (by rw [hch]; rfl) (by rw [hch]; exact show Channel.kReadEvent ≠ 0 by decide)
    (by rw [hch, hnew.interest]; exact Function.update_self _ _ _)
  rw [hconnect]
  refine ⟨hc.trans hnew.channel, ht.trans hnew.channels_, hi.trans hnew.interest,
    hd.trans hnew.descriptors, ha.trans hnew.accepted, fun q hq => ?_, hfd, ?_, ?_,
    hnew.allocated, ?_, ?_⟩
  · change w₂.socket q = w.socket q
    refine (Function.update_of_ne hq _ _).trans ?_
    rw [hnew.socket]
    exact Function.update_of_ne hq _ _
  · change (w₂.socket w.allocated).file = _
    rw [hsock, hsock₁]
    rfl
  · change (w₂.socket w.allocated).closed = _
    rw [hsock, hsock₁]
    rfl
  · change w₁.server.acceptor = _
    rw [hnew.server]
    rfl
  · change Function.update w₁.server.connections_ fd _ = _
    rw [hnew.server]
    rfl

theorem file_ne_next {w : World} (hf : Files w) {q : Ptr} (hq : q < w.allocated) :
    (w.socket q).file ≠ some (.connection w.kernel.accepted) := by
  intro he
  by_cases hqa : q = w.server.acceptor
  · rw [hqa, hf.acceptorFile] at he
    cases he
  · obtain ⟨id, hid, hfile⟩ := hf.identity q hq hqa
    rw [hfile] at he
    cases he
    exact absurd hid (Nat.lt_irrefl _)

theorem free_tables {w : World} (hi : ServerInv w) {fd : ℤ}
    (hfree : w.kernel.descriptors fd = none) :
    (∀ q, ¬Live w fd q) ∧ w.channels_ fd = none ∧ w.kernel.interest fd = none ∧
      w.server.connections_ fd = none := by
  have hdead : ∀ q, ¬Live w fd q := fun q hq => hi.open hq hfree
  have htab : w.channels_ fd = none := by
    cases hch : w.channels_ fd with
    | none => rfl
    | some q => exact absurd ((hi.table fd q).mp hch) (hdead q)
  refine ⟨hdead, htab, ?_, ?_⟩
  · rw [hi.interest, htab]
    rfl
  · rw [hi.connections, htab]
    rfl

section
variable {w w' : World} {fd : ℤ} (h : Connected w w' fd)
include h

theorem made_connected {q : Ptr} (hq : q < w'.allocated) (hne : q ≠ w.allocated) :
    q < w.allocated := by
  rw [h.allocated] at hq
  exact Nat.lt_of_le_of_ne (Nat.le_of_lt_succ hq) hne

theorem live_connected {f : ℤ} {q : Ptr} :
    Live w' f q ↔ Live w f q ∨ (f = fd ∧ q = w.allocated) := by
  constructor
  · rintro ⟨hmade, hclosed, hfd⟩
    by_cases hq : q = w.allocated
    · rw [hq, h.fd_eq] at hfd
      exact .inr ⟨hfd.symm, hq⟩
    · rw [h.other q hq] at hclosed hfd
      exact .inl ⟨made_connected h hmade hq, hclosed, hfd⟩
  · rintro (⟨hmade, hclosed, hfd⟩ | ⟨rfl, rfl⟩)
    · have hq : q ≠ w.allocated := Nat.ne_of_lt hmade
      rw [← h.other q hq] at hclosed hfd
      exact ⟨by rw [h.allocated]; exact Nat.lt_succ_of_lt hmade, hclosed, hfd⟩
    · exact ⟨by rw [h.allocated]; exact Nat.lt_succ_self _, h.unclosed, h.fd_eq⟩

theorem channel_connected {q : Ptr} (hq : q ≠ w.allocated) : w'.channel q = w.channel q := by
  rw [h.channel, Function.update_of_ne hq]

theorem tables_connected (hi : ServerInv w) (hfree : w.kernel.descriptors fd = none) :
    Tables w' := by
  obtain ⟨hdead, htab, hint, hconn⟩ := free_tables hi hfree
  have hself : w'.channel w.allocated = socketChannel fd := by
    rw [h.channel, Function.update_self]
  have hold : ∀ f q, w.channels_ f = some q → q ≠ w.allocated := fun f q hq =>
    Nat.ne_of_lt ((hi.table f q).mp hq).made
  refine ⟨fun f q => ?_, fun f => ?_, fun f => ?_, fun q hq => ?_, fun f q hq => ?_,
    fun f q hq => ?_, fun q hq hclosed => ?_⟩
  · rw [live_connected h, h.channels_]
    by_cases hf : f = fd
    · rw [hf, Function.update_self, Option.some.injEq]
      exact ⟨fun hq => .inr ⟨rfl, hq.symm⟩,
        fun hq => hq.elim (fun hq => absurd hq (hdead q)) fun hq => hq.2.symm⟩
    · rw [Function.update_of_ne hf, hi.table]
      exact ⟨.inl, fun hq => hq.elim id fun hq => absurd hq.1 hf⟩
  · rw [h.interest, h.channels_]
    by_cases hf : f = fd
    · rw [hf, Function.update_self, Function.update_self, Option.map_some, event, hself]
      rfl
    · rw [Function.update_of_ne hf, Function.update_of_ne hf, hi.interest f]
      refine Option.map_congr fun q hq => ?_
      rw [event, event, channel_connected h (hold f q hq)]
  · rw [h.connections_, h.channels_, h.acceptor]
    by_cases hf : f = fd
    · have hne : w.allocated ≠ w.server.acceptor := (Nat.ne_of_lt hi.acceptorLive.made).symm
      rw [hf, Function.update_self, Function.update_self, Option.filter_some, if_pos]
      exact decide_eq_true hne
    · rw [Function.update_of_ne hf, Function.update_of_ne hf]
      exact hi.connections f
  · by_cases hnew : q = w.allocated
    · rw [hnew, hself, h.fd_eq]
      rfl
    · rw [channel_connected h hnew, h.other q hnew]
      exact hi.channelFd q (made_connected h hq hnew)
  · rcases (live_connected h).mp hq with hq | ⟨_, rfl⟩
    · rw [channel_connected h (Nat.ne_of_lt hq.made)]
      exact hi.added f q hq
    · rw [hself]
      rfl
  · rcases (live_connected h).mp hq with hq | ⟨_, rfl⟩
    · rw [channel_connected h (Nat.ne_of_lt hq.made)]
      exact hi.reading f q hq
    · rw [hself]
      exact BitVec.and_self
  · by_cases hnew : q = w.allocated
    · rw [hnew, h.unclosed] at hclosed
      cases hclosed
    · rw [h.other q hnew] at hclosed
      rw [channel_connected h hnew]
      exact hi.removed q (made_connected h hq hnew) hclosed

theorem distinct_connected (hf : Files w) {q q' : Ptr} (hq : q < w'.allocated)
    (hq' : q' < w'.allocated) (he : (w'.socket q).file = (w'.socket q').file) : q = q' := by
  by_cases hn : q = w.allocated <;> by_cases hn' : q' = w.allocated
  · rw [hn, hn']
  · rw [hn, h.file, h.other q' hn'] at he
    exact absurd he.symm (file_ne_next hf (made_connected h hq' hn'))
  · rw [hn', h.file, h.other q hn] at he
    exact absurd he (file_ne_next hf (made_connected h hq hn))
  · rw [h.other q hn, h.other q' hn'] at he
    exact hf.distinct q (made_connected h hq hn) q' (made_connected h hq' hn') he

theorem files_connected (hi : ServerInv w) (hfree : w.kernel.descriptors fd = none) :
    Files w' := by
  have hnew : Live w' fd w.allocated := (live_connected h).mpr (.inr ⟨rfl, rfl⟩)
  have hold : ∀ f q, Live w f q → Live w' f q := fun f q hq => (live_connected h).mpr (.inl hq)
  have hacc : w.server.acceptor ≠ w.allocated := Nat.ne_of_lt hi.acceptorLive.made
  have hother : ∀ f, f ≠ fd → w'.kernel.descriptors f = w.kernel.descriptors f := by
    intro f hf
    rw [h.descriptors, Function.update_of_ne hf]
  have hcases : ∀ q < w'.allocated, q = w.allocated ∨ q < w.allocated ∧ q ≠ w.allocated := by
    intro q hq
    by_cases hne : q = w.allocated
    · exact .inl hne
    · exact .inr ⟨made_connected h hq hne, hne⟩
  refine ⟨fun f q hq => ?_, fun q hq hne => ?_, fun q hq q' hq' he => ?_, ?_, ?_,
    fun q hq hne => ?_, fun f id hid => ?_⟩
  · rcases (live_connected h).mp hq with hq | ⟨rfl, rfl⟩
    · have hf : f ≠ fd := by
        rintro rfl
        exact hi.open hq hfree
      rw [hother f hf, h.other q (Nat.ne_of_lt hq.made)]
      exact hi.opened f q hq
    · rw [h.file, h.descriptors, Function.update_self]
  · rw [h.acceptor] at hne
    rw [h.accepted]
    rcases hcases q hq with rfl | ⟨hq, hqn⟩
    · exact ⟨w.kernel.accepted, Nat.lt_succ_self _, h.file⟩
    · obtain ⟨id, hid, hfile⟩ := hi.identity q hq hne
      exact ⟨id, Nat.lt_succ_of_lt hid, (congrArg Socket.file (h.other q hqn)).trans hfile⟩
  · exact distinct_connected h hi.toFiles hq hq' he
  · rw [h.acceptor, h.other _ hacc]
    exact hi.acceptorFile
  · rw [h.acceptor, h.other _ hacc]
    exact hold _ _ hi.acceptorLive
  · rcases hcases q hq with rfl | ⟨hq, hqn⟩
    · rw [h.fd_eq]
      exact ⟨_, hnew⟩
    · rw [h.other q hqn] at hne ⊢
      by_cases hf : (w.socket q).fd_ = fd
      · rw [hf]
        exact ⟨_, hnew⟩
      · rw [hother _ hf] at hne
        obtain ⟨q', hq'⟩ := hi.reused q hq hne
        exact ⟨q', hold _ _ hq'⟩
  · by_cases hf : f = fd
    · rw [hf]
      exact ⟨_, hnew⟩
    · rw [hother f hf] at hid
      obtain ⟨q, hq⟩ := hi.connectionFds f id hid
      exact ⟨q, hold f q hq⟩

theorem wired_connected (hi : ServerInv w) : Wired w' := by
  have hacc : w.server.acceptor ≠ w.allocated := Nat.ne_of_lt hi.acceptorLive.made
  have hself : w'.channel w.allocated = socketChannel fd := by
    rw [h.channel, Function.update_self]
  refine ⟨fun q hq hne => ?_, ?_, ?_, ?_, ?_⟩
  · rw [h.acceptor] at hne
    by_cases hnew : q = w.allocated
    · refine ⟨?_, ?_, ?_, ?_, ?_⟩ <;> rw [hnew, hself]
      · rw [h.fd_eq]
        rfl
      all_goals rfl
    · obtain ⟨hfd, hread, hwrite, hclose, herror⟩ := hi.connection q (made_connected h hq hnew) hne
      refine ⟨?_, ?_, ?_, ?_, ?_⟩ <;> rw [channel_connected h hnew]
      · rw [h.other q hnew]
        exact hfd
      · exact hread
      · exact hwrite
      · exact hclose
      · exact herror
  all_goals rw [h.acceptor, channel_connected h hacc]
  · exact hi.acceptorRead
  · exact hi.acceptorWrite
  · exact hi.acceptorClose
  · exact hi.acceptorError

end

theorem connect_step {w : World} (hi : ServerInv w) {fd : ℤ}
    (hfree : w.kernel.descriptors fd = none) :
    ServerInv (connect fd w) ∧ Connected w (connect fd w) fd := by
  obtain ⟨_, _, hint, hconn⟩ := free_tables hi hfree
  have h := connected hint hconn
  exact ⟨⟨tables_connected h hi hfree, files_connected h hi hfree, wired_connected h hi⟩, h⟩

end NetPrograms.ServerTables
