import NetPrograms.ChannelDispatch

set_option autoImplicit false

namespace NetPrograms.ServerTables
open BufferModel PollerModel PollerMirror ServerModel ChannelDispatch

structure Live (w : World) (fd : ℤ) (q : Ptr) : Prop where
  made : q < w.allocated
  unclosed : (w.socket q).closed = false
  fd_eq : (w.socket q).fd_ = fd

def event (w : World) (q : Ptr) : Mask × Ptr := ((w.channel q).events_, q)

structure Tables (w : World) : Prop where
  table : ∀ fd q, w.channels_ fd = some q ↔ Live w fd q
  interest : ∀ fd, w.kernel.interest fd = (w.channels_ fd).map (event w)
  connections : ∀ fd,
    w.server.connections_ fd = (w.channels_ fd).filter fun q => q ≠ w.server.acceptor
  channelFd : ∀ q < w.allocated, (w.channel q).fd_ = (w.socket q).fd_
  added : ∀ fd q, Live w fd q → (w.channel q).index_ = .kAdded
  reading : ∀ fd q, Live w fd q →
    (w.channel q).events_ &&& Channel.kReadEvent = Channel.kReadEvent
  removed : ∀ q < w.allocated, (w.socket q).closed = true → (w.channel q).index_ = .kNew

structure Files (w : World) : Prop where
  opened : ∀ fd q, Live w fd q → w.kernel.descriptors fd = (w.socket q).file
  identity : ∀ q < w.allocated, q ≠ w.server.acceptor →
    ∃ id < w.kernel.accepted, (w.socket q).file = some (.connection id)
  distinct : ∀ q < w.allocated, ∀ q' < w.allocated, (w.socket q).file = (w.socket q').file → q = q'
  acceptorFile : (w.socket w.server.acceptor).file = some .other
  acceptorLive : Live w (w.socket w.server.acceptor).fd_ w.server.acceptor
  reused : ∀ q < w.allocated, w.kernel.descriptors (w.socket q).fd_ ≠ none →
    ∃ q', Live w (w.socket q).fd_ q'
  connectionFds : ∀ fd id, w.kernel.descriptors fd = some (.connection id) → ∃ q, Live w fd q

structure Wired (w : World) : Prop where
  connection : ∀ q < w.allocated, q ≠ w.server.acceptor → Connection w q
  acceptorRead : (w.channel w.server.acceptor).readCallback_ = some .accept
  acceptorWrite : (w.channel w.server.acceptor).writeCallback_ = some .handleWrite
  acceptorClose : (w.channel w.server.acceptor).closeCallback_ = some .acceptorCloseCallback
  acceptorError : (w.channel w.server.acceptor).errorCallback_ = none

structure ServerInv (w : World) : Prop extends Tables w, Files w, Wired w

theorem Live.unique {w : World} (h : Tables w) {fd : ℤ} {q q' : Ptr} (hq : Live w fd q)
    (hq' : Live w fd q') : q = q' :=
  Option.some.inj (((h.table fd q).mpr hq).symm.trans ((h.table fd q').mpr hq'))

theorem Tables.registered {w : World} (h : Tables w) (hf : Files w) {fd : ℤ} {q : Ptr}
    (hq : Live w fd q) : Registered w.toReactor q fd := by
  have hch := (h.table fd q).mpr hq
  have hint : w.kernel.interest fd = some (event w q) := by
    rw [h.interest, hch]
    rfl
  have hidx := h.added fd q hq
  refine ⟨⟨(h.channelFd q hq.made).trans hq.fd_eq, ?_, fun _ => hint, ?_⟩, hidx, ?_,
    h.reading fd q hq⟩
  · rw [hint]
    exact iff_of_true hidx nofun
  · rw [hidx]
    exact iff_of_true hch nofun
  · rw [hf.opened fd q hq]
    by_cases hacc : q = w.server.acceptor
    · rw [hacc, hf.acceptorFile]
      nofun
    · obtain ⟨id, _, hfile⟩ := hf.identity q hq.made hacc
      rw [hfile]
      nofun

theorem live_steady {w w' : World} (h : Steady w w') {fd : ℤ} {q : Ptr} :
    Live w' fd q ↔ Live w fd q := by
  constructor
  · rintro ⟨hmade, hclosed, hfd⟩
    exact ⟨h.allocated ▸ hmade, (h.closed q).symm.trans hclosed,
      (h.socket_fd q).symm.trans hfd⟩
  · rintro ⟨hmade, hclosed, hfd⟩
    exact ⟨h.allocated ▸ hmade, (h.closed q).trans hclosed, (h.socket_fd q).trans hfd⟩

theorem Wired.frame {w w' : World} (hw : Wired w) (h : Frame w w') : Wired w' := by
  have hch := h.channel w.server.acceptor
  refine ⟨?_, ?_, ?_, ?_, ?_⟩ <;> rw [h.acceptor]
  · intro q hq hne
    rw [h.allocated] at hq
    exact (hw.connection q hq hne).frame h
  · exact (congrArg Channel.readCallback_ hch :).trans hw.acceptorRead
  · exact (congrArg Channel.writeCallback_ hch :).trans hw.acceptorWrite
  · exact (congrArg Channel.closeCallback_ hch :).trans hw.acceptorClose
  · exact (congrArg Channel.errorCallback_ hch :).trans hw.acceptorError

theorem Files.steady {w w' : World} (hf : Files w) (h : Steady w w') : Files w' := by
  refine ⟨fun fd q hq => ?_, ?_, ?_, ?_, ?_, ?_, ?_⟩
  · rw [h.descriptors, h.file]
    exact hf.opened fd q ((live_steady h).mp hq)
  · simp only [h.allocated, h.acceptor, h.accepted, h.file]
    exact hf.identity
  · simp only [h.allocated, h.file]
    exact hf.distinct
  · rw [h.acceptor, h.file]
    exact hf.acceptorFile
  · rw [h.acceptor, h.socket_fd, live_steady h]
    exact hf.acceptorLive
  · simp only [h.allocated, h.descriptors, h.socket_fd, live_steady h]
    exact hf.reused
  · simp only [h.descriptors, live_steady h]
    exact hf.connectionFds

structure Kept (w w' : World) : Prop extends Steady w w' where
  channels_ : w'.channels_ = w.channels_
  index : ∀ q, (w'.channel q).index_ = (w.channel q).index_
  reading : ∀ q, (w.channel q).events_ &&& Channel.kReadEvent = Channel.kReadEvent →
    (w'.channel q).events_ &&& Channel.kReadEvent = Channel.kReadEvent
  interest : ∀ fd, w'.kernel.interest fd = (w.channels_ fd).map (event w')

theorem Kept.trans {w u t : World} (h : Kept w u) (h' : Kept u t) : Kept w t := by
  refine ⟨h.toSteady.trans h'.toSteady, h'.channels_.trans h.channels_,
    fun q => (h'.index q).trans (h.index q), fun q hq => h'.reading q (h.reading q hq), ?_⟩
  rw [← h.channels_]
  exact h'.interest

theorem Tables.kept {w w' : World} (ht : Tables w) (h : Kept w w') : Tables w' := by
  refine ⟨fun fd q => ?_, fun fd => ?_, fun fd => ?_, ?_, fun fd q hq => ?_, fun fd q hq => ?_, ?_⟩
  · rw [h.channels_, live_steady h.toSteady]
    exact ht.table fd q
  · rw [h.channels_]
    exact h.interest fd
  · rw [h.connections_, h.channels_, h.acceptor]
    exact ht.connections fd
  · simp only [h.allocated, h.channel_fd, h.socket_fd]
    exact ht.channelFd
  · rw [h.index]
    exact ht.added fd q ((live_steady h.toSteady).mp hq)
  · exact h.reading q (ht.reading fd q ((live_steady h.toSteady).mp hq))
  · simp only [h.allocated, h.closed, h.index]
    exact ht.removed

theorem ServerInv.kept {w w' : World} (hi : ServerInv w) (h : Kept w w') : ServerInv w' :=
  ⟨hi.toTables.kept h, hi.toFiles.steady h.toSteady, hi.toWired.frame h.toFrame⟩

theorem Kept.of_reactor {w w' : World} (ht : Tables w) (h : Steady w w')
    (hr : w'.channel = w.channel ∧ w'.channels_ = w.channels_ ∧
      w'.kernel.interest = w.kernel.interest) : Kept w w' := by
  obtain ⟨hch, htab, hint⟩ := hr
  refine ⟨h, htab, fun q => by rw [hch], fun q => by rw [hch]; exact id, fun fd => ?_⟩
  have hev : event w' = event w := by
    funext q
    rw [event, event, hch]
  rw [hint, hev]
  exact ht.interest fd

theorem kept_refl {w : World} (ht : Tables w) : Kept w w :=
  Kept.of_reactor ht (Steady.refl w) ⟨rfl, rfl, rfl⟩

theorem kept_recorded {w w' : World} (ht : Tables w) (h : Recorded w w') : Kept w w' :=
  Kept.of_reactor ht h.steady ⟨h.channel, h.channels_, h.interest⟩

theorem kept_setEvents {w : World} (hi : ServerInv w) {fd : ℤ} {p : Ptr} (hp : Live w fd p)
    {f : Mask → Mask} (hf : KeepsReading f) :
    Kept w (w.onReactor (Channel.setEvents f p)) := by
  have hreg := hi.toTables.registered hi.toFiles hp
  obtain ⟨hreg', hl, hch⟩ := hreg.setEvents hf
  have hself : ((w.onReactor (Channel.setEvents f p)).channel p) =
      { w.channel p with events_ := f (w.channel p).events_ } := hch
  have hother : ∀ q, q ≠ p → (w.onReactor (Channel.setEvents f p)).channel q = w.channel q :=
    hl.channel
  have htab : w.channels_ fd = some p := (hi.table fd p).mpr hp
  refine ⟨onReactor_steady (setEvents_frame f p _), ?_, fun q => ?_, fun q hq => ?_, fun fd' => ?_⟩
  · funext fd'
    by_cases hfd : fd' = fd
    · rw [hfd, htab]
      exact hreg'.mirrors.table_iff.mpr (by rw [hreg'.added]; nofun)
    · exact hl.table fd' hfd
  · by_cases hqp : q = p
    · rw [hqp, hself]
    · rw [hother q hqp]
  · by_cases hqp : q = p
    · rw [hqp]
      exact hreg'.reading
    · rw [hother q hqp]
      exact hq
  · by_cases hfd : fd' = fd
    · rw [hfd, htab]
      exact hreg'.interest
    · refine (hl.interest fd' hfd).trans ((hi.interest fd').trans ?_)
      refine Option.map_congr fun q hq => ?_
      have hqp : q ≠ p := by
        rintro rfl
        have hlive := (hi.table fd' q).mp hq
        exact hfd (hlive.fd_eq.symm.trans hp.fd_eq)
      rw [event, event, hother q hqp]

theorem kept_setOutputBuffer {w : World} (ht : Tables w) (p : Ptr) (q : ByteQueue) :
    Kept w (setOutputBuffer p q w) :=
  Kept.of_reactor ht (setOutputBuffer_steady p q w) ⟨rfl, rfl, rfl⟩

theorem live_kept {w w' : World} (h : Kept w w') {fd : ℤ} {q : Ptr} (hq : Live w fd q) :
    Live w' fd q :=
  (live_steady h.toSteady).mpr hq

theorem send_kept {w w' : World} (hi : ServerInv w) {fd : ℤ} {p : Ptr} (hp : Live w fd p)
    {data : List Byte} {result : IoResult} {v : ℤ}
    (h : Socket.Send p data result w = .ok (v, w')) : Kept w w' := by
  obtain ⟨n, u, hwrite, hsend⟩ := Send_outcome h
  have hu := kept_recorded hi.toTables hwrite.recorded
  have hiu := hi.kept hu
  cases hsend with
  | full _ | failed _ _ _ => exact hu
  | part q _ _ _ => exact hu.trans (kept_setOutputBuffer hiu.toTables p q)
  | again _ _ _ =>
    exact hu.trans (kept_setEvents hiu (live_kept hu hp) keepsReading_enableWriting)

theorem drain_kept {u w' : World} (hi : ServerInv u) {fd : ℤ} {p : Ptr} (hp : Live u fd p) {n : ℤ}
    (h : DrainOutcome p n u w') : Kept u w' := by
  have hset := fun q => kept_setOutputBuffer hi.toTables p q
  have hoff : ∀ q, Kept u ((setOutputBuffer p q u).onReactor (Channel.disableWriting p)) :=
    fun q => (hset q).trans
      (kept_setEvents (hi.kept (hset q)) (live_kept (hset q) hp) keepsReading_disableWriting)
  cases h with
  | failed _ => exact kept_refl hi.toTables
  | part q _ _ _ => exact hset q
  | drained q _ _ _ _ => exact hoff q
  | complete q _ _ _ _ =>
    refine (hoff q).trans (Kept.of_reactor (hi.kept (hoff q)).toTables ?_ ⟨rfl, rfl, rfl⟩)
    exact ⟨⟨fun _ => rfl, fun _ => rfl, rfl, rfl, rfl⟩, fun _ => rfl, rfl, rfl⟩

theorem handleWrite_kept {w w' : World} (hi : ServerInv w) {fd : ℤ} {p : Ptr} (hp : Live w fd p)
    {result : IoResult} (h : Socket.handleWrite p result w = .ok w') : Kept w w' := by
  obtain ⟨n, u, hwrite, hdrain⟩ := handleWrite_outcome h
  have hu := kept_recorded hi.toTables ((log_recorded (.handleWrite p) w).trans hwrite.recorded)
  exact hu.trans (drain_kept (hi.kept hu) (live_kept hu hp) hdrain)

def SendsOnLive (w : World) (calls : List AppCall) : Prop :=
  ∀ s data result, AppCall.send s data result ∈ calls → ∃ fd, Live w fd s

theorem sendsOnLive_nil (w : World) : SendsOnLive w [] :=
  fun _ _ _ h => absurd h List.not_mem_nil

theorem runCallback_kept {set : Bool} {calls : List AppCall} {w w' : World} (hi : ServerInv w)
    (hcalls : SendsOnLive w calls) (h : runCallback set calls w = .ok w') : Kept w w' := by
  refine runCallback_induction h (fun u u' c hc hu hrun => ?_) (kept_refl hi.toTables)
  change Kept w u at hu
  have hiu := hi.kept hu
  cases c with
  | send s data result =>
    obtain ⟨⟨v, x⟩, hsend, he⟩ := bind_ok hrun
    cases he
    obtain ⟨fd, hlive⟩ := hcalls s data result hc
    exact hu.trans (send_kept hiu (live_kept hu hlive) hsend)
  | retrieve s len =>
    obtain ⟨q, _, he⟩ := bind_ok hrun
    cases he
    exact hu.trans (Kept.of_reactor hiu.toTables
      (setSocket_steady s u (fun _ => rfl) fun _ => rfl) ⟨rfl, rfl, rfl⟩)

structure Gone (w : World) (p : Ptr) : Prop where
  made : p < w.allocated
  closed : (w.socket p).closed = true
  descriptor : w.kernel.descriptors (w.socket p).fd_ = none

theorem gone_steady {w w' : World} (h : Steady w w') {p : Ptr} (hp : Gone w p) : Gone w' p := by
  refine ⟨?_, ?_, ?_⟩
  · rw [h.allocated]
    exact hp.made
  · rw [h.closed]
    exact hp.closed
  · rw [h.descriptors, h.socket_fd]
    exact hp.descriptor

theorem handleWrite_gone {w w' : World} (hi : ServerInv w) {p : Ptr} (hp : Gone w p)
    {result : IoResult} (h : Socket.handleWrite p result w = .ok w') : Kept w w' := by
  obtain ⟨n, u, hwrite, hdrain⟩ := handleWrite_outcome h
  have hu := kept_recorded hi.toTables ((log_recorded (.handleWrite p) w).trans hwrite.recorded)
  have hclosed : (w.log (.handleWrite p)).kernel.descriptors
      ((w.log (.handleWrite p)).channel p).fd_ = none := by
    change w.kernel.descriptors (w.channel p).fd_ = none
    rw [hi.channelFd p hp.made]
    exact hp.descriptor
  cases hwrite with
  | badf _ _ =>
    rw [hdrain.unchanged]
    exact hu
  | fail _ _ hopen | count _ _ hopen =>
    rw [hclosed] at hopen
    cases hopen

theorem didRead_kept {w : World} (ht : Tables w) (p : Ptr) (q : ByteQueue) :
    Kept w (didRead p q w) :=
  Kept.of_reactor ht (didRead_steady p q w) ⟨rfl, rfl, rfl⟩

theorem handleError_kept {w : World} (hi : ServerInv w) (p : Ptr) (savedErrno : ℕ) :
    Kept w (Socket.handleError p (w.setErrno savedErrno)) :=
  kept_recorded hi.toTables
    ((setErrno_recorded savedErrno w).trans (handleError_recorded p _))

theorem handleRead_gone {w w' : World} (hi : ServerInv w) {p : Ptr} (hp : Gone w p) {env : Env}
    (h : Socket.handleRead p env w = .ok w') : Kept w w' := by
  obtain ⟨q, hout⟩ := handleRead_outcome h
  have hclosed : w.kernel.descriptors (w.channel p).fd_ = none := by
    rw [hi.channelFd p hp.made]
    exact hp.descriptor
  rw [if_pos hclosed] at hout
  have hread := didRead_kept hi.toTables p q
  cases hout with
  | error _ savedErrno => exact hread.trans (handleError_kept (hi.kept hread) p savedErrno)

structure Disconnected (w w' : World) (fd : ℤ) (p : Ptr) : Prop where
  channel : w'.channel = Function.update w.channel p { w.channel p with index_ := .kNew }
  channels_ : w'.channels_ = Function.update w.channels_ fd none
  interest : w'.kernel.interest = Function.update w.kernel.interest fd none
  descriptors : w'.kernel.descriptors = Function.update w.kernel.descriptors fd none
  socket : w'.socket = Function.update w.socket p { w.socket p with closed := true }
  connections_ : w'.server.connections_ = Function.update w.server.connections_ fd none
  frame : Frame w w'

/-- The descriptor is closed first, so the `EPOLL_CTL_DEL` fails and changes nothing. -/
theorem removeChannel_closed {r : Reactor} {p : Ptr} {fd : ℤ} (hfd : (r.channel p).fd_ = fd)
    (hclosed : r.kernel.descriptors fd = none) :
    (Poller.removeChannel p r).channel =
        Function.update r.channel p { r.channel p with index_ := .kNew } ∧
      (Poller.removeChannel p r).channels_ = Function.update r.channels_ fd none ∧
      (Poller.removeChannel p r).kernel.interest = r.kernel.interest := by
  subst hfd
  have hctl : r.kernel.ctlErrno .del (r.channel p).fd_ = EBADF := if_pos hclosed
  have hne : EBADF ≠ 0 := by decide
  unfold Poller.removeChannel
  dsimp only
  split_ifs
  · refine ⟨rfl, rfl, ?_⟩
    simp only [Reactor.setChannel, Poller.update, Kernel.epollCtl, hctl, if_neg hne]
  · exact ⟨rfl, rfl, rfl⟩

theorem disconnected {w : World} (ht : Tables w) {fd : ℤ} {p : Ptr} (hp : Live w fd p)
    (hopen : w.kernel.descriptors fd ≠ none) : Disconnected w (disconnect p w) fd p := by
  have hclose : w.kernel.close (w.socket p).fd_ = { w.kernel with
      descriptors := Function.update w.kernel.descriptors fd none
      interest := Function.update w.kernel.interest fd none } := by
    rw [hp.fd_eq]
    exact if_neg hopen
  have hfd : (w.channel p).fd_ = fd := (ht.channelFd p hp.made).trans hp.fd_eq
  obtain ⟨hch, htab, hint⟩ := removeChannel_closed
    (r := { w.toReactor with kernel := w.kernel.close (w.socket p).fd_ }) hfd
    (by rw [hclose]; exact Function.update_self _ _ _)
  refine ⟨hch, htab, ?_, ?_, disconnect_socket p w, ?_, disconnect_frame p w⟩
  · refine hint.trans ?_
    dsimp only
    rw [hclose]
  · rw [disconnect_descriptors, hp.fd_eq]
  · change Function.update w.server.connections_ ((disconnect p w).socket p).fd_ none = _
    rw [(disconnect_frame p w).socket_fd, hp.fd_eq]

section
variable {w w' : World} {fd : ℤ} {p : Ptr} (h : Disconnected w w' fd p)
include h

theorem live_disconnected {f : ℤ} {q : Ptr} : Live w' f q ↔ Live w f q ∧ q ≠ p := by
  have hself : w'.socket p = { w.socket p with closed := true } := by
    rw [h.socket, Function.update_self]
  have hother : ∀ q, q ≠ p → w'.socket q = w.socket q := by
    intro q hq
    rw [h.socket, Function.update_of_ne hq]
  constructor
  · rintro ⟨hmade, hclosed, hfd⟩
    have hq : q ≠ p := by
      rintro rfl
      rw [hself] at hclosed
      cases hclosed
    rw [hother q hq] at hclosed hfd
    rw [h.frame.allocated] at hmade
    exact ⟨⟨hmade, hclosed, hfd⟩, hq⟩
  · rintro ⟨⟨hmade, hclosed, hfd⟩, hq⟩
    refine ⟨?_, ?_, ?_⟩
    · rw [h.frame.allocated]
      exact hmade
    · rw [hother q hq]
      exact hclosed
    · rw [hother q hq]
      exact hfd

theorem live_disconnected_ne (ht : Tables w) (hp : Live w fd p) {f : ℤ} {q : Ptr} :
    Live w' f q ↔ Live w f q ∧ f ≠ fd := by
  rw [live_disconnected h]
  refine and_congr_right fun hq => not_congr ⟨?_, ?_⟩
  · rintro rfl
    exact hq.fd_eq.symm.trans hp.fd_eq
  · rintro rfl
    exact Live.unique ht hq hp

theorem event_disconnected : event w' = event w := by
  funext q
  rw [event, event, h.channel]
  by_cases hq : q = p
  · rw [hq, Function.update_self]
  · rw [Function.update_of_ne hq]

theorem tables_disconnected (ht : Tables w) (hp : Live w fd p) : Tables w' := by
  have hlive := fun f q => live_disconnected_ne h ht hp (f := f) (q := q)
  have hindex : ∀ q, q ≠ p → (w'.channel q).index_ = (w.channel q).index_ := by
    intro q hq
    rw [h.channel, Function.update_of_ne hq]
  refine ⟨fun f q => ?_, fun f => ?_, fun f => ?_, fun q hq => ?_, fun f q hq => ?_,
    fun f q hq => ?_, fun q hq hclosed => ?_⟩
  · rw [hlive, h.channels_]
    by_cases hf : f = fd
    · rw [hf, Function.update_self]
      exact iff_of_false nofun fun hq => hq.2 rfl
    · rw [Function.update_of_ne hf, ht.table]
      exact ⟨fun hq => ⟨hq, hf⟩, fun hq => hq.1⟩
  · rw [h.interest, h.channels_, event_disconnected h]
    by_cases hf : f = fd
    · rw [hf, Function.update_self, Function.update_self]
      rfl
    · rw [Function.update_of_ne hf, Function.update_of_ne hf]
      exact ht.interest f
  · rw [h.connections_, h.channels_, h.frame.acceptor]
    by_cases hf : f = fd
    · rw [hf, Function.update_self, Function.update_self]
      rfl
    · rw [Function.update_of_ne hf, Function.update_of_ne hf]
      exact ht.connections f
  · rw [h.frame.allocated] at hq
    rw [h.frame.channel_fd, h.frame.socket_fd]
    exact ht.channelFd q hq
  · obtain ⟨hq, hne⟩ := (live_disconnected h).mp hq
    rw [hindex q hne]
    exact ht.added f q hq
  · have hev : (w'.channel q).events_ = (w.channel q).events_ :=
      congrArg Prod.fst (congrFun (event_disconnected h) q)
    rw [hev]
    exact ht.reading f q ((live_disconnected h).mp hq).1
  · rw [h.frame.allocated] at hq
    by_cases hqp : q = p
    · rw [hqp, h.channel, Function.update_self]
    · rw [hindex q hqp]
      rw [h.socket, Function.update_of_ne hqp] at hclosed
      exact ht.removed q hq hclosed

theorem files_disconnected (ht : Tables w) (hf : Files w) (hp : Live w fd p)
    (hacc : p ≠ w.server.acceptor) : Files w' := by
  have hlive := fun f q => live_disconnected_ne h ht hp (f := f) (q := q)
  have hother : ∀ f, f ≠ fd → w'.kernel.descriptors f = w.kernel.descriptors f := by
    intro f hne
    rw [h.descriptors, Function.update_of_ne hne]
  have hopen : ∀ f, w'.kernel.descriptors f ≠ none → f ≠ fd := by
    rintro f hne rfl
    rw [h.descriptors, Function.update_self] at hne
    exact hne rfl
  refine ⟨fun f q hq => ?_, ?_, ?_, ?_, ?_, fun q hq hne => ?_, fun f id hid => ?_⟩
  · obtain ⟨hq, hne⟩ := (hlive f q).mp hq
    rw [hother f hne, h.frame.file]
    exact hf.opened f q hq
  · simp only [h.frame.allocated, h.frame.acceptor, h.frame.accepted, h.frame.file]
    exact hf.identity
  · simp only [h.frame.allocated, h.frame.file]
    exact hf.distinct
  · rw [h.frame.acceptor, h.frame.file]
    exact hf.acceptorFile
  · rw [h.frame.acceptor, h.frame.socket_fd, live_disconnected h]
    exact ⟨hf.acceptorLive, hacc.symm⟩
  · rw [h.frame.allocated] at hq
    rw [h.frame.socket_fd] at hne ⊢
    have hfd := hopen _ hne
    rw [hother _ hfd] at hne
    obtain ⟨q', hq'⟩ := hf.reused q hq hne
    exact ⟨q', (hlive _ q').mpr ⟨hq', hfd⟩⟩
  · have hfd := hopen f (by rw [hid]; nofun)
    rw [hother f hfd] at hid
    obtain ⟨q, hq⟩ := hf.connectionFds f id hid
    exact ⟨q, (hlive f q).mpr ⟨hq, hfd⟩⟩

end

theorem ServerInv.open {w : World} (hi : ServerInv w) {fd : ℤ} {p : Ptr} (hp : Live w fd p) :
    w.kernel.descriptors fd ≠ none :=
  (hi.toTables.registered hi.toFiles hp).opened

theorem disconnect_step {w : World} (hi : ServerInv w) {fd : ℤ} {p : Ptr} (hp : Live w fd p)
    (hacc : p ≠ w.server.acceptor) :
    ServerInv (disconnect p w) ∧ Gone (disconnect p w) p ∧
      ∀ f q, Live (disconnect p w) f q ↔ Live w f q ∧ q ≠ p := by
  have h := disconnected hi.toTables hp (hi.open hp)
  refine ⟨⟨tables_disconnected h hi.toTables hp, files_disconnected h hi.toTables hi.toFiles hp
    hacc, hi.toWired.frame h.frame⟩, ⟨?_, ?_, ?_⟩, fun f q => live_disconnected h⟩
  · rw [h.frame.allocated]
    exact hp.made
  · rw [h.socket, Function.update_self]
  · rw [h.frame.socket_fd, hp.fd_eq, h.descriptors, Function.update_self]

end NetPrograms.ServerTables
