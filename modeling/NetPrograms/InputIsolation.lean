import NetPrograms.ServerIsolation

set_option autoImplicit false

namespace NetPrograms.InputIsolation
open BufferModel PollerModel PollerMirror ServerModel ChannelDispatch ServerTables ServerRuns
open ServerActions ServerIsolation RunInvariants

structure Ledger where
  world : World
  received : OpenFile → List Byte
  retrieved : Ptr → List Byte

def delivery (w : World) : Action → Option (OpenFile × List Byte)
  | .handleRead p result =>
    (w.kernel.descriptors (w.channel p).fd_).map fun file => (file, result.delivered)
  | _ => none

def taking (w : World) : Action → Option (Ptr × List Byte)
  | .call (.retrieve s len) => some (s, (w.socket s).inputBuffer_.content.take len)
  | _ => none

def record {K : Type} [DecidableEq K] (log : K → List Byte) : Option (K × List Byte) → K → List Byte
  | none => log
  | some (k, bytes) => Function.update log k (log k ++ bytes)

def LedgerStep (s : Ledger) (a : Action) (t : Ledger) : Prop :=
  Acts s.world a t.world ∧ t.received = record s.received (delivery s.world a) ∧
    t.retrieved = record s.retrieved (taking s.world a)

/-- What the application has taken from a Socket and what is still in its input buffer is what
the Socket's own connection has delivered. -/
def InputIntact (s : Ledger) : Prop :=
  ∀ p < s.world.allocated, p ≠ s.world.server.acceptor →
    ∀ file, (s.world.socket p).file = some file →
      s.retrieved p ++ (s.world.socket p).inputBuffer_.content = s.received file

structure Intact (s : Ledger) : Prop where
  server : ServerInv s.world
  input : InputIntact s
  unread : ∀ id, s.world.kernel.accepted ≤ id → s.received (.connection id) = []
  unmade : ∀ q, s.world.allocated ≤ q →
    s.retrieved q = [] ∧ (s.world.socket q).inputBuffer_.content = []

def SameInput (w t : World) : Prop :=
  ∀ q, (t.socket q).inputBuffer_ = (w.socket q).inputBuffer_

theorem setSocket_input {f : Socket → Socket} (p : Ptr) (w : World)
    (hf : ∀ s, (f s).inputBuffer_ = s.inputBuffer_) : SameInput w (w.setSocket p f) := by
  intro q
  change (Function.update w.socket p (f (w.socket p)) q).inputBuffer_ = _
  by_cases hq : q = p
  · rw [hq, Function.update_self]
    exact hf _
  · rw [Function.update_of_ne hq]

theorem recorded_input {w t : World} (h : Recorded w t) : SameInput w t := fun q => by
  rw [h.socket]

theorem SameInput.trans {w u t : World} (h : SameInput w u) (h' : SameInput u t) :
    SameInput w t := fun q => (h' q).trans (h q)

theorem setOutputBuffer_input (p : Ptr) (q : ByteQueue) (w : World) :
    SameInput w (setOutputBuffer p q w) := setSocket_input p w fun _ => rfl

theorem send_input {p : Ptr} {data : List Byte} {result : IoResult} {v : ℤ} {w t : World}
    (h : Socket.Send p data result w = .ok (v, t)) : SameInput w t := by
  obtain ⟨n, u, hwrite, hout⟩ := Send_outcome h
  refine (recorded_input hwrite.recorded).trans ?_
  cases hout with
  | full _ | failed _ _ _ | again _ _ _ => exact fun _ => rfl
  | part q _ _ _ => exact setOutputBuffer_input p q u

theorem handleWrite_input {p : Ptr} {result : IoResult} {w t : World}
    (h : Socket.handleWrite p result w = .ok t) : SameInput w t := by
  obtain ⟨n, u, hwrite, hdrain⟩ := handleWrite_outcome h
  refine (recorded_input ((log_recorded (.handleWrite p) w).trans hwrite.recorded)).trans ?_
  cases hdrain with
  | failed _ => exact fun _ => rfl
  | part q _ _ _ | drained q _ _ _ _ | complete q _ _ _ _ => exact setOutputBuffer_input p q u

theorem handleClose_input {p : Ptr} {env : Env} {w t : World} (henv : env.closeCallback = [])
    (h : Socket.handleClose p env w = .ok t) : SameInput w t := by
  have hrun := handleClose_outcome h
  rw [henv] at hrun
  rw [runCallback_nil hrun]
  intro q
  rw [disconnect_socket]
  by_cases hq : q = p
  · rw [hq, Function.update_self]
  · rw [Function.update_of_ne hq]

theorem handleError_input (p : Ptr) (w : World) : SameInput w (Socket.handleError p w) :=
  recorded_input (handleError_recorded p w)

theorem handleRead_input {p : Ptr} {result : ReadResult} {w t : World}
    (h : Socket.handleRead p { silent with readv := result } w = .ok t) :
    (∀ q, q ≠ p → (t.socket q).inputBuffer_ = (w.socket q).inputBuffer_) ∧
      (t.socket p).inputBuffer_.content = (w.socket p).inputBuffer_.content ++
        (if w.kernel.descriptors (w.channel p).fd_ = none then [] else result.delivered) := by
  obtain ⟨⟨⟨n, savedErrno⟩, u⟩, hread, h⟩ := bind_ok h
  obtain ⟨⟨v, q⟩, hfd, hu⟩ := bind_ok hread
  have hcontent := (ByteQueue.readFd_result hfd).2
  cases hu
  have hafter : SameInput (didRead p q w) t := by
    dsimp only at h
    split_ifs at h with hpos hzero
    · rw [runCallback_nil h]
      exact fun _ => rfl
    · exact handleClose_input rfl h
    · cases h
      exact (recorded_input (setErrno_recorded _ _)).trans (handleError_input p _)
  constructor
  · intro r hr
    rw [hafter r]
    exact congrArg Socket.inputBuffer_ (Function.update_of_ne hr _ _)
  · have hself : (didRead p q w).socket p = { w.socket p with inputBuffer_ := q } :=
      Function.update_self _ _ _
    rw [hafter p, hself, hcontent]
    change _ ++ (if w.kernel.descriptors (w.channel p).fd_ = none then ReadResult.fail EBADF
      else result).delivered = _
    split_ifs <;> rfl

theorem connect_buffers (fd : ℤ) (w : World) :
    ((connect fd w).socket w.allocated).inputBuffer_ = ByteQueue.new ∧
      ((connect fd w).socket w.allocated).outputBuffer_ = ByteQueue.new := by
  have hinsert : ∀ (p : Ptr) (u : World), (TcpServer.insertConnection p u).socket = u.socket := by
    intro p u
    unfold TcpServer.insertConnection
    dsimp only
    split <;> rfl
  let w₀ := w.onReactor fun r => { r with kernel := r.kernel.accept fd }
  let w₁ := (Socket.new fd w₀).2
  have hnew : w₁.socket w.allocated = Socket.init fd (w₀.kernel.descriptors fd) :=
    Function.update_self _ _ _
  let w₂ := w₁.setSocket w.allocated fun s => { s with
    messageCallback_ := w₁.server.messageCallback_
    writeCallback_ := w₁.server.writeCompleteCallback_
    closeCallback_ := true }
  have hset : w₂.socket w.allocated = { w₁.socket w.allocated with
      messageCallback_ := w₁.server.messageCallback_
      writeCallback_ := w₁.server.writeCompleteCallback_
      closeCallback_ := true } := Function.update_self _ _ _
  have hsocket : (connect fd w).socket w.allocated = w₂.socket w.allocated :=
    congrFun (hinsert w.allocated w₂) _
  rw [hsocket, hset, hnew]
  exact ⟨rfl, rfl⟩

theorem file_ne_unaccepted {w : World} (hf : Files w) {p : Ptr} (hp : p < w.allocated) {id : ℕ}
    (hid : w.kernel.accepted ≤ id) : (w.socket p).file ≠ some (.connection id) := by
  intro hfile
  by_cases hacc : p = w.server.acceptor
  · rw [hacc, hf.acceptorFile] at hfile
    cases hfile
  · obtain ⟨id', hlt, hid'⟩ := hf.identity p hp hacc
    have hsame := hfile.symm.trans hid'
    simp only [Option.some.injEq, OpenFile.connection.injEq] at hsame
    omega

theorem started_sockets {w : World} (hw : Started w) :
    (∀ q < w.allocated, q = w.server.acceptor) ∧
      ∀ q, w.allocated ≤ q → w.socket q = Socket.init (-1) none := by
  obtain ⟨descriptors, fd, _, _, rfl⟩ := hw
  have h := startState descriptors fd
  rw [h.allocated, h.acceptor]
  refine ⟨fun q => Nat.lt_one_iff.mp, fun q hq => ?_⟩
  exact Function.update_of_ne (Nat.one_le_iff_ne_zero.mp hq) _ _

theorem acts_frame {w t : World} {a : Action} (ha : ∀ fd, a ≠ .accept fd) (h : Acts w a t) :
    Frame w t := by
  cases a with
  | accept fd => exact absurd rfl (ha fd)
  | handleRead p result => exact handleRead_frame h
  | handleWrite p result => exact (handleWrite_steady h).toFrame
  | handleClose p => exact handleClose_frame h
  | call c => exact (appCall_steady h).toFrame

theorem Intact.same {s t : Ledger} (hs : Intact s) (hi : ServerInv t.world)
    (hf : Frame s.world t.world) (hin : SameInput s.world t.world)
    (hreceived : t.received = s.received) (hretrieved : t.retrieved = s.retrieved) :
    Intact t := by
  refine ⟨hi, fun p hp hacc file hfile => ?_, fun id hid => ?_, fun q hq => ?_⟩
  · rw [hf.allocated] at hp
    rw [hf.acceptor] at hacc
    rw [hf.file] at hfile
    rw [hin p, hreceived, hretrieved]
    exact hs.input p hp hacc file hfile
  · rw [hf.accepted] at hid
    rw [hreceived]
    exact hs.unread id hid
  · rw [hf.allocated] at hq
    rw [hin q, hretrieved]
    exact hs.unmade q hq

theorem Intact.read {s t : Ledger} (hs : Intact s) (hi : ServerInv t.world)
    (hf : Frame s.world t.world) {p : Ptr} (hp : p < s.world.allocated)
    {file : OpenFile} {bytes : List Byte} (hfile : (s.world.socket p).file = some file)
    (hother : ∀ q, q ≠ p → (t.world.socket q).inputBuffer_ = (s.world.socket q).inputBuffer_)
    (hself : (t.world.socket p).inputBuffer_.content =
      (s.world.socket p).inputBuffer_.content ++ bytes)
    (hreceived : t.received = Function.update s.received file (s.received file ++ bytes))
    (hretrieved : t.retrieved = s.retrieved) : Intact t := by
  refine ⟨hi, fun q hq hne f hqf => ?_, fun id hid => ?_, fun q hq => ?_⟩
  · rw [hf.allocated] at hq
    rw [hf.acceptor] at hne
    rw [hf.file] at hqf
    have hold := hs.input q hq hne f hqf
    rw [hretrieved, hreceived]
    by_cases hqp : q = p
    · subst hqp
      obtain rfl : f = file := Option.some.inj (hqf.symm.trans hfile)
      rw [hself, Function.update_self, ← List.append_assoc, hold]
    · have hdiff : f ≠ file := by
        rintro rfl
        exact hqp (hs.server.distinct q hq p hp (hqf.trans hfile.symm))
      rw [hother q hqp, Function.update_of_ne hdiff]
      exact hold
  · rw [hf.accepted] at hid
    have hdiff : OpenFile.connection id ≠ file := by
      rintro rfl
      exact file_ne_unaccepted hs.server.toFiles hp hid hfile
    rw [hreceived, Function.update_of_ne hdiff]
    exact hs.unread id hid
  · rw [hf.allocated] at hq
    rw [hretrieved, hother q (hp.trans_le hq).ne']
    exact hs.unmade q hq

theorem Intact.retrieve {s t : Ledger} (hs : Intact s) (hi : ServerInv t.world)
    (hf : Frame s.world t.world) {p : Ptr} (len : ℕ)
    (hother : ∀ q, q ≠ p → (t.world.socket q).inputBuffer_ = (s.world.socket q).inputBuffer_)
    (hself : (t.world.socket p).inputBuffer_.content =
      (s.world.socket p).inputBuffer_.content.drop len)
    (hreceived : t.received = s.received)
    (hretrieved : t.retrieved = Function.update s.retrieved p
      (s.retrieved p ++ (s.world.socket p).inputBuffer_.content.take len)) : Intact t := by
  refine ⟨hi, fun q hq hne f hqf => ?_, fun id hid => ?_, fun q hq => ?_⟩
  · rw [hf.allocated] at hq
    rw [hf.acceptor] at hne
    rw [hf.file] at hqf
    rw [← hs.input q hq hne f hqf |>.trans (congrFun hreceived f).symm, hretrieved]
    by_cases hqp : q = p
    · rw [hqp, Function.update_self, hself, List.append_assoc, List.take_append_drop]
    · rw [Function.update_of_ne hqp, hother q hqp]
  · rw [hf.accepted] at hid
    rw [hreceived]
    exact hs.unread id hid
  · rw [hf.allocated] at hq
    obtain ⟨htaken, hempty⟩ := hs.unmade q hq
    rw [hretrieved]
    by_cases hqp : q = p
    · subst hqp
      rw [Function.update_self, hself, hempty, htaken, List.take_nil, List.drop_nil]
      exact ⟨rfl, rfl⟩
    · rw [Function.update_of_ne hqp, hother q hqp]
      exact ⟨htaken, hempty⟩

theorem Intact.accept {s t : Ledger} (hs : Intact s) (hi : ServerInv t.world) {fd : ℤ}
    (hconn : Connected s.world (connect fd s.world) fd) (hworld : t.world = connect fd s.world)
    (hreceived : t.received = s.received) (hretrieved : t.retrieved = s.retrieved) :
    Intact t := by
  refine ⟨hi, fun q hq hne f hqf => ?_, fun id hid => ?_, fun q hq => ?_⟩
  · rw [hworld] at hq hne hqf ⊢
    rw [hconn.acceptor] at hne
    rw [hreceived, hretrieved]
    by_cases hqn : q = s.world.allocated
    · subst hqn
      obtain rfl := Option.some.inj (hqf.symm.trans hconn.file)
      rw [(connect_buffers fd s.world).1, ByteQueue.new_content, List.append_nil,
        (hs.unmade _ (le_refl _)).1, hs.unread _ (le_refl _)]
    · rw [hconn.other q hqn] at hqf ⊢
      exact hs.input q (made_connected hconn hq hqn) hne f hqf
  · rw [hworld, hconn.accepted] at hid
    rw [hreceived]
    exact hs.unread id ((Nat.le_succ _).trans hid)
  · rw [hworld, hconn.allocated] at hq
    rw [hworld, hretrieved, hconn.other q (Nat.lt_of_succ_le hq).ne']
    exact hs.unmade q ((Nat.le_succ _).trans hq)

theorem intact_step (s : Ledger) (a : Action) (t : Ledger) (hs : Intact s)
    (hstep : LedgerStep s a t) (hmay : MayHappen s.world a ∧ NotReused s.world a) :
    Intact t := by
  obtain ⟨hact, hreceived, hretrieved⟩ := hstep
  have hi : ServerInv t.world :=
    (action_step s.world a t.world hs.server hact hmay.1).2 hmay.2
  cases a with
  | accept fd =>
    obtain ⟨hfd, hfree⟩ := hmay.1
    have hrun := (accept_connects rfl hfd (hs.server.open hs.server.acceptorLive)).symm.trans hact
    exact hs.accept hi (connect_step hs.server hfree).2 (runCallback_nil hrun) hreceived
      hretrieved
  | handleRead p result =>
    obtain ⟨hother, hself⟩ := handleRead_input hact
    have hf : Frame s.world t.world := handleRead_frame hact
    rw [delivery] at hreceived
    obtain ⟨hacc, hp | hgone⟩ := hmay.1
    · obtain ⟨fd, hlive⟩ := hp.live hs.server
      obtain ⟨id, _, hfile⟩ := hs.server.identity p hlive.made hacc
      have hopen : s.world.kernel.descriptors (s.world.channel p).fd_ =
          some (.connection id) := by
        rw [hs.server.channelFd p hlive.made, hlive.fd_eq, hs.server.opened fd p hlive]
        exact hfile
      rw [hopen, if_neg nofun] at hself
      rw [hopen] at hreceived
      exact hs.read hi hf hlive.made hfile hother hself hreceived hretrieved
    · have hclosed : s.world.kernel.descriptors (s.world.channel p).fd_ = none := by
        rw [hs.server.channelFd p hgone.made]
        exact hgone.descriptor
      rw [hclosed, if_pos rfl, List.append_nil] at hself
      rw [hclosed] at hreceived
      refine hs.retrieve (p := p) hi hf 0 hother ?_ hreceived ?_
      · rw [hself, List.drop_zero]
      · rw [List.take_zero, List.append_nil, Function.update_eq_self]
        exact hretrieved
  | handleWrite p result =>
    have hf : Frame s.world t.world := acts_frame (by rintro _ ⟨⟩) hact
    exact hs.same hi hf (handleWrite_input hact) hreceived hretrieved
  | handleClose p =>
    have hf : Frame s.world t.world := acts_frame (by rintro _ ⟨⟩) hact
    exact hs.same hi hf (handleClose_input rfl hact) hreceived hretrieved
  | call c =>
    have hf : Frame s.world t.world := acts_frame (by rintro _ ⟨⟩) hact
    cases c with
    | send p data result =>
      obtain ⟨⟨v, x⟩, hsend, he⟩ := bind_ok hact
      have hin : SameInput s.world t.world := by
        cases he
        exact send_input hsend
      exact hs.same hi hf hin hreceived hretrieved
    | retrieve p len =>
      obtain ⟨q, hq, he⟩ := bind_ok hact
      have hworld : t.world = s.world.setSocket p fun s => { s with inputBuffer_ := q } :=
        (Except.ok.inj he).symm
      refine hs.retrieve hi hf len (fun r hr => ?_) ?_ hreceived hretrieved
      · rw [hworld]
        exact congrArg Socket.inputBuffer_ (Function.update_of_ne hr _ _)
      · have hself : t.world.socket p = { s.world.socket p with inputBuffer_ := q } := by
          rw [hworld]
          exact Function.update_self _ _ _
        rw [hself]
        exact (ByteQueue.retrieve_content hq).2

theorem started_input {w : World} (hw : Started w) :
    Intact ⟨w, fun _ => [], fun _ => []⟩ := by
  obtain ⟨honly, hunmade⟩ := started_sockets hw
  refine ⟨hw.inv, fun p hp hne => absurd (honly p hp) hne, fun _ _ => rfl,
    fun q hq => ⟨rfl, ?_⟩⟩
  dsimp only at hq ⊢
  rw [hunmade q hq]
  exact ByteQueue.new_content

/-- In every run of a started server in which no late `Send` works on a descriptor that is open
again, every Socket holds what its own connection has sent, whole and in order. -/
theorem input_intact (w : World) (hw : Started w) (actions : List Action)
    (hmay : EachStep LedgerStep (fun s a _ => MayHappen s.world a ∧ NotReused s.world a)
      ⟨w, fun _ => [], fun _ => []⟩ actions) :
    Always LedgerStep InputIntact ⟨w, fun _ => [], fun _ => []⟩ actions :=
  (Always.of_invariant Intact intact_step hmay (started_input hw)).mono fun _ h => h.input

theorem input_intact_read :
    Always LedgerStep InputIntact
      ⟨TcpServer.start 3 (World.boot fun _ => none), fun _ => [], fun _ => []⟩
      [.accept 5, .accept 6, .handleRead 1 (.data [0x61, 0x62]), .handleRead 2 (.data [0x63]),
        .call (.retrieve 1 1), .handleRead 1 (.data [0x64]), .handleRead 2 (.data [])] :=
  input_intact _ started_boot _ <|
    .of_check (f := Action.run) (C := allowed) Ledger.world
      (fun hu _ hstep => Except.ok.inj (hu.symm.trans hstep.1)) allowed_may (by decide +kernel)

end NetPrograms.InputIsolation
