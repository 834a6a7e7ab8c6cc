import NetPrograms.InputIsolation
import NetPrograms.SocketStream

set_option autoImplicit false

namespace NetPrograms.OutputIsolation
open BufferModel PollerModel PollerMirror ServerModel ChannelDispatch ServerTables ServerRuns
open ServerActions ServerIsolation InputIsolation RunInvariants
open SocketStream (pending pending_setOutputBuffer enableWriting_errno)

/-- `acked` is the data of the `Send` calls on each Socket that returned 0, in call order. -/
structure Account where
  world : World
  acked : Ptr → List Byte

def acknowledged (w : World) : Action → Option (Ptr × List Byte)
  | .call (.send p data result) =>
    match Socket.Send p data result w with
    | .ok (v, _) => if v = 0 then some (p, data) else none
    | .error _ => none
  | _ => none

def AccountStep (s : Account) (a : Action) (t : Account) : Prop :=
  Acts s.world a t.world ∧ t.acked = record s.acked (acknowledged s.world a)

def taken (file : OpenFile) (w : World) : List Byte :=
  (w.delivered.filter (·.file = file)).flatMap (·.bytes)

/-- What was taken for a connection and what waits in the output buffer of its Socket are the
acknowledged bytes, in some order. -/
def OutputKept (s : Account) : Prop :=
  ∀ p < s.world.allocated, p ≠ s.world.server.acceptor →
    ∀ file, (s.world.socket p).file = some file →
      (taken file s.world ++ pending p s.world).Perm (s.acked p)

def OutputOrdered (s : Account) : Prop :=
  ∀ p < s.world.allocated, p ≠ s.world.server.acceptor →
    ∀ file, (s.world.socket p).file = some file →
      taken file s.world ++ pending p s.world = s.acked p

/-- The bytes that the kernel takes from a `Send` may stand before or after those that wait. -/
def SendsInOrder (w : World) : Action → Prop
  | .call (.send p data (.count n)) => w.kernel.descriptors (w.channel p).fd_ ≠ none →
    data.take n ++ pending p w = pending p w ++ data.take n
  | _ => True

structure Balance (s : Account) : Prop where
  server : ServerInv s.world
  kept : OutputKept s
  untaken : ∀ id, s.world.kernel.accepted ≤ id → taken (.connection id) s.world = []
  unmade : ∀ q, s.world.allocated ≤ q → s.acked q = [] ∧ pending q s.world = []

structure Moves (w t : World) (p : Ptr) (file : OpenFile) (bytes rest : List Byte) : Prop where
  taken_self : taken file t = taken file w ++ bytes
  taken_other : ∀ f, f ≠ file → taken f t = taken f w
  pending_self : pending p t = rest
  pending_other : ∀ q, q ≠ p → pending q t = pending q w

theorem taken_same {w t : World} (h : t.delivered = w.delivered) (f : OpenFile) :
    taken f t = taken f w := by
  rw [taken, taken, h]

theorem moves_of_delivered {w t : World} {p : Ptr} {file : OpenFile} {bytes rest : List Byte}
    (h : t.delivered = w.delivered ++ [⟨p, file, bytes⟩]) (hself : pending p t = rest)
    (hother : ∀ q, q ≠ p → pending q t = pending q w) : Moves w t p file bytes rest := by
  refine ⟨?_, fun f hf => ?_, hself, hother⟩
  · simp [taken, h]
  · simp [taken, h, hf.symm]

theorem pending_setOther {p q : Ptr} (b : ByteQueue) (w : World) (hq : q ≠ p) :
    pending q (setOutputBuffer p b w) = pending q w :=
  congrArg (fun s : Socket => s.outputBuffer_.content) (Function.update_of_ne hq _ _)

theorem send_moves {p : Ptr} {data : List Byte} {result : IoResult} {w t : World} {v : ℤ}
    (hadm : result.Admissible data.length) (h : Socket.Send p data result w = .ok (v, t)) :
    (v ≠ 0 ∧ t.delivered = w.delivered ∧ (∀ q, pending q t = pending q w) ∧
      (w.kernel.descriptors (w.channel p).fd_ = none ∨ ∃ errno, result = .fail errno)) ∨
    ∃ n file, result = .count n ∧ v = 0 ∧
      w.kernel.descriptors (w.channel p).fd_ = some file ∧
      Moves w t p file (data.take n) (pending p w ++ data.drop n) := by
  obtain ⟨k, u, hwrite, hsend⟩ := Send_outcome h
  cases hwrite with
  | badf _ hclosed =>
    left
    obtain ⟨herrno, _⟩ | ⟨_, rfl, rfl⟩ := hsend.refused
    · exact absurd herrno (show EBADF ≠ EAGAIN by decide)
    · exact ⟨show (EBADF : ℤ) ≠ 0 by decide, rfl, fun _ => rfl, .inl hclosed⟩
  | fail file errno _ =>
    left
    change errno ≠ 0 at hadm
    obtain ⟨_, rfl, rfl⟩ | ⟨_, rfl, rfl⟩ := hsend.refused
    · have herrno := enableWriting_errno p
        ((w.log (.write (w.channel p).fd_)).setErrno errno).toReactor hadm
      exact ⟨by exact_mod_cast herrno, rfl, fun _ => rfl, .inr ⟨errno, rfl⟩⟩
    · exact ⟨by exact_mod_cast hadm, rfl, fun _ => rfl, .inr ⟨errno, rfl⟩⟩
  | count file n hopen =>
    right
    obtain ⟨hv, ⟨hlen, rfl⟩ | ⟨_, q, happend, rfl⟩⟩ := hsend.taken hadm
    · refine ⟨n, file, rfl, hv, hopen, moves_of_delivered rfl ?_ fun _ _ => rfl⟩
      rw [hlen, List.drop_length, List.append_nil]
      rfl
    · refine ⟨n, file, rfl, hv, hopen, moves_of_delivered rfl ?_ fun r hr => ?_⟩
      · rw [pending_setOutputBuffer]
        exact ByteQueue.append_content happend
      · exact pending_setOther q _ hr

theorem handleWrite_moves {p : Ptr} {result : IoResult} {w t : World}
    (h : Socket.handleWrite p result w = .ok t) :
    (t.delivered = w.delivered ∧ ∀ q, pending q t = pending q w) ∨
    ∃ n file, w.kernel.descriptors (w.channel p).fd_ = some file ∧
      Moves w t p file ((pending p w).take n) ((pending p w).drop n) := by
  obtain ⟨k, u, hwrite, hdrain⟩ := handleWrite_outcome h
  cases hwrite with
  | badf _ _ | fail _ _ _ =>
    left
    rw [hdrain.unchanged]
    exact ⟨rfl, fun _ => rfl⟩
  | count file n hopen =>
    right
    refine ⟨n, file, hopen, ?_⟩
    cases hdrain with
    | failed hpos =>
      obtain rfl : n = 0 := by omega
      exact moves_of_delivered rfl rfl fun _ _ => rfl
    | part q _ hretrieve _ | drained q _ hretrieve _ _ | complete q _ hretrieve _ _ =>
      refine moves_of_delivered rfl ?_ fun r hr => pending_setOther q _ hr
      exact (pending_setOutputBuffer p q _).trans (ByteQueue.retrieve_content hretrieve).2

theorem disconnect_pending (p q : Ptr) (w : World) : pending q (disconnect p w) = pending q w := by
  rw [pending, disconnect_socket]
  by_cases hq : q = p
  · rw [hq, Function.update_self]
    rfl
  · rw [Function.update_of_ne hq]
    rfl

theorem handleClose_pending {p : Ptr} {env : Env} {w t : World} (henv : env.closeCallback = [])
    (h : Socket.handleClose p env w = .ok t) (q : Ptr) : pending q t = pending q w := by
  have hrun := handleClose_outcome h
  rw [henv] at hrun
  rw [runCallback_nil hrun]
  exact disconnect_pending p q w

theorem setInput_pending (p q : Ptr) (b : ByteQueue) (w : World) :
    pending q (w.setSocket p fun s => { s with inputBuffer_ := b }) = pending q w := by
  by_cases hq : q = p <;> simp [pending, World.setSocket, hq]

theorem handleRead_pending {p : Ptr} {result : ReadResult} {w t : World}
    (h : Socket.handleRead p { silent with readv := result } w = .ok t) (q : Ptr) :
    pending q t = pending q w := by
  obtain ⟨b, hout⟩ := handleRead_outcome h
  have hread : pending q (didRead p b w) = pending q w := setInput_pending p q b _
  generalize (if w.kernel.descriptors (w.channel p).fd_ = none then _ else _) = r at hout
  cases hout with
  | message _ _ _ hrun => rw [runCallback_nil hrun, hread]
  | eof _ hrun => rw [handleClose_pending rfl hrun, hread]
  | error _ savedErrno =>
    rw [← hread, pending, (handleError_recorded p _).socket]
    rfl

theorem Balance.same {s t : Account} (hs : Balance s) (hi : ServerInv t.world)
    (hf : Frame s.world t.world) (htaken : ∀ f, taken f t.world = taken f s.world)
    (hpend : ∀ q, pending q t.world = pending q s.world) (hacked : t.acked = s.acked) :
    Balance t ∧ (OutputOrdered s → OutputOrdered t) := by
  refine ⟨⟨hi, fun q hq hne f hqf => ?_, fun id hid => ?_, fun q hq => ?_⟩,
    fun ho q hq hne f hqf => ?_⟩
  · rw [hf.allocated] at hq
    rw [hf.acceptor] at hne
    rw [hf.file] at hqf
    rw [htaken, hpend, hacked]
    exact hs.kept q hq hne f hqf
  · rw [hf.accepted] at hid
    rw [htaken]
    exact hs.untaken id hid
  · rw [hf.allocated] at hq
    rw [hpend, hacked]
    exact hs.unmade q hq
  · rw [hf.allocated] at hq
    rw [hf.acceptor] at hne
    rw [hf.file] at hqf
    rw [htaken, hpend, hacked]
    exact ho q hq hne f hqf

section
variable {s t : Account} (hs : Balance s) {p : Ptr} (hp : p < s.world.allocated)
  {file : OpenFile} (hfile : (s.world.socket p).file = some file) {bytes rest data : List Byte}
  (hm : Moves s.world t.world p file bytes rest)
  (hacked : t.acked = Function.update s.acked p (s.acked p ++ data))
include hs hp hfile hm hacked

theorem Balance.other {q : Ptr} {f : OpenFile} (hq : q < s.world.allocated) (hne : q ≠ p)
    (hqf : (s.world.socket q).file = some f) : taken f t.world = taken f s.world ∧
      pending q t.world = pending q s.world ∧ t.acked q = s.acked q := by
  have hdiff : f ≠ file := by
    rintro rfl
    exact hne (hs.server.distinct q hq p hp (hqf.trans hfile.symm))
  refine ⟨hm.taken_other f hdiff, hm.pending_other q hne, ?_⟩
  rw [hacked, Function.update_of_ne hne]

theorem Balance.moves (hf : Frame s.world t.world) (hi : ServerInv t.world)
    (hperm : (bytes ++ rest).Perm (pending p s.world ++ data)) : Balance t := by
  refine ⟨hi, fun q hq hne f hqf => ?_, fun id hid => ?_, fun q hq => ?_⟩
  · rw [hf.allocated] at hq
    rw [hf.acceptor] at hne
    rw [hf.file] at hqf
    have hold := hs.kept q hq hne f hqf
    by_cases hqp : q = p
    · subst hqp
      obtain rfl : f = file := Option.some.inj (hqf.symm.trans hfile)
      rw [hm.taken_self, hm.pending_self, hacked, Function.update_self, List.append_assoc]
      have hmoved := hperm.append_left (taken f s.world)
      rw [← List.append_assoc (taken f s.world) (pending q s.world)] at hmoved
      exact hmoved.trans (hold.append_right data)
    · obtain ⟨htaken, hpend, hack⟩ := hs.other hp hfile hm hacked hq hqp hqf
      rw [htaken, hpend, hack]
      exact hold
  · rw [hf.accepted] at hid
    have hdiff : OpenFile.connection id ≠ file := by
      rintro rfl
      exact file_ne_unaccepted hs.server.toFiles hp hid hfile
    rw [hm.taken_other _ hdiff]
    exact hs.untaken id hid
  · rw [hf.allocated] at hq
    have hne : q ≠ p := (hp.trans_le hq).ne'
    rw [hacked, Function.update_of_ne hne, hm.pending_other q hne]
    exact hs.unmade q hq

theorem OutputOrdered.moves (hf : Frame s.world t.world) (ho : OutputOrdered s) :
    OutputOrdered t ↔
      (p ≠ s.world.server.acceptor → bytes ++ rest = pending p s.world ++ data) := by
  constructor
  · intro ht hacc
    have hnew := ht p (hf.allocated ▸ hp) (by rw [hf.acceptor]; exact hacc) file
      (by rw [hf.file]; exact hfile)
    rw [hm.taken_self, hm.pending_self, hacked, Function.update_self, ← ho p hp hacc file hfile,
      List.append_assoc, List.append_assoc] at hnew
    exact List.append_cancel_left hnew
  · intro hsame q hq hne f hqf
    rw [hf.allocated] at hq
    rw [hf.acceptor] at hne
    rw [hf.file] at hqf
    have hold := ho q hq hne f hqf
    by_cases hqp : q = p
    · subst hqp
      obtain rfl : f = file := Option.some.inj (hqf.symm.trans hfile)
      rw [hm.taken_self, hm.pending_self, hacked, Function.update_self, ← hold,
        List.append_assoc, List.append_assoc, hsame hne]
    · obtain ⟨htaken, hpend, hack⟩ := hs.other hp hfile hm hacked hq hqp hqf
      rw [htaken, hpend, hack]
      exact hold

end

theorem Balance.accept {s t : Account} (hs : Balance s) (hi : ServerInv t.world) {fd : ℤ}
    (hconn : Connected s.world (connect fd s.world) fd) (hworld : t.world = connect fd s.world)
    (hacked : t.acked = s.acked) : Balance t ∧ (OutputOrdered s → OutputOrdered t) := by
  have htaken : ∀ f, taken f t.world = taken f s.world := by
    intro f
    rw [hworld, taken_same (connect_delivered fd s.world)]
  have hold : ∀ q, q ≠ s.world.allocated → t.world.socket q = s.world.socket q := by
    intro q hq
    rw [hworld, hconn.other q hq]
  have hpend : ∀ q, pending q t.world = pending q s.world := by
    intro q
    by_cases hq : q = s.world.allocated
    · rw [hq, (hs.unmade _ (le_refl _)).2, pending, hworld, (connect_buffers fd s.world).2,
        ByteQueue.new_content]
    · rw [pending, hold q hq]
      rfl
  have hfresh : ∀ f, (t.world.socket s.world.allocated).file = some f →
      taken f t.world ++ pending s.world.allocated t.world = s.acked s.world.allocated := by
    intro f hf
    rw [hworld] at hf
    obtain rfl := Option.some.inj (hf.symm.trans hconn.file)
    obtain ⟨hack, hempty⟩ := hs.unmade _ (le_refl _)
    rw [htaken, hpend, hs.untaken _ (le_refl _), hack, hempty]
    rfl
  have hmade : ∀ q, q < t.world.allocated → q ≠ s.world.allocated → q < s.world.allocated := by
    intro q hq hne
    rw [hworld] at hq
    exact made_connected hconn hq hne
  have hacc : t.world.server.acceptor = s.world.server.acceptor := by
    rw [hworld, hconn.acceptor]
  refine ⟨⟨hi, fun q hq hne f hqf => ?_, fun id hid => ?_, fun q hq => ?_⟩,
    fun ho q hq hne f hqf => ?_⟩
  · by_cases hqn : q = s.world.allocated
    · subst hqn
      rw [hfresh f hqf, hacked]
    · rw [hold q hqn] at hqf
      rw [htaken, hpend, hacked]
      exact hs.kept q (hmade q hq hqn) (hacc ▸ hne) f hqf
  · rw [hworld, hconn.accepted] at hid
    rw [htaken]
    exact hs.untaken id ((Nat.le_succ _).trans hid)
  · rw [hworld, hconn.allocated] at hq
    rw [hpend, hacked]
    exact hs.unmade q ((Nat.le_succ _).trans hq)
  · by_cases hqn : q = s.world.allocated
    · subst hqn
      rw [hfresh f hqf, hacked]
    · rw [hold q hqn] at hqf
      rw [htaken, hpend, hacked]
      exact ho q (hmade q hq hqn) (hacc ▸ hne) f hqf

theorem write_balance {s t : Account} (hs : Balance s) (hi : ServerInv t.world) {p : Ptr} {fd : ℤ}
    (hp : Live s.world fd p) {result : IoResult}
    (h : Socket.handleWrite p result s.world = .ok t.world) (hacked : t.acked = s.acked) :
    Balance t ∧ (OutputOrdered s → OutputOrdered t) := by
  have hf : Frame s.world t.world := (handleWrite_steady h).toFrame
  rcases handleWrite_moves h with ⟨hdel, hpend⟩ | ⟨n, file, hopen, hm⟩
  · exact hs.same hi hf (taken_same hdel) hpend hacked
  · rw [hs.server.channelFd p hp.made, hp.fd_eq, hs.server.opened fd p hp] at hopen
    have hnothing : t.acked = Function.update s.acked p (s.acked p ++ []) := by
      rw [List.append_nil, Function.update_eq_self]
      exact hacked
    have hwhole : (pending p s.world).take n ++ (pending p s.world).drop n =
        pending p s.world ++ [] := by
      rw [List.take_append_drop, List.append_nil]
    refine ⟨hs.moves hp.made hopen hm hnothing hf hi (hwhole ▸ .refl _), fun ho => ?_⟩
    exact (OutputOrdered.moves hs hp.made hopen hm hnothing hf ho).mpr fun _ => hwhole

theorem acknowledged_send {p : Ptr} {data : List Byte} {result : IoResult} {w u : World} {v : ℤ}
    (h : Socket.Send p data result w = .ok (v, u)) :
    acknowledged w (.call (.send p data result)) = if v = 0 then some (p, data) else none := by
  rw [acknowledged, h]

theorem send_balance {s t : Account} (hs : Balance s) (hi : ServerInv t.world) {p : Ptr}
    {data : List Byte} {result : IoResult}
    (hmay : MayHappen s.world (.call (.send p data result)))
    (hreuse : NotReused s.world (.call (.send p data result)))
    (hstep : AccountStep s (.call (.send p data result)) t) :
    Balance t ∧ (OutputOrdered s →
      (OutputOrdered t ↔ SendsInOrder s.world (.call (.send p data result)))) := by
  obtain ⟨hact, hacked⟩ := hstep
  obtain ⟨⟨v, u⟩, hsend, he⟩ := bind_ok hact
  obtain rfl : u = t.world := Except.ok.inj he
  obtain ⟨hmade, hacc, hadm⟩ := hmay
  have hf : Frame s.world t.world := (Send_steady hsend).toFrame
  rw [acknowledged_send hsend] at hacked
  rcases send_moves hadm hsend with ⟨hv, hdel, hpend, hfails⟩ | ⟨n, file, rfl, rfl, hopen, hm⟩
  · rw [if_neg hv] at hacked
    obtain ⟨hb, hkeeps⟩ := hs.same hi hf (taken_same hdel) hpend hacked
    refine ⟨hb, fun ho => iff_of_true (hkeeps ho) ?_⟩
    rcases hfails with hclosed | ⟨errno, rfl⟩
    · cases result with
      | fail _ => trivial
      | count n => exact fun hopen => absurd hclosed hopen
    · trivial
  · rw [if_pos rfl] at hacked
    by_cases hclosed : (s.world.socket p).closed = true
    · -- the descriptor is another connection's by now
      have hreopened : s.world.kernel.descriptors (s.world.socket p).fd_ ≠ none := by
        rw [← hs.server.channelFd p hmade, hopen]
        nofun
      obtain rfl : n = 0 := by
        rcases hreuse hclosed hreopened with hzero | ⟨errno, hfail, _⟩
        · exact IoResult.count.inj hzero
        · cases hfail
      obtain rfl : data = [] := List.length_eq_zero_iff.mp (hadm.2 rfl)
      have htaken : ∀ f, taken f t.world = taken f s.world := by
        intro f
        by_cases hfile : f = file
        · rw [hfile, hm.taken_self, List.take_zero, List.append_nil]
        · exact hm.taken_other f hfile
      have hpend : ∀ q, pending q t.world = pending q s.world := by
        intro q
        by_cases hq : q = p
        · rw [hq, hm.pending_self, List.drop_nil, List.append_nil]
        · exact hm.pending_other q hq
      have hnothing : t.acked = s.acked := by
        rw [hacked, record, List.append_nil, Function.update_eq_self]
      obtain ⟨hb, hkeeps⟩ := hs.same hi hf htaken hpend hnothing
      refine ⟨hb, fun ho => iff_of_true (hkeeps ho) fun _ => ?_⟩
      rw [List.take_nil, List.append_nil, List.nil_append]
    · have hlive : Live s.world (s.world.socket p).fd_ p := ⟨hmade, by simpa using hclosed, rfl⟩
      have hfile : (s.world.socket p).file = some file := by
        rw [← hs.server.opened _ p hlive, ← hs.server.channelFd p hmade]
        exact hopen
      have hperm : (data.take n ++ (pending p s.world ++ data.drop n)).Perm
          (pending p s.world ++ data) := by
        have hswap := List.perm_append_comm_assoc (data.take n) (pending p s.world) (data.drop n)
        rwa [List.take_append_drop] at hswap
      have hne : s.world.kernel.descriptors (s.world.channel p).fd_ ≠ none := by
        rw [hopen]
        nofun
      refine ⟨hs.moves hmade hfile hm hacked hf hi hperm, fun ho => ?_⟩
      rw [OutputOrdered.moves hs hmade hfile hm hacked hf ho]
      calc _ ↔ data.take n ++ pending p s.world ++ data.drop n =
              pending p s.world ++ data.take n ++ data.drop n := by
            simp only [List.append_assoc, List.take_append_drop, forall_prop_of_true hacc]
        _ ↔ data.take n ++ pending p s.world = pending p s.world ++ data.take n :=
            by rw [List.append_cancel_right_eq]
        _ ↔ SendsInOrder s.world (.call (.send p data (.count n))) :=
            ⟨fun h _ => h, fun h => h hne⟩

theorem account_step (s : Account) (a : Action) (t : Account) (hs : Balance s)
    (hstep : AccountStep s a t) (hmay : MayHappen s.world a ∧ NotReused s.world a) :
    Balance t ∧ (OutputOrdered s → (OutputOrdered t ↔ SendsInOrder s.world a)) := by
  obtain ⟨hact, hacked⟩ := hstep
  have hi : ServerInv t.world :=
    (action_step s.world a t.world hs.server hact hmay.1).2 hmay.2
  have hkeeps : Balance t ∧ (OutputOrdered s → OutputOrdered t) → SendsInOrder s.world a →
      Balance t ∧ (OutputOrdered s → (OutputOrdered t ↔ SendsInOrder s.world a)) :=
    fun h horder => ⟨h.1, fun ho => iff_of_true (h.2 ho) horder⟩
  cases a with
  | accept fd =>
    obtain ⟨hfd, hfree⟩ := hmay.1
    have hrun := (accept_connects rfl hfd (hs.server.open hs.server.acceptorLive)).symm.trans hact
    exact hkeeps (hs.accept hi (connect_step hs.server hfree).2 (runCallback_nil hrun) hacked)
      trivial
  | handleRead p result =>
    exact hkeeps (hs.same hi (handleRead_frame hact) (taken_same (handleRead_delivered hact))
      (handleRead_pending hact) hacked) trivial
  | handleWrite p result =>
    refine hkeeps ?_ trivial
    rcases hmay.1 with hp | hgone
    · obtain ⟨fd, hlive⟩ := hp.live hs.server
      exact write_balance hs hi hlive hact hacked
    · rcases handleWrite_moves hact with ⟨hdel, hpend⟩ | ⟨_, _, hopen, _⟩
      · exact hs.same hi (handleWrite_steady hact).toFrame (taken_same hdel) hpend hacked
      · rw [hs.server.channelFd p hgone.made, hgone.descriptor] at hopen
        cases hopen
  | handleClose p =>
    exact hkeeps (hs.same hi (handleClose_frame hact) (taken_same (handleClose_silent rfl hact))
      (handleClose_pending rfl hact) hacked) trivial
  | call c =>
    cases c with
    | send p data result => exact send_balance hs hi hmay.1 hmay.2 ⟨hact, hacked⟩
    | retrieve p len =>
      have hf : Frame s.world t.world := acts_frame (by rintro _ ⟨⟩) hact
      obtain ⟨b, _, he⟩ := bind_ok hact
      have hworld := (Except.ok.inj he).symm
      refine hkeeps (hs.same hi hf (fun f => ?_) (fun q => ?_) hacked) trivial
      · rw [hworld]
        rfl
      · rw [hworld, setInput_pending]

def opening (w : World) : Account := ⟨w, fun _ => []⟩

theorem started_balance {w : World} (hw : Started w) :
    Balance (opening w) ∧ OutputOrdered (opening w) := by
  obtain ⟨honly, hunmade⟩ := started_sockets hw
  have htaken : ∀ f, taken f w = [] := by
    obtain ⟨_, _, _, _, rfl⟩ := hw
    exact fun _ => rfl
  refine ⟨⟨hw.inv, fun q hq hne => absurd (honly q hq) hne, fun id _ => htaken _,
    fun q hq => ⟨rfl, ?_⟩⟩, fun q hq hne => absurd (honly q hq) hne⟩
  change (w.socket q).outputBuffer_.content = []
  rw [hunmade q hq]
  exact ByteQueue.new_content

/-- In every run of a started server in which no late `Send` works on a descriptor that is open
again, what each client got and what waits for it are together the bytes acknowledged on its
Socket; they are in call order exactly when no `Send` of the run overtakes bytes that wait. -/
theorem output_intact (w : World) (hw : Started w) (actions : List Action)
    (hmay : EachStep AccountStep (fun s a _ => MayHappen s.world a ∧ NotReused s.world a)
      (opening w) actions) :
    Always AccountStep OutputKept (opening w) actions ∧
      (Always AccountStep OutputOrdered (opening w) actions ↔
        EachStep AccountStep (fun s a _ => SendsInOrder s.world a) (opening w) actions) := by
  obtain ⟨hb, ho⟩ := started_balance hw
  constructor
  · refine (Always.of_invariant Balance ?_ hmay hb).mono fun _ h => h.kept
    exact fun s a t hs hstep hm => (account_step s a t hs hstep hm).1
  · refine always_iff_eachStep (I := Balance) (fun s a t hs hord hstep hm => ?_) hmay hb ho
    exact ⟨(account_step s a t hs hstep hm).1, (account_step s a t hs hstep hm).2 hord⟩

theorem output_intact_send :
    Always AccountStep OutputKept (opening (TcpServer.start 3 (World.boot fun _ => none)))
        [.accept 5, .call (.send 1 [0x61, 0x62] (.count 1))] ∧
      (Always AccountStep OutputOrdered (opening (TcpServer.start 3 (World.boot fun _ => none)))
          [.accept 5, .call (.send 1 [0x61, 0x62] (.count 1))] ↔
        EachStep AccountStep (fun s a _ => SendsInOrder s.world a)
          (opening (TcpServer.start 3 (World.boot fun _ => none)))
          [.accept 5, .call (.send 1 [0x61, 0x62] (.count 1))]) :=
  output_intact _ started_boot _ <|
    .of_check (f := Action.run) (C := allowed) Account.world
      (fun hu _ hstep => Except.ok.inj (hu.symm.trans hstep.1)) allowed_may (by decide +kernel)

end NetPrograms.OutputIsolation
