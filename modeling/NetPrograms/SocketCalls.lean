import NetPrograms.PollerMirror
import NetPrograms.ServerModel

set_option autoImplicit false

namespace NetPrograms.ServerModel
open BufferModel PollerModel PollerMirror

theorem bind_ok {α β : Type} {m : Except Fault α} {f : α → Except Fault β} {v : β}
    (h : (m >>= f) = .ok v) : ∃ a, m = .ok a ∧ f a = .ok v := by
  cases m with
  | error fault => cases h
  | ok a => exact ⟨a, rfl, h⟩

theorem ok_of_map {α β : Type} {m : Except Fault α} {f : α → β} {v : β}
    (h : m.toOption.map f = some v) : ∃ a, m = .ok a ∧ f a = v := by
  cases m with
  | error fault => cases h
  | ok a => exact ⟨a, rfl, Option.some.inj h⟩

def IoResult.Admissible (len : ℕ) : IoResult → Prop
  | count n => n ≤ len ∧ (n = 0 → len = 0)
  | fail errno => errno ≠ 0

instance (len : ℕ) (result : IoResult) : Decidable (result.Admissible len) :=
  match result with
  | .count n => inferInstanceAs (Decidable (n ≤ len ∧ (n = 0 → len = 0)))
  | .fail errno => inferInstanceAs (Decidable (errno ≠ 0))

structure Recorded (w w' : World) : Prop where
  socket : w'.socket = w.socket
  channel : w'.channel = w.channel
  channels_ : w'.channels_ = w.channels_
  descriptors : w'.kernel.descriptors = w.kernel.descriptors
  interest : w'.kernel.interest = w.kernel.interest
  accepted : w'.kernel.accepted = w.kernel.accepted
  allocated : w'.allocated = w.allocated
  server : w'.server = w.server

theorem Recorded.refl (w : World) : Recorded w w := ⟨rfl, rfl, rfl, rfl, rfl, rfl, rfl, rfl⟩

theorem Recorded.trans {w u t : World} (h : Recorded w u) (h' : Recorded u t) : Recorded w t :=
  ⟨h'.socket.trans h.socket, h'.channel.trans h.channel, h'.channels_.trans h.channels_,
    h'.descriptors.trans h.descriptors, h'.interest.trans h.interest,
    h'.accepted.trans h.accepted, h'.allocated.trans h.allocated, h'.server.trans h.server⟩

theorem log_recorded (c : Call) (w : World) : Recorded w (w.log c) :=
  ⟨rfl, rfl, rfl, rfl, rfl, rfl, rfl, rfl⟩

theorem setErrno_recorded (errno : ℕ) (w : World) : Recorded w (w.setErrno errno) :=
  ⟨rfl, rfl, rfl, rfl, rfl, rfl, rfl, rfl⟩

/-- A `write` on a closed descriptor, one that fails, and one that takes bytes. -/
inductive WriteOutcome (p : Ptr) (data : List Byte) (w : World) : IoResult → ℤ → World → Prop where
  | badf (result : IoResult) (hclosed : w.kernel.descriptors (w.channel p).fd_ = none) :
      WriteOutcome p data w result (-1) ((w.log (.write (w.channel p).fd_)).setErrno EBADF)
  | fail (file : OpenFile) (errno : ℕ)
      (hopen : w.kernel.descriptors (w.channel p).fd_ = some file) :
      WriteOutcome p data w (.fail errno) (-1)
        ((w.log (.write (w.channel p).fd_)).setErrno errno)
  | count (file : OpenFile) (n : ℕ)
      (hopen : w.kernel.descriptors (w.channel p).fd_ = some file) :
      WriteOutcome p data w (.count n) n
        { w.log (.write (w.channel p).fd_) with
          delivered := w.delivered ++ [⟨p, file, data.take n⟩] }

theorem write_outcome (p : Ptr) (data : List Byte) (result : IoResult) (w : World) :
    WriteOutcome p data w result (w.write p data result).1 (w.write p data result).2 := by
  cases hfd : w.kernel.descriptors (w.channel p).fd_ with
  | none =>
    have hw : w.write p data result =
        (-1, (w.log (.write (w.channel p).fd_)).setErrno EBADF) := by
      simp only [World.write, World.log, hfd]
    rw [hw]
    exact .badf result hfd
  | some file =>
    cases result with
    | fail errno =>
      have hw : w.write p data (.fail errno) =
          (-1, (w.log (.write (w.channel p).fd_)).setErrno errno) := by
        simp only [World.write, World.log, hfd]
      rw [hw]
      exact .fail file errno hfd
    | count n =>
      have hw : w.write p data (.count n) = ((n : ℤ), { w.log (.write (w.channel p).fd_) with
          delivered := w.delivered ++ [⟨p, file, data.take n⟩] }) := by
        simp only [World.write, World.log, hfd]
      rw [hw]
      exact .count file n hfd

theorem write_count {p : Ptr} {data : List Byte} {n : ℕ} {w : World}
    (hopen : w.kernel.descriptors (w.channel p).fd_ ≠ none) :
    (w.write p data (.count n)).1 = n := by
  have h := write_outcome p data (.count n) w
  generalize w.write p data (.count n) = x at h ⊢
  obtain ⟨v, u⟩ := x
  cases h with
  | badf _ hclosed => exact absurd hclosed hopen
  | count _ _ _ => rfl

theorem WriteOutcome.opened {p : Ptr} {data : List Byte} {w w' : World} {result : IoResult}
    {n : ℤ} (h : WriteOutcome p data w result n w')
    (hopen : w.kernel.descriptors (w.channel p).fd_ ≠ none) :
    (result = .fail w'.kernel.errno ∧ n = -1) ∨ ∃ k : ℕ, result = .count k ∧ n = k := by
  cases h with
  | badf _ hclosed => exact absurd hclosed hopen
  | fail _ _ _ => exact .inl ⟨rfl, rfl⟩
  | count _ k _ => exact .inr ⟨k, rfl, rfl⟩

theorem WriteOutcome.recorded {p : Ptr} {data : List Byte} {w w' : World} {result : IoResult}
    {n : ℤ} (h : WriteOutcome p data w result n w') : Recorded w w' := by
  cases h <;> exact ⟨rfl, rfl, rfl, rfl, rfl, rfl, rfl, rfl⟩

def setOutputBuffer (p : Ptr) (q : ByteQueue) (w : World) : World :=
  w.setSocket p fun s => { s with outputBuffer_ := q }

theorem setOutputBuffer_self (p : Ptr) (q : ByteQueue) (w : World) :
    (setOutputBuffer p q w).socket p = { w.socket p with outputBuffer_ := q } :=
  Function.update_self _ _ _

inductive SendOutcome (p : Ptr) (data : List Byte) (n : ℤ) (u : World) : ℤ → World → Prop where
  | full (hn : n = data.length) : SendOutcome p data n u 0 u
  | part (q : ByteQueue) (hn : n ≠ data.length) (hpos : 0 < n)
      (happend : (u.socket p).outputBuffer_.append (data.drop n.toNat) = .ok q) :
      SendOutcome p data n u 0 (setOutputBuffer p q u)
  | again (hn : n ≠ data.length) (hpos : ¬0 < n) (herrno : u.kernel.errno = EAGAIN) :
      SendOutcome p data n u (u.onReactor (Channel.enableWriting p)).kernel.errno
        (u.onReactor (Channel.enableWriting p))
  | failed (hn : n ≠ data.length) (hpos : ¬0 < n) (herrno : u.kernel.errno ≠ EAGAIN) :
      SendOutcome p data n u u.kernel.errno u

theorem Send_outcome {p : Ptr} {data : List Byte} {result : IoResult} {w w' : World} {v : ℤ}
    (h : Socket.Send p data result w = .ok (v, w')) :
    ∃ n u, WriteOutcome p data w result n u ∧ SendOutcome p data n u v w' := by
  refine ⟨_, _, write_outcome p data result w, ?_⟩
  unfold Socket.Send at h
  dsimp only at h
  generalize (w.write p data result).1 = n at h ⊢
  generalize (w.write p data result).2 = u at h ⊢
  split_ifs at h with hn hpos herrno
  · cases h
    exact .full hn
  · obtain ⟨q, happend, h⟩ := bind_ok h
    cases h
    exact .part q hn hpos happend
  · cases h
    exact .again hn hpos (herrno.elim id id)
  · cases h
    exact .failed hn hpos fun he => herrno (.inl he)

theorem SendOutcome.refused {p : Ptr} {data : List Byte} {u w' : World} {v : ℤ}
    (h : SendOutcome p data (-1) u v w') :
    (u.kernel.errno = EAGAIN ∧ w' = u.onReactor (Channel.enableWriting p) ∧
      v = w'.kernel.errno) ∨ (u.kernel.errno ≠ EAGAIN ∧ w' = u ∧ v = u.kernel.errno) := by
  cases h with
  | full hn => omega
  | part _ _ hpos _ => omega
  | again _ _ herrno => exact .inl ⟨herrno, rfl, rfl⟩
  | failed _ _ herrno => exact .inr ⟨herrno, rfl, rfl⟩

theorem SendOutcome.taken {p : Ptr} {data : List Byte} {n : ℕ} {u w' : World} {v : ℤ}
    (hadm : (IoResult.count n).Admissible data.length) (h : SendOutcome p data n u v w') :
    v = 0 ∧ ((n = data.length ∧ w' = u) ∨ (n ≠ data.length ∧
      ∃ q, (u.socket p).outputBuffer_.append (data.drop n) = .ok q ∧
        w' = setOutputBuffer p q u)) := by
  obtain ⟨_, hzero⟩ := hadm
  cases h with
  | full hn => exact ⟨rfl, .inl ⟨by exact_mod_cast hn, rfl⟩⟩
  | part q hn _ happend => exact ⟨rfl, .inr ⟨by exact_mod_cast hn, q, happend, rfl⟩⟩
  | again hn _ _ => omega
  | failed hn _ _ => omega

theorem Send_full {p : Ptr} {data : List Byte} {result : IoResult} {w : World}
    (hn : (w.write p data result).1 = data.length) :
    Socket.Send p data result w = .ok (0, (w.write p data result).2) := by
  unfold Socket.Send
  dsimp only
  rw [if_pos hn]
  rfl

/-- A `Send` returns unless the rest of its data does not fit into the address space. -/
theorem Send_returns {p : Ptr} {data : List Byte} {result : IoResult} {w : World}
    (hroom : (w.socket p).outputBuffer_.val.writerIndex_ + data.length ≤ vectorMaxSize) :
    ∃ v w', Socket.Send p data result w = .ok (v, w') := by
  have hsocket := (write_outcome p data result w).recorded.socket
  unfold Socket.Send
  dsimp only
  generalize (w.write p data result).1 = n
  generalize (w.write p data result).2 = u at hsocket ⊢
  split_ifs with hn hpos
  · exact ⟨_, _, rfl⟩
  · obtain ⟨q, hq⟩ := ByteQueue.append_returns (data.drop n.toNat) (u.socket p).outputBuffer_
      (by rw [hsocket, List.length_drop]; omega)
    rw [hq]
    exact ⟨_, _, rfl⟩
  all_goals exact ⟨_, _, rfl⟩

inductive DrainOutcome (p : Ptr) (n : ℤ) (u : World) : World → Prop where
  | failed (hpos : ¬0 < n) : DrainOutcome p n u u
  | part (q : ByteQueue) (hpos : 0 < n)
      (hretrieve : (u.socket p).outputBuffer_.retrieve n.toNat = .ok q) (hq : q.content ≠ []) :
      DrainOutcome p n u (setOutputBuffer p q u)
  | drained (q : ByteQueue) (hpos : 0 < n)
      (hretrieve : (u.socket p).outputBuffer_.retrieve n.toNat = .ok q) (hq : q.content = [])
      (hcb : (u.socket p).writeCallback_ = false) :
      DrainOutcome p n u ((setOutputBuffer p q u).onReactor (Channel.disableWriting p))
  | complete (q : ByteQueue) (hpos : 0 < n)
      (hretrieve : (u.socket p).outputBuffer_.retrieve n.toNat = .ok q) (hq : q.content = [])
      (hcb : (u.socket p).writeCallback_ = true) :
      DrainOutcome p n u { (setOutputBuffer p q u).onReactor (Channel.disableWriting p) with
        loop_ := u.loop_.runInLoop p }

theorem DrainOutcome.unchanged {p : Ptr} {u w' : World} (h : DrainOutcome p (-1) u w') :
    w' = u := by
  cases h with
  | failed _ => rfl
  | part _ hpos _ _ | drained _ hpos _ _ _ | complete _ hpos _ _ _ => omega

theorem handleWrite_outcome {p : Ptr} {result : IoResult} {w w' : World}
    (h : Socket.handleWrite p result w = .ok w') :
    ∃ n u, WriteOutcome p (w.socket p).outputBuffer_.content (w.log (.handleWrite p)) result n u ∧
      DrainOutcome p n u w' := by
  unfold Socket.handleWrite at h
  dsimp only at h
  have hwrite := write_outcome p ((w.log (.handleWrite p)).socket p).outputBuffer_.content result
    (w.log (.handleWrite p))
  generalize World.write p _ result (w.log (.handleWrite p)) = x at h hwrite
  obtain ⟨n, u⟩ := x
  refine ⟨n, u, hwrite, ?_⟩
  by_cases hpos : 0 < n
  · rw [if_pos hpos] at h
    obtain ⟨q, hretrieve, h⟩ := bind_ok h
    change (if ((setOutputBuffer p q u).socket p).outputBuffer_.readableBytes = 0 then _ else _)
      = _ at h
    rw [setOutputBuffer_self] at h
    change (if q.readableBytes = 0 then
      (if (((setOutputBuffer p q u).onReactor _).socket p).writeCallback_ then _ else _)
      else _) = _ at h
    have hcb : (((setOutputBuffer p q u).onReactor (Channel.disableWriting p)).socket
        p).writeCallback_ = (u.socket p).writeCallback_ := by
      change ((setOutputBuffer p q u).socket p).writeCallback_ = _
      rw [setOutputBuffer_self]
    rw [hcb, ByteQueue.readableBytes_eq] at h
    split_ifs at h with hq hset
    · cases h
      exact .complete q hpos hretrieve (List.length_eq_zero_iff.mp hq) hset
    · cases h
      exact .drained q hpos hretrieve (List.length_eq_zero_iff.mp hq) (by simpa using hset)
    · cases h
      exact .part q hpos hretrieve fun he => hq (List.length_eq_zero_iff.mpr he)
  · rw [if_neg hpos] at h
    cases h
    exact .failed hpos

theorem handleWrite_returns {p : Ptr} {result : IoResult} {w : World}
    (hadm : result.Admissible (w.socket p).outputBuffer_.content.length) :
    ∃ w', Socket.handleWrite p result w = .ok w' := by
  unfold Socket.handleWrite
  dsimp only
  have hwrite := write_outcome p ((w.log (.handleWrite p)).socket p).outputBuffer_.content result
    (w.log (.handleWrite p))
  generalize World.write p _ result (w.log (.handleWrite p)) = x at hwrite ⊢
  obtain ⟨n, u⟩ := x
  have hsocket : u.socket = w.socket := hwrite.recorded.socket
  by_cases hpos : 0 < n
  · have hlen : n.toNat ≤ (u.socket p).outputBuffer_.content.length := by
      rw [hsocket]
      cases hwrite with
      | badf _ _ | fail _ _ _ => omega
      | count _ n _ => exact hadm.1
    obtain ⟨q, hq⟩ := ByteQueue.retrieve_returns hlen
    rw [if_pos hpos, hq]
    dsimp only [Bind.bind, Except.bind]
    split_ifs <;> exact ⟨_, rfl⟩
  · rw [if_neg hpos]
    exact ⟨u, rfl⟩

theorem handleWrite_queues {p : Ptr} {result : IoResult} {w w' : World}
    (h : Socket.handleWrite p result w = .ok w') :
    w'.loop_ = if (w.socket p).writeCallback_ = true ∧ (w.socket p).outputBuffer_.content ≠ [] ∧
        (w'.socket p).outputBuffer_.content = [] then
      w.loop_.runInLoop p else w.loop_ := by
  obtain ⟨n, u, hwrite, hdrain⟩ := handleWrite_outcome h
  have hsocket : u.socket = w.socket := hwrite.recorded.socket
  have hloop : u.loop_ = w.loop_ := by cases hwrite <;> rfl
  have hcontent : ∀ q, ((setOutputBuffer p q u).socket p).outputBuffer_.content = q.content := by
    intro q
    rw [setOutputBuffer_self]
  rw [← hsocket, ← hloop]
  cases hdrain with
  | failed _ => exact (if_neg fun hc => hc.2.1 hc.2.2).symm
  | part q _ _ hq => exact (if_neg fun hc => hq ((hcontent q).symm.trans hc.2.2)).symm
  | drained _ _ _ _ hcb =>
    rw [hcb]
    exact (if_neg fun hc => Bool.false_ne_true hc.1).symm
  | complete q hpos hretrieve hq hcb =>
    have hlen := (ByteQueue.retrieve_content hretrieve).1
    have hne : (u.socket p).outputBuffer_.content ≠ [] := by
      intro hnil
      rw [hnil, List.length_nil] at hlen
      omega
    exact (if_pos ⟨hcb, hne, (hcontent q).trans hq⟩).symm

end NetPrograms.ServerModel
