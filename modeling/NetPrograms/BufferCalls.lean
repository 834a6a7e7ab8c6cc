import NetPrograms.BufferHistory
import NetPrograms.ScatterRead

set_option autoImplicit false

namespace NetPrograms.BufferCalls
open BufferModel BufferHistory RunInvariants

inductive BufferCall where
  | op (o : BufferOp)
  | readFd (result : ReadResult) (savedErrno : ℕ)
  deriving DecidableEq, Repr

/-- The sums that a direct reservation computes do not wrap. -/
def Sized (b : Buffer) : BufferOp → Prop
  | .ensureWritableBytes len => (BufferOp.ensureWritableBytes len).Pre b
  | _ => True

/-- A call that returns. A failed assertion or a `length_error` ends the run. -/
inductive CallStep (host : ByteOrder) : Buffer → BufferCall → Buffer → Prop where
  | op {o : BufferOp} {b b' : Buffer} {v : List Byte} (hsize : Sized b o)
      (hrun : (o.run host).run b = .ok v b') : CallStep host b (.op o) b'
  | readFd {result : ReadResult} {savedErrno : ℕ} {b b' : Buffer} {v : ℤ × ℕ}
      (hrun : (Buffer.readFd result savedErrno).run b = .ok v b') :
      CallStep host b (.readFd result savedErrno) b'

def BufferCall.after (host : ByteOrder) (b : Buffer) : BufferCall → Except Fault Buffer
  | .op o =>
    match (o.run host).run b with
    | .ok _ b' => .ok b'
    | .error f _ => .error f
  | .readFd result savedErrno =>
    match (Buffer.readFd result savedErrno).run b with
    | .ok _ b' => .ok b'
    | .error f _ => .error f

theorem CallStep.after_eq {host : ByteOrder} {call : BufferCall} {b b' : Buffer}
    (h : CallStep host b call b') : call.after host b = .ok b' := by
  cases h with
  | op _ hrun | readFd hrun => simp only [BufferCall.after, hrun]

def Reachable (host : ByteOrder) (b : Buffer) : Prop :=
  ∃ calls, Run (CallStep host) Buffer.new calls b

theorem of_discard {m : BufferM Unit} {b b' : Buffer} {v : List Byte}
    (h : (do m; return [] : BufferM (List Byte)).run b = .ok v b') : m.run b = .ok () b' := by
  obtain ⟨_, b₁, hm, h⟩ := run_bind_ok h
  cases h
  exact hm

theorem prepend_pre {data : List Byte} {b b' : Buffer} {v : Unit}
    (h : (Buffer.prepend data).run b = .ok v b') : data.length ≤ b.prependableBytes :=
  check_first (c := fun b => data.length ≤ b.prependableBytes) h

theorem retrieve_pre {len : ℕ} {b b' : Buffer} {v : Unit}
    (h : (Buffer.retrieve len).run b = .ok v b') : len ≤ b.readableBytes :=
  check_first (c := fun b => len ≤ b.readableBytes) h

theorem fill_pre {data : List Byte} {b b' : Buffer} {v : Unit} (hb : b.Valid)
    (h : (Buffer.fill data).run b = .ok v b') : data.length ≤ b.writableBytes := by
  obtain ⟨_, _, hcopy, _⟩ := run_bind_ok (get_ok h)
  have hin := (copyIn_ok hcopy).1
  have hwr := hb.writable
  simp only [Buffer.beginWrite] at hin
  omega

theorem pre_of_small {b : Buffer} (hb : b.Valid) {len : ℕ} (hlen : len ≤ vectorMaxSize) :
    len + kCheapPrepend < 2 ^ 64 ∧ b.writerIndex_ + len < 2 ^ 64 := by
  have hw := hb.writer_le
  have hs := hb.size_lt
  simp only [vectorMaxSize] at hlen
  simp only [kCheapPrepend]
  omega

theorem pre_of_ok {host : ByteOrder} {o : BufferOp} {b b' : Buffer} {v : List Byte} (hb : b.Valid)
    (hsize : Sized b o) (h : (o.run host).run b = .ok v b') : o.Pre b := by
  cases o with
  | append data =>
    have hsmall := append_small hb (of_discard (m := Buffer.append data) h)
    exact pre_of_small hb hsmall
  | appendInt8 x => exact pre_of_small hb (by decide : 1 ≤ vectorMaxSize)
  | appendInt16 x => exact pre_of_small hb (by decide : 2 ≤ vectorMaxSize)
  | appendInt32 x => exact pre_of_small hb (by decide : 4 ≤ vectorMaxSize)
  | prepend data => exact prepend_pre (of_discard h)
  | prependInt8 x => exact prepend_pre (of_discard h)
  | prependInt16 x =>
    have hpre := prepend_pre (of_discard h)
    rwa [objectBytes16_htons] at hpre
  | prependInt32 x =>
    have hpre := prepend_pre (of_discard h)
    rwa [objectBytes32_htonl] at hpre
  | retrieve len => exact retrieve_pre (of_discard h)
  | retrieveInt8 => exact retrieve_pre (of_discard h)
  | retrieveInt16 => exact retrieve_pre (of_discard h)
  | retrieveInt32 => exact retrieve_pre (of_discard h)
  | retrieveUntil offset =>
    obtain ⟨_, b₁, huntil, _⟩ := run_bind_ok (get_ok h)
    exact (check_bind_ok (check_bind_ok (get_ok huntil)).2).1
  | retrieveAll => trivial
  | retrieveAllAsString => trivial
  | retrieveAsString len =>
    have hrun : (Buffer.retrieveAsString len).run b = .ok v b' := h
    exact check_first (c := fun b => len ≤ b.readableBytes) hrun
  | ensureWritableBytes len => exact hsize
  | fill data =>
    exact fill_pre hb (of_discard h)
  | unwrite len => exact check_first (c := fun b => len ≤ b.readableBytes) (of_discard h)

theorem op_ok {host : ByteOrder} {o : BufferOp} {b b' : Buffer} {v : List Byte} (hb : b.Valid)
    (hsize : Sized b o) (h : (o.run host).run b = .ok v b') :
    Becomes b b' (o.spec b.content) o.prepended := by
  rcases op_step host o hb (pre_of_ok hb hsize h) with ⟨b₁, hrun, hbecomes⟩ | ⟨hrun, _⟩
  · rw [hrun] at h
    cases h
    exact hbecomes
  · rw [hrun] at h
    cases h

def BufferCall.spec (c : List Byte) : BufferCall → List Byte
  | .op o => o.spec c
  | .readFd result _ => c ++ result.delivered

theorem callStep_spec {host : ByteOrder} {call : BufferCall} {b b' : Buffer} (hb : b.Valid)
    (h : CallStep host b call b') : b'.Valid ∧ b'.content = call.spec b.content := by
  cases h with
  | op hsize hrun =>
    have hbecomes := op_ok hb hsize hrun
    exact ⟨hbecomes.valid, hbecomes.content⟩
  | readFd hrun => exact readFd_ok hb hrun

theorem run_spec {host : ByteOrder} {calls : List BufferCall} {b b' : Buffer} (hb : b.Valid)
    (h : Run (CallStep host) b calls b') :
    b'.Valid ∧ b'.content = calls.foldl BufferCall.spec b.content := by
  induction h with
  | refl b => exact ⟨hb, rfl⟩
  | next hstep _ ih =>
    obtain ⟨hvalid, hcontent⟩ := callStep_spec hb hstep
    obtain ⟨hvalid', hcontent'⟩ := ih hvalid
    refine ⟨hvalid', ?_⟩
    rw [hcontent', hcontent, List.foldl_cons]

theorem Reachable.valid {host : ByteOrder} {b : Buffer} (h : Reachable host b) : b.Valid := by
  obtain ⟨calls, hrun⟩ := h
  exact (run_spec new_valid hrun).1

end NetPrograms.BufferCalls
