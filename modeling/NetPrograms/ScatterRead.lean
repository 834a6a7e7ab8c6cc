import NetPrograms.ByteQueue
import NetPrograms.RunInvariants

set_option autoImplicit false

namespace NetPrograms.ScatterRead
open BufferModel ListSegments Buffer RunInvariants

def errnoAfter (savedErrno : ℕ) : ReadResult → ℕ
  | .data _ => savedErrno
  | .fail errno => errno

theorem readFd_fit {b : Buffer} (h : b.Valid) {bytes : List Byte} (savedErrno : ℕ)
    (hfit : bytes.length ≤ b.writableBytes) :
    ∃ b', (readFd (.data bytes) savedErrno).run b = .ok (bytes.length, savedErrno) b' ∧
      Becomes b b' (b.content ++ bytes) 0 := by
  have hin := readFd_fills h bytes
  rw [List.take_of_length_le hfit] at hin
  have hs := h.size_lt
  have hadd : sizeAdd b.writerIndex_ bytes.length = b.writerIndex_ + bytes.length :=
    sizeAdd_eq _ _ (by omega)
  refine ⟨_, ?_, filled_becomes h bytes hin⟩
  simp only [readFd, EStateM.run_bind, EStateM.run_get, List.take_of_length_le hfit,
    copyIn_run b hin, if_pos hfit, EStateM.run_set, EStateM.run_pure, hadd]

theorem readFd_spill {b : Buffer} (h : b.Valid) {bytes : List Byte} (savedErrno : ℕ)
    (hspill : b.writableBytes < bytes.length) (hn : bytes.length ≤ b.readFdRequest) :
    (∃ b', (readFd (.data bytes) savedErrno).run b = .ok (bytes.length, savedErrno) b' ∧
      Becomes b b' (b.content ++ bytes) 0) ∨
    ((∃ b', (readFd (.data bytes) savedErrno).run b = .error .lengthError b') ∧
      vectorMaxSize < b.buffer_.length + (bytes.length - b.writableBytes)) := by
  have hin := readFd_fills h bytes
  have hwr := h.writable
  have hs := h.size_lt
  have hlen := overwrite_length b.buffer_ b.writerIndex_ _ hin
  have hfull := filledUp_becomes h hspill
  have hrest : (bytes.drop b.writableBytes).length ≤ extrabufSize := by
    rw [List.length_drop]
    unfold readFdRequest at hn
    split_ifs at hn <;> omega
  simp only [extrabufSize] at hrest
  have hrun : (readFd (.data bytes) savedErrno).run b =
      (do append (bytes.drop b.writableBytes); return ((bytes.length : ℤ), savedErrno)).run
        (filledUp b bytes) := by
    simp only [readFd, EStateM.run_bind, EStateM.run_get, copyIn_run b hin,
      if_neg (Nat.not_le.mpr hspill), EStateM.run_set, filledUp]
  rw [hrun, EStateM.run_bind]
  rcases append_run hfull.valid (bytes.drop b.writableBytes)
    (by simp only [kCheapPrepend]; omega) (by simp only [filledUp, hlen]; omega) with
    ⟨b', hok, hb'⟩ | ⟨herr, hmax⟩
  · left
    rw [hfull.content, List.append_assoc, List.take_append_drop] at hb'
    simp only [hok]
    exact ⟨b', rfl, hfull.trans hb'⟩
  · right
    simp only [filledUp, hlen, List.length_drop] at hmax
    simp only [herr]
    exact ⟨⟨_, rfl⟩, hmax⟩

/-- The call appends what was delivered and reports how much that was, or the vector cannot
hold it. An error changes nothing but `*savedErrno`. -/
def Appends (b : Buffer) (result : ReadResult) (savedErrno : ℕ) : Prop :=
  (∃ b', (readFd result savedErrno).run b =
      .ok (result.count, errnoAfter savedErrno result) b' ∧
    Becomes b b' (b.content ++ result.delivered) 0 ∧ (result.count < 0 → b' = b)) ∨
  ((∃ b', (readFd result savedErrno).run b = .error .lengthError b') ∧
    vectorMaxSize < b.buffer_.length + (result.delivered.length - b.writableBytes))

theorem readFd_appends {b : Buffer} (h : b.Valid) (result : ReadResult) (savedErrno : ℕ)
    (hn : result.delivered.length ≤ b.readFdRequest) : Appends b result savedErrno := by
  cases result with
  | fail errno =>
    refine .inl ⟨b, rfl, ?_, fun _ => rfl⟩
    have hb := Becomes.refl h
    rwa [← List.append_nil b.content] at hb
  | data bytes =>
    have hcount : ¬ReadResult.count (.data bytes) < 0 := by simp [ReadResult.count]
    rcases Nat.lt_or_ge b.writableBytes bytes.length with hspill | hfit
    · rcases readFd_spill h savedErrno hspill hn with ⟨b', hrun, hb'⟩ | hthrow
      · exact .inl ⟨b', hrun, hb', fun hneg => absurd hneg hcount⟩
      · exact .inr hthrow
    · obtain ⟨b', hrun, hb'⟩ := readFd_fit h savedErrno hfit
      exact .inl ⟨b', hrun, hb', fun hneg => absurd hneg hcount⟩

theorem readFdRequest_le {b : Buffer} (hextra : b.writableBytes < extrabufSize) :
    b.readFdRequest ≤ 131071 := by
  rw [readFdRequest, if_pos hextra]
  simp only [extrabufSize] at hextra ⊢
  omega

theorem le_readFdRequest (b : Buffer) : extrabufSize ≤ b.readFdRequest := by
  unfold readFdRequest
  split_ifs <;> omega

inductive InputOp where
  | readFd (result : ReadResult) (savedErrno : ℕ)
  | retrieve (len : ℕ)
  | retrieveAsString (len : ℕ)
  deriving DecidableEq, Repr

structure InputState where
  buffer : Buffer
  delivered : List Byte
  retrieved : List Byte

def InputState.new : InputState := ⟨Buffer.new, [], []⟩

inductive InputStep : InputState → InputOp → InputState → Prop where
  | readFd {s : InputState} {result : ReadResult} {savedErrno : ℕ} {v : ℤ × ℕ} {b : Buffer}
      (hrun : (Buffer.readFd result savedErrno).run s.buffer = .ok v b) :
      InputStep s (.readFd result savedErrno)
        ⟨b, s.delivered ++ result.delivered, s.retrieved⟩
  | retrieve {s : InputState} {len : ℕ} {b : Buffer}
      (hrun : (Buffer.retrieve len).run s.buffer = .ok () b) :
      InputStep s (.retrieve len)
        ⟨b, s.delivered, s.retrieved ++ s.buffer.bytesAt s.buffer.peek len⟩
  | retrieveAsString {s : InputState} {len : ℕ} {b : Buffer} {string : List Byte}
      (hrun : (Buffer.retrieveAsString len).run s.buffer = .ok string b) :
      InputStep s (.retrieveAsString len) ⟨b, s.delivered, s.retrieved ++ string⟩

/-- All that came in is either taken out or still readable, in order. -/
structure Conserves (s : InputState) : Prop where
  valid : s.buffer.Valid
  stream : s.retrieved ++ s.buffer.content = s.delivered

theorem conserves_new : Conserves InputState.new := ⟨new_valid, new_content⟩

theorem retrieveAsString_ok {b b' : Buffer} {len : ℕ} {string : List Byte} (hb : b.Valid)
    (h : (retrieveAsString len).run b = .ok string b') :
    string = b.content.take len ∧ Becomes b b' (b.content.drop len) 0 := by
  have hlen : len ≤ b.content.length := by
    rw [← hb.readable]
    exact check_first (c := fun b => len ≤ b.readableBytes) h
  obtain ⟨b₁, hok, hbecomes⟩ := retrieveAsString_run hb hlen
  rw [hok] at h
  cases h
  exact ⟨rfl, hbecomes⟩

theorem conserves_step {s t : InputState} {op : InputOp} (hs : Conserves s)
    (hstep : InputStep s op t) : Conserves t := by
  cases hstep with
  | readFd hrun =>
    obtain ⟨hvalid, hcontent⟩ := readFd_ok hs.valid hrun
    refine ⟨hvalid, ?_⟩
    simp only
    rw [hcontent, ← List.append_assoc, hs.stream]
  | retrieve hrun =>
    obtain ⟨hlen, hb⟩ := retrieve_ok hs.valid hrun
    refine ⟨hb.valid, ?_⟩
    simp only
    rw [hb.content, bytesAt_peek hs.valid hlen, List.append_assoc, List.take_append_drop,
      hs.stream]
  | retrieveAsString hrun =>
    obtain ⟨rfl, hb⟩ := retrieveAsString_ok hs.valid hrun
    refine ⟨hb.valid, ?_⟩
    simp only
    rw [hb.content, List.append_assoc, List.take_append_drop, hs.stream]

/-- Calls within their preconditions do return, room in the largest vector permitting. -/
def Proceeds (s : InputState) : Prop :=
  (∀ result savedErrno, result.delivered.length ≤ s.buffer.readFdRequest →
    (∃ t, InputStep s (.readFd result savedErrno) t) ∨
    vectorMaxSize < s.buffer.buffer_.length + extrabufSize) ∧
  ∀ len ≤ s.buffer.content.length,
    (∃ t, InputStep s (.retrieve len) t) ∧ ∃ t, InputStep s (.retrieveAsString len) t

theorem conserves_proceeds {s : InputState} (hs : Conserves s) : Proceeds s := by
  refine ⟨fun result savedErrno hn => ?_, fun len hlen => ⟨?_, ?_⟩⟩
  · rcases readFd_appends hs.valid result savedErrno hn with ⟨b', hrun, _⟩ | ⟨_, hmax⟩
    · exact .inl ⟨_, .readFd hrun⟩
    · right
      have hspill : result.delivered.length - s.buffer.writableBytes ≤ extrabufSize := by
        unfold readFdRequest at hn
        split_ifs at hn <;> omega
      omega
  · obtain ⟨b', hrun, _⟩ := retrieve_run hs.valid hlen
    exact ⟨_, .retrieve hrun⟩
  · obtain ⟨b', hrun, _⟩ := retrieveAsString_run hs.valid hlen
    exact ⟨_, .retrieveAsString hrun⟩

theorem input_stream (ops : List InputOp) :
    Always InputStep (fun s => Conserves s ∧ Proceeds s) InputState.new ops := by
  have hall : EachStep InputStep (fun _ _ _ => True) InputState.new ops :=
    .of_labels (L := fun _ => True) (fun _ _ => trivial) _
  have hinv : Always InputStep Conserves InputState.new ops :=
    .of_invariant (G := fun _ _ _ => True) Conserves
      (fun _ _ _ hs hstep _ => conserves_step hs hstep) hall conserves_new
  exact hinv.mono fun s hs => ⟨hs, conserves_proceeds hs⟩

theorem scatter_read_appends {b : Buffer} (h : b.Valid) (result : ReadResult) (savedErrno : ℕ)
    (hn : result.delivered.length ≤ b.readFdRequest) :
    Appends b result savedErrno ∧
    (b.writableBytes < extrabufSize → result.delivered.length ≤ 131071) ∧
    ∀ ops, Always InputStep (fun s => Conserves s ∧ Proceeds s) InputState.new ops :=
  ⟨readFd_appends h result savedErrno hn, fun hextra => hn.trans (readFdRequest_le hextra),
    input_stream⟩

theorem scatter_read_appends_nearlyFull :
    Appends nearlyFull (.data [1, 2, 3, 4, 5]) 0 ∧
    (nearlyFull.writableBytes < extrabufSize → [(1 : Byte), 2, 3, 4, 5].length ≤ 131071) ∧
    ∀ ops, Always InputStep (fun s => Conserves s ∧ Proceeds s) InputState.new ops :=
  scatter_read_appends nearlyFull_valid (.data [1, 2, 3, 4, 5]) 0
    ((by decide : 5 ≤ extrabufSize).trans (le_readFdRequest _))

end NetPrograms.ScatterRead
