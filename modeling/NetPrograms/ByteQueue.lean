import NetPrograms.BufferRefinement

set_option autoImplicit false

namespace NetPrograms.BufferModel
open ListSegments Buffer

theorem run_bind_ok {α β : Type} {m : BufferM α} {f : α → BufferM β} {b b' : Buffer} {v : β}
    (h : (m >>= f).run b = .ok v b') : ∃ a b₁, m.run b = .ok a b₁ ∧ (f a).run b₁ = .ok v b' := by
  rw [EStateM.run_bind] at h
  cases hm : m.run b with
  | ok a b₁ =>
    rw [hm] at h
    exact ⟨a, b₁, rfl, h⟩
  | error f b₁ =>
    rw [hm] at h
    cases h

theorem get_ok {β : Type} {f : Buffer → BufferM β} {b b' : Buffer} {v : β}
    (h : (get >>= f).run b = .ok v b') : (f b).run b = .ok v b' := by
  obtain ⟨_, _, hget, hrest⟩ := run_bind_ok h
  cases hget
  exact hrest

theorem check_ok {c : Prop} [Decidable c] {text : String} {b b' : Buffer} {v : Unit}
    (h : (check c text).run b = .ok v b') : c ∧ b' = b := by
  by_cases hc : c
  · rw [check_run hc] at h
    cases h
    exact ⟨hc, rfl⟩
  · rw [check_fails hc] at h
    cases h

theorem check_bind_ok {c : Prop} [Decidable c] {text : String} {β : Type} {f : Unit → BufferM β}
    {b b' : Buffer} {v : β} (h : (check c text >>= f).run b = .ok v b') :
    c ∧ (f ()).run b = .ok v b' := by
  obtain ⟨_, _, hcheck, hrest⟩ := run_bind_ok h
  obtain ⟨hc, rfl⟩ := check_ok hcheck
  exact ⟨hc, hrest⟩

theorem copyIn_ok {dest : ℕ} {data : List Byte} {b b' : Buffer} {v : Unit}
    (h : (copyIn dest data).run b = .ok v b') :
    dest + data.length ≤ b.buffer_.length ∧
      b' = { b with buffer_ := overwrite b.buffer_ dest data } := by
  by_cases hc : dest + data.length ≤ b.buffer_.length
  · rw [copyIn_run b hc] at h
    cases h
    exact ⟨hc, rfl⟩
  · simp only [copyIn, EStateM.run_bind, EStateM.run_get] at h
    rw [if_neg hc, EStateM.run_throw] at h
    cases h

theorem resize_ok {n : ℕ} {b b' : Buffer} {v : Unit} (h : (resize n).run b = .ok v b') :
    n ≤ vectorMaxSize ∧ b' = { b with buffer_ := resized b.buffer_ n 0 } := by
  simp only [resize, EStateM.run_bind, EStateM.run_get] at h
  split_ifs at h with hmax
  · cases h
  · rw [EStateM.run_set] at h
    cases h
    exact ⟨Nat.not_lt.mp hmax, rfl⟩

theorem makeSpace_ok {len : ℕ} {b b' : Buffer} {v : Unit} (h : (makeSpace len).run b = .ok v b') :
    (sizeAdd b.writableBytes b.prependableBytes < sizeAdd len kCheapPrepend ∧
      sizeAdd b.writerIndex_ len ≤ vectorMaxSize ∧
      b' = { b with buffer_ := resized b.buffer_ (sizeAdd b.writerIndex_ len) 0 }) ∨
    (kCheapPrepend < b.readerIndex_ ∧
      b' = ⟨copyForward (b.writerIndex_ - b.readerIndex_) b.buffer_ b.readerIndex_ kCheapPrepend,
        kCheapPrepend, sizeAdd kCheapPrepend b.readableBytes⟩) := by
  replace h := get_ok h
  split_ifs at h with hroom
  · exact .inl ⟨hroom, resize_ok h⟩
  · right
    obtain ⟨hfront, hmove⟩ := check_bind_ok h
    obtain ⟨_, _, hset, hrest⟩ := run_bind_ok hmove
    cases hset
    exact ⟨hfront, (check_ok (get_ok hrest)).2⟩

theorem ensureWritableBytes_ok {len : ℕ} {b b' : Buffer} {v : Unit}
    (h : (ensureWritableBytes len).run b = .ok v b') :
    b' = b ∨ (makeSpace len).run b = .ok () b' := by
  replace h := get_ok h
  dsimp only at h
  split_ifs at h with hfull
  · obtain ⟨_, b₁, hspace, hrest⟩ := run_bind_ok h
    obtain ⟨_, rfl⟩ := check_ok (get_ok hrest)
    exact .inr hspace
  · exact .inl (check_ok (get_ok h)).2

theorem hasWritten_ok {len : ℕ} {b b' : Buffer} {v : Unit}
    (h : (hasWritten len).run b = .ok v b') :
    b' = { b with writerIndex_ := sizeAdd b.writerIndex_ len } := by
  replace h := (check_bind_ok (get_ok h)).2
  cases h
  rfl

theorem append_steps {data : List Byte} {b b' : Buffer} {v : Unit}
    (h : (append data).run b = .ok v b') :
    ∃ b₁, (ensureWritableBytes data.length).run b = .ok () b₁ ∧
      b₁.writerIndex_ + data.length ≤ b₁.buffer_.length ∧
      b' = ⟨overwrite b₁.buffer_ b₁.writerIndex_ data, b₁.readerIndex_,
        sizeAdd b₁.writerIndex_ data.length⟩ := by
  obtain ⟨_, b₁, hensure, hrest⟩ := run_bind_ok h
  obtain ⟨_, b₂, hcopy, hwritten⟩ := run_bind_ok (get_ok hrest)
  obtain ⟨hin, rfl⟩ := copyIn_ok hcopy
  exact ⟨b₁, hensure, hin, hasWritten_ok hwritten⟩

theorem makeSpace_bounds {len : ℕ} {b b' : Buffer} {v : Unit} (hb : b.Valid)
    (h : (makeSpace len).run b = .ok v b') :
    b'.buffer_.length ≤ vectorMaxSize ∧ b'.writerIndex_ ≤ b.writerIndex_ := by
  rcases makeSpace_ok h with ⟨_, hmax, rfl⟩ | ⟨hfront, rfl⟩
  · refine ⟨?_, le_refl _⟩
    simp only [resized_length]
    exact hmax
  · constructor
    · simp only [copyForward_length]
      exact hb.size_le
    · have hle := hb.reader_le
      have hc := hb.content_length
      simp only [hb.readable]
      refine (Nat.mod_le _ _).trans ?_
      omega

theorem ensureWritableBytes_bounds {len : ℕ} {b b' : Buffer} {v : Unit} (hb : b.Valid)
    (h : (ensureWritableBytes len).run b = .ok v b') :
    b'.buffer_.length ≤ vectorMaxSize ∧ b'.writerIndex_ ≤ b.writerIndex_ := by
  rcases ensureWritableBytes_ok h with rfl | hspace
  · exact ⟨hb.size_le, le_refl _⟩
  · exact makeSpace_bounds hb hspace

theorem append_writer {b b' : Buffer} {data : List Byte} {v : Unit} (hb : b.Valid)
    (h : (append data).run b = .ok v b') : b'.writerIndex_ ≤ b.writerIndex_ + data.length := by
  obtain ⟨b₁, hensure, _, rfl⟩ := append_steps h
  have hw := (ensureWritableBytes_bounds hb hensure).2
  exact (Nat.mod_le _ _).trans (Nat.add_le_add_right hw _)

theorem append_small {b b' : Buffer} {data : List Byte} {v : Unit} (hb : b.Valid)
    (h : (append data).run b = .ok v b') : data.length ≤ vectorMaxSize := by
  obtain ⟨b₁, hensure, hin, _⟩ := append_steps h
  have hsize := (ensureWritableBytes_bounds hb hensure).1
  omega

theorem append_ok {b b' : Buffer} {data : List Byte} {v : Unit} (hb : b.Valid)
    (h : (append data).run b = .ok v b') : Becomes b b' (b.content ++ data) 0 := by
  have hsmall := append_small hb h
  have hs := hb.size_lt
  have hw := hb.writer_le
  simp only [vectorMaxSize] at hsmall
  rcases append_run hb data (by simp only [kCheapPrepend]; omega) (by omega) with
    ⟨b₂, hok, hbecomes⟩ | ⟨herr, _⟩
  · rw [hok] at h
    cases h
    exact hbecomes
  · rw [herr] at h
    cases h

theorem check_first {c : Buffer → Prop} [∀ b, Decidable (c b)] {text : String} {β : Type}
    {rest : Buffer → Unit → BufferM β} {b b' : Buffer} {v : β}
    (h : (get >>= fun b => check (c b) text >>= rest b : BufferM β).run b = .ok v b') : c b :=
  (check_bind_ok (get_ok h)).1

theorem retrieve_ok {b b' : Buffer} {len : ℕ} {v : Unit} (hb : b.Valid)
    (h : (retrieve len).run b = .ok v b') :
    len ≤ b.content.length ∧ Becomes b b' (b.content.drop len) 0 := by
  have hlen : len ≤ b.content.length := by
    rw [← hb.readable]
    exact check_first (c := fun b => len ≤ b.readableBytes) h
  obtain ⟨b₁, hok, hbecomes⟩ := retrieve_run hb hlen
  rw [hok] at h
  cases h
  exact ⟨hlen, hbecomes⟩

def ReadResult.delivered : ReadResult → List Byte
  | data bytes => bytes
  | fail _ => []

theorem readFd_fills {b : Buffer} (h : b.Valid) (bytes : List Byte) :
    b.writerIndex_ + (bytes.take b.writableBytes).length ≤ b.buffer_.length := by
  have hw := h.writer_le
  have hwr := h.writable
  have htake : (bytes.take b.writableBytes).length = min b.writableBytes bytes.length :=
    List.length_take
  omega

def filledUp (b : Buffer) (bytes : List Byte) : Buffer :=
  let buffer := overwrite b.buffer_ b.writerIndex_ (bytes.take b.writableBytes)
  ⟨buffer, b.readerIndex_, buffer.length⟩

theorem filledUp_becomes {b : Buffer} (h : b.Valid) {bytes : List Byte}
    (hspill : b.writableBytes < bytes.length) :
    Becomes b (filledUp b bytes) (b.content ++ bytes.take b.writableBytes) 0 := by
  have hin := readFd_fills h bytes
  have hw := h.writer_le
  have hwr := h.writable
  have hlen := overwrite_length b.buffer_ b.writerIndex_ _ hin
  have hfull : b.writerIndex_ + (bytes.take b.writableBytes).length =
      (overwrite b.buffer_ b.writerIndex_ (bytes.take b.writableBytes)).length := by
    rw [hlen, List.length_take]
    omega
  have hfilled := filled_becomes h _ hin
  rw [hfull] at hfilled
  exact hfilled

theorem readFd_steps {b b' : Buffer} {bytes : List Byte} {savedErrno : ℕ} {v : ℤ × ℕ}
    (h : (readFd (.data bytes) savedErrno).run b = .ok v b') : v.1 = bytes.length ∧
      ((bytes.length ≤ b.writableBytes ∧
        b' = ⟨overwrite b.buffer_ b.writerIndex_ (bytes.take b.writableBytes), b.readerIndex_,
          sizeAdd b.writerIndex_ bytes.length⟩) ∨
      (b.writableBytes < bytes.length ∧
        (append (bytes.drop b.writableBytes)).run (filledUp b bytes) = .ok () b')) := by
  replace h := get_ok h
  dsimp only at h
  obtain ⟨_, b₁, hcopy, hrest⟩ := run_bind_ok h
  obtain ⟨_, rfl⟩ := copyIn_ok hcopy
  replace hrest := get_ok hrest
  split_ifs at hrest with hfit
  · obtain ⟨_, b₂, hset, hreturn⟩ := run_bind_ok hrest
    cases hset
    cases hreturn
    exact ⟨rfl, .inl ⟨hfit, rfl⟩⟩
  · obtain ⟨_, b₂, hset, hspill⟩ := run_bind_ok hrest
    cases hset
    obtain ⟨_, b₃, happend, hreturn⟩ := run_bind_ok hspill
    cases hreturn
    exact ⟨rfl, .inr ⟨Nat.not_le.mp hfit, happend⟩⟩

theorem readFd_ok {b b' : Buffer} {result : ReadResult} {savedErrno : ℕ} {v : ℤ × ℕ}
    (hb : b.Valid) (h : (readFd result savedErrno).run b = .ok v b') :
    b'.Valid ∧ b'.content = b.content ++ result.delivered := by
  have hs := hb.size_lt
  cases result with
  | fail errno =>
    cases h
    exact ⟨hb, (List.append_nil _).symm⟩
  | data bytes =>
    have hin := readFd_fills hb bytes
    rcases (readFd_steps h).2 with ⟨hfit, rfl⟩ | ⟨hspill, happend⟩
    · rw [List.take_of_length_le hfit] at hin ⊢
      have hfilled := filled_becomes hb _ hin
      rw [sizeAdd_eq _ _ (by omega)]
      exact ⟨hfilled.valid, hfilled.content⟩
    · have hfull := filledUp_becomes hb hspill
      have hrest := append_ok hfull.valid happend
      refine ⟨hrest.valid, ?_⟩
      rw [hrest.content, hfull.content, List.append_assoc, List.take_append_drop]
      rfl

def ReadResult.count : ReadResult → ℤ
  | data bytes => bytes.length
  | fail _ => -1

theorem readFd_count {b b' : Buffer} {result : ReadResult} {savedErrno : ℕ} {v : ℤ × ℕ}
    (h : (readFd result savedErrno).run b = .ok v b') : v.1 = result.count := by
  cases result with
  | fail errno =>
    cases h
    rfl
  | data bytes => exact (readFd_steps h).1

/-- A buffer that is valid by construction. -/
def ByteQueue : Type := { b : Buffer // b.Valid }

namespace ByteQueue

def new : ByteQueue := ⟨Buffer.new, new_valid⟩

def content (q : ByteQueue) : List Byte := q.val.content

def readableBytes (q : ByteQueue) : ℕ := q.val.readableBytes

def append (data : List Byte) (q : ByteQueue) : Except Fault ByteQueue :=
  match h : (Buffer.append data).run q.val with
  | .ok _ b => .ok ⟨b, (append_ok q.property h).valid⟩
  | .error f _ => .error f

def retrieve (len : ℕ) (q : ByteQueue) : Except Fault ByteQueue :=
  match h : (Buffer.retrieve len).run q.val with
  | .ok _ b => .ok ⟨b, (retrieve_ok q.property h).2.valid⟩
  | .error f _ => .error f

def readFd (result : ReadResult) (savedErrno : ℕ) (q : ByteQueue) :
    Except Fault ((ℤ × ℕ) × ByteQueue) :=
  match h : (Buffer.readFd result savedErrno).run q.val with
  | .ok v b => .ok (v, ⟨b, (readFd_ok q.property h).1⟩)
  | .error f _ => .error f

theorem readFd_result {result : ReadResult} {savedErrno : ℕ} {q q' : ByteQueue} {v : ℤ × ℕ}
    (h : q.readFd result savedErrno = .ok (v, q')) :
    v.1 = result.count ∧ q'.content = q.content ++ result.delivered := by
  unfold readFd at h
  split at h
  · rename_i hrun
    cases h
    exact ⟨readFd_count hrun, (readFd_ok q.property hrun).2⟩
  · cases h

theorem new_content : new.content = [] := BufferModel.new_content

theorem readableBytes_eq (q : ByteQueue) : q.readableBytes = q.content.length :=
  q.property.readable

theorem append_content {data : List Byte} {q q' : ByteQueue} (h : q.append data = .ok q') :
    q'.content = q.content ++ data := by
  unfold append at h
  split at h
  · rename_i hrun
    cases h
    exact (append_ok q.property hrun).content
  · cases h

theorem append_returns (data : List Byte) (q : ByteQueue)
    (hroom : q.val.writerIndex_ + data.length ≤ vectorMaxSize) :
    ∃ q', q.append data = .ok q' := by
  simp only [vectorMaxSize] at hroom
  rcases append_run q.property data (by simp only [kCheapPrepend]; omega) (by omega) with
    ⟨b', hrun, hb⟩ | ⟨_, hmax⟩
  · refine ⟨⟨b', hb.valid⟩, ?_⟩
    unfold append
    split
    · rename_i hrun'
      rw [hrun] at hrun'
      cases hrun'
      rfl
    · rename_i hrun'
      rw [hrun] at hrun'
      cases hrun'
  · simp only [vectorMaxSize] at hmax
    omega

theorem retrieve_content {len : ℕ} {q q' : ByteQueue} (h : q.retrieve len = .ok q') :
    len ≤ q.content.length ∧ q'.content = q.content.drop len := by
  unfold retrieve at h
  split at h
  · rename_i hrun
    cases h
    obtain ⟨hlen, hbecomes⟩ := retrieve_ok q.property hrun
    exact ⟨hlen, hbecomes.content⟩
  · cases h

theorem retrieve_returns {len : ℕ} {q : ByteQueue} (hlen : len ≤ q.content.length) :
    ∃ q', q.retrieve len = .ok q' := by
  obtain ⟨b', hrun, hb⟩ := retrieve_run q.property hlen
  refine ⟨⟨b', hb.valid⟩, ?_⟩
  unfold retrieve
  split
  · rename_i hrun'
    rw [hrun] at hrun'
    cases hrun'
    rfl
  · rename_i hrun'
    rw [hrun] at hrun'
    cases hrun'

end ByteQueue
end NetPrograms.BufferModel
