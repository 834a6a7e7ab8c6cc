import NetPrograms.BufferCalls

set_option autoImplicit false

namespace NetPrograms.BufferRoom
open BufferModel BufferHistory BufferCalls ListSegments Buffer RunInvariants

/-- The call returns with the room asked for and the bytes kept, or throws and changes
nothing. -/
def EnsuresWritable (b : Buffer) (len : ℕ) : Prop :=
  (∃ b', (ensureWritableBytes len).run b = .ok () b' ∧
    b'.writerIndex_ + len ≤ b'.buffer_.length ∧ b'.content = b.content ∧
    b'.readerIndex_ ≤ b'.writerIndex_ ∧ b'.writerIndex_ ≤ b'.buffer_.length ∧
    b.buffer_.length ≤ b'.buffer_.length) ∨
  (ensureWritableBytes len).run b = .error .lengthError b

theorem full_of_huge {b : Buffer} (h : b.Valid) {len : ℕ} (hlen : 2 ^ 63 ≤ len) :
    b.writableBytes < len := by
  have hwr := h.writable
  have hs := h.size_lt
  omega

theorem resize_shrinks {b : Buffer} (h : b.Valid) {len : ℕ} (hlen : len < 2 ^ 64)
    (hwrap : 2 ^ 64 ≤ b.writerIndex_ + len) :
    ∃ b', (resize (sizeAdd b.writerIndex_ len)).run b = .ok () b' ∧
      b'.buffer_.length < b.buffer_.length := by
  have hw := h.writer_le
  have hs := h.size_lt
  have hsum : sizeAdd b.writerIndex_ len = b.writerIndex_ + len - 2 ^ 64 := by
    unfold sizeAdd
    omega
  have hmax : ¬vectorMaxSize < sizeAdd b.writerIndex_ len := by
    rw [hsum]
    unfold vectorMaxSize
    omega
  simp only [resize, EStateM.run_bind, EStateM.run_get, if_neg hmax, EStateM.run_set]
  refine ⟨_, rfl, ?_⟩
  simp only [resized_length, hsum]
  omega

theorem not_ensures_of_fails {b b₁ : Buffer} {len : ℕ} {text : String}
    (hrun : (ensureWritableBytes len).run b = .error (.assertion text) b₁) :
    ¬EnsuresWritable b len := by
  rintro (⟨b', hrun', _⟩ | herr)
  · rw [hrun] at hrun'
    cases hrun'
  · rw [hrun] at herr
    cases herr

theorem ensureWritableBytes_makeSpace {b b₁ : Buffer} {len : ℕ} (hfull : b.writableBytes < len)
    (hspace : (makeSpace len).run b = .ok () b₁) :
    (ensureWritableBytes len).run b =
      (check (len ≤ b₁.writableBytes) "writableBytes() >= len").run b₁ := by
  simp only [ensureWritableBytes, EStateM.run_bind, EStateM.run_get, if_pos hfull, hspace]

theorem not_ensures_of_shrinks {b b₁ : Buffer} {len : ℕ} (hfull : b.writableBytes < len)
    (hspace : (makeSpace len).run b = .ok () b₁) (hsize : b₁.buffer_.length < b.buffer_.length) :
    ¬EnsuresWritable b len := by
  have hensure := ensureWritableBytes_makeSpace hfull hspace
  by_cases hok : len ≤ b₁.writableBytes
  · -- the wrapping subtraction lets the last assertion pass over the damage
    rw [check_run hok] at hensure
    rintro (⟨b', hrun', _, _, _, _, hgrow⟩ | herr)
    · rw [hensure] at hrun'
      cases hrun'
      omega
    · rw [hensure] at herr
      cases herr
  · rw [check_fails hok] at hensure
    exact not_ensures_of_fails hensure

theorem not_ensures_of_wrap {b : Buffer} (h : b.Valid) {len : ℕ} (hlen : len < 2 ^ 64)
    (hwrap : ¬(b.writerIndex_ + len < 2 ^ 64 ∧ len + kCheapPrepend < 2 ^ 64)) :
    ¬EnsuresWritable b len := by
  have hle := h.reader_le
  have hw := h.writer_le
  have hs := h.size_lt
  have hsize := h.size_ge
  have hwr := h.writable
  have hhuge : 2 ^ 63 ≤ len := by
    simp only [kCheapPrepend] at hwrap
    omega
  have hfull := full_of_huge h hhuge
  have hroom : sizeAdd b.writableBytes b.prependableBytes =
      b.buffer_.length - b.writerIndex_ + b.readerIndex_ := by
    rw [sizeAdd_eq _ _ (by simp only [prependableBytes]; omega), hwr]
    rfl
  by_cases hgrow : sizeAdd b.writableBytes b.prependableBytes < sizeAdd len kCheapPrepend
  · have hsum : 2 ^ 64 ≤ b.writerIndex_ + len := by
      rw [hroom] at hgrow
      simp only [sizeAdd, kCheapPrepend, kInitialSize] at hgrow hwrap hsize
      omega
    obtain ⟨b₁, hrun, hshrink⟩ := resize_shrinks h hlen hsum
    refine not_ensures_of_shrinks hfull ?_ hshrink
    simp only [makeSpace, EStateM.run_bind, EStateM.run_get, if_pos hgrow, hrun]
  · by_cases hfront : kCheapPrepend < b.readerIndex_
    · have hsmall := full_of_huge (compact_becomes h hfront).valid hhuge
      have hensure := ensureWritableBytes_makeSpace hfull (makeSpace_compacts h hgrow hfront)
      rw [check_fails (Nat.not_le.mpr hsmall)] at hensure
      exact not_ensures_of_fails hensure
    · have hensure : (ensureWritableBytes len).run b =
          .error (.assertion "kCheapPrepend < readerIndex_") b := by
        simp only [ensureWritableBytes, makeSpace, EStateM.run_bind, EStateM.run_get,
          if_pos hfull, if_neg hgrow, check_fails hfront]
      exact not_ensures_of_fails hensure

theorem ensuresWritable_iff {b : Buffer} (h : b.Valid) {len : ℕ} (hlen : len < 2 ^ 64) :
    EnsuresWritable b len ↔ b.writerIndex_ + len < 2 ^ 64 ∧ len + kCheapPrepend < 2 ^ 64 := by
  constructor
  · intro hensures
    by_contra hwrap
    exact not_ensures_of_wrap h hlen hwrap hensures
  · rintro ⟨hsum, hadd⟩
    rcases ensureWritableBytes_run h hadd hsum with ⟨b', hrun, hb, hroom⟩ | ⟨hrun, _⟩
    · exact .inl ⟨b', hrun, hroom, hb.content, hb.valid.reader_le, hb.valid.writer_le, hb.size⟩
    · exact .inr hrun

/-- Calls that return, with any reservations. A reservation counts as well when it fails. -/
inductive RoomStep (host : ByteOrder) : Buffer → BufferCall → Buffer → Prop where
  | op {o : BufferOp} {b b' : Buffer} {v : List Byte} (hrun : (o.run host).run b = .ok v b') :
      RoomStep host b (.op o) b'
  | readFd {result : ReadResult} {savedErrno : ℕ} {b b' : Buffer} {v : ℤ × ℕ}
      (hrun : (Buffer.readFd result savedErrno).run b = .ok v b') :
      RoomStep host b (.readFd result savedErrno) b'
  | fails {len : ℕ} {b b' : Buffer} {f : Fault}
      (hrun : (ensureWritableBytes len).run b = .error f b') :
      RoomStep host b (.op (.ensureWritableBytes len)) b'

def reserved : BufferCall → Option ℕ
  | .op (.ensureWritableBytes len) => some len
  | _ => none

theorem roomStep_valid {host : ByteOrder} {call : BufferCall} {b b' : Buffer} (h : b.Valid)
    (hstep : RoomStep host b call b')
    (hfits : ∀ len ∈ reserved call, b.writerIndex_ + len < 2 ^ 64 ∧ len + kCheapPrepend < 2 ^ 64) :
    b'.Valid := by
  cases hstep with
  | readFd hrun => exact (readFd_ok h hrun).1
  | @op o _ _ _ hrun =>
    have hsized : Sized b o := by
      cases o with
      | ensureWritableBytes len => exact (hfits len rfl).symm
      | _ => trivial
    exact (op_ok h hsized hrun).valid
  | @fails len _ _ _ hrun =>
    obtain ⟨hsum, hadd⟩ := hfits len rfl
    rcases ensureWritableBytes_run h hadd hsum with ⟨b₁, hrun', _⟩ | ⟨hrun', _⟩
    · cases hrun.symm.trans hrun'
    · cases hrun.symm.trans hrun'
      exact h

/-- In every run of calls on a new buffer, with reservations of any `size_t`: each of them makes
room or throws and changes nothing exactly when no sum wraps in any of them. -/
theorem ensures_writable (host : ByteOrder) (calls : List BufferCall)
    (hlen : ∀ call ∈ calls, ∀ len ∈ reserved call, len < 2 ^ 64) :
    EachStep (RoomStep host) (fun b call _ => ∀ len ∈ reserved call, EnsuresWritable b len)
        Buffer.new calls ↔
      EachStep (RoomStep host) (fun b call _ => ∀ len ∈ reserved call,
        b.writerIndex_ + len < 2 ^ 64 ∧ len + kCheapPrepend < 2 ^ 64) Buffer.new calls := by
  refine eachStep_iff_eachStep (I := Buffer.Valid) (fun b call b' h hstep hlen => ⟨?_, ?_⟩)
    (.of_labels hlen _) new_valid
  · exact forall₂_congr fun len hmem => ensuresWritable_iff h (hlen len hmem)
  · exact roomStep_valid h hstep

def oneByte : Buffer := ⟨overwrite Buffer.new.buffer_ kCheapPrepend [97], 8, 9⟩

theorem oneByte_reached : (append [97]).run Buffer.new = .ok () oneByte :=
  append_new (by decide)

theorem oneByte_valid : oneByte.Valid := (append_ok new_valid oneByte_reached).valid

theorem ensures_writable_oneByte :
    EachStep (RoomStep .little) (fun b call _ => ∀ len ∈ reserved call, EnsuresWritable b len)
      Buffer.new [.op (.append [97]), .op (.ensureWritableBytes 2048)] := by
  refine (ensures_writable .little _ (by decide)).mpr fun b hb => ⟨nofun, fun _ _ => ⟨?_, trivial⟩⟩
  have hone : b = oneByte := by
    cases hb with
    | op hrun =>
      have happend := oneByte_reached.symm.trans (of_discard hrun)
      exact (EStateM.Result.ok.inj happend).2.symm
  rintro _ ⟨⟩
  rw [hone]
  decide

/-- The vector is resized to nothing, and the last assertion passes. -/
theorem ensureWritableBytes_loses : (append [97]).run Buffer.new = .ok () oneByte ∧
    (ensureWritableBytes (2 ^ 64 - 9)).run oneByte = .ok () ⟨[], 8, 9⟩ ∧
    ¬EnsuresWritable oneByte (2 ^ 64 - 9) := by
  have hfull := full_of_huge oneByte_valid (show 2 ^ 63 ≤ 2 ^ 64 - 9 by decide)
  have hgrow : sizeAdd oneByte.writableBytes oneByte.prependableBytes <
      sizeAdd (2 ^ 64 - 9) kCheapPrepend := by decide +kernel
  have hnone : sizeAdd oneByte.writerIndex_ (2 ^ 64 - 9) = 0 := by decide
  have hspace : (makeSpace (2 ^ 64 - 9)).run oneByte = .ok () ⟨[], 8, 9⟩ := by
    simp only [makeSpace, EStateM.run_bind, EStateM.run_get, if_pos hgrow, hnone, resize,
      if_neg (Nat.not_lt_zero vectorMaxSize), EStateM.run_set, resized, List.take_zero,
      List.nil_append, Nat.zero_sub, List.replicate_zero]
    rfl
  refine ⟨oneByte_reached, ?_, not_ensures_of_wrap oneByte_valid (by decide) (by decide)⟩
  rw [ensureWritableBytes_makeSpace hfull hspace]
  exact check_run (by decide) _ _

end NetPrograms.BufferRoom
