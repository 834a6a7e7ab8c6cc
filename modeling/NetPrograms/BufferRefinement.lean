import Mathlib.Tactic.Ring
import NetPrograms.BufferModel

set_option autoImplicit false

namespace NetPrograms.BufferModel
open ListSegments Buffer

def Buffer.content (b : Buffer) : List Byte := segment b.buffer_ b.readerIndex_ b.writerIndex_

structure Buffer.Valid (b : Buffer) : Prop where
  reader_le : b.readerIndex_ ≤ b.writerIndex_
  writer_le : b.writerIndex_ ≤ b.buffer_.length
  size_ge : kCheapPrepend + kInitialSize ≤ b.buffer_.length
  size_le : b.buffer_.length ≤ vectorMaxSize

/-- `b'` is `b` after an operation that leaves the readable bytes `c` and takes `used`
bytes of the room kept in front. The vector never shrinks. -/
structure Becomes (b b' : Buffer) (c : List Byte) (used : ℕ) : Prop where
  valid : b'.Valid
  content : b'.content = c
  size : b.buffer_.length ≤ b'.buffer_.length
  headroom : min b.readerIndex_ kCheapPrepend ≤ b'.readerIndex_ + used

theorem sizeAdd_eq (a b : ℕ) (h : a + b < 2 ^ 64) : sizeAdd a b = a + b := Nat.mod_eq_of_lt h

theorem sizeSub_eq (a b : ℕ) (h : b ≤ a) (ha : a < 2 ^ 64) : sizeSub a b = a - b := by
  unfold sizeSub
  omega

theorem Buffer.Valid.size_lt {b : Buffer} (h : b.Valid) : b.buffer_.length < 2 ^ 63 := by
  have := h.size_le
  unfold vectorMaxSize at this
  omega

theorem Buffer.Valid.content_length {b : Buffer} (h : b.Valid) :
    b.content.length = b.writerIndex_ - b.readerIndex_ :=
  segment_length _ _ _ h.writer_le

theorem Buffer.Valid.readable {b : Buffer} (h : b.Valid) :
    b.readableBytes = b.content.length := by
  have hw := h.writer_le
  have hs := h.size_lt
  rw [h.content_length]
  exact sizeSub_eq _ _ h.reader_le (by omega)

theorem Buffer.Valid.writable {b : Buffer} (h : b.Valid) :
    b.writableBytes = b.buffer_.length - b.writerIndex_ := by
  have hs := h.size_lt
  exact sizeSub_eq _ _ h.writer_le (by omega)

theorem new_length : Buffer.new.buffer_.length = kCheapPrepend + kInitialSize :=
  List.length_replicate

theorem new_valid : Buffer.new.Valid := by
  refine ⟨le_refl _, ?_, new_length.ge, ?_⟩
  · rw [new_length]
    exact Nat.le_add_right _ _
  · rw [new_length]
    decide

def nearlyFull : Buffer := ⟨List.replicate 1032 0x61, 28, 1030⟩

theorem nearlyFull_valid : nearlyFull.Valid := by
  have hlen : nearlyFull.buffer_.length = 1032 := List.length_replicate
  exact ⟨by decide, hlen ▸ by decide, hlen ▸ by decide, hlen ▸ by decide⟩

theorem new_content : Buffer.new.content = [] := segment_self _ _

theorem check_run {c : Prop} [Decidable c] (h : c) (text : String) (b : Buffer) :
    (check c text).run b = .ok () b := by
  simp only [check, if_pos h, EStateM.run_pure]

theorem check_fails {c : Prop} [Decidable c] (h : ¬c) (text : String) (b : Buffer) :
    (check c text).run b = .error (.assertion text) b := by
  simp only [check, if_neg h, EStateM.run_throw]

theorem Becomes.refl {b : Buffer} (h : b.Valid) : Becomes b b b.content 0 :=
  ⟨h, rfl, le_refl _, by omega⟩

theorem Becomes.trans {b b' b'' : Buffer} {c c' : List Byte} {m n : ℕ} (h : Becomes b b' c m)
    (h' : Becomes b' b'' c' n) : Becomes b b'' c' (m + n) := by
  refine ⟨h'.valid, h'.content, h.size.trans h'.size, ?_⟩
  have h₁ := h.headroom
  have h₂ := h'.headroom
  omega

theorem retrieveAll_run {b : Buffer} (h : b.Valid) :
    ∃ b', retrieveAll.run b = .ok () b' ∧ Becomes b b' [] 0 := by
  refine ⟨_, EStateM.run_modify _ _, ?_, segment_self _ _, le_refl _, by simp⟩
  have hs := h.size_ge
  exact ⟨le_refl _, by simp only; omega, hs, h.size_le⟩

theorem retrieve_run {b : Buffer} (h : b.Valid) {len : ℕ}
    (hlen : len ≤ b.content.length) :
    ∃ b', (retrieve len).run b = .ok () b' ∧ Becomes b b' (b.content.drop len) 0 := by
  have hr : len ≤ b.readableBytes := by rwa [h.readable]
  have hw := h.writer_le
  have hs := h.size_lt
  have hc := h.content_length
  simp only [retrieve, EStateM.run_bind, EStateM.run_get, check_run hr]
  by_cases hl : len < b.readableBytes
  · rw [if_pos hl, EStateM.run_set]
    rw [h.readable] at hl
    have hadd : sizeAdd b.readerIndex_ len = b.readerIndex_ + len := sizeAdd_eq _ _ (by omega)
    rw [hadd]
    refine ⟨_, rfl, ⟨?_, hw, h.size_ge, h.size_le⟩, ?_, le_refl _, ?_⟩
    · simp only
      omega
    · exact (segment_drop _ _ _ _).symm
    · simp only
      omega
  · rw [if_neg hl]
    rw [h.readable] at hl
    obtain ⟨b', hrun, hb⟩ := retrieveAll_run h
    refine ⟨b', hrun, ?_⟩
    rwa [List.drop_eq_nil_of_le (by omega)]

theorem retrieveUntil_run {b : Buffer} (h : b.Valid) {last : ℕ} (hlo : b.peek ≤ last)
    (hhi : last ≤ b.beginWrite) :
    ∃ b', (retrieveUntil last).run b = .ok () b' ∧
      Becomes b b' (b.content.drop (last - b.peek)) 0 := by
  have hw := h.writer_le
  have hs := h.size_lt
  have hsub : sizeSub last b.peek = last - b.peek := by
    refine sizeSub_eq _ _ hlo ?_
    simp only [beginWrite] at hhi
    omega
  simp only [retrieveUntil, EStateM.run_bind, EStateM.run_get, check_run hlo, check_run hhi, hsub]
  refine retrieve_run h ?_
  rw [h.content_length]
  simp only [peek, beginWrite] at hlo hhi ⊢
  omega

theorem bytesAt_peek {b : Buffer} (h : b.Valid) {len : ℕ}
    (hlen : len ≤ b.content.length) :
    b.bytesAt b.peek len = b.content.take len := by
  have hw := h.writer_le
  have hc := h.content_length
  have hr := h.reader_le
  apply List.ext_getElem?
  intro k
  rw [bytesAt, List.getElem?_take, List.getElem?_drop, content, List.getElem?_take,
    segment_get, peek]
  split_ifs <;> first | rfl | omega

theorem retrieveAsString_run {b : Buffer} (h : b.Valid) {len : ℕ}
    (hlen : len ≤ b.content.length) :
    ∃ b', (retrieveAsString len).run b = .ok (b.content.take len) b' ∧
      Becomes b b' (b.content.drop len) 0 := by
  have hr : len ≤ b.readableBytes := by rwa [h.readable]
  obtain ⟨b', hrun, hb⟩ := retrieve_run h hlen
  refine ⟨b', ?_, hb⟩
  simp only [retrieveAsString, EStateM.run_bind, EStateM.run_get, check_run hr, hrun,
    EStateM.run_pure, bytesAt_peek h hlen]

theorem retrieveAllAsString_run {b : Buffer} (h : b.Valid) :
    ∃ b', retrieveAllAsString.run b = .ok b.content b' ∧ Becomes b b' [] 0 := by
  obtain ⟨b', hrun, hb⟩ := retrieveAsString_run h (le_refl _)
  rw [List.take_length, ← h.readable] at hrun
  rw [List.drop_length] at hb
  exact ⟨b', hrun, hb⟩

theorem unwrite_run {b : Buffer} (h : b.Valid) {len : ℕ}
    (hlen : len ≤ b.content.length) :
    ∃ b', (unwrite len).run b = .ok () b' ∧
      Becomes b b' (b.content.take (b.content.length - len)) 0 := by
  have hr : len ≤ b.readableBytes := by rwa [h.readable]
  have hw := h.writer_le
  have hs := h.size_lt
  have hc := h.content_length
  have hle := h.reader_le
  have hsub : sizeSub b.writerIndex_ len = b.writerIndex_ - len :=
    sizeSub_eq _ _ (by omega) (by omega)
  simp only [unwrite, EStateM.run_bind, EStateM.run_get, check_run hr, EStateM.run_set, hsub]
  refine ⟨_, rfl, ⟨?_, ?_, h.size_ge, h.size_le⟩, ?_, le_refl _, ?_⟩
  · simp only
    omega
  · simp only
    omega
  · have hend :
        b.readerIndex_ + (b.writerIndex_ - b.readerIndex_ - len) = b.writerIndex_ - len := by
      omega
    rw [hc, content, content, segment_take _ _ _ _ (by omega), hend]
  · simp only
    omega

theorem resize_fails (b : Buffer) {n : ℕ} (hmax : vectorMaxSize < n) :
    (resize n).run b = .error .lengthError b := by
  simp only [resize, EStateM.run_bind, EStateM.run_get, if_pos hmax, EStateM.run_throw]

theorem resize_run {b : Buffer} (h : b.Valid) {n : ℕ} (hn : b.buffer_.length ≤ n)
    (hmax : n ≤ vectorMaxSize) :
    ∃ b', (resize n).run b = .ok () b' ∧ Becomes b b' b.content 0 ∧ b'.buffer_.length = n ∧
      b'.writerIndex_ = b.writerIndex_ := by
  have hlen : (resized b.buffer_ n 0).length = n := resized_length _ _ _
  have hw := h.writer_le
  have hs := h.size_ge
  simp only [resize, EStateM.run_bind, EStateM.run_get, if_neg (Nat.not_lt.mpr hmax),
    EStateM.run_set]
  refine ⟨_, rfl, ⟨⟨h.reader_le, ?_, ?_, ?_⟩, ?_, ?_, ?_⟩, hlen, rfl⟩
  · exact (hw.trans hn).trans hlen.ge
  · exact (hs.trans hn).trans hlen.ge
  · exact hlen.le.trans hmax
  · exact segment_resized _ _ _ _ _ hw (hw.trans hn)
  · exact hn.trans hlen.ge
  · exact Nat.min_le_left _ _

theorem compact_becomes {b : Buffer} (h : b.Valid) (hr : kCheapPrepend < b.readerIndex_) :
    Becomes b ⟨copyForward (b.writerIndex_ - b.readerIndex_) b.buffer_ b.readerIndex_ kCheapPrepend,
      kCheapPrepend, kCheapPrepend + b.content.length⟩ b.content 0 := by
  have hle := h.reader_le
  have hw := h.writer_le
  have hc := h.content_length
  have hmove : b.readerIndex_ + (b.writerIndex_ - b.readerIndex_) = b.writerIndex_ := by omega
  have hsize : (copyForward (b.writerIndex_ - b.readerIndex_) b.buffer_ b.readerIndex_
      kCheapPrepend).length = b.buffer_.length := copyForward_length _ _ _ _
  refine ⟨⟨?_, ?_, ?_, ?_⟩, ?_, ?_, ?_⟩
  · exact Nat.le_add_right _ _
  · simp only [hsize]
    omega
  · simpa only [hsize] using h.size_ge
  · simpa only [hsize] using h.size_le
  · rw [content, copyForward_eq _ _ _ _ (by omega) (by omega), hmove]
    have hend := segment_overwrite_end b.buffer_ kCheapPrepend kCheapPrepend b.content (le_refl _)
      (by omega)
    rw [segment_self, List.nil_append] at hend
    exact hend
  · simp only [hsize, le_refl]
  · simp only
    omega

theorem makeSpace_compacts {b : Buffer} (h : b.Valid) {len : ℕ}
    (hroom : ¬sizeAdd b.writableBytes b.prependableBytes < sizeAdd len kCheapPrepend)
    (hfront : kCheapPrepend < b.readerIndex_) :
    (makeSpace len).run b = .ok ()
      ⟨copyForward (b.writerIndex_ - b.readerIndex_) b.buffer_ b.readerIndex_ kCheapPrepend,
        kCheapPrepend, kCheapPrepend + b.content.length⟩ := by
  have hw := h.writer_le
  have hs := h.size_lt
  have hc := h.content_length
  have hb := compact_becomes h hfront
  have hadd : sizeAdd kCheapPrepend b.readableBytes = kCheapPrepend + b.content.length := by
    rw [h.readable]
    exact sizeAdd_eq _ _ (by simp only [kCheapPrepend] at hfront ⊢; omega)
  have hsame := hb.valid.readable
  rw [hb.content] at hsame
  simp only [makeSpace, EStateM.run_bind, EStateM.run_get, if_neg hroom, check_run hfront,
    EStateM.run_set, hadd, check_run (h.readable.trans hsame.symm)]

theorem makeSpace_run {b : Buffer} (h : b.Valid) {len : ℕ} (hfull : b.writableBytes < len)
    (hlen : len + kCheapPrepend < 2 ^ 64) (hsum : b.writerIndex_ + len < 2 ^ 64) :
    (∃ b', (makeSpace len).run b = .ok () b' ∧ Becomes b b' b.content 0 ∧
      b'.writerIndex_ + len ≤ b'.buffer_.length) ∨
    ((makeSpace len).run b = .error .lengthError b ∧ vectorMaxSize < b.writerIndex_ + len) := by
  have hle := h.reader_le
  have hw := h.writer_le
  have hs := h.size_lt
  have hc := h.content_length
  have hwr := h.writable
  have hroom : sizeAdd b.writableBytes b.prependableBytes =
      b.buffer_.length - b.writerIndex_ + b.readerIndex_ := by
    rw [sizeAdd_eq _ _ (by simp only [prependableBytes]; omega), hwr]
    rfl
  by_cases hgrow : b.buffer_.length - b.writerIndex_ + b.readerIndex_ < len + kCheapPrepend
  · simp only [makeSpace, EStateM.run_bind, EStateM.run_get, hroom, sizeAdd_eq _ _ hlen,
      sizeAdd_eq _ _ hsum, if_pos hgrow]
    by_cases hmax : vectorMaxSize < b.writerIndex_ + len
    · right
      exact ⟨resize_fails b hmax, hmax⟩
    · left
      obtain ⟨b', hrun, hb, hsize, hwriter⟩ :=
        resize_run h (n := b.writerIndex_ + len) (by omega) (by omega)
      exact ⟨b', hrun, hb, by omega⟩
  · left
    have hfront : kCheapPrepend < b.readerIndex_ := by omega
    have hbranch :
        ¬sizeAdd b.writableBytes b.prependableBytes < sizeAdd len kCheapPrepend := by
      rwa [hroom, sizeAdd_eq len kCheapPrepend hlen]
    refine ⟨_, makeSpace_compacts h hbranch hfront, compact_becomes h hfront, ?_⟩
    change kCheapPrepend + b.content.length + len ≤ (copyForward _ _ _ _).length
    rw [copyForward_length]
    omega

theorem ensureWritableBytes_run {b : Buffer} (h : b.Valid) {len : ℕ}
    (hlen : len + kCheapPrepend < 2 ^ 64) (hsum : b.writerIndex_ + len < 2 ^ 64) :
    (∃ b', (ensureWritableBytes len).run b = .ok () b' ∧ Becomes b b' b.content 0 ∧
      b'.writerIndex_ + len ≤ b'.buffer_.length) ∨
    ((ensureWritableBytes len).run b = .error .lengthError b ∧
      vectorMaxSize < b.writerIndex_ + len) := by
  have hwr := h.writable
  have hw := h.writer_le
  by_cases hfull : b.writableBytes < len
  · simp only [ensureWritableBytes, EStateM.run_bind, EStateM.run_get, if_pos hfull]
    rcases makeSpace_run h hfull hlen hsum with ⟨b', hrun, hb, hroom⟩ | ⟨hrun, hmax⟩
    · have hok : len ≤ b'.writableBytes := by
        rw [hb.valid.writable]
        omega
      left
      simp only [hrun, check_run hok]
      exact ⟨b', rfl, hb, hroom⟩
    · right
      simp only [hrun, true_and]
      exact hmax
  · left
    have hok : len ≤ b.writableBytes := Nat.not_lt.mp hfull
    simp only [ensureWritableBytes, EStateM.run_bind, EStateM.run_get, if_neg hfull,
      check_run hok]
    exact ⟨b, rfl, .refl h, by omega⟩

theorem copyIn_run (b : Buffer) {dest : ℕ} {data : List Byte}
    (hin : dest + data.length ≤ b.buffer_.length) :
    (copyIn dest data).run b = .ok () { b with buffer_ := overwrite b.buffer_ dest data } := by
  simp only [copyIn, EStateM.run_bind, EStateM.run_get]
  rw [if_pos hin, EStateM.run_set]

theorem filled_becomes {b : Buffer} (h : b.Valid) (data : List Byte)
    (hroom : b.writerIndex_ + data.length ≤ b.buffer_.length) :
    Becomes b ⟨overwrite b.buffer_ b.writerIndex_ data, b.readerIndex_,
      b.writerIndex_ + data.length⟩ (b.content ++ data) 0 := by
  have hlen := overwrite_length b.buffer_ b.writerIndex_ data hroom
  refine ⟨⟨?_, ?_, ?_, ?_⟩, ?_, ?_, ?_⟩
  · exact h.reader_le.trans (Nat.le_add_right _ _)
  · exact hroom.trans hlen.ge
  · exact h.size_ge.trans hlen.ge
  · exact hlen.le.trans h.size_le
  · exact segment_overwrite_end _ _ _ _ h.reader_le h.writer_le
  · exact hlen.ge
  · exact Nat.min_le_left _ _

theorem fill_exact {b : Buffer} (h : b.Valid) (data : List Byte)
    (hroom : b.writerIndex_ + data.length ≤ b.buffer_.length) :
    (fill data).run b = .ok () ⟨overwrite b.buffer_ b.writerIndex_ data, b.readerIndex_,
      b.writerIndex_ + data.length⟩ := by
  have hw := h.writer_le
  have hs := h.size_lt
  have hlen := overwrite_length b.buffer_ b.writerIndex_ data hroom
  have hok : data.length ≤
      writableBytes { b with buffer_ := overwrite b.buffer_ b.writerIndex_ data } := by
    rw [writableBytes, hlen, sizeSub_eq _ _ hw (by omega)]
    omega
  have hadd : sizeAdd b.writerIndex_ data.length = b.writerIndex_ + data.length :=
    sizeAdd_eq _ _ (by omega)
  simp only [fill, EStateM.run_bind, beginWrite, copyIn_run b hroom, EStateM.run_get,
    EStateM.run_set, hasWritten, check_run hok, hadd]

theorem fill_run {b : Buffer} (h : b.Valid) (data : List Byte)
    (hroom : b.writerIndex_ + data.length ≤ b.buffer_.length) :
    ∃ b', (fill data).run b = .ok () b' ∧ Becomes b b' (b.content ++ data) 0 :=
  ⟨_, fill_exact h data hroom, filled_becomes h data hroom⟩

theorem append_in_place {b : Buffer} (h : b.Valid) (data : List Byte)
    (hroom : b.writerIndex_ + data.length ≤ b.buffer_.length) :
    (append data).run b = .ok () ⟨overwrite b.buffer_ b.writerIndex_ data, b.readerIndex_,
      b.writerIndex_ + data.length⟩ := by
  have hwr := h.writable
  have hok : data.length ≤ b.writableBytes := by omega
  have hensure : (ensureWritableBytes data.length).run b = .ok () b := by
    simp only [ensureWritableBytes, EStateM.run_bind, EStateM.run_get, check_run hok,
      if_neg (Nat.not_lt.mpr hok)]
  rw [append, EStateM.run_bind, hensure]
  exact fill_exact h data hroom

theorem append_new {data : List Byte} (h : data.length ≤ kInitialSize) :
    (append data).run Buffer.new = .ok () ⟨overwrite Buffer.new.buffer_ kCheapPrepend data,
      kCheapPrepend, kCheapPrepend + data.length⟩ := by
  refine append_in_place new_valid data ?_
  rw [new_length]
  exact Nat.add_le_add_left h _

theorem append_run {b : Buffer} (h : b.Valid) (data : List Byte)
    (hlen : data.length + kCheapPrepend < 2 ^ 64) (hsum : b.writerIndex_ + data.length < 2 ^ 64) :
    (∃ b', (append data).run b = .ok () b' ∧ Becomes b b' (b.content ++ data) 0) ∨
    ((append data).run b = .error .lengthError b ∧
      vectorMaxSize < b.writerIndex_ + data.length) := by
  rcases ensureWritableBytes_run h hlen hsum with ⟨b₁, hrun, hb₁, hroom⟩ | ⟨hrun, hmax⟩
  · left
    obtain ⟨b₂, hfill, hb₂⟩ := fill_run hb₁.valid data hroom
    rw [hb₁.content] at hb₂
    refine ⟨b₂, ?_, hb₁.trans hb₂⟩
    rw [append, EStateM.run_bind, hrun]
    exact hfill
  · right
    rw [append, EStateM.run_bind, hrun]
    exact ⟨rfl, hmax⟩

theorem prepend_run {b : Buffer} (h : b.Valid) (data : List Byte)
    (hroom : data.length ≤ b.prependableBytes) :
    ∃ b', (prepend data).run b = .ok () b' ∧ Becomes b b' (data ++ b.content) data.length := by
  have hle := h.reader_le
  have hw := h.writer_le
  have hs := h.size_lt
  have hfront : data.length ≤ b.readerIndex_ := hroom
  have hsub : sizeSub b.readerIndex_ data.length = b.readerIndex_ - data.length :=
    sizeSub_eq _ _ hfront (by omega)
  have hin : b.readerIndex_ - data.length + data.length ≤ b.buffer_.length := by omega
  have hlen := overwrite_length b.buffer_ _ data hin
  have hcopy := copyIn_run { b with readerIndex_ := b.readerIndex_ - data.length } hin
  simp only [prepend, EStateM.run_bind, EStateM.run_get, check_run hroom, EStateM.run_set, hsub,
    hcopy]
  refine ⟨_, rfl, ⟨⟨?_, ?_, ?_, ?_⟩, ?_, ?_, ?_⟩⟩
  · exact (Nat.sub_le _ _).trans hle
  · exact hw.trans hlen.ge
  · exact h.size_ge.trans hlen.ge
  · exact hlen.le.trans h.size_le
  · exact segment_overwrite_front _ _ _ _ hroom hle hw
  · exact hlen.ge
  · change min b.readerIndex_ kCheapPrepend ≤ b.readerIndex_ - data.length + data.length
    omega

def wire16 (x : BitVec 16) : List Byte := [x.extractLsb' 8 8, x.extractLsb' 0 8]

def wire32 (x : BitVec 32) : List Byte :=
  [x.extractLsb' 24 8, x.extractLsb' 16 8, x.extractLsb' 8 8, x.extractLsb' 0 8]

theorem objectBytes16_htons (host : ByteOrder) (x : BitVec 16) :
    objectBytes16 host (htons host x) = wire16 x := by
  cases host with
  | big => rfl
  | little =>
    simp only [htons, objectBytes16, wire16, List.cons.injEq, and_true]
    refine ⟨?_, ?_⟩ <;> ext i hi <;> simp <;> grind

theorem objectBytes32_htonl (host : ByteOrder) (x : BitVec 32) :
    objectBytes32 host (htonl host x) = wire32 x := by
  cases host with
  | big => rfl
  | little =>
    simp only [htonl, objectBytes32, wire32, List.cons.injEq, and_true]
    refine ⟨?_, ?_, ?_, ?_⟩ <;> ext i hi <;> simp <;> grind

end NetPrograms.BufferModel
