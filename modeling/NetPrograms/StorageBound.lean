import NetPrograms.BufferCalls

set_option autoImplicit false

namespace NetPrograms.StorageBound
open BufferModel BufferHistory BufferCalls ListSegments Buffer RunInvariants

def Grows (b b' : Buffer) (len : ℕ) : Prop :=
  b'.buffer_.length = b.buffer_.length ∨
    (b.buffer_.length - b.writerIndex_ + b.readerIndex_ < len + kCheapPrepend ∧
      b'.buffer_.length = b.writerIndex_ + len)

theorem makeSpace_grows {len : ℕ} {b b' : Buffer} {v : Unit} (hb : b.Valid)
    (hlen : len ≤ vectorMaxSize) (h : (makeSpace len).run b = .ok v b') : Grows b b' len := by
  have hle := hb.reader_le
  have hw := hb.writer_le
  have hs := hb.size_lt
  have hwr := hb.writable
  simp only [vectorMaxSize] at hlen
  have hroom : sizeAdd b.writableBytes b.prependableBytes =
      b.buffer_.length - b.writerIndex_ + b.readerIndex_ := by
    rw [sizeAdd_eq _ _ (by simp only [prependableBytes]; omega), hwr]
    rfl
  have hreq : sizeAdd len kCheapPrepend = len + kCheapPrepend :=
    sizeAdd_eq _ _ (by simp only [kCheapPrepend]; omega)
  rcases makeSpace_ok h with ⟨hgrow, _, rfl⟩ | ⟨_, rfl⟩
  · right
    rw [hroom, hreq] at hgrow
    refine ⟨hgrow, ?_⟩
    simp only [resized_length]
    exact sizeAdd_eq _ _ (by omega)
  · exact .inl (copyForward_length _ _ _ _)

theorem append_grows {data : List Byte} {b b' : Buffer} {v : Unit} (hb : b.Valid)
    (h : (append data).run b = .ok v b') : Grows b b' data.length := by
  have hsmall := append_small hb h
  obtain ⟨b₁, hensure, hin, rfl⟩ := append_steps h
  have hlen := overwrite_length b₁.buffer_ b₁.writerIndex_ data hin
  unfold Grows
  simp only [hlen]
  rcases ensureWritableBytes_ok hensure with rfl | hspace
  · exact .inl rfl
  · exact makeSpace_grows hb hsmall hspace

/-- The vector keeps its size, or it is no larger than the content, one append and the room in
front together. -/
def Bounded (b b' : Buffer) (len : ℕ) : Prop :=
  b'.buffer_.length = b.buffer_.length ∨
    b'.buffer_.length ≤ b'.content.length + len + kCheapPrepend

/-- A vector that grows ends with the new bytes, so it holds the content and what is free in
front, and that is little, or the content would have been moved. -/
theorem append_bounded {data : List Byte} {b b' : Buffer} {v : Unit} (hb : b.Valid)
    (h : (append data).run b = .ok v b') : Bounded b b' data.length := by
  have hle := hb.reader_le
  have hc := hb.content_length
  have hlen := congrArg List.length (append_ok hb h).content
  rw [List.length_append] at hlen
  rcases append_grows hb h with hsame | ⟨hroom, hsize⟩
  · exact .inl hsame
  · right
    omega

theorem retrieve_length {len : ℕ} {b b' : Buffer} {v : Unit}
    (h : (retrieve len).run b = .ok v b') : b'.buffer_.length = b.buffer_.length := by
  replace h := (check_bind_ok (get_ok h)).2
  split_ifs at h <;> cases h <;> rfl

theorem retrieveUntil_length {last : ℕ} {b b' : Buffer} {v : Unit}
    (h : (retrieveUntil last).run b = .ok v b') : b'.buffer_.length = b.buffer_.length :=
  retrieve_length (check_bind_ok (check_bind_ok (get_ok h)).2).2

theorem retrieveAsString_length {len : ℕ} {b b' : Buffer} {v : List Byte}
    (h : (retrieveAsString len).run b = .ok v b') : b'.buffer_.length = b.buffer_.length := by
  obtain ⟨_, b₁, hretrieve, hreturn⟩ := run_bind_ok (check_bind_ok (get_ok h)).2
  cases hreturn
  exact retrieve_length hretrieve

theorem unwrite_length {len : ℕ} {b b' : Buffer} {v : Unit}
    (h : (unwrite len).run b = .ok v b') : b'.buffer_.length = b.buffer_.length := by
  replace h := (check_bind_ok (get_ok h)).2
  cases h
  rfl

theorem prepend_length {data : List Byte} {b b' : Buffer} {v : Unit}
    (h : (prepend data).run b = .ok v b') : b'.buffer_.length = b.buffer_.length := by
  obtain ⟨_, b₁, hset, hrest⟩ := run_bind_ok (check_bind_ok (get_ok h)).2
  cases hset
  obtain ⟨hin, rfl⟩ := copyIn_ok (get_ok hrest)
  exact overwrite_length _ _ _ hin

theorem fill_length {data : List Byte} {b b' : Buffer} {v : Unit}
    (h : (fill data).run b = .ok v b') : b'.buffer_.length = b.buffer_.length := by
  obtain ⟨_, b₁, hcopy, hwritten⟩ := run_bind_ok (get_ok h)
  obtain ⟨hin, rfl⟩ := copyIn_ok hcopy
  rw [hasWritten_ok hwritten]
  exact overwrite_length _ _ _ hin

def Reserves : BufferCall → Prop
  | .op (.ensureWritableBytes _) => True
  | _ => False

instance : DecidablePred Reserves
  | .op (.ensureWritableBytes _) => isTrue trivial
  | .op (.append _) | .op (.appendInt8 _) | .op (.appendInt16 _) | .op (.appendInt32 _)
  | .op (.prepend _) | .op (.prependInt8 _) | .op (.prependInt16 _) | .op (.prependInt32 _)
  | .op (.retrieve _) | .op (.retrieveUntil _) | .op .retrieveInt8 | .op .retrieveInt16
  | .op .retrieveInt32 | .op .retrieveAll | .op (.retrieveAsString _) | .op .retrieveAllAsString
  | .op (.fill _) | .op (.unwrite _) | .readFd _ _ => isFalse id

def appended (b : Buffer) : BufferCall → ℕ
  | .op o => o.requested
  | .readFd result _ => result.delivered.length - b.writableBytes

theorem op_bounded {host : ByteOrder} {o : BufferOp} {b b' : Buffer} {v : List Byte}
    (hb : b.Valid) (ho : ¬Reserves (.op o)) (h : (o.run host).run b = .ok v b') :
    Bounded b b' o.requested := by
  cases o with
  | append data => exact append_bounded hb (of_discard h)
  | appendInt8 x =>
    have happend : (append [x]).run b = .ok () b' := of_discard h
    exact append_bounded hb happend
  | appendInt16 x =>
    have happend := of_discard h
    rw [appendInt16, objectBytes16_htons] at happend
    exact append_bounded hb happend
  | appendInt32 x =>
    have happend := of_discard h
    rw [appendInt32, objectBytes32_htonl] at happend
    exact append_bounded hb happend
  | prepend data => exact .inl (prepend_length (of_discard h))
  | prependInt8 x => exact .inl (prepend_length (of_discard h))
  | prependInt16 x => exact .inl (prepend_length (of_discard h))
  | prependInt32 x => exact .inl (prepend_length (of_discard h))
  | retrieve len => exact .inl (retrieve_length (of_discard h))
  | retrieveInt8 => exact .inl (retrieve_length (of_discard h))
  | retrieveInt16 => exact .inl (retrieve_length (of_discard h))
  | retrieveInt32 => exact .inl (retrieve_length (of_discard h))
  | retrieveUntil offset =>
    obtain ⟨_, b₁, huntil, hreturn⟩ := run_bind_ok (get_ok h)
    cases hreturn
    exact .inl (retrieveUntil_length huntil)
  | retrieveAll =>
    cases of_discard h
    exact .inl rfl
  | retrieveAsString len =>
    have hrun : (retrieveAsString len).run b = .ok v b' := h
    exact .inl (retrieveAsString_length hrun)
  | retrieveAllAsString =>
    have hrun : (retrieveAsString b.readableBytes).run b = .ok v b' := h
    exact .inl (retrieveAsString_length hrun)
  | ensureWritableBytes len => exact absurd trivial ho
  | fill data => exact .inl (fill_length (of_discard h))
  | unwrite len => exact .inl (unwrite_length (of_discard h))

theorem readFd_bounded {result : ReadResult} {savedErrno : ℕ} {b b' : Buffer} {v : ℤ × ℕ}
    (hb : b.Valid) (h : (Buffer.readFd result savedErrno).run b = .ok v b') :
    Bounded b b' (result.delivered.length - b.writableBytes) := by
  cases result with
  | fail errno =>
    cases h
    exact .inl rfl
  | data bytes =>
    have hlen := overwrite_length b.buffer_ b.writerIndex_ _ (readFd_fills hb bytes)
    rcases (readFd_steps h).2 with ⟨_, rfl⟩ | ⟨hspill, happend⟩
    · exact .inl hlen
    · have hbound := append_bounded (filledUp_becomes hb hspill).valid happend
      rw [List.length_drop] at hbound
      unfold Bounded filledUp at hbound
      simp only [hlen] at hbound
      exact hbound

theorem callStep_bounded {host : ByteOrder} {call : BufferCall} {b b' : Buffer} (hb : b.Valid)
    (hcall : ¬Reserves call) (h : CallStep host b call b') : Bounded b b' (appended b call) := by
  cases h with
  | op _ hrun => exact op_bounded hb hcall hrun
  | readFd hrun => exact readFd_bounded hb hrun

/-- A call that appends no more than `L` bytes and leaves no more than `M` readable. -/
def Within (M L : ℕ) (b : Buffer) (call : BufferCall) (b' : Buffer) : Prop :=
  ¬Reserves call ∧ appended b call ≤ L ∧ b'.readableBytes ≤ M

theorem storage_bounded (host : ByteOrder) (M L : ℕ) (calls : List BufferCall)
    (h : EachStep (CallStep host) (Within M L) Buffer.new calls) :
    Always (CallStep host)
      (fun b => b.buffer_.length ≤ max (kCheapPrepend + kInitialSize) (M + L + kCheapPrepend))
      Buffer.new calls := by
  have hinv : Always (CallStep host) (fun b => b.Valid ∧
      b.buffer_.length ≤ max (kCheapPrepend + kInitialSize) (M + L + kCheapPrepend))
      Buffer.new calls := by
    refine Always.of_invariant _ ?_ h ⟨new_valid, ?_⟩
    · rintro b call b' ⟨hb, hsize⟩ hstep ⟨hcall, hlen, hreadable⟩
      have hb' := (callStep_spec hb hstep).1
      rw [hb'.readable] at hreadable
      refine ⟨hb', ?_⟩
      rcases callStep_bounded hb hcall hstep with hsame | hbound
      · rwa [hsame]
      · omega
    · rw [new_length]
      exact Nat.le_max_left _ _
  exact hinv.mono fun b hb => hb.2

def grownTwice : List BufferCall :=
  [.op (.append (List.replicate 1000 1)), .op (.retrieve 990),
    .op (.append (List.replicate 500 2)), .op (.append (List.replicate 700 3)),
    .readFd (.data (List.replicate 10 4)) 0]

theorem storage_bounded_grownTwice : Always (CallStep .little)
    (fun b => b.buffer_.length ≤ max (kCheapPrepend + kInitialSize) (1220 + 1000 + kCheapPrepend))
    Buffer.new grownTwice := by
  refine storage_bounded .little 1220 1000 _ (.of_check (f := fun b call => call.after .little b)
    (C := fun b call b' => ¬Reserves call ∧ appended b call ≤ 1000 ∧ b'.readableBytes ≤ 1220) id
    (fun hu _ hstep => Except.ok.inj (hu.symm.trans hstep.after_eq)) of_decide_eq_true
    (by decide +kernel))

end NetPrograms.StorageBound
