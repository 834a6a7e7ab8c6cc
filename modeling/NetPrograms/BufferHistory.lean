import Mathlib.Logic.Function.Basic
import NetPrograms.BufferRefinement
import NetPrograms.RunInvariants

set_option autoImplicit false

namespace NetPrograms.BufferHistory
open BufferModel RunInvariants

inductive BufferOp where
  | append (data : List Byte)
  | appendInt8 (x : BitVec 8)
  | appendInt16 (x : BitVec 16)
  | appendInt32 (x : BitVec 32)
  | prepend (data : List Byte)
  | prependInt8 (x : BitVec 8)
  | prependInt16 (x : BitVec 16)
  | prependInt32 (x : BitVec 32)
  | retrieve (len : ℕ)
  /-- `retrieveUntil(peek() + offset)`. -/
  | retrieveUntil (offset : ℕ)
  | retrieveInt8
  | retrieveInt16
  | retrieveInt32
  | retrieveAll
  | retrieveAsString (len : ℕ)
  | retrieveAllAsString
  | ensureWritableBytes (len : ℕ)
  | fill (data : List Byte)
  | unwrite (len : ℕ)
  deriving DecidableEq, Repr

namespace BufferOp

def run (host : ByteOrder) : BufferOp → BufferM (List Byte)
  | append data => do Buffer.append data; return []
  | appendInt8 x => do Buffer.appendInt8 x; return []
  | appendInt16 x => do Buffer.appendInt16 host x; return []
  | appendInt32 x => do Buffer.appendInt32 host x; return []
  | prepend data => do Buffer.prepend data; return []
  | prependInt8 x => do Buffer.prependInt8 x; return []
  | prependInt16 x => do Buffer.prependInt16 host x; return []
  | prependInt32 x => do Buffer.prependInt32 host x; return []
  | retrieve len => do Buffer.retrieve len; return []
  | retrieveUntil offset => do Buffer.retrieveUntil ((← get).peek + offset); return []
  | retrieveInt8 => do Buffer.retrieveInt8; return []
  | retrieveInt16 => do Buffer.retrieveInt16; return []
  | retrieveInt32 => do Buffer.retrieveInt32; return []
  | retrieveAll => do Buffer.retrieveAll; return []
  | retrieveAsString len => Buffer.retrieveAsString len
  | retrieveAllAsString => Buffer.retrieveAllAsString
  | ensureWritableBytes len => do Buffer.ensureWritableBytes len; return []
  | fill data => do Buffer.fill data; return []
  | unwrite len => do Buffer.unwrite len; return []

def requested : BufferOp → ℕ
  | append data => data.length
  | appendInt8 _ => 1
  | appendInt16 _ => 2
  | appendInt32 _ => 4
  | ensureWritableBytes len => len
  | _ => 0

def prepended : BufferOp → ℕ
  | prepend data => data.length
  | prependInt8 _ => 1
  | prependInt16 _ => 2
  | prependInt32 _ => 4
  | _ => 0

/-- The asserted precondition; the sizes a call computes stay below `2 ^ 64`. -/
def Pre (b : Buffer) : BufferOp → Prop
  | prepend data => data.length ≤ b.prependableBytes
  | prependInt8 _ => 1 ≤ b.prependableBytes
  | prependInt16 _ => 2 ≤ b.prependableBytes
  | prependInt32 _ => 4 ≤ b.prependableBytes
  | retrieve len => len ≤ b.readableBytes
  | retrieveUntil offset => b.peek + offset ≤ b.beginWrite
  | retrieveInt8 => 1 ≤ b.readableBytes
  | retrieveInt16 => 2 ≤ b.readableBytes
  | retrieveInt32 => 4 ≤ b.readableBytes
  | retrieveAsString len => len ≤ b.readableBytes
  | fill data => data.length ≤ b.writableBytes
  | unwrite len => len ≤ b.readableBytes
  | retrieveAll => True
  | retrieveAllAsString => True
  | op => op.requested + kCheapPrepend < 2 ^ 64 ∧ b.writerIndex_ + op.requested < 2 ^ 64

instance (b : Buffer) : (op : BufferOp) → Decidable (op.Pre b)
  | prepend data => inferInstanceAs (Decidable (data.length ≤ b.prependableBytes))
  | prependInt8 _ => inferInstanceAs (Decidable (1 ≤ b.prependableBytes))
  | prependInt16 _ => inferInstanceAs (Decidable (2 ≤ b.prependableBytes))
  | prependInt32 _ => inferInstanceAs (Decidable (4 ≤ b.prependableBytes))
  | retrieve len | retrieveAsString len | unwrite len =>
    inferInstanceAs (Decidable (len ≤ b.readableBytes))
  | retrieveUntil offset => inferInstanceAs (Decidable (b.peek + offset ≤ b.beginWrite))
  | retrieveInt8 => inferInstanceAs (Decidable (1 ≤ b.readableBytes))
  | retrieveInt16 => inferInstanceAs (Decidable (2 ≤ b.readableBytes))
  | retrieveInt32 => inferInstanceAs (Decidable (4 ≤ b.readableBytes))
  | fill data => inferInstanceAs (Decidable (data.length ≤ b.writableBytes))
  | retrieveAll | retrieveAllAsString => isTrue trivial
  | append data => inferInstanceAs (Decidable
    (data.length + kCheapPrepend < 2 ^ 64 ∧ b.writerIndex_ + data.length < 2 ^ 64))
  | appendInt8 _ => inferInstanceAs (Decidable
    (1 + kCheapPrepend < 2 ^ 64 ∧ b.writerIndex_ + 1 < 2 ^ 64))
  | appendInt16 _ => inferInstanceAs (Decidable
    (2 + kCheapPrepend < 2 ^ 64 ∧ b.writerIndex_ + 2 < 2 ^ 64))
  | appendInt32 _ => inferInstanceAs (Decidable
    (4 + kCheapPrepend < 2 ^ 64 ∧ b.writerIndex_ + 4 < 2 ^ 64))
  | ensureWritableBytes len => inferInstanceAs (Decidable
    (len + kCheapPrepend < 2 ^ 64 ∧ b.writerIndex_ + len < 2 ^ 64))

def spec (c : List Byte) : BufferOp → List Byte
  | append data => c ++ data
  | appendInt8 x => c ++ [x]
  | appendInt16 x => c ++ wire16 x
  | appendInt32 x => c ++ wire32 x
  | prepend data => data ++ c
  | prependInt8 x => [x] ++ c
  | prependInt16 x => wire16 x ++ c
  | prependInt32 x => wire32 x ++ c
  | retrieve len => c.drop len
  | retrieveUntil offset => c.drop offset
  | retrieveInt8 => c.drop 1
  | retrieveInt16 => c.drop 2
  | retrieveInt32 => c.drop 4
  | retrieveAll => []
  | retrieveAsString len => c.drop len
  | retrieveAllAsString => []
  | ensureWritableBytes _ => c
  | fill data => c ++ data
  | unwrite len => c.take (c.length - len)

def returned (c : List Byte) : BufferOp → List Byte
  | retrieveAsString len => c.take len
  | retrieveAllAsString => c
  | _ => []

end BufferOp

def Returns (host : ByteOrder) (op : BufferOp) (b : Buffer) : Prop :=
  ∃ b', (op.run host).run b = .ok (op.returned b.content) b' ∧
    Becomes b b' (op.spec b.content) op.prepended

def Throws (host : ByteOrder) (op : BufferOp) (b : Buffer) : Prop :=
  (op.run host).run b = .error .lengthError b ∧ vectorMaxSize < b.writerIndex_ + op.requested

theorem run_discard {m : BufferM Unit} {b b' : Buffer} (h : m.run b = .ok () b') :
    (do m; return [] : BufferM (List Byte)).run b = .ok [] b' := by
  rw [EStateM.run_bind, h]
  rfl

theorem run_discard_error {m : BufferM Unit} {b b' : Buffer} {f : Fault}
    (h : m.run b = .error f b') :
    (do m; return [] : BufferM (List Byte)).run b = .error f b' := by
  rw [EStateM.run_bind, h]

theorem append_step {host : ByteOrder} {op : BufferOp} {b : Buffer} (h : b.Valid)
    (data : List Byte) (hrun : op.run host = (do Buffer.append data; return []))
    (hreq : op.requested = data.length) (hspec : op.spec b.content = b.content ++ data)
    (hret : op.returned b.content = []) (hfront : op.prepended = 0)
    (hpre : data.length + kCheapPrepend < 2 ^ 64 ∧ b.writerIndex_ + data.length < 2 ^ 64) :
    Returns host op b ∨ Throws host op b := by
  rcases append_run h data hpre.1 hpre.2 with ⟨b', hok, hb⟩ | ⟨herr, hmax⟩
  · left
    refine ⟨b', ?_, ?_⟩
    · rw [hrun, hret]
      exact run_discard hok
    · rw [hspec, hfront]
      exact hb
  · right
    refine ⟨?_, ?_⟩
    · rw [hrun]
      exact run_discard_error herr
    · rw [hreq]
      exact hmax

theorem prepend_step {host : ByteOrder} {op : BufferOp} {b : Buffer} (h : b.Valid)
    (data : List Byte) (hrun : op.run host = (do Buffer.prepend data; return []))
    (hspec : op.spec b.content = data ++ b.content) (hret : op.returned b.content = [])
    (hfront : op.prepended = data.length) (hpre : data.length ≤ b.prependableBytes) :
    Returns host op b := by
  obtain ⟨b', hok, hb⟩ := prepend_run h data hpre
  refine ⟨b', ?_, ?_⟩
  · rw [hrun, hret]
    exact run_discard hok
  · rw [hspec, hfront]
    exact hb

theorem retrieve_step {host : ByteOrder} {op : BufferOp} {b : Buffer} (h : b.Valid) (len : ℕ)
    (hrun : op.run host = (do Buffer.retrieve len; return []))
    (hspec : op.spec b.content = b.content.drop len) (hret : op.returned b.content = [])
    (hfront : op.prepended = 0) (hpre : len ≤ b.readableBytes) : Returns host op b := by
  rw [h.readable] at hpre
  obtain ⟨b', hok, hb⟩ := retrieve_run h hpre
  refine ⟨b', ?_, ?_⟩
  · rw [hrun, hret]
    exact run_discard hok
  · rw [hspec, hfront]
    exact hb

theorem op_step (host : ByteOrder) (op : BufferOp) {b : Buffer} (h : b.Valid)
    (hpre : op.Pre b) : Returns host op b ∨ Throws host op b := by
  cases op with
  | append data => exact append_step h data rfl rfl rfl rfl rfl hpre
  | appendInt8 x => exact append_step h [x] rfl rfl rfl rfl rfl hpre
  | appendInt16 x =>
    refine append_step h (wire16 x) ?_ rfl rfl rfl rfl hpre
    rw [BufferOp.run, Buffer.appendInt16, objectBytes16_htons]
  | appendInt32 x =>
    refine append_step h (wire32 x) ?_ rfl rfl rfl rfl hpre
    rw [BufferOp.run, Buffer.appendInt32, objectBytes32_htonl]
  | prepend data => exact .inl (prepend_step h data rfl rfl rfl rfl hpre)
  | prependInt8 x => exact .inl (prepend_step h [x] rfl rfl rfl rfl hpre)
  | prependInt16 x =>
    refine .inl (prepend_step h (wire16 x) ?_ rfl rfl rfl hpre)
    rw [BufferOp.run, Buffer.prependInt16, objectBytes16_htons]
  | prependInt32 x =>
    refine .inl (prepend_step h (wire32 x) ?_ rfl rfl rfl hpre)
    rw [BufferOp.run, Buffer.prependInt32, objectBytes32_htonl]
  | retrieve len => exact .inl (retrieve_step h len rfl rfl rfl rfl hpre)
  | retrieveInt8 => exact .inl (retrieve_step h 1 rfl rfl rfl rfl hpre)
  | retrieveInt16 => exact .inl (retrieve_step h 2 rfl rfl rfl rfl hpre)
  | retrieveInt32 => exact .inl (retrieve_step h 4 rfl rfl rfl rfl hpre)
  | retrieveUntil offset =>
    left
    obtain ⟨b', hok, hb⟩ := retrieveUntil_run h (Nat.le_add_right b.peek offset) hpre
    rw [Nat.add_sub_cancel_left] at hb
    exact ⟨b', run_discard (m := do Buffer.retrieveUntil ((← get).peek + offset)) hok, hb⟩
  | retrieveAll =>
    left
    obtain ⟨b', hok, hb⟩ := retrieveAll_run h
    exact ⟨b', run_discard hok, hb⟩
  | retrieveAsString len =>
    left
    exact retrieveAsString_run h (hpre.trans h.readable.le)
  | retrieveAllAsString => exact .inl (retrieveAllAsString_run h)
  | ensureWritableBytes len =>
    rcases ensureWritableBytes_run h hpre.1 hpre.2 with ⟨b', hok, hb, _⟩ | ⟨herr, hmax⟩
    · exact .inl ⟨b', run_discard hok, hb⟩
    · exact .inr ⟨run_discard_error herr, hmax⟩
  | fill data =>
    left
    have hroom : data.length ≤ b.buffer_.length - b.writerIndex_ := h.writable ▸ hpre
    have hw := h.writer_le
    obtain ⟨b', hok, hb⟩ := fill_run h data (by omega)
    exact ⟨b', run_discard hok, hb⟩
  | unwrite len =>
    left
    obtain ⟨b', hok, hb⟩ := unwrite_run h (hpre.trans h.readable.le)
    exact ⟨b', run_discard hok, hb⟩

abbrev Pool := ℕ → Buffer

def Pool.fresh : Pool := fun _ => Buffer.new

def Pool.contents (p : Pool) : ℕ → List Byte := fun k => (p k).content

inductive PoolOp where
  | on (i : ℕ) (op : BufferOp)
  | swap (i j : ℕ)
  deriving DecidableEq, Repr

namespace PoolOp

def run (host : ByteOrder) (p : Pool) : PoolOp → EStateM.Result Fault Pool (List Byte)
  | on i op =>
    match (op.run host).run (p i) with
    | .ok v b => .ok v (Function.update p i b)
    | .error f b => .error f (Function.update p i b)
  | swap i j =>
    let (lhs, rhs) := Buffer.swap (p i) (p j)
    .ok [] (Function.update (Function.update p i lhs) j rhs)

def Pre (p : Pool) : PoolOp → Prop
  | on i op => op.Pre (p i)
  | swap _ _ => True

instance (p : Pool) : (op : PoolOp) → Decidable (op.Pre p)
  | on i op => inferInstanceAs (Decidable (op.Pre (p i)))
  | swap _ _ => isTrue trivial

def spec (c : ℕ → List Byte) : PoolOp → (ℕ → List Byte)
  | on i op => Function.update c i (op.spec (c i))
  | swap i j => Function.update (Function.update c i (c j)) j (c i)

def returned (c : ℕ → List Byte) : PoolOp → List Byte
  | on i op => op.returned (c i)
  | swap _ _ => []

/-- The bytes each buffer has had put in front of it; a swap takes the account along. -/
def owed (n : ℕ → ℕ) : PoolOp → (ℕ → ℕ)
  | on i op => Function.update n i (n i + op.prepended)
  | swap i j => Function.update (Function.update n i (n j)) j (n i)

end PoolOp

def stateOf {α : Type} : EStateM.Result Fault Pool α → Pool
  | .ok _ p => p
  | .error _ p => p

def PoolStep (host : ByteOrder) (p : Pool) (op : PoolOp) (p' : Pool) : Prop :=
  stateOf (op.run host p) = p'

def PoolOp.after (host : ByteOrder) (p : Pool) (op : PoolOp) : Except Fault Pool :=
  match op.run host p with
  | .ok _ p' => .ok p'
  | .error f _ => .error f

theorem PoolOp.state_of_after {host : ByteOrder} {p p' : Pool} {op : PoolOp}
    (h : op.after host p = .ok p') : stateOf (op.run host p) = p' := by
  rw [after] at h
  split at h
  · next hrun =>
    rw [hrun]
    exact Except.ok.inj h
  · cases h

/-- What a call does to the pool: it acts on the contents as specified and returns what is
specified, or throws `length_error` for want of room and changes nothing. No vector shrinks
except by a swap. -/
def Refines (host : ByteOrder) (p : Pool) (op : PoolOp) (p' : Pool) : Prop :=
  (op.run host p = .ok (op.returned p.contents) p' ∧ p'.contents = op.spec p.contents ∧
    ∀ i o, op = .on i o → ∀ k, (p k).buffer_.length ≤ (p' k).buffer_.length) ∨
  (op.run host p = .error .lengthError p' ∧ p' = p ∧
    ∃ i o, op = .on i o ∧ vectorMaxSize < (p i).writerIndex_ + o.requested)

def completed (host : ByteOrder) : Pool → List PoolOp → List PoolOp
  | _, [] => []
  | p, op :: ops =>
    match op.run host p with
    | .ok _ p' => op :: completed host p' ops
    | .error _ p' => completed host p' ops

theorem contents_update (p : Pool) (i : ℕ) (b : Buffer) :
    Pool.contents (Function.update p i b) = Function.update p.contents i b.content := by
  funext k
  by_cases hk : k = i
  · subst hk
    simp [Pool.contents]
  · simp [Pool.contents, hk]

theorem pool_on_step (host : ByteOrder) (p : Pool) (i : ℕ) (op : BufferOp)
    (h : ∀ k, (p k).Valid) (hpre : op.Pre (p i)) :
    (∃ b', (PoolOp.on i op).run host p =
        .ok ((PoolOp.on i op).returned p.contents) (Function.update p i b') ∧
      Becomes (p i) b' (op.spec (p i).content) op.prepended) ∨
    ((PoolOp.on i op).run host p = .error .lengthError p ∧
      vectorMaxSize < (p i).writerIndex_ + op.requested) := by
  rcases op_step host op (h i) hpre with ⟨b', hrun, hb⟩ | ⟨hrun, hmax⟩
  · left
    refine ⟨b', ?_, hb⟩
    simp only [PoolOp.run, hrun]
    rfl
  · right
    refine ⟨?_, hmax⟩
    simp only [PoolOp.run, hrun, Function.update_eq_self]

theorem pool_step (host : ByteOrder) (p : Pool) (op : PoolOp) (p' : Pool)
    (h : ∀ k, (p k).Valid) (hstep : PoolStep host p op p') (hpre : op.Pre p) :
    Refines host p op p' ∧ ∀ k, (p' k).Valid := by
  unfold PoolStep at hstep
  cases op with
  | swap i j =>
    have hc : p'.contents = (PoolOp.swap i j).spec p.contents := by
      rw [← hstep]
      simp only [PoolOp.run, stateOf, Buffer.swap, contents_update, PoolOp.spec]
      rfl
    refine ⟨.inl ⟨by rw [← hstep]; rfl, hc, fun _ _ he => by cases he⟩, fun k => ?_⟩
    rw [← hstep]
    simp only [PoolOp.run, stateOf, Buffer.swap, Function.update_apply]
    split_ifs
    · exact h i
    · exact h j
    · exact h k
  | on i op =>
    rcases pool_on_step host p i op h hpre with ⟨b', hrun, hb⟩ | ⟨hrun, hmax⟩
    · rw [hrun] at hstep
      change Function.update p i b' = p' at hstep
      subst hstep
      refine ⟨.inl ⟨hrun, ?_, fun i' o he k => ?_⟩, fun k => ?_⟩
      · rw [contents_update, hb.content]
        rfl
      · rw [Function.update_apply]
        split_ifs with hk
        · exact hk ▸ hb.size
        · exact le_refl _
      · rw [Function.update_apply]
        split_ifs
        · exact hb.valid
        · exact h k
    · rw [hrun] at hstep
      change p = p' at hstep
      subst hstep
      exact ⟨.inr ⟨hrun, rfl, i, op, rfl, hmax⟩, h⟩

/-- `n` accounts for all that is missing of the room in front. -/
def Headroom (p : Pool) (n : ℕ → ℕ) : Prop :=
  ∀ k, kCheapPrepend ≤ (p k).prependableBytes + n k

theorem headroom_step (host : ByteOrder) (p : Pool) (op : PoolOp) (p' : Pool) (n : ℕ → ℕ)
    (h : ∀ k, (p k).Valid) (hstep : PoolStep host p op p') (hpre : op.Pre p)
    (hroom : Headroom p n) : Headroom p' (op.owed n) := by
  unfold PoolStep at hstep
  cases op with
  | swap i j =>
    subst hstep
    intro k
    simp only [PoolOp.run, stateOf, Buffer.swap, PoolOp.owed, Function.update_apply]
    split_ifs
    · exact hroom i
    · exact hroom j
    · exact hroom k
  | on i op =>
    intro k
    have hk := hroom k
    rcases pool_on_step host p i op h hpre with ⟨b', hrun, hb⟩ | ⟨hrun, hmax⟩
    · rw [hrun] at hstep
      subst hstep
      have hfront := hb.headroom
      simp only [stateOf, PoolOp.owed, Function.update_apply]
      split_ifs with he
      · subst he
        simp only [Buffer.prependableBytes] at hk ⊢
        omega
      · exact hk
    · rw [hrun] at hstep
      subst hstep
      simp only [stateOf, PoolOp.owed, Function.update_apply]
      split_ifs with he
      · subst he
        omega
      · exact hk

theorem history_run (host : ByteOrder) {p p' : Pool} {ops : List PoolOp}
    (hrun : Run (PoolStep host) p ops p') (n : ℕ → ℕ) (h : ∀ k, (p k).Valid) (hroom : Headroom p n)
    (hpre : EachStep (PoolStep host) (fun p op _ => op.Pre p) p ops) :
    p'.contents = (completed host p ops).foldl PoolOp.spec p.contents ∧
      Headroom p' (ops.foldl PoolOp.owed n) := by
  induction hrun generalizing n with
  | refl p => exact ⟨rfl, hroom⟩
  | @next p u p' op ops hstep _ ih =>
    obtain ⟨hop, hrest⟩ := hpre _ hstep
    obtain ⟨href, hvalid⟩ := pool_step host p op u h hstep hop
    obtain ⟨hc, hr⟩ := ih _ hvalid (headroom_step host p op u n h hstep hop hroom) hrest
    refine ⟨?_, hr⟩
    rcases href with ⟨hok, hspec, _⟩ | ⟨herr, hsame, _⟩
    · rw [hc, hspec]
      simp only [completed, hok, List.foldl_cons]
    · rw [hc, hsame]
      simp only [completed, herr]
      rw [hsame]

/-- Buffers refine byte sequences over every history of calls that meet their preconditions:
indices and sizes stay in order, every call acts on the contents as its name says with no
assertion failing, and the room in front is lost to prepended bytes only. -/
theorem buffer_refines_bytes (host : ByteOrder) (ops : List PoolOp)
    (hpre : EachStep (PoolStep host) (fun p op _ => op.Pre p) Pool.fresh ops) :
    Always (PoolStep host) (fun p => ∀ k, (p k).Valid) Pool.fresh ops ∧
    EachStep (PoolStep host) (Refines host) Pool.fresh ops ∧
    ∀ bs p, bs <+: ops → Run (PoolStep host) Pool.fresh bs p →
      p.contents = (completed host Pool.fresh bs).foldl PoolOp.spec (fun _ => []) ∧
      Headroom p (bs.foldl PoolOp.owed fun _ => 0) := by
  have hfresh : ∀ k, (Pool.fresh k).Valid := fun _ => new_valid
  refine ⟨?_, ?_, fun bs p hbs hrun => ?_⟩
  · refine Always.of_invariant (fun p => ∀ k, (p k).Valid) ?_ hpre hfresh
    exact fun p op p' h hstep hop => (pool_step host p op p' h hstep hop).2
  · refine EachStep.of_invariant (fun p => ∀ k, (p k).Valid) ?_ hpre hfresh
    exact fun p op p' h hstep hop => pool_step host p op p' h hstep hop
  · have hempty : Pool.fresh.contents = fun _ => [] := funext fun _ => new_content
    rw [← hempty]
    exact history_run host hrun (fun _ => 0) hfresh (fun _ => le_refl _) (hpre.of_prefix hbs)

/-- The second `append` moves the content to the front, and the third one makes the vector grow. -/
def compactGrowSwap : List PoolOp :=
  [.on 0 (.append (List.replicate 1020 1)), .on 0 (.retrieve 1000),
    .on 0 (.append (List.replicate 100 2)), .on 0 (.prependInt16 3),
    .on 0 (.append (List.replicate 2000 4)), .swap 0 1, .on 1 .retrieveAllAsString]

theorem buffer_refines_bytes_swapped :
    EachStep (PoolStep .little) (Refines .little) Pool.fresh compactGrowSwap := by
  refine (buffer_refines_bytes .little _ (.of_check (f := PoolOp.after .little)
    (C := fun p op _ => op.Pre p) id ?_ of_decide_eq_true (by decide +kernel))).2.1
  exact fun hu _ hstep => (PoolOp.state_of_after hu).symm.trans hstep

end NetPrograms.BufferHistory
