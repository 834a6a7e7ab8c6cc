import Mathlib.Tactic.NormNum
import NetPrograms.ByteQueue

set_option autoImplicit false

namespace NetPrograms.BufferCodec
open BufferModel Buffer

/-- The `n` low bytes of the two's complement of `z`, most significant first. -/
def bigEndian : ℕ → ℤ → List Byte
  | 0, _ => []
  | n + 1, z => BitVec.ofInt 8 (z / 2 ^ (8 * n)) :: bigEndian n z

inductive IntWidth where
  | int8
  | int16
  | int32
  deriving DecidableEq, Repr

def IntWidth.size : IntWidth → ℕ
  | int8 => 1
  | int16 => 2
  | int32 => 4

inductive IntValue where
  | int8 (x : BitVec 8)
  | int16 (x : BitVec 16)
  | int32 (x : BitVec 32)
  deriving DecidableEq, Repr

namespace IntValue

def width : IntValue → IntWidth
  | int8 _ => .int8
  | int16 _ => .int16
  | int32 _ => .int32

def toInt : IntValue → ℤ
  | int8 x => x.toInt
  | int16 x => x.toInt
  | int32 x => x.toInt

def wire (x : IntValue) : List Byte := bigEndian x.width.size x.toInt

def append (host : ByteOrder) : IntValue → BufferM Unit
  | int8 x => appendInt8 x
  | int16 x => appendInt16 host x
  | int32 x => appendInt32 host x

def prepend (host : ByteOrder) : IntValue → BufferM Unit
  | int8 x => prependInt8 x
  | int16 x => prependInt16 host x
  | int32 x => prependInt32 host x

end IntValue

namespace IntWidth

def peek (host : ByteOrder) : IntWidth → BufferM IntValue
  | int8 => do return .int8 (← peekInt8)
  | int16 => do return .int16 (← peekInt16 host)
  | int32 => do return .int32 (← peekInt32 host)

def read (host : ByteOrder) : IntWidth → BufferM IntValue
  | int8 => do return .int8 (← readInt8)
  | int16 => do return .int16 (← readInt16 host)
  | int32 => do return .int32 (← readInt32 host)

end IntWidth

def appendInts (host : ByteOrder) : List IntValue → BufferM Unit
  | [] => pure ()
  | x :: xs => do x.append host; appendInts host xs

def readInts (host : ByteOrder) : List IntWidth → BufferM (List IntValue)
  | [] => pure []
  | w :: ws => do
    let x ← w.read host
    let xs ← readInts host ws
    return x :: xs

def encode (xs : List IntValue) : List Byte := xs.flatMap IntValue.wire

theorem bigEndian_length (n : ℕ) (z : ℤ) : (bigEndian n z).length = n := by
  induction n with
  | zero => rfl
  | succ n ih => rw [bigEndian, List.length_cons, ih]

theorem wire_length (x : IntValue) : x.wire.length = x.width.size := bigEndian_length _ _

theorem extract_eq_ofInt {w : ℕ} (x : BitVec w) (k : ℕ) (hk : k + 8 ≤ w) :
    x.extractLsb' k 8 = BitVec.ofInt 8 (x.toInt / 2 ^ k) := by
  obtain ⟨m, rfl⟩ := Nat.exists_eq_add_of_le hk
  have hw : (2 : ℤ) ^ (k + 8 + m) = 2 ^ k * (256 * 2 ^ m) := by ring
  have hpos : (2 : ℤ) ^ k ≠ 0 := pow_ne_zero k (by decide)
  have hsign : x.toInt / 2 ^ k % 256 = (x.toNat : ℤ) / 2 ^ k % 256 := by
    rw [BitVec.toInt_eq_toNat_cond]
    split_ifs
    · rfl
    · push_cast
      rw [hw, Int.sub_mul_ediv_left _ _ hpos, Int.sub_mul_emod_self_left]
  apply BitVec.eq_of_toNat_eq
  rw [BitVec.extractLsb'_toNat, BitVec.toNat_ofInt, Nat.shiftRight_eq_div_pow]
  change x.toNat / 2 ^ k % 256 = (x.toInt / 2 ^ k % 256).toNat
  rw [hsign]
  norm_cast

theorem wire_int8 (x : BitVec 8) : (IntValue.int8 x).wire = [x] := by
  have h := extract_eq_ofInt x 0 (by decide)
  change [BitVec.ofInt 8 (x.toInt / 2 ^ 0)] = [x]
  rw [← h, BitVec.extractLsb'_eq_self]

theorem wire_int16 (x : BitVec 16) : (IntValue.int16 x).wire = wire16 x := by
  change [BitVec.ofInt 8 (x.toInt / 2 ^ 8), BitVec.ofInt 8 (x.toInt / 2 ^ 0)] = _
  rw [wire16, ← extract_eq_ofInt, ← extract_eq_ofInt] <;> decide

theorem wire_int32 (x : BitVec 32) : (IntValue.int32 x).wire = wire32 x := by
  change [BitVec.ofInt 8 (x.toInt / 2 ^ 24), BitVec.ofInt 8 (x.toInt / 2 ^ 16),
    BitVec.ofInt 8 (x.toInt / 2 ^ 8), BitVec.ofInt 8 (x.toInt / 2 ^ 0)] = _
  rw [wire32, ← extract_eq_ofInt, ← extract_eq_ofInt, ← extract_eq_ofInt, ← extract_eq_ofInt] <;>
    decide

example : (IntValue.int16 (-2)).wire = [255, 254] := by decide

theorem append_eq (host : ByteOrder) (x : IntValue) : x.append host = Buffer.append x.wire := by
  cases x with
  | int8 x => rw [wire_int8, IntValue.append, appendInt8]
  | int16 x => rw [wire_int16, IntValue.append, appendInt16, objectBytes16_htons]
  | int32 x => rw [wire_int32, IntValue.append, appendInt32, objectBytes32_htonl]

theorem prepend_eq (host : ByteOrder) (x : IntValue) :
    x.prepend host = Buffer.prepend x.wire := by
  cases x with
  | int8 x => rw [wire_int8, IntValue.prepend, prependInt8]
  | int16 x => rw [wire_int16, IntValue.prepend, prependInt16, objectBytes16_htons]
  | int32 x => rw [wire_int32, IntValue.prepend, prependInt32, objectBytes32_htonl]

theorem wire16_join (x : BitVec 16) : x.extractLsb' 8 8 ++ x.extractLsb' 0 8 = x := by
  ext i hi
  simp
  grind

theorem wire32_join (x : BitVec 32) :
    x.extractLsb' 24 8 ++ x.extractLsb' 16 8 ++ x.extractLsb' 8 8 ++ x.extractLsb' 0 8 = x := by
  ext i hi
  simp
  grind

theorem ntohs_wire16 (host : ByteOrder) (x : BitVec 16) :
    ntohs host (ofObjectBytes16 host (wire16 x)) = x := by
  cases host with
  | big => exact wire16_join x
  | little =>
    have h := objectBytes16_htons .little x
    simp only [objectBytes16, wire16, List.cons.injEq, and_true] at h
    obtain ⟨h₀, h₁⟩ := h
    change (htons .little x).extractLsb' 0 8 ++ (htons .little x).extractLsb' 8 8 = x
    rw [h₀, h₁]
    exact wire16_join x

theorem ntohl_wire32 (host : ByteOrder) (x : BitVec 32) :
    ntohl host (ofObjectBytes32 host (wire32 x)) = x := by
  cases host with
  | big => exact wire32_join x
  | little =>
    have h := objectBytes32_htonl .little x
    simp only [objectBytes32, wire32, List.cons.injEq, and_true] at h
    obtain ⟨h₀, h₁, h₂, h₃⟩ := h
    change (htonl .little x).extractLsb' 0 8 ++ (htonl .little x).extractLsb' 8 8 ++
      (htonl .little x).extractLsb' 16 8 ++ (htonl .little x).extractLsb' 24 8 = x
    rw [h₀, h₁, h₂, h₃]
    exact wire32_join x

def IntWidth.decode (host : ByteOrder) : IntWidth → List Byte → IntValue
  | int8, bytes => .int8 (bytes.getD 0 0)
  | int16, bytes => .int16 (ntohs host (ofObjectBytes16 host bytes))
  | int32, bytes => .int32 (ntohl host (ofObjectBytes32 host bytes))

theorem decode_wire (host : ByteOrder) (x : IntValue) : x.width.decode host x.wire = x := by
  cases x with
  | int8 x => rw [wire_int8]; rfl
  | int16 x => rw [wire_int16, IntValue.width, IntWidth.decode, ntohs_wire16]
  | int32 x => rw [wire_int32, IntValue.width, IntWidth.decode, ntohl_wire32]

theorem peek_ok (host : ByteOrder) {w : IntWidth} {b : Buffer} (h : w.size ≤ b.readableBytes) :
    (w.peek host).run b = .ok (w.decode host (b.bytesAt b.peek w.size)) b := by
  cases w <;>
    simp only [IntWidth.peek, IntWidth.decode, IntWidth.size, peekInt8, peekInt16, peekInt32,
      EStateM.run_bind, EStateM.run_get, EStateM.run_pure] at h ⊢ <;>
    rw [check_run h]

theorem peek_fails (host : ByteOrder) {w : IntWidth} {b : Buffer}
    (h : ¬w.size ≤ b.readableBytes) :
    ∃ text, (w.peek host).run b = .error (.assertion text) b := by
  cases w <;>
    simp only [IntWidth.peek, IntWidth.size, peekInt8, peekInt16, peekInt32, EStateM.run_bind,
      EStateM.run_get] at h ⊢ <;>
    rw [check_fails h] <;>
    exact ⟨_, rfl⟩

theorem peek_run (host : ByteOrder) {b : Buffer} (h : b.Valid) {x : IntValue} {rest : List Byte}
    (hc : b.content = x.wire ++ rest) : (x.width.peek host).run b = .ok x b := by
  have hlen : x.width.size ≤ b.content.length := by
    rw [hc, List.length_append, wire_length]
    exact Nat.le_add_right _ _
  rw [peek_ok host (h.readable ▸ hlen), bytesAt_peek h hlen, hc, ← wire_length, List.take_left,
    decode_wire]

theorem read_eq (host : ByteOrder) (w : IntWidth) :
    w.read host = (do let x ← w.peek host; retrieve w.size; return x) := by
  cases w <;> simp only [IntWidth.read, IntWidth.peek, IntWidth.size, readInt8, readInt16,
    readInt32, retrieveInt8, retrieveInt16, retrieveInt32, bind_assoc, pure_bind]

theorem read_run (host : ByteOrder) {b : Buffer} (h : b.Valid) {x : IntValue} {rest : List Byte}
    (hc : b.content = x.wire ++ rest) :
    ∃ b', (x.width.read host).run b = .ok x b' ∧
      (retrieve x.width.size).run b = .ok () b' ∧ Becomes b b' rest 0 := by
  have hlen : x.width.size ≤ b.content.length := by
    rw [hc, List.length_append, wire_length]
    exact Nat.le_add_right _ _
  obtain ⟨b', hrun, hb⟩ := retrieve_run h hlen
  rw [hc, ← wire_length, List.drop_left] at hb
  refine ⟨b', ?_, hrun, hb⟩
  simp only [read_eq, EStateM.run_bind, peek_run host h hc, hrun, EStateM.run_pure]

theorem encode_cons (x : IntValue) (xs : List IntValue) :
    encode (x :: xs) = x.wire ++ encode xs := rfl

theorem size_small (w : IntWidth) : w.size ≤ 4 := by
  cases w <;> decide

/-- What writing a list of integers comes to: every call returns, or one throws for want of
room in the largest vector there can be. -/
def Appended (host : ByteOrder) (xs : List IntValue) (b : Buffer) : Prop :=
  (∃ b', (appendInts host xs).run b = .ok () b' ∧ b'.Valid ∧
    b'.content = b.content ++ encode xs) ∨
  ((∃ b', (appendInts host xs).run b = .error .lengthError b') ∧
    vectorMaxSize < b.writerIndex_ + (encode xs).length)

theorem appendInts_run (host : ByteOrder) (xs : List IntValue) {b : Buffer} (h : b.Valid) :
    Appended host xs b := by
  induction xs generalizing b with
  | nil => exact .inl ⟨b, rfl, h, (List.append_nil _).symm⟩
  | cons x xs ih =>
    have hw := h.writer_le
    have hs := h.size_lt
    have hx : x.wire.length ≤ 4 := by
      rw [wire_length]
      exact size_small _
    simp only [Appended, appendInts, append_eq, EStateM.run_bind, encode_cons, List.length_append]
    rcases append_run h x.wire (by simp only [kCheapPrepend]; omega) (by omega) with
      ⟨b₁, hrun, hb₁⟩ | ⟨herr, hmax⟩
    · have hwriter := append_writer h hrun
      simp only [hrun]
      rcases ih hb₁.valid with ⟨b', hrest, hv, hc⟩ | ⟨hrest, hmax⟩
      · left
        refine ⟨b', hrest, hv, ?_⟩
        rw [hc, hb₁.content, List.append_assoc]
      · exact .inr ⟨hrest, by omega⟩
    · right
      simp only [herr]
      exact ⟨⟨b, rfl⟩, by omega⟩

def Drained (b : Buffer) : Prop :=
  b.content = [] → b.readerIndex_ = kCheapPrepend ∧ b.writerIndex_ = kCheapPrepend

theorem retrieve_drained {b b' : Buffer} (h : b.Valid) {len : ℕ}
    (hlen : len ≤ b.content.length) (hrun : (retrieve len).run b = .ok () b') : Drained b' := by
  intro hempty
  have hr : len ≤ b.readableBytes := h.readable ▸ hlen
  -- nothing is left, so the last branch was the full reset
  have hall : ¬len < b.readableBytes := by
    have hc := (retrieve_ok h hrun).2.content
    rw [hempty] at hc
    rw [h.readable]
    exact Nat.not_lt.mpr (List.drop_eq_nil_iff.mp hc.symm)
  simp only [retrieve, EStateM.run_bind, EStateM.run_get, check_run hr, if_neg hall] at hrun
  cases hrun
  exact ⟨rfl, rfl⟩

theorem readInts_run (host : ByteOrder) (xs : List IntValue) {b : Buffer} (h : b.Valid)
    (hc : b.content = encode xs) (hd : Drained b) :
    ∃ b', (readInts host (xs.map IntValue.width)).run b = .ok xs b' ∧ b'.content = [] ∧
      b'.readerIndex_ = kCheapPrepend ∧ b'.writerIndex_ = kCheapPrepend := by
  induction xs generalizing b with
  | nil => exact ⟨b, rfl, hc, hd hc⟩
  | cons x xs ih =>
    obtain ⟨b₁, hread, hretrieve, hb₁⟩ := read_run host h hc
    have hlen : x.width.size ≤ b.content.length := (retrieve_ok h hretrieve).1
    obtain ⟨b', hrest, hend⟩ := ih hb₁.valid hb₁.content (retrieve_drained h hlen hretrieve)
    refine ⟨b', ?_, hend⟩
    simp only [List.map_cons, readInts, EStateM.run_bind, hread, hrest, EStateM.run_pure]

def ReadsBack (host : ByteOrder) (xs : List IntValue) (b : Buffer) : Prop :=
  ∃ b₁ b₂ b₃,
    (appendInts host xs).run b = .ok () b₁ ∧ b₁.content = b.content ++ encode xs ∧
    (retrieve b.content.length).run b₁ = .ok () b₂ ∧
    (readInts host (xs.map IntValue.width)).run b₂ = .ok xs b₃ ∧
    b₃.content = [] ∧ b₃.readerIndex_ = kCheapPrepend ∧ b₃.writerIndex_ = kCheapPrepend

theorem reads_back (host : ByteOrder) (xs : List IntValue) {b b₁ : Buffer}
    (hrun : (appendInts host xs).run b = .ok () b₁) (h₁ : b₁.Valid)
    (hc₁ : b₁.content = b.content ++ encode xs) : ReadsBack host xs b := by
  have hlen : b.content.length ≤ b₁.content.length := by
    rw [hc₁, List.length_append]
    exact Nat.le_add_right _ _
  obtain ⟨b₂, hretrieve, hb₂⟩ := retrieve_run h₁ hlen
  have hc₂ := hb₂.content
  rw [hc₁, List.drop_left] at hc₂
  obtain ⟨b₃, hread, hend⟩ := readInts_run host xs hb₂.valid hc₂
    (retrieve_drained h₁ hlen hretrieve)
  exact ⟨b₁, b₂, b₃, hrun, hc₁, hretrieve, hread, hend⟩

/-- A peek returns what the read in its place returns and changes nothing; without the
bytes asked for both stop at the same assertion. -/
def Peeks (host : ByteOrder) (w : IntWidth) (b : Buffer) : Prop :=
  (w.size ≤ b.content.length ∧ ∃ x b', (w.peek host).run b = .ok x b ∧
    (w.read host).run b = .ok x b') ∨
  (b.content.length < w.size ∧ ∃ text, (w.peek host).run b = .error (.assertion text) b ∧
    (w.read host).run b = .error (.assertion text) b)

theorem peeks (host : ByteOrder) (w : IntWidth) {b : Buffer} (h : b.Valid) : Peeks host w b := by
  rcases Nat.lt_or_ge b.content.length w.size with hlen | hlen
  · have hready : ¬w.size ≤ b.readableBytes := by
      rw [h.readable]
      exact Nat.not_le.mpr hlen
    obtain ⟨text, hpeek⟩ := peek_fails host hready
    refine .inr ⟨hlen, text, hpeek, ?_⟩
    simp only [read_eq, EStateM.run_bind, hpeek]
  · have hpeek := peek_ok host (h.readable ▸ hlen)
    obtain ⟨b', hretrieve, _⟩ := retrieve_run h hlen
    refine .inl ⟨hlen, _, b', hpeek, ?_⟩
    simp only [read_eq, EStateM.run_bind, hpeek, hretrieve, EStateM.run_pure]

def ReadsPrepended (host : ByteOrder) (x : IntValue) (b : Buffer) : Prop :=
  x.width.size ≤ b.prependableBytes → ∃ b₁ b₂, (x.prepend host).run b = .ok () b₁ ∧
    b₁.content = x.wire ++ b.content ∧ (x.width.read host).run b₁ = .ok x b₂ ∧
    b₂.content = b.content

theorem reads_prepended (host : ByteOrder) (x : IntValue) {b : Buffer} (h : b.Valid) :
    ReadsPrepended host x b := by
  intro hroom
  obtain ⟨b₁, hrun, hb₁⟩ := prepend_run h x.wire ((wire_length x).trans_le hroom)
  obtain ⟨b₂, hread, _, hb₂⟩ := read_run host hb₁.valid hb₁.content
  refine ⟨b₁, b₂, ?_, hb₁.content, hread, hb₂.content⟩
  rw [prepend_eq]
  exact hrun

theorem integers_read_back (host : ByteOrder) {b : Buffer} (h : b.Valid) :
    (∀ xs, ReadsBack host xs b ∨
      ((∃ b', (appendInts host xs).run b = .error .lengthError b') ∧
        vectorMaxSize < b.writerIndex_ + (encode xs).length)) ∧
    (∀ w, Peeks host w b) ∧ ∀ x, ReadsPrepended host x b := by
  refine ⟨fun xs => ?_, fun w => peeks host w h, fun x => reads_prepended host x h⟩
  rcases appendInts_run host xs h with ⟨b₁, hrun, hv, hc⟩ | hthrow
  · exact .inl (reads_back host xs hrun hv hc)
  · exact .inr hthrow

theorem integers_read_back_nearlyFull :
    (∀ xs, ReadsBack .little xs nearlyFull ∨
      ((∃ b', (appendInts .little xs).run nearlyFull = .error .lengthError b') ∧
        vectorMaxSize < nearlyFull.writerIndex_ + (encode xs).length)) ∧
    (∀ w, Peeks .little w nearlyFull) ∧ ∀ x, ReadsPrepended .little x nearlyFull :=
  integers_read_back .little nearlyFull_valid

end NetPrograms.BufferCodec
