import NetPrograms.BufferCodec
import NetPrograms.DataBlockModel
import NetPrograms.RunInvariants

set_option autoImplicit false

namespace NetPrograms.DataBlockQueue
open BufferModel BufferCodec FlatMemory DataBlockModel RunInvariants

structure QueuedBlock where
  position : ℤ
  bytes : List Byte

structure History where
  store : Store
  queued : List QueuedBlock
  pushes : ℕ
  pops : ℕ

namespace History

def head (h : History) : ℤ := h.store.queue.head

def tail (h : History) : ℤ := h.store.queue.tail

def new (addr : ℤ) (maxlen : BitVec 32) (memory : Memory Byte) : History :=
  ⟨⟨⟨addr, addr, addr, maxlen⟩, memory⟩, [], 0, 0⟩

end History

inductive Call where
  | push (pdb : DataBlock)
  | pop

def after (host : ByteOrder) : Call → History → History
  | .push pdb, h =>
    let (ret, _, store) := push_stack host pdb h.store
    if ret = 0 then
      ⟨store, h.queued ++ [⟨h.tail, pdb.bytes host⟩], h.pushes + 1, h.pops⟩
    else { h with store }
  | .pop, h =>
    let (ret, _, store) := pop_stack host h.store
    if ret = 0 then
      ⟨store, h.queued.filter fun e => e.position ≠ h.head, h.pushes, h.pops + 1⟩
    else { h with store }

def QueueStep (host : ByteOrder) (h : History) (call : Call) (h' : History) : Prop :=
  after host call h = h'

/-- A block that is accepted lies in the region and meets no block still queued; one that is
refused changes nothing. -/
structure PushSound (host : ByteOrder) (pdb : DataBlock) (h : History) : Prop where
  inside : (push_stack host pdb h.store).1 = 0 → h.store.queue.addr ≤ h.tail ∧
    h.tail + pdb.size ≤ h.store.queue.addr + h.store.queue.maxlen.toNat
  apart : (push_stack host pdb h.store).1 = 0 → ∀ e ∈ h.queued,
    e.position + e.bytes.length ≤ h.tail ∨ h.tail + pdb.size ≤ e.position
  failed : (push_stack host pdb h.store).1 ≠ 0 → push_stack host pdb h.store = (-1, pdb, h.store)

/-- A pop returns a block still queued as it was pushed, fails exactly when pushes and pops
balance, and then changes nothing. -/
structure PopSound (host : ByteOrder) (h : History) : Prop where
  returns : (pop_stack host h.store).1 = 0 → ∃ e ∈ h.queued, e.position = h.head ∧
    (pop_stack host h.store).2.1 = e.bytes
  fails : (pop_stack host h.store).1 = -1 ↔ h.pushes = h.pops
  failed : (pop_stack host h.store).1 ≠ 0 → pop_stack host h.store = (-1, [], h.store)

def Sound (host : ByteOrder) (h : History) : Call → Prop
  | .push pdb => PushSound host pdb h
  | .pop => PopSound host h

/-- No pop has moved `tail` before `head`, and a block that is not refused fits the region,
counted in bytes. -/
def InStep (h : History) : Call → Prop
  | .push pdb => Refuses h.store.queue pdb.len ∨
      h.head ≤ h.tail ∧ h.tail + pdb.size ≤ h.store.queue.addr + h.store.queue.maxlen.toNat
  | .pop => h.head ≤ h.tail

theorem push_refused (host : ByteOrder) {pdb : DataBlock} {s : Store}
    (h : Refuses s.queue pdb.len) : push_stack host pdb s = (-1, pdb, s) := if_pos h

theorem push_accepted (host : ByteOrder) {pdb : DataBlock} {s : Store}
    (h : ¬Refuses s.queue pdb.len) :
    push_stack host pdb s = (0, pdb.setSelf host s.queue.tail,
      ⟨{ s.queue with tail := s.queue.tail + sizeofDataBlock * pdb.size },
        write s.memory s.queue.tail (pdb.bytes host)⟩) := if_neg h

theorem pop_empty (host : ByteOrder) {s : Store} (h : s.queue.head = s.queue.tail) :
    pop_stack host s = (-1, [], s) := if_pos h

theorem pop_taken (host : ByteOrder) {s : Store} (h : s.queue.head ≠ s.queue.tail) :
    pop_stack host s = (0, read s.memory s.queue.head (sizeofDataBlock +
        (ofObjectBytes32 host (read s.memory (s.queue.head + 4) 4)).toNat),
      { s with queue := { s.queue with tail := s.queue.head - sizeofDataBlock * 4 } }) := if_neg h

theorem bytes_length (host : ByteOrder) (pdb : DataBlock) :
    (pdb.bytes host).length = pdb.size := by
  have hfd : (objectBytes32 host pdb.fd).length = 4 := by cases host <;> rfl
  have hlen : (objectBytes32 host pdb.len).length = 4 := by cases host <;> rfl
  rw [DataBlock.bytes, List.length_append, List.length_append, hfd, hlen, pdb.data_length,
    DataBlock.size, sizeofDataBlock]
  omega

theorem pop_block (host : ByteOrder) {s : Store} {pdb : DataBlock}
    (h : s.queue.head ≠ s.queue.tail)
    (hread : read s.memory s.queue.head pdb.size = pdb.bytes host) :
    (pop_stack host s).2.1 = pdb.bytes host := by
  have hfield : read s.memory (s.queue.head + 4) 4 = objectBytes32 host pdb.len := by
    have hsize : 4 + 4 ≤ pdb.size := by
      rw [DataBlock.size, sizeofDataBlock]
      omega
    have hpart := read_drop_take s.memory s.queue.head hsize
    rw [hread] at hpart
    refine Eq.trans hpart.symm ?_
    cases host <;> rfl
  have hlen : ofObjectBytes32 host (objectBytes32 host pdb.len) = pdb.len := by
    cases host <;> exact wire32_join _
  rw [pop_taken host h, hfield, hlen]
  exact hread

structure Filled (host : ByteOrder) (h : History) : Prop where
  start : h.head = h.store.queue.addr
  ahead : h.head ≤ h.tail
  balance : h.pops = 0 ∧ h.pushes = h.queued.length
  empty : h.queued = [] ↔ h.head = h.tail
  first : ∀ e ∈ h.queued.head?, e.position = h.head ∧ ∃ pdb : DataBlock, e.bytes = pdb.bytes host
  stored : ∀ e ∈ h.queued, e.position + e.bytes.length ≤ h.tail ∧
    read h.store.memory e.position e.bytes.length = e.bytes

/-- One block has been popped, and `tail` stands before the region. -/
structure Popped (h : History) : Prop where
  start : h.head = h.store.queue.addr
  behind : h.tail = h.head - sizeofDataBlock * 4
  gone : ∀ e ∈ h.queued, e.position ≠ h.head

theorem filled_new (host : ByteOrder) (addr : ℤ) (maxlen : BitVec 32) (memory : Memory Byte) :
    Filled host (History.new addr maxlen memory) :=
  ⟨rfl, le_refl _, ⟨rfl, rfl⟩, ⟨fun _ => rfl, fun _ => rfl⟩, nofun, nofun⟩

theorem pushSound_refused {host : ByteOrder} {pdb : DataBlock} {h : History}
    (hr : Refuses h.store.queue pdb.len) : PushSound host pdb h := by
  have hpush := push_refused host hr
  refine ⟨fun hret => ?_, fun hret => ?_, fun _ => hpush⟩ <;>
    rw [hpush] at hret <;> cases hret

theorem pushSound_accepted {host : ByteOrder} {pdb : DataBlock} {h : History}
    (hr : ¬Refuses h.store.queue pdb.len) : PushSound host pdb h ↔
      (h.store.queue.addr ≤ h.tail ∧
        h.tail + pdb.size ≤ h.store.queue.addr + h.store.queue.maxlen.toNat) ∧
      ∀ e ∈ h.queued, e.position + e.bytes.length ≤ h.tail ∨ h.tail + pdb.size ≤ e.position := by
  have hret : (push_stack host pdb h.store).1 = 0 := by rw [push_accepted host hr]
  constructor
  · exact fun hs => ⟨hs.inside hret, hs.apart hret⟩
  · exact fun hs => ⟨fun _ => hs.1, fun _ => hs.2, fun hne => absurd hret hne⟩

theorem after_refused {host : ByteOrder} {pdb : DataBlock} {h : History}
    (hr : Refuses h.store.queue pdb.len) : after host (.push pdb) h = h := by
  simp only [after, push_refused host hr]
  rfl

theorem after_accepted {host : ByteOrder} {pdb : DataBlock} {h : History}
    (hr : ¬Refuses h.store.queue pdb.len) : after host (.push pdb) h =
      ⟨⟨{ h.store.queue with tail := h.tail + sizeofDataBlock * pdb.size },
          write h.store.memory h.tail (pdb.bytes host)⟩,
        h.queued ++ [⟨h.tail, pdb.bytes host⟩], h.pushes + 1, h.pops⟩ := by
  simp only [after, push_accepted host hr]
  rfl

theorem after_empty {host : ByteOrder} {h : History} (he : h.head = h.tail) :
    after host .pop h = h := by
  simp only [after, pop_empty host he]
  rfl

theorem after_taken {host : ByteOrder} {h : History} (hne : h.head ≠ h.tail) :
    after host .pop h =
      ⟨{ h.store with queue := { h.store.queue with tail := h.head - sizeofDataBlock * 4 } },
        h.queued.filter fun e => e.position ≠ h.head, h.pushes, h.pops + 1⟩ := by
  simp only [after, pop_taken host hne]
  rfl

theorem filled_push {host : ByteOrder} {h : History} (hf : Filled host h) (pdb : DataBlock)
    (hr : ¬Refuses h.store.queue pdb.len) : Filled host (after host (.push pdb) h) := by
  have hsize := bytes_length host pdb
  have hpos : 16 ≤ pdb.size := Nat.le_add_right _ _
  have hahead := hf.ahead
  rw [after_accepted hr]
  refine ⟨hf.start, ?_, ⟨hf.balance.1, ?_⟩, ?_, ?_, ?_⟩
  · simp only [History.head, History.tail, sizeofDataBlock] at hahead ⊢
    omega
  · simp only [List.length_append, List.length_singleton, hf.balance.2]
  · simp only [List.append_eq_nil_iff, List.cons_ne_nil, and_false, false_iff]
    simp only [History.head, History.tail, sizeofDataBlock] at hahead ⊢
    omega
  · intro e he
    cases hq : h.queued with
    | nil =>
      rw [hq] at he
      cases he
      exact ⟨(hf.empty.mp hq).symm, pdb, rfl⟩
    | cons e' rest =>
      refine hf.first e ?_
      rw [hq] at he ⊢
      exact he
  · intro e he
    simp only [List.mem_append, List.mem_singleton] at he
    rcases he with he | rfl
    · obtain ⟨hend, hread⟩ := hf.stored e he
      refine ⟨?_, ?_⟩
      · simp only [History.tail, sizeofDataBlock] at hend ⊢
        omega
      · exact (read_write_apart _ _ _ _ _ (.inl hend)).trans hread
    · refine ⟨?_, read_write_same _ _ _⟩
      simp only [hsize, History.tail, sizeofDataBlock]
      omega

theorem filled_popSound {host : ByteOrder} {h : History} (hf : Filled host h) :
    PopSound host h := by
  obtain ⟨hpops, hpushes⟩ := hf.balance
  by_cases he : h.head = h.tail
  · have hpop := pop_empty host (s := h.store) he
    refine ⟨fun hret => ?_, ?_, fun _ => hpop⟩
    · rw [hpop] at hret
      cases hret
    · rw [hpop, hpops, hpushes, hf.empty.mpr he]
      exact ⟨fun _ => rfl, fun _ => rfl⟩
  · have hpop := pop_taken host (s := h.store) he
    refine ⟨fun _ => ?_, ?_, fun hne => ?_⟩
    · cases hq : h.queued with
      | nil => exact absurd (hf.empty.mp hq) he
      | cons e rest =>
        obtain ⟨hposition, pdb, hbytes⟩ := hf.first e (by rw [hq]; rfl)
        have hread := (hf.stored e (by rw [hq]; exact List.mem_cons_self)).2
        rw [hposition, hbytes, bytes_length] at hread
        refine ⟨e, List.mem_cons_self, hposition, ?_⟩
        rw [hbytes]
        exact pop_block host he hread
    · have hsome : h.queued.length ≠ 0 := by
        rw [Ne, List.length_eq_zero_iff, hf.empty]
        exact he
      rw [hpop, hpops, hpushes]
      exact iff_of_false (by decide : ¬(0 : ℤ) = -1) hsome
    · rw [hpop] at hne
      exact absurd rfl hne

theorem filled_pop {host : ByteOrder} {h : History} (hf : Filled host h) :
    Filled host (after host .pop h) ∨ Popped (after host .pop h) := by
  by_cases he : h.head = h.tail
  · left
    rw [after_empty he]
    exact hf
  · right
    rw [after_taken he]
    refine ⟨hf.start, rfl, fun e hmem => ?_⟩
    exact of_decide_eq_true (List.mem_filter.mp hmem).2

theorem filled_step {host : ByteOrder} {h : History} (hf : Filled host h) (call : Call) :
    (Sound host h call ↔ InStep h call) ∧
      (InStep h call → Filled host (after host call h) ∨ Popped (after host call h)) := by
  cases call with
  | pop => exact ⟨iff_of_true (filled_popSound hf) hf.ahead, fun _ => filled_pop hf⟩
  | push pdb =>
    by_cases hr : Refuses h.store.queue pdb.len
    · refine ⟨iff_of_true (pushSound_refused hr) (.inl hr), fun _ => .inl ?_⟩
      rw [after_refused hr]
      exact hf
    · refine ⟨?_, fun _ => .inl (filled_push hf pdb hr)⟩
      rw [Sound, pushSound_accepted hr, InStep, or_iff_right hr, ← hf.start]
      exact and_iff_left fun e he => .inl (hf.stored e he).1

theorem popped_step {host : ByteOrder} {h : History} (hp : Popped h) (call : Call) :
    (Sound host h call ↔ InStep h call) ∧
      (InStep h call → Filled host (after host call h) ∨ Popped (after host call h)) := by
  have hbehind : ¬h.head ≤ h.tail := by
    rw [hp.behind, sizeofDataBlock]
    omega
  cases call with
  | pop =>
    have hne : h.head ≠ h.tail := fun he => hbehind he.le
    have hunsound : ¬PopSound host h := by
      intro hs
      obtain ⟨e, he, hposition, _⟩ := hs.returns (by rw [pop_taken host hne])
      exact hp.gone e he hposition
    exact ⟨iff_of_false hunsound hbehind, fun hin => absurd hin hbehind⟩
  | push pdb =>
    by_cases hr : Refuses h.store.queue pdb.len
    · refine ⟨iff_of_true (pushSound_refused hr) (.inl hr), fun _ => .inr ?_⟩
      rw [after_refused hr]
      exact hp
    · have hout : ¬InStep h (.push pdb) := by
        rintro (hrefused | ⟨hin, _⟩)
        · exact hr hrefused
        · exact hbehind hin
      refine ⟨iff_of_false (fun hs => ?_) hout, fun hin => absurd hin hout⟩
      rw [Sound, pushSound_accepted hr, ← hp.start] at hs
      exact hbehind hs.1.1

/-- Over every run: all its calls keep the promises of the queue exactly when no call but a
refused push follows the first pop, and every block accepted fits the region in bytes. -/
theorem queue_sound_iff (host : ByteOrder) (addr : ℤ) (maxlen : BitVec 32) (memory : Memory Byte)
    (calls : List Call) :
    EachStep (QueueStep host) (fun h call _ => Sound host h call)
        (History.new addr maxlen memory) calls ↔
      EachStep (QueueStep host) (fun h call _ => InStep h call)
        (History.new addr maxlen memory) calls := by
  refine eachStep_iff_eachStep (I := fun h => Filled host h ∨ Popped h) (G := fun _ _ _ => True)
    ?_ (EachStep.of_labels (fun _ _ => trivial) _) (.inl (filled_new host addr maxlen memory))
  rintro h call h' (hf | hp) rfl -
  · exact filled_step hf call
  · exact popped_step hp call

def emptyBlock : DataBlock := ⟨7, 0, List.replicate 8 0, rfl⟩

theorem pop_repeats : ¬EachStep (QueueStep .little) (fun h call _ => Sound .little h call)
    (History.new 4096 64 fun _ => 0) [.push emptyBlock, .pop, .pop] := by
  intro h
  have hpop : PopSound .little _ := ((h _ rfl).2 _ rfl).2 _ rfl |>.1
  exact absurd (hpop.fails.mpr rfl) (by decide)

end NetPrograms.DataBlockQueue
