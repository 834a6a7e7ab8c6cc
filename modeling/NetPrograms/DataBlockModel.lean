import Mathlib.Algebra.Group.Int.Defs
import NetPrograms.BufferModel
import NetPrograms.FlatMemory

set_option autoImplicit false

/-!
# The queue of data blocks

Addresses are integers. A `data_block_t*` moves in steps of `sizeof(data_block_t)`, which is 16
with 64-bit pointers: `fd`, `len`, and `self`, which shares its place with the first bytes of
`data[]`.
-/
namespace NetPrograms.DataBlockModel
open BufferModel FlatMemory

def sizeofDataBlock : ℕ := 16

/-- A `data_block_t` as far as `push_stack` reads it: `data` are the bytes behind `len`. -/
structure DataBlock where
  fd : BitVec 32
  len : BitVec 32
  data : List Byte
  data_length : data.length = 8 + len.toNat

def objectBytes64 (host : ByteOrder) (x : BitVec 64) : List Byte :=
  match host with
  | .little =>
    objectBytes32 .little (x.extractLsb' 0 32) ++ objectBytes32 .little (x.extractLsb' 32 32)
  | .big => objectBytes32 .big (x.extractLsb' 32 32) ++ objectBytes32 .big (x.extractLsb' 0 32)

namespace DataBlock

def size (pdb : DataBlock) : ℕ := sizeofDataBlock + pdb.len.toNat

def bytes (host : ByteOrder) (pdb : DataBlock) : List Byte :=
  objectBytes32 host pdb.fd ++ objectBytes32 host pdb.len ++ pdb.data

theorem self_length (host : ByteOrder) (x : BitVec 64) : (objectBytes64 host x).length = 8 := by
  cases host <;> rfl

def setSelf (host : ByteOrder) (p : ℤ) (pdb : DataBlock) : DataBlock where
  fd := pdb.fd
  len := pdb.len
  data := objectBytes64 host (BitVec.ofInt 64 p) ++ pdb.data.drop 8
  data_length := by
    rw [List.length_append, self_length, List.length_drop, pdb.data_length, Nat.add_sub_cancel_left]

end DataBlock

structure DataBlockQueue where
  head : ℤ
  tail : ℤ
  addr : ℤ
  maxlen : BitVec 32

structure Store where
  queue : DataBlockQueue
  memory : Memory Byte

/-- A difference of pointers, converted to `size_t`. -/
def toSize (z : ℤ) : ℕ := (z % 2 ^ 64).toNat

/-- `head-tail + sizeof(data_block_t)+len >= maxlen`. -/
def Refuses (q : DataBlockQueue) (len : BitVec 32) : Prop :=
  q.maxlen.toNat ≤
    sizeAdd (sizeAdd (toSize ((q.head - q.tail) / sizeofDataBlock)) sizeofDataBlock) len.toNat

instance (q : DataBlockQueue) (len : BitVec 32) : Decidable (Refuses q len) :=
  inferInstanceAs (Decidable (_ ≤ _))

/-- Returns the result, the caller's block and the store. -/
def push_stack (host : ByteOrder) (pdb : DataBlock) (s : Store) : ℤ × DataBlock × Store :=
  if Refuses s.queue pdb.len then (-1, pdb, s)
  else
    (0, pdb.setSelf host s.queue.tail,
      { queue := { s.queue with tail := s.queue.tail + sizeofDataBlock * pdb.size }
        memory := write s.memory s.queue.tail (pdb.bytes host) })

def pop_stack (host : ByteOrder) (s : Store) : ℤ × List Byte × Store :=
  if s.queue.head = s.queue.tail then (-1, [], s)
  else
    let cur := s.queue.head - sizeofDataBlock * 4
    let len := ofObjectBytes32 host (read s.memory (s.queue.head + 4) 4)
    (0, read s.memory s.queue.head (sizeofDataBlock + len.toNat),
      { s with queue := { s.queue with tail := cur } })

end NetPrograms.DataBlockModel
