import NetPrograms.BufferModel
import NetPrograms.FlatMemory
import NetPrograms.PollerModel

set_option autoImplicit false

/-!
# `readn` and the header of a frame

A run is driven by the results of `recv`, one for each call. A result that delivers `n` bytes
takes them off the front of the stream and puts them at `bp`.
-/
namespace NetPrograms.ReadnModel
open BufferModel FlatMemory PollerModel

def INT_MAX : ℕ := 2 ^ 31 - 1

/-- `(int)n` of a `size_t`. -/
def toInt (n : ℕ) : ℤ := (BitVec.ofNat 32 n).toInt

inductive RecvResult where
  | received (n : ℕ)
  | closed
  | failed (errno : ℕ)
  deriving DecidableEq, Repr

structure Incoming where
  memory : Memory Byte
  stream : List Byte

def Incoming.deliver (bp : ℤ) (n : ℕ) (s : Incoming) : Incoming :=
  ⟨write s.memory bp (s.stream.take n), s.stream.drop n⟩

/-- The loop of `readn`. Without a result for a call of `recv` the run is not over. -/
def readnLoop (len : ℕ) : List RecvResult → ℤ → ℤ → Incoming → Option (ℤ × Incoming)
  | [], _, cnt, s => if 0 < cnt then none else some (toInt len, s)
  | r :: rest, bp, cnt, s =>
    if 0 < cnt then
      match r with
      | .failed errno => if errno = EINTR then readnLoop len rest bp cnt s else some (-1, s)
      | .closed => some (toInt (sizeSub len cnt.toNat), s)
      | .received n => readnLoop len rest (bp + n) (cnt - n) (s.deliver bp n)
    else some (toInt len, s)

def readn (script : List RecvResult) (bp : ℤ) (len : ℕ) (s : Incoming) :
    Option (ℤ × Incoming) :=
  readnLoop len script bp (toInt len) s

/-- What `recv` may return when `cnt` bytes are asked for: no more than that and no more than
there is, 0 at the end of the stream, or an error. -/
def Admissible : List RecvResult → ℤ → List Byte → Prop
  | [], _, _ => True
  | .received n :: rest, cnt, stream =>
    0 < cnt → (1 ≤ n ∧ (n : ℤ) ≤ cnt ∧ n ≤ stream.length) ∧
      Admissible rest (cnt - n) (stream.drop n)
  | .closed :: _, cnt, stream => 0 < cnt → stream = []
  | .failed errno :: rest, cnt, stream => errno = EINTR → Admissible rest cnt stream

def protoSize : ℕ := 8

inductive RecvData where
  | returned (rc : ℤ)
  /-- Control reaches the end of the function without a `return`. -/
  | noReturn (reclen : BitVec 32)
  deriving DecidableEq, Repr

/-- `recv_data(fd, data, len)` with its local `pkg` at address `pkg`. -/
def recv_data (host : ByteOrder) (script : List RecvResult) (pkg : ℤ) (s : Incoming) :
    Option (RecvData × Incoming) :=
  (readn script pkg protoSize s).map fun (rc, s) =>
    if rc ≠ protoSize then (.returned (if rc < 0 then -1 else 0), s)
    else (.noReturn (ntohl host (ofObjectBytes32 host (read s.memory pkg 4))), s)

end NetPrograms.ReadnModel
