import Mathlib.Algebra.Group.Nat.Defs
import Mathlib.Data.Int.Notation
import NetPrograms.ListSegments
import NetPrograms.PatternSearch

set_option autoImplicit false

/-!
# The byte buffer

A vector with a reader and a writer index. Positions (`char*` into the vector) are
offsets from `begin()`, and `size_t` arithmetic wraps modulo `2 ^ 64`. A failed
`assert`, a `length_error` and a write outside the vector are faults, and a fault
keeps the buffer as it was when it happened.
-/
namespace NetPrograms.BufferModel
open ListSegments PatternSearch

abbrev Byte := BitVec 8

inductive Fault where
  | assertion (text : String)
  | lengthError
  | outOfBounds
  | badFunctionCall
  /-- `LOG(FATAL)` ends the process. -/
  | fatal (text : String)
  deriving DecidableEq, Repr

def kCheapPrepend : ℕ := 8

def kInitialSize : ℕ := 1024

/-- `std::vector<char>::max_size()`. -/
def vectorMaxSize : ℕ := 2 ^ 63 - 1

def sizeAdd (a b : ℕ) : ℕ := (a + b) % 2 ^ 64

def sizeSub (a b : ℕ) : ℕ := (a + (2 ^ 64 - b)) % 2 ^ 64

structure Buffer where
  buffer_ : List Byte
  readerIndex_ : ℕ
  writerIndex_ : ℕ
  deriving DecidableEq, Repr

abbrev BufferM := EStateM Fault Buffer

def check (c : Prop) [Decidable c] (text : String) : BufferM Unit :=
  if c then pure () else throw (.assertion text)

def resize (n : ℕ) : BufferM Unit := do
  let b ← get
  if vectorMaxSize < n then
    throw .lengthError
  else
    set { b with buffer_ := resized b.buffer_ n 0 }

/-- `std::copy(data, data+len, dest)` from outside into the vector. -/
def copyIn (dest : ℕ) (data : List Byte) : BufferM Unit := do
  let b ← get
  if dest + data.length ≤ b.buffer_.length then
    set { b with buffer_ := overwrite b.buffer_ dest data }
  else
    throw .outOfBounds

namespace Buffer

def new : Buffer :=
  ⟨List.replicate (kCheapPrepend + kInitialSize) 0, kCheapPrepend, kCheapPrepend⟩

def readableBytes (b : Buffer) : ℕ := sizeSub b.writerIndex_ b.readerIndex_

def writableBytes (b : Buffer) : ℕ := sizeSub b.buffer_.length b.writerIndex_

def prependableBytes (b : Buffer) : ℕ := b.readerIndex_

def peek (b : Buffer) : ℕ := b.readerIndex_

def beginWrite (b : Buffer) : ℕ := b.writerIndex_

def bytesAt (b : Buffer) (position len : ℕ) : List Byte := (b.buffer_.drop position).take len

def swap (lhs rhs : Buffer) : Buffer × Buffer :=
  (⟨rhs.buffer_, rhs.readerIndex_, rhs.writerIndex_⟩,
    ⟨lhs.buffer_, lhs.readerIndex_, lhs.writerIndex_⟩)

def retrieveAll : BufferM Unit :=
  modify fun b => { b with readerIndex_ := kCheapPrepend, writerIndex_ := kCheapPrepend }

def retrieve (len : ℕ) : BufferM Unit := do
  let b ← get
  check (len ≤ b.readableBytes) "len <= readableBytes()"
  if len < b.readableBytes then
    set { b with readerIndex_ := sizeAdd b.readerIndex_ len }
  else
    retrieveAll

def retrieveUntil (last : ℕ) : BufferM Unit := do
  let b ← get
  check (b.peek ≤ last) "peek() <= end"
  check (last ≤ b.beginWrite) "end <= beginWrite()"
  retrieve (sizeSub last b.peek)

def retrieveInt32 : BufferM Unit := retrieve 4

def retrieveInt16 : BufferM Unit := retrieve 2

def retrieveInt8 : BufferM Unit := retrieve 1

def retrieveAsString (len : ℕ) : BufferM (List Byte) := do
  let b ← get
  check (len ≤ b.readableBytes) "len <= readableBytes()"
  let result := b.bytesAt b.peek len
  retrieve len
  return result

def retrieveAllAsString : BufferM (List Byte) := do
  let b ← get
  retrieveAsString b.readableBytes

def makeSpace (len : ℕ) : BufferM Unit := do
  let b ← get
  if sizeAdd b.writableBytes b.prependableBytes < sizeAdd len kCheapPrepend then
    resize (sizeAdd b.writerIndex_ len)
  else
    -- move readable data to the front, make space inside buffer
    check (kCheapPrepend < b.readerIndex_) "kCheapPrepend < readerIndex_"
    let readable := b.readableBytes
    set { b with
      buffer_ :=
        copyForward (b.writerIndex_ - b.readerIndex_) b.buffer_ b.readerIndex_ kCheapPrepend
      readerIndex_ := kCheapPrepend
      writerIndex_ := sizeAdd kCheapPrepend readable }
    let b ← get
    check (readable = b.readableBytes) "readable == readableBytes()"

def ensureWritableBytes (len : ℕ) : BufferM Unit := do
  let b ← get
  if b.writableBytes < len then
    makeSpace len
  let b ← get
  check (len ≤ b.writableBytes) "writableBytes() >= len"

def hasWritten (len : ℕ) : BufferM Unit := do
  let b ← get
  check (len ≤ b.writableBytes) "len <= writableBytes()"
  set { b with writerIndex_ := sizeAdd b.writerIndex_ len }

def unwrite (len : ℕ) : BufferM Unit := do
  let b ← get
  check (len ≤ b.readableBytes) "len <= readableBytes()"
  set { b with writerIndex_ := sizeSub b.writerIndex_ len }

def append (data : List Byte) : BufferM Unit := do
  ensureWritableBytes data.length
  let b ← get
  copyIn b.beginWrite data
  hasWritten data.length

/-- A caller's write at `beginWrite()`, announced by `hasWritten`. -/
def fill (data : List Byte) : BufferM Unit := do
  let b ← get
  copyIn b.beginWrite data
  hasWritten data.length

def prepend (data : List Byte) : BufferM Unit := do
  let b ← get
  check (data.length ≤ b.prependableBytes) "len <= prependableBytes()"
  set { b with readerIndex_ := sizeSub b.readerIndex_ data.length }
  let b ← get
  copyIn b.readerIndex_ data

end Buffer

/-- What a search returns, and the positions it examines. -/
structure Search where
  found : Option ℕ
  examined : List ℕ
  deriving DecidableEq, Repr

def memchr (c : Byte) (s : ℕ) : ℕ → BufferM Search
  | 0 => return ⟨none, []⟩
  | n + 1 => do
    let b ← get
    match b.buffer_[s]? with
    | none => throw .outOfBounds
    | some x =>
      if x = c then
        return ⟨some s, [s]⟩
      else
        let rest ← memchr c (s + 1) n
        return ⟨rest.found, s :: rest.examined⟩

def newline : Byte := 10

/-- `std::search(first, last, pattern)`: the first match, or `last`. -/
def search (first last : ℕ) (pattern : List Byte) : BufferM ℕ := do
  let b ← get
  if first ≤ last ∧ last ≤ b.buffer_.length then
    return first + searchIndex pattern (segment b.buffer_ first last)
  else
    throw .outOfBounds

/-- The array of `"\r\n"`, its terminator included. -/
def kCRLF : List Byte := [13, 10, 0]

namespace Buffer

def findCRLF : BufferM (Option ℕ) := do
  let b ← get
  let crlf ← search b.peek b.beginWrite (kCRLF.take 2)
  return if crlf = b.beginWrite then none else some crlf

def findCRLFFrom (start : ℕ) : BufferM (Option ℕ) := do
  let b ← get
  check (b.peek ≤ start) "peek() <= start"
  check (start ≤ b.beginWrite) "start <= beginWrite()"
  let crlf ← search start b.beginWrite (kCRLF.take 2)
  return if crlf = b.beginWrite then none else some crlf

def findEOL : BufferM Search := do
  let b ← get
  memchr newline b.peek b.readableBytes

def findEOLFrom (start : ℕ) : BufferM Search := do
  let b ← get
  check (b.peek ≤ start) "peek() <= start"
  check (start ≤ b.beginWrite) "start <= beginWrite()"
  memchr newline start b.readableBytes

end Buffer

inductive ByteOrder where
  | little
  | big
  deriving DecidableEq, Repr

def objectBytes16 (host : ByteOrder) (x : BitVec 16) : List Byte :=
  match host with
  | .little => [x.extractLsb' 0 8, x.extractLsb' 8 8]
  | .big => [x.extractLsb' 8 8, x.extractLsb' 0 8]

def objectBytes32 (host : ByteOrder) (x : BitVec 32) : List Byte :=
  match host with
  | .little => [x.extractLsb' 0 8, x.extractLsb' 8 8, x.extractLsb' 16 8, x.extractLsb' 24 8]
  | .big => [x.extractLsb' 24 8, x.extractLsb' 16 8, x.extractLsb' 8 8, x.extractLsb' 0 8]

def htons (host : ByteOrder) (x : BitVec 16) : BitVec 16 :=
  match host with
  | .little => x.extractLsb' 0 8 ++ x.extractLsb' 8 8
  | .big => x

def htonl (host : ByteOrder) (x : BitVec 32) : BitVec 32 :=
  match host with
  | .little => x.extractLsb' 0 8 ++ x.extractLsb' 8 8 ++ x.extractLsb' 16 8 ++ x.extractLsb' 24 8
  | .big => x

def ntohs (host : ByteOrder) (x : BitVec 16) : BitVec 16 :=
  match host with
  | .little => x.extractLsb' 0 8 ++ x.extractLsb' 8 8
  | .big => x

def ntohl (host : ByteOrder) (x : BitVec 32) : BitVec 32 :=
  match host with
  | .little => x.extractLsb' 0 8 ++ x.extractLsb' 8 8 ++ x.extractLsb' 16 8 ++ x.extractLsb' 24 8
  | .big => x

/-- The integer whose object holds these bytes, as `memcpy` leaves it. -/
def ofObjectBytes16 (host : ByteOrder) (bytes : List Byte) : BitVec 16 :=
  match host with
  | .little => bytes.getD 1 0 ++ bytes.getD 0 0
  | .big => bytes.getD 0 0 ++ bytes.getD 1 0

def ofObjectBytes32 (host : ByteOrder) (bytes : List Byte) : BitVec 32 :=
  match host with
  | .little => bytes.getD 3 0 ++ bytes.getD 2 0 ++ bytes.getD 1 0 ++ bytes.getD 0 0
  | .big => bytes.getD 0 0 ++ bytes.getD 1 0 ++ bytes.getD 2 0 ++ bytes.getD 3 0

namespace Buffer

def appendInt32 (host : ByteOrder) (x : BitVec 32) : BufferM Unit :=
  let be32 := htonl host x
  append (objectBytes32 host be32)

def appendInt16 (host : ByteOrder) (x : BitVec 16) : BufferM Unit :=
  let be16 := htons host x
  append (objectBytes16 host be16)

def appendInt8 (x : BitVec 8) : BufferM Unit := append [x]

def peekInt32 (host : ByteOrder) : BufferM (BitVec 32) := do
  let b ← get
  check (4 ≤ b.readableBytes) "readableBytes() >= sizeof(int32_t)"
  let be32 := ofObjectBytes32 host (b.bytesAt b.peek 4)
  return ntohl host be32

def peekInt16 (host : ByteOrder) : BufferM (BitVec 16) := do
  let b ← get
  check (2 ≤ b.readableBytes) "readableBytes() >= sizeof(int16_t)"
  let be16 := ofObjectBytes16 host (b.bytesAt b.peek 2)
  return ntohs host be16

def peekInt8 : BufferM (BitVec 8) := do
  let b ← get
  check (1 ≤ b.readableBytes) "readableBytes() >= sizeof(int8_t)"
  let x := (b.bytesAt b.peek 1).getD 0 0
  return x

def readInt32 (host : ByteOrder) : BufferM (BitVec 32) := do
  let result ← peekInt32 host
  retrieveInt32
  return result

def readInt16 (host : ByteOrder) : BufferM (BitVec 16) := do
  let result ← peekInt16 host
  retrieveInt16
  return result

def readInt8 : BufferM (BitVec 8) := do
  let result ← peekInt8
  retrieveInt8
  return result

def prependInt32 (host : ByteOrder) (x : BitVec 32) : BufferM Unit :=
  let be32 := htonl host x
  prepend (objectBytes32 host be32)

def prependInt16 (host : ByteOrder) (x : BitVec 16) : BufferM Unit :=
  let be16 := htons host x
  prepend (objectBytes16 host be16)

def prependInt8 (x : BitVec 8) : BufferM Unit := prepend [x]

end Buffer

/-- What `readv` gives: the bytes it delivered, or -1 and `errno`. -/
inductive ReadResult where
  | data (bytes : List Byte)
  | fail (errno : ℕ)
  deriving DecidableEq, Repr

def extrabufSize : ℕ := 65536

namespace Buffer

/-- The total length of the iovecs that `readFd` passes to `readv`. -/
def readFdRequest (b : Buffer) : ℕ :=
  if b.writableBytes < extrabufSize then b.writableBytes + extrabufSize else b.writableBytes

/-- Returns `readv`'s result and `*savedErrno`. -/
def readFd (result : ReadResult) (savedErrno : ℕ) : BufferM (ℤ × ℕ) := do
  let b ← get
  let writable := b.writableBytes
  match result with
  | .fail errno => return (-1, errno)
  | .data bytes =>
    -- readv fills the writable tail first, the rest of the bytes is in extrabuf
    copyIn b.writerIndex_ (bytes.take writable)
    let b ← get
    if bytes.length ≤ writable then
      set { b with writerIndex_ := sizeAdd b.writerIndex_ bytes.length }
    else
      set { b with writerIndex_ := b.buffer_.length }
      append (bytes.drop writable)
    return (bytes.length, savedErrno)

end Buffer
end NetPrograms.BufferModel
