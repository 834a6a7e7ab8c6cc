import Mathlib.Algebra.Group.Int.Defs
import NetPrograms.BufferModel

set_option autoImplicit false

/-!
# The address a server binds to

`TcpServer::bind` takes the string `host_` apart and fills in the acceptor's `sockaddr_in`. What
`inet_addr` makes of an address and what `atoi` makes of a number that no `int` holds are
parameters.
-/
namespace NetPrograms.HostModel
open BufferModel

def colon : Byte := 58

/-- `std::getline(ss, item, delim)`: the item and the rest of the stream. The delimiter is
taken off the stream; at its end there is no further item. -/
def getline (ss : List Byte) (delim : Byte) : Option (List Byte × List Byte) :=
  if ss = [] then none
  else some (ss.takeWhile (· ≠ delim), (ss.dropWhile (· ≠ delim)).tail)

theorem getline_shorter {ss item rest : List Byte} {delim : Byte}
    (h : getline ss delim = some (item, rest)) : rest.length < ss.length := by
  unfold getline at h
  split_ifs at h with hempty
  cases h
  have hpos := List.length_pos_iff.mpr hempty
  have hle := (List.dropWhile_suffix (l := ss) (· ≠ delim)).length_le
  rw [List.length_tail]
  omega

def split (s : List Byte) (delim : Byte) : List (List Byte) :=
  match h : getline s delim with
  | none => []
  | some (item, ss) =>
    have := getline_shorter h
    item :: split ss delim
termination_by s.length

/-- The C string that `s.c_str()` points to. -/
def c_str (s : List Byte) : List Byte := s.takeWhile (· ≠ 0)

def isspace (c : Byte) : Bool := c = 32 ∨ (9 ≤ c ∧ c ≤ 13)

def isdigit (c : Byte) : Bool := 48 ≤ c ∧ c ≤ 57

def decimal (digits : List Byte) : ℕ := digits.foldl (fun v c => 10 * v + (c.toNat - 48)) 0

def sign : List Byte → Bool × List Byte
  | [] => (false, [])
  | c :: s => if c = 45 then (true, s) else if c = 43 then (false, s) else (false, c :: s)

/-- `atoi`. The result for a number out of range is `overflow` of it. -/
def atoi (overflow : ℤ → ℤ) (nptr : List Byte) : ℤ :=
  let (negative, s) := sign (nptr.dropWhile isspace)
  let v : ℤ := decimal (s.takeWhile isdigit)
  let v := if negative then -v else v
  if -2 ^ 31 ≤ v ∧ v < 2 ^ 31 then v else overflow v

structure SockaddrIn where
  sin_family : BitVec 16
  sin_port : BitVec 16
  s_addr : BitVec 32
  sin_zero : BitVec 64
  deriving DecidableEq, Repr

def SockaddrIn.zero : SockaddrIn := ⟨0, 0, 0, 0⟩

def AF_INET : BitVec 16 := 2

def INADDR_NONE : BitVec 32 := 0xffffffff

structure Libc where
  inet_addr : List Byte → BitVec 32
  overflow : ℤ → ℤ

/-- The socket that listens, with its `getFD()` and `*getAddr()`. -/
structure Acceptor where
  fd : ℤ
  addr : SockaddrIn
  deriving DecidableEq, Repr

structure BindCall where
  fd : ℤ
  addr : SockaddrIn
  addrlen : ℕ
  deriving DecidableEq, Repr

structure BindOutcome where
  ret : ℤ
  acceptor : Acceptor
  called : Option BindCall
  deriving DecidableEq, Repr

/-- `TcpServer::bind`; `result` is what `::bind` returns if it is called. -/
def bind (libc : Libc) (host : ByteOrder) (result : ℤ) (host_ : List Byte)
    (acceptor : Acceptor) : BindOutcome :=
  let elems := split host_ colon
  if elems.length ≠ 2 then ⟨-1, acceptor, none⟩
  else
    let paddr := { SockaddrIn.zero with
      sin_family := AF_INET
      sin_port := htons host (BitVec.ofInt 16 (atoi libc.overflow (c_str (elems.getD 1 []))))
      s_addr := libc.inet_addr (c_str (elems.getD 0 [])) }
    ⟨result, { acceptor with addr := paddr }, some ⟨acceptor.fd, paddr, 16⟩⟩

end NetPrograms.HostModel
