import Mathlib.Algebra.Group.Nat.Defs
import Mathlib.Data.Int.Notation
import Mathlib.Logic.Function.Basic
import NetPrograms.ListSegments

set_option autoImplicit false

/-!
# Channels, the poller and the kernel's interest set

The kernel's part is the descriptor table and the epoll set behind `epollfd_`; every
`epoll_ctl` is logged with the error it ends in. A pointer names a `Channel` (and, in a
server, the `Socket` that owns it).
-/
namespace NetPrograms.PollerModel
open ListSegments

abbrev Ptr := ℕ

abbrev Mask := BitVec 32

def EPERM : ℕ := 1
def ENOENT : ℕ := 2
def EINTR : ℕ := 4
def EBADF : ℕ := 9
def EAGAIN : ℕ := 11
def EWOULDBLOCK : ℕ := EAGAIN
def ENOMEM : ℕ := 12
def EFAULT : ℕ := 14
def EEXIST : ℕ := 17
def EINVAL : ℕ := 22
def ENFILE : ℕ := 23
def EMFILE : ℕ := 24
def EPROTO : ℕ := 71
def ENOTSOCK : ℕ := 88
def EOPNOTSUPP : ℕ := 95
def ECONNABORTED : ℕ := 103
def ENOBUFS : ℕ := 105

def EPOLLIN : Mask := 0x001
def EPOLLPRI : Mask := 0x002
def EPOLLOUT : Mask := 0x004
def EPOLLERR : Mask := 0x008
def EPOLLHUP : Mask := 0x010
def EPOLLRDHUP : Mask := 0x2000

inductive CtlOp where
  | add
  | mod
  | del
  deriving DecidableEq, Repr

/-- One `epoll_ctl`; `errno` is 0 when it succeeds. -/
structure CtlCall where
  op : CtlOp
  fd : ℤ
  errno : ℕ
  deriving DecidableEq, Repr

/-- What an open descriptor refers to. Every accepted connection has its own identity. -/
inductive OpenFile where
  | other
  | connection (id : ℕ)
  deriving DecidableEq, Repr

structure Kernel where
  descriptors : ℤ → Option OpenFile
  interest : ℤ → Option (Mask × Ptr)
  accepted : ℕ
  ctlLog : List CtlCall
  errno : ℕ

namespace Kernel

def ctlErrno (k : Kernel) (op : CtlOp) (fd : ℤ) : ℕ :=
  if k.descriptors fd = none then EBADF
  else match op, k.interest fd with
    | .add, none => 0
    | .add, some _ => EEXIST
    | _, none => ENOENT
    | _, some _ => 0

def epollCtl (op : CtlOp) (fd : ℤ) (event : Mask × Ptr) (k : Kernel) : Kernel :=
  let errno := k.ctlErrno op fd
  let entry := match op with
    | .del => none
    | _ => some event
  { k with
    interest := if errno = 0 then Function.update k.interest fd entry else k.interest
    ctlLog := k.ctlLog ++ [⟨op, fd, errno⟩]
    errno := if errno = 0 then k.errno else errno }

/-- `::close`; the descriptor's registration goes with it. -/
def close (fd : ℤ) (k : Kernel) : Kernel :=
  if k.descriptors fd = none then { k with errno := EBADF }
  else
    { k with
      descriptors := Function.update k.descriptors fd none
      interest := Function.update k.interest fd none }

/-- The kernel's side of a successful `::accept` that returns `fd`. -/
def accept (fd : ℤ) (k : Kernel) : Kernel :=
  { k with
    descriptors := Function.update k.descriptors fd (some (.connection k.accepted))
    accepted := k.accepted + 1 }

end Kernel

inductive Index where
  | kNew
  | kAdded
  | kDeleted
  deriving DecidableEq, Repr

inductive Callback where
  | handleRead
  | handleWrite
  | handleClose
  | accept
  | acceptorCloseCallback
  deriving DecidableEq, Repr

structure Channel where
  fd_ : ℤ
  events_ : Mask
  revents_ : Mask
  index_ : Index
  eventHandling_ : Bool
  readCallback_ : Option Callback
  writeCallback_ : Option Callback
  closeCallback_ : Option Callback
  errorCallback_ : Option Callback
  deriving DecidableEq, Repr

namespace Channel

def kNoneEvent : Mask := 0
def kReadEvent : Mask := EPOLLIN ||| EPOLLPRI
def kWriteEvent : Mask := EPOLLOUT

def new (fd : ℤ) : Channel := ⟨fd, 0, 0, .kNew, false, none, none, none, none⟩

def isNoneEvent (c : Channel) : Bool := c.events_ = kNoneEvent

def isWriting (c : Channel) : Bool := c.events_ &&& kWriteEvent ≠ 0

end Channel

structure EpollEvent where
  events : Mask
  ptr : Ptr
  deriving DecidableEq, Repr

structure Reactor where
  kernel : Kernel
  channel : Ptr → Channel
  channels_ : ℤ → Option Ptr
  events_ : List EpollEvent

def Reactor.setChannel (p : Ptr) (f : Channel → Channel) (r : Reactor) : Reactor :=
  { r with channel := Function.update r.channel p (f (r.channel p)) }

namespace Poller

def update (operation : CtlOp) (p : Ptr) (r : Reactor) : Reactor :=
  let channel := r.channel p
  { r with kernel := r.kernel.epollCtl operation channel.fd_ (channel.events_, p) }

def updateChannel (p : Ptr) (r : Reactor) : Reactor :=
  let channel := r.channel p
  if channel.index_ = .kNew ∨ channel.index_ = .kDeleted then
    let r := if channel.index_ = .kNew then
        { r with channels_ := Function.update r.channels_ channel.fd_ (some p) }
      else r
    update .add p (r.setChannel p fun c => { c with index_ := .kAdded })
  else if channel.isNoneEvent then
    (update .del p r).setChannel p fun c => { c with index_ := .kDeleted }
  else
    update .mod p r

def removeChannel (p : Ptr) (r : Reactor) : Reactor :=
  let channel := r.channel p
  let r := { r with channels_ := Function.update r.channels_ channel.fd_ none }
  let r := if channel.index_ = .kAdded then update .del p r else r
  r.setChannel p fun c => { c with index_ := .kNew }

end Poller

namespace EventLoop

def updateChannel (p : Ptr) (r : Reactor) : Reactor := Poller.updateChannel p r

def removeChannel (p : Ptr) (r : Reactor) : Reactor := Poller.removeChannel p r

end EventLoop

namespace Channel

def update (p : Ptr) (r : Reactor) : Reactor := EventLoop.updateChannel p r

def remove (p : Ptr) (r : Reactor) : Reactor := EventLoop.removeChannel p r

/-- The calls that change `events_` and then `update()`. -/
def setEvents (f : Mask → Mask) (p : Ptr) (r : Reactor) : Reactor :=
  update p (r.setChannel p fun c => { c with events_ := f c.events_ })

def enableReading (p : Ptr) (r : Reactor) : Reactor := setEvents (· ||| kReadEvent) p r

def enableWriting (p : Ptr) (r : Reactor) : Reactor := setEvents (· ||| kWriteEvent) p r

def disableWriting (p : Ptr) (r : Reactor) : Reactor := setEvents (· &&& ~~~kWriteEvent) p r

def disableAll (p : Ptr) (r : Reactor) : Reactor := setEvents (fun _ => kNoneEvent) p r

def set_revents (revents : Mask) (p : Ptr) (r : Reactor) : Reactor :=
  r.setChannel p fun c => { c with revents_ := revents }

end Channel

inductive WaitResult where
  | ready (events : List EpollEvent)
  | fail (errno : ℕ)
  deriving DecidableEq, Repr

def WaitResult.numEvents : WaitResult → ℤ
  | ready events => events.length
  | fail _ => -1

namespace Poller

def initialEvents : List EpollEvent := List.replicate 16 ⟨0, 0⟩

def maxevents (r : Reactor) : ℤ := (BitVec.ofNat 32 r.events_.length).toInt

def fillActiveChannels (numEvents : ℕ) (r : Reactor) (activeChannels : List Ptr) :
    Reactor × List Ptr :=
  (r.events_.take numEvents).foldl
    (fun (r, active) e => (Channel.set_revents e.events e.ptr r, active ++ [e.ptr]))
    (r, activeChannels)

def poll (result : WaitResult) (r : Reactor) (activeChannels : List Ptr) : Reactor × List Ptr :=
  match result with
  | .fail _ => (r, activeChannels)
  | .ready events =>
    let numEvents := events.length
    let r := { r with events_ := overwrite r.events_ 0 events }
    if 0 < numEvents then
      let (r, active) := fillActiveChannels numEvents r activeChannels
      ({ r with events_ := resized r.events_ (r.events_.length * 2 % 2 ^ 64) ⟨0, 0⟩ }, active)
    else
      (r, activeChannels)

end Poller
end NetPrograms.PollerModel
