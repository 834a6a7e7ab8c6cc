import NetPrograms.ByteQueue
import NetPrograms.EventLoopModel
import NetPrograms.PollerModel

set_option autoImplicit false

/-!
# Sockets and the TCP server

A Socket and its Channel share one pointer, and objects stay alive for the whole run. What
the kernel and the application do is given from outside: the result of every system call on
an open descriptor, and the calls each application callback makes. `delivered`, `calls` and
`closed` record the history.
-/
namespace NetPrograms.ServerModel
open BufferModel EventLoopModel PollerModel

inductive IoResult where
  | count (n : ℕ)
  | fail (errno : ℕ)
  deriving DecidableEq, Repr

inductive AcceptResult where
  | connfd (fd : ℤ)
  | fail (errno : ℕ)
  deriving DecidableEq, Repr

structure Delivery where
  sender : Ptr
  file : OpenFile
  bytes : List Byte
  deriving DecidableEq, Repr

inductive Call where
  | handleRead (p : Ptr)
  | handleWrite (p : Ptr)
  | handleClose (p : Ptr)
  | readv (fd : ℤ)
  | write (fd : ℤ)
  deriving DecidableEq, Repr

inductive AppCall where
  | send (s : Ptr) (data : List Byte) (result : IoResult)
  | retrieve (s : Ptr) (len : ℕ)
  deriving DecidableEq, Repr

/-- The outside during one dispatch: what the kernel gives to the server's own calls, and
what the application's callbacks do. -/
structure Env where
  readv : ReadResult
  write : IoResult
  accept : AcceptResult
  messageCallback : List AppCall
  closeCallback : List AppCall
  connectionCallback : List AppCall
  deriving DecidableEq, Repr

/-- The callbacks are given by whether they are set. `messageCallback_` and `writeCallback_`
are the application's, `closeCallback_` is `TcpServer::connectionClose`. -/
structure Socket where
  inputBuffer_ : ByteQueue
  outputBuffer_ : ByteQueue
  messageCallback_ : Bool
  closeCallback_ : Bool
  writeCallback_ : Bool
  fd_ : ℤ
  /-- What `fd_` referred to when the Socket was made. -/
  file : Option OpenFile
  closed : Bool

structure TcpServer where
  connectionCallback_ : Bool
  messageCallback_ : Bool
  closeCallback_ : Bool
  writeCompleteCallback_ : Bool
  connections_ : ℤ → Option Ptr
  acceptor : Ptr

structure World extends Reactor where
  socket : Ptr → Socket
  /-- The pointer of the next Socket. -/
  allocated : Ptr
  server : TcpServer
  quit_ : Bool
  /-- A queued functor is the Socket bound to its `writeCallback_`. -/
  loop_ : LoopState Ptr
  delivered : List Delivery
  calls : List Call

namespace World

def setSocket (p : Ptr) (f : Socket → Socket) (w : World) : World :=
  { w with socket := Function.update w.socket p (f (w.socket p)) }

def onReactor (f : Reactor → Reactor) (w : World) : World :=
  { w with toReactor := f w.toReactor }

def onConnections (f : (ℤ → Option Ptr) → ℤ → Option Ptr) (w : World) : World :=
  { w with server := { w.server with connections_ := f w.server.connections_ } }

def setErrno (errno : ℕ) (w : World) : World :=
  w.onReactor fun r => { r with kernel := { r.kernel with errno := errno } }

def log (c : Call) (w : World) : World := { w with calls := w.calls ++ [c] }

/-- `::write(chan_->fd(), data, data.length)`; `result` is what becomes of it if the
descriptor is open. -/
def write (p : Ptr) (data : List Byte) (result : IoResult) (w : World) : ℤ × World :=
  let fd := (w.channel p).fd_
  let w := w.log (.write fd)
  match w.kernel.descriptors fd, result with
  | none, _ => (-1, w.setErrno EBADF)
  | some _, .fail errno => (-1, w.setErrno errno)
  | some file, .count n => (n, { w with delivered := w.delivered ++ [⟨p, file, data.take n⟩] })

def readFd (p : Ptr) (result : ReadResult) (savedErrno : ℕ) (w : World) :
    Except Fault ((ℤ × ℕ) × World) := do
  let fd := (w.channel p).fd_
  let w := w.log (.readv fd)
  let result := if w.kernel.descriptors fd = none then .fail EBADF else result
  let (v, inputBuffer_) ← (w.socket p).inputBuffer_.readFd result savedErrno
  return (v, w.setSocket p fun s => { s with inputBuffer_ := inputBuffer_ })

def require (set : Bool) : Except Fault Unit :=
  if set then return () else throw .badFunctionCall

end World

namespace Socket

/-- `len` is `data.length`. -/
def Send (p : Ptr) (data : List Byte) (result : IoResult) (w : World) :
    Except Fault (ℤ × World) := do
  let (n, w) := w.write p data result
  if n = data.length then
    return (0, w)
  if 0 < n then
    let outputBuffer_ ← (w.socket p).outputBuffer_.append (data.drop n.toNat)
    return (0, w.setSocket p fun s => { s with outputBuffer_ := outputBuffer_ })
  else
    let w :=
      if w.kernel.errno = EAGAIN ∨ w.kernel.errno = EWOULDBLOCK then
        w.onReactor (Channel.enableWriting p)
      else w
    return (w.kernel.errno, w)

def handleWrite (p : Ptr) (result : IoResult) (w : World) : Except Fault World := do
  let w := w.log (.handleWrite p)
  let (n, w) := w.write p (w.socket p).outputBuffer_.content result
  if 0 < n then
    let outputBuffer_ ← (w.socket p).outputBuffer_.retrieve n.toNat
    let w := w.setSocket p fun s => { s with outputBuffer_ := outputBuffer_ }
    if (w.socket p).outputBuffer_.readableBytes = 0 then
      let w := w.onReactor (Channel.disableWriting p)
      if (w.socket p).writeCallback_ then
        return { w with loop_ := w.loop_.runInLoop p }
      else
        return w
    else
      return w
  else
    return w

end Socket

def AppCall.run (w : World) : AppCall → Except Fault World
  | send s data result => do
    let (_, w) ← Socket.Send s data result w
    return w
  | retrieve s len => do
    let inputBuffer_ ← (w.socket s).inputBuffer_.retrieve len
    return w.setSocket s fun s => { s with inputBuffer_ := inputBuffer_ }

def runCallback (set : Bool) (calls : List AppCall) (w : World) : Except Fault World := do
  World.require set
  calls.foldlM AppCall.run w

namespace TcpServer

def connectionClose (conn : Ptr) (env : Env) (w : World) : Except Fault World :=
  let w := w.onConnections (Function.update · (w.socket conn).fd_ none)
  runCallback w.server.closeCallback_ env.closeCallback w

def acceptorCloseCallback (w : World) : World := { w with quit_ := true }

end TcpServer

namespace Socket

/-- `closed` marks that the close has run. -/
def handleClose (p : Ptr) (env : Env) (w : World) : Except Fault World := do
  let w := w.log (.handleClose p)
  let w := w.onReactor fun r => { r with kernel := r.kernel.close (w.socket p).fd_ }
  let w := w.onReactor (Channel.remove p)
  let w := w.setSocket p fun s => { s with closed := true }
  World.require (w.socket p).closeCallback_
  TcpServer.connectionClose p env w

/-- `getsockopt` only reports. -/
def handleError (p : Ptr) (w : World) : World :=
  if w.kernel.descriptors (w.socket p).fd_ = none then w.setErrno EBADF else w

def handleRead (p : Ptr) (env : Env) (w : World) : Except Fault World := do
  let w := w.log (.handleRead p)
  let savedErrno := 0
  let ((n, savedErrno), w) ← w.readFd p env.readv savedErrno
  if 0 < n then
    runCallback (w.socket p).messageCallback_ env.messageCallback w
  else if n = 0 then
    handleClose p env w
  else
    return handleError p (w.setErrno savedErrno)

def setChanReadCallback (cb : Callback) (p : Ptr) (w : World) : World :=
  w.onReactor (·.setChannel p fun c => { c with readCallback_ := some cb })

def setChanCloseCallback (cb : Callback) (p : Ptr) (w : World) : World :=
  w.onReactor (·.setChannel p fun c => { c with closeCallback_ := some cb })

def init (fd : ℤ) (file : Option OpenFile) : Socket :=
  ⟨ByteQueue.new, ByteQueue.new, false, false, false, fd, file, false⟩

/-- `new Socket(loop, fd)`. The `fcntl` calls do not change the descriptor table. -/
def new (fd : ℤ) (w : World) : Ptr × World :=
  let p := w.allocated
  let w := { w with allocated := p + 1 }
  let w := w.setSocket p fun _ => init fd (w.kernel.descriptors fd)
  let w := w.onReactor (·.setChannel p fun _ => Channel.new fd)
  let w := w.onReactor (Channel.enableReading p)
  let w := w.onReactor (·.setChannel p fun c => { c with
    readCallback_ := some .handleRead
    writeCallback_ := some .handleWrite
    closeCallback_ := some .handleClose })
  (p, w)

end Socket

def World.boot (descriptors : ℤ → Option OpenFile) : World where
  kernel := ⟨descriptors, fun _ => none, 0, [], 0⟩
  channel _ := Channel.new (-1)
  channels_ _ := none
  events_ := Poller.initialEvents
  socket _ := Socket.init (-1) none
  allocated := 0
  server := ⟨true, true, true, false, fun _ => none, 0⟩
  quit_ := false
  loop_ := .new
  delivered := []
  calls := []

namespace TcpServer

/-- `::accept(acceptor->getFD(), …)`. -/
def kernelAccept (result : AcceptResult) (w : World) : ℤ × World :=
  match w.kernel.descriptors (w.socket w.server.acceptor).fd_, result with
  | none, _ => (-1, w.setErrno EBADF)
  | some _, .fail errno => (-1, w.setErrno errno)
  | some _, .connfd fd => (fd, w.onReactor fun r => { r with kernel := r.kernel.accept fd })

/-- `connections_.insert`, which keeps an entry that is there. -/
def insertConnection (p : Ptr) (w : World) : World :=
  let fd := (w.socket p).fd_
  match w.server.connections_ fd with
  | some _ => w
  | none => w.onConnections (Function.update · fd (some p))

def accept (env : Env) (w : World) : Except Fault World := do
  let (connfd, w) := kernelAccept env.accept w
  if connfd < 0 then
    let savedErrno := w.kernel.errno
    if savedErrno ∈ [EAGAIN, ECONNABORTED, EINTR, EPROTO, EPERM, EMFILE] then
      pure ()
    else if savedErrno ∈
        [EBADF, EFAULT, EINVAL, ENFILE, ENOBUFS, ENOMEM, ENOTSOCK, EOPNOTSUPP] then
      throw (.fatal ("unexpected error of ::accept " ++ toString savedErrno))
    else
      throw (.fatal ("unknown error of ::accept " ++ toString savedErrno))
  let (newSocket, w) := Socket.new connfd w
  let w := w.setSocket newSocket fun s => { s with
    messageCallback_ := w.server.messageCallback_
    writeCallback_ := w.server.writeCompleteCallback_
    closeCallback_ := true }
  let w := insertConnection newSocket w
  let w := w.onReactor (EventLoop.updateChannel newSocket)
  runCallback w.server.connectionCallback_ env.connectionCallback w

/-- `start` up to `loop_->loop()`, when `socket` has returned `fd` and `bind` and `listen`
have succeeded. -/
def start (fd : ℤ) (w : World) : World :=
  let w := w.onReactor fun r => { r with
    kernel := { r.kernel with
      descriptors := Function.update r.kernel.descriptors fd (some .other) } }
  let (p, w) := Socket.new fd w
  let w := { w with server := { w.server with acceptor := p } }
  let w := Socket.setChanReadCallback .accept p w
  Socket.setChanCloseCallback .acceptorCloseCallback p w

end TcpServer

namespace Channel

def invoke (cb : Option Callback) (p : Ptr) (env : Env) (w : World) : Except Fault World :=
  match cb with
  | none => return w
  | some .handleRead => Socket.handleRead p env w
  | some .handleWrite => Socket.handleWrite p env.write w
  | some .handleClose => Socket.handleClose p env w
  | some .accept => TcpServer.accept env w
  | some .acceptorCloseCallback => return TcpServer.acceptorCloseCallback w

def hasEvent (mask : Mask) (p : Ptr) (w : World) : Bool := (w.channel p).revents_ &&& mask ≠ 0

def setEventHandling (b : Bool) (p : Ptr) (w : World) : World :=
  w.onReactor (·.setChannel p fun c => { c with eventHandling_ := b })

def handleHangUp (p : Ptr) (env : Env) (w : World) : Except Fault World :=
  if hasEvent EPOLLHUP p w ∧ ¬hasEvent EPOLLIN p w then
    invoke (w.channel p).closeCallback_ p env w
  else
    return w

def handleErr (p : Ptr) (env : Env) (w : World) : Except Fault World :=
  if hasEvent EPOLLERR p w then
    invoke (w.channel p).errorCallback_ p env w
  else
    return w

def handleIn (p : Ptr) (env : Env) (w : World) : Except Fault World :=
  if hasEvent (EPOLLIN ||| EPOLLPRI ||| EPOLLRDHUP) p w then
    invoke (w.channel p).readCallback_ p env w
  else
    return w

def handleOut (p : Ptr) (env : Env) (w : World) : Except Fault World :=
  if hasEvent EPOLLOUT p w then
    invoke (w.channel p).writeCallback_ p env w
  else
    return w

def handleEvent (p : Ptr) (env : Env) (w : World) : Except Fault World := do
  let w := setEventHandling true p w
  let w ← handleHangUp p env w
  let w ← handleErr p env w
  let w ← handleIn p env w
  let w ← handleOut p env w
  return setEventHandling false p w

end Channel
end NetPrograms.ServerModel
