import NetPrograms.EdgePoll
import NetPrograms.PollerModel

set_option autoImplicit false

/-!
# The epoll server of serv2.cpp

One step is one system call of the server, or something that happens outside: a client connects,
or a connection changes. Descriptors of connections are watched edge-triggered; the listening
one is not, so for it only the number of waiting clients counts.
-/
namespace NetPrograms.Serv2Model
open PollerModel EdgePoll

abbrev Byte := BitVec 8

def MAXLEN : ℕ := 128

def ECONNRESET : ℕ := 104

def EPOLLET : Mask := 0x80000000

def maxEvents : ℕ := 100

/-- An accepted connection in the kernel: what has arrived and is not read yet, and what else
`poll` of it reports. -/
structure Conn where
  input : List Byte
  shut : Bool
  room : Bool
  urgent : Bool
  error : Bool
  hangUp : Bool
  deriving DecidableEq, Repr

def bit (b : Bool) (m : Mask) : Mask := if b then m else 0

def Conn.poll (c : Conn) : Mask :=
  bit (!c.input.isEmpty || c.shut) EPOLLIN ||| bit c.room EPOLLOUT ||| bit c.urgent EPOLLPRI |||
    bit c.error EPOLLERR ||| bit c.hangUp EPOLLHUP

/-- Errors and hang-ups are reported whatever the mask is. -/
def revents (c : Conn) (mask : Mask) : Mask := c.poll &&& (mask ||| EPOLLERR ||| EPOLLHUP)

def due (c : Conn) (mask : Mask) : Bool := revents c mask ≠ 0

structure Event where
  fd : ℤ
  events : Mask
  deriving DecidableEq, Repr

inductive Call where
  | add
  | recv
  | close
  | modOut
  | write
  | modIn
  deriving DecidableEq, Repr

inductive Place where
  | wait
  | loop (rest : List Event)
  | accept (rest : List Event)
  | call (c : Call) (fd : ℤ) (rest : List Event)
  /-- The `for` loop goes over events that `epoll_wait` has not written. -/
  | overrun
  /-- `return -1` after a failed `epoll_ctl`. -/
  | returned
  /-- `SIGPIPE` has ended the process. -/
  | killed
  deriving DecidableEq, Repr

structure Server where
  poller : Instance ℤ Conn Mask
  listenfd : ℤ
  epollfd : ℤ
  backlog : ℕ
  place : Place

inductive RecvResult where
  | count (n : ℕ)
  | fail (errno : ℕ)
  deriving DecidableEq, Repr

inductive Action where
  | connect
  | change (fd : ℤ) (c : Conn) (wakes : Bool)
  | epoll_wait (events : List Event) (dropped : List ℤ)
  /-- `epoll_wait` returns -1, which is no bound for an unsigned counter. -/
  | interrupted
  | accept (result : Option (ℤ × Conn))
  | recv (result : RecvResult)
  | write (sigpipe : Bool)
  /-- The step of the server whose result is not given from outside. -/
  | run
  deriving DecidableEq, Repr

def dispatch (listenfd : ℤ) (e : Event) (rest : List Event) : Place :=
  if listenfd = e.fd then
    .accept rest
  else if e.events &&& EPOLLERR ≠ 0 then
    .call .close e.fd rest
  else if e.events &&& EPOLLHUP ≠ 0 then
    .call .close e.fd rest
  else if e.events &&& EPOLLPRI ≠ 0 then
    .call .close e.fd rest
  else if e.events &&& EPOLLIN ≠ 0 then
    .call .recv e.fd rest
  else if e.events &&& EPOLLOUT ≠ 0 then
    .call .write e.fd rest
  else
    .loop rest

/-- The body of the `do` loop after `recv`, up to its condition and the `if( tag )`. -/
def afterRecv (fd : ℤ) (rest : List Event) : RecvResult → Place
  | .count n =>
    if n = 0 then
      .call .close fd rest
    else if MAXLEN ≤ n then
      .call .recv fd rest
    else
      .call .modOut fd rest
  | .fail errno =>
    if errno = ECONNRESET then
      .call .close fd rest
    else if errno = EAGAIN ∨ errno = EINTR then
      .call .modOut fd rest
    else
      .call .close fd rest

def received : RecvResult → ℕ
  | .count n => n
  | .fail _ => 0

def consume (fd : ℤ) (n : ℕ) (p : Instance ℤ Conn Mask) : Instance ℤ Conn Mask :=
  match p.file fd with
  | some c => p.changed fd { c with input := c.input.drop n } false
  | none => p

/-- `epoll_ctl`, with the place to go on at if it succeeds. It does not run out of memory. -/
def ctl (result : Option (Instance ℤ Conn Mask)) (place : Place) (s : Server) : Server :=
  match result with
  | some poller => { s with poller := poller, place := place }
  | none => { s with place := .returned }

def inMask : Mask := EPOLLIN ||| EPOLLET

def outMask : Mask := EPOLLOUT ||| EPOLLET

def step (s : Server) : Action → Option Server
  | .connect => some { s with backlog := s.backlog + 1 }
  | .change fd c wakes => some { s with poller := s.poller.changed fd c wakes }
  | .epoll_wait events dropped =>
    match s.place with
    | .wait => some { s with
        poller := s.poller.taken (events.map Event.fd ++ dropped)
        place := .loop events }
    | _ => none
  | .interrupted =>
    match s.place with
    | .wait => some { s with place := .overrun }
    | _ => none
  | .accept result =>
    match s.place with
    | .accept rest =>
      match result with
      | some (connfd, c) => some { s with
          backlog := s.backlog - 1
          poller := s.poller.opened connfd c
          place := .call .add connfd rest }
      | none => some { s with place := .loop rest }
    | _ => none
  | .recv result =>
    match s.place with
    | .call .recv fd rest => some { s with
        poller := consume fd (received result) s.poller
        place := afterRecv fd rest result }
    | _ => none
  | .write sigpipe =>
    match s.place with
    | .call .write fd rest =>
      some { s with place := if sigpipe then .killed else .call .modIn fd rest }
    | _ => none
  | .run =>
    match s.place with
    | .loop [] => some { s with place := .wait }
    | .loop (e :: rest) => some { s with place := dispatch s.listenfd e rest }
    | .call .add fd rest =>
      -- `while(connfd)`
      some (ctl (s.poller.add due fd inMask) (if fd ≠ 0 then .accept rest else .loop rest) s)
    | .call .close fd rest =>
      some { s with poller := s.poller.closed fd, place := .loop rest }
    | .call .modOut fd rest => some (ctl (s.poller.modify due fd outMask) (.loop rest) s)
    | .call .modIn fd rest => some (ctl (s.poller.modify due fd inMask) (.loop rest) s)
    | _ => none

/-- What `epoll_wait` may give: each descriptor once, with what there is to report of it. -/
structure Reports (s : Server) (events : List Event) (dropped : List ℤ) : Prop where
  fits : events.length ≤ maxEvents
  once : (events.map Event.fd).Nodup
  ready : ∀ e ∈ events, (e.fd = s.listenfd ∧ 0 < s.backlog) ∨
    ∃ c mask, s.poller.file e.fd = some c ∧ s.poller.interest e.fd = some mask ∧
      s.poller.listed e.fd = true ∧ e.events = revents c mask ∧ due c mask = true
  idle : ∀ fd ∈ dropped, ∀ c mask, s.poller.file fd = some c →
    s.poller.interest fd = some mask → due c mask = false

/-- What the kernel may answer, and what may happen to a connection. -/
def Possible (s : Server) : Action → Prop
  | .change fd c wakes => s.poller.file fd ≠ none ∧ Wakes due s.poller fd c wakes
  | .epoll_wait events dropped => Reports s events dropped
  | .accept (some (connfd, _)) => 0 < s.backlog ∧ 0 ≤ connfd ∧ connfd ≠ s.listenfd ∧
    connfd ≠ s.epollfd ∧ s.poller.file connfd = none
  | .recv (.count n) => n ≤ MAXLEN + 1
  | _ => True

def Steps (s : Server) (a : Action) (t : Server) : Prop := Possible s a ∧ step s a = some t

def Server.start (listenfd epollfd : ℤ) : Server :=
  ⟨⟨fun _ => none, fun _ => none, fun _ => false⟩, listenfd, epollfd, 0, .wait⟩

end NetPrograms.Serv2Model
