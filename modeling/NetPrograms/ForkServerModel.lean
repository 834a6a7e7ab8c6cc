import Mathlib.Data.Int.Notation
import Mathlib.Data.List.Basic
import NetPrograms.RunInvariants

set_option autoImplicit false

/-!
# The forking server of `serv.cpp`

Every process runs the loop of `main` on descriptors of its own, which `fork` copies. Process 0 is
the parent. Each system call is one action, and its outcome is a label.
-/
namespace NetPrograms.ForkServerModel

inductive File where
  | inherited
  | listener
  /-- Connections are numbered in the order of `accept`. -/
  | connection (id : ℕ)
  deriving DecidableEq, Repr

abbrev Descriptors := ℤ → Option File

inductive Place where
  | accept
  | fork
  /-- `close(connfd)` of the parent. -/
  | closeConn
  /-- `close(listenfd)` of the child. -/
  | closeListen
  | read
  | write
  /-- `close(connfd)` and `exit(0)` of the child. -/
  | close
  | exit
  | exited
  deriving DecidableEq, Repr

/-- `conn` is the connection that the last `accept` has given. -/
structure Process where
  place : Place
  connfd : ℤ
  conn : Option ℕ
  fds : Descriptors

inductive Call where
  | read
  | write
  deriving DecidableEq, Repr

/-- Which process has called what on which connection. -/
structure Access where
  process : ℕ
  connection : ℕ
  call : Call
  deriving DecidableEq, Repr

structure System where
  process : ℕ → Process
  processes : ℕ
  accepted : ℕ
  log : List Access

/-- The outcome of a call. `ok` is all that `close`, `exit` and `write` need. -/
inductive Outcome where
  | ok
  | fails
  | connfd (fd : ℤ)
  | data
  | sigpipe
  deriving DecidableEq, Repr

def Process.ended (x : Process) : Process := { x with place := .exited, fds := fun _ => none }

def Process.close (fd : ℤ) (next : Place) (x : Process) : Process :=
  { x with place := next, fds := Function.update x.fds fd none }

def Process.loop (x : Process) : Place := if x.connfd = 0 then .close else .read

namespace System

def set (p : ℕ) (x : Process) (s : System) : System :=
  { s with process := Function.update s.process p x }

def fork (p : ℕ) (x : Process) (s : System) : System :=
  { (s.set p { x with place := .closeConn }).set s.processes { x with place := .closeListen } with
    processes := s.processes + 1 }

def access (p : ℕ) (call : Call) (x : Process) (next : Place) (s : System) : Option System :=
  match x.fds x.connfd with
  | some (.connection id) =>
    some { s.set p { x with place := next } with log := s.log ++ [⟨p, id, call⟩] }
  | _ => none

def act (listenfd p : ℕ) (o : Outcome) (s : System) : Option System :=
  let x := s.process p
  match x.place, o with
  | .accept, .connfd fd =>
    if 0 ≤ fd ∧ x.fds fd = none then
      some { s.set p ⟨.fork, fd, some s.accepted,
          Function.update x.fds fd (some (.connection s.accepted))⟩ with
        accepted := s.accepted + 1 }
    else none
  -- a failed `accept` is not noticed
  | .accept, .fails => some (s.set p ⟨.fork, -1, none, x.fds⟩)
  | .fork, .ok => some (s.fork p x)
  | .fork, .fails => some (s.set p x.ended)
  | .closeConn, .ok => some (s.set p (x.close x.connfd .accept))
  | .closeListen, .ok => some (s.set p (x.close listenfd x.loop))
  | .read, .data => s.access p .read x .write
  | .read, .fails => some (s.set p { x with place := .close })
  | .write, .ok => s.access p .write x x.loop
  | .write, .sigpipe => some (s.set p x.ended)
  | .close, .ok => some (s.set p (x.close x.connfd .exit))
  | .exit, .ok => some (s.set p x.ended)
  | _, _ => none

end System

def base (listenfd : ℕ) (inherited : ℕ → Bool) : Descriptors := fun fd =>
  if fd = listenfd then some .listener
  else if 0 ≤ fd ∧ inherited fd.toNat then some .inherited
  else none

def System.start (listenfd : ℕ) (inherited : ℕ → Bool) : System where
  process p := if p = 0 then ⟨.accept, 0, none, base listenfd inherited⟩
    else ⟨.exited, 0, none, fun _ => none⟩
  processes := 1
  accepted := 0
  log := []

def Steps (listenfd : ℕ) (s : System) (a : ℕ × Outcome) (t : System) : Prop :=
  s.act listenfd a.1 a.2 = some t

def Process.Holds (x : Process) (fd : ℤ) (id : ℕ) : Prop := x.fds fd = some (.connection id)

def Place.Open : Place → Prop
  | .fork | .closeConn | .closeListen | .read | .write | .close => True
  | .accept | .exit | .exited => False

def System.calls (s : System) (id : ℕ) (call : Call) : ℕ :=
  s.log.countP fun a => a.connection = id ∧ a.call = call

/-- The parent is back in `accept` with the descriptors it began with. Every connection has a
child of its own, unless `fork` is still to come or has failed. It is open as long as that child,
or the parent between `accept` and `close`, has it on its `connfd`, and no process has another
one. Only its child reads and writes, once for each time it has read something. -/
structure Isolated (listenfd : ℕ) (inherited : ℕ → Bool) (s : System) : Prop where
  restored : (s.process 0).place = .accept → (s.process 0).fds = base listenfd inherited
  child : ∀ id < s.accepted, (∃ p, p ≠ 0 ∧ (s.process p).conn = some id) ∨
    (s.process 0).conn = some id ∧
      ((s.process 0).place = .fork ∨ (s.process 0).place = .exited)
  own : ∀ p q id, p ≠ 0 → q ≠ 0 → (s.process p).conn = some id → (s.process q).conn = some id →
    p = q
  opened : ∀ p fd id, (s.process p).Holds fd id ↔
    (s.process p).place.Open ∧ (s.process p).conn = some id ∧ fd = (s.process p).connfd
  accesses : ∀ a ∈ s.log, a.process ≠ 0 ∧ (s.process a.process).conn = some a.connection
  alternate : ∀ id, s.calls id .write ≤ s.calls id .read ∧
    s.calls id .read ≤ s.calls id .write + 1

end NetPrograms.ForkServerModel
