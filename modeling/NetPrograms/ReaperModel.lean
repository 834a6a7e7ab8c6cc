import Mathlib.Data.Int.Notation
import Mathlib.Data.List.Basic
import NetPrograms.RunInvariants

set_option autoImplicit false

/-!
# The parent of `net/myser2` and its signals

`main` forks `MAX_PID_CNT` children and goes on in `net_loop`; the handlers that `init_proc` has
installed interrupt it and one another. A signal that is pending already is not queued again, and
one whose handler runs is blocked. The handlers of SIGPIPE and SIGCHLD reap the children.

The model begins at the first `fork`, after an `init_proc` that has returned. `create_stack`, which
`init_proc` calls, writes through `recv_q`, and nothing in the source allocates that. `init_net`
and the body of `net_loop` are left out.
-/
namespace NetPrograms.ReaperModel

def MAX_PID_CNT : ℕ := 3

inductive Signal where
  | SIGINT | SIGTERM | SIGQUIT | SIGHUP | SIGPIPE | SIGCHLD
  deriving DecidableEq, Repr

inductive Child where
  | running
  | zombie (status : ℤ)
  deriving DecidableEq, Repr

def zombieStatus : Option Child → Option ℤ
  | some (.zombie status) => some status
  | some .running | none => none

inductive Handler where
  | sigterm_handler
  | sighup_handler
  /-- The condition of the loop of `sigpipe_handler` and `sigchild_handler`. -/
  | waitpid
  /-- Its body, with what `waitpid` has given. -/
  | reaped (pid : ℕ) (status : ℤ)
  deriving DecidableEq, Repr

structure Frame where
  sig : Signal
  next : Handler
  deriving DecidableEq, Repr

inductive Line where
  | sigterm_handler
  | sighup_handler
  | sigpipe_handler (pid : ℕ) (status : ℤ)
  | sigchld_handler (pid : ℕ) (status : ℤ)
  deriving DecidableEq, Repr

inductive Main where
  | fork (loop : ℕ)
  | net_loop
  | exited
  deriving DecidableEq, Repr

/-- `frames` are the running handlers, the innermost first. `forked` and `ended` record the
children that were made and those that have exited. -/
structure Parent where
  main : Main
  pending : Signal → Bool
  frames : List Frame
  children : ℕ → Option Child
  forked : List ℕ
  ended : List (ℕ × ℤ)
  cerr : List Line

inductive Event where
  /-- `fork` by `main`; the parent gets the child's pid, or -1. -/
  | fork (result : Option ℕ)
  | childExits (pid : ℕ) (status : ℤ)
  | raise (sig : Signal)
  | deliver (sig : Signal)
  /-- The innermost handler acts; `pid` is the zombie that `waitpid` prefers. -/
  | handler (pid : ℕ)
  deriving DecidableEq, Repr

def sigaction : Signal → Handler
  | .SIGINT | .SIGTERM | .SIGQUIT => .sigterm_handler
  | .SIGHUP => .sighup_handler
  | .SIGPIPE | .SIGCHLD => .waitpid

def reapLine (sig : Signal) (pid : ℕ) (status : ℤ) : Line :=
  match sig with
  | .SIGPIPE => .sigpipe_handler pid status
  | _ => .sigchld_handler pid status

namespace Parent

def zombie (s : Parent) (pid : ℕ) : Option ℤ := zombieStatus (s.children pid)

def setChild (pid : ℕ) (child : Option Child) (s : Parent) : Parent :=
  { s with children := Function.update s.children pid child }

def setPending (sig : Signal) (b : Bool) (s : Parent) : Parent :=
  { s with pending := Function.update s.pending sig b }

def fork (loop : ℕ) (result : Option ℕ) (s : Parent) : Option Parent :=
  match result with
  | none => some { s with main := .exited }
  | some pid =>
    if s.children pid = none then
      some { s.setChild pid (some .running) with
        main := if loop + 1 < MAX_PID_CNT then .fork (loop + 1) else .net_loop
        forked := s.forked ++ [pid] }
    else none

/-- `waitpid(-1, &status, WNOHANG)` gives a zombie as long as there is one. -/
def handle (pid : ℕ) (sig : Signal) (rest : List Frame) (s : Parent) : Handler → Option Parent
  | .sigterm_handler => some { s with frames := rest, cerr := s.cerr ++ [.sigterm_handler] }
  | .sighup_handler => some { s with frames := rest, cerr := s.cerr ++ [.sighup_handler] }
  | .waitpid =>
    match s.zombie pid with
    | some status => some { s.setChild pid none with frames := ⟨sig, .reaped pid status⟩ :: rest }
    | none =>
      if s.forked.any fun p => (s.zombie p).isSome then none else some { s with frames := rest }
  | .reaped pid status => some { s with
      frames := ⟨sig, .waitpid⟩ :: rest
      cerr := s.cerr ++ [reapLine sig pid status] }

def act (s : Parent) : Event → Option Parent
  | .fork result =>
    match s.main, s.frames with
    | .fork loop, [] => s.fork loop result
    | _, _ => none
  | .childExits pid status =>
    if s.children pid = some .running then
      some { (s.setChild pid (some (.zombie status))).setPending .SIGCHLD true with
        ended := s.ended ++ [(pid, status)] }
    else none
  | .raise sig => some (s.setPending sig true)
  | .deliver sig =>
    if s.pending sig = true ∧ ∀ f ∈ s.frames, f.sig ≠ sig then
      some { s.setPending sig false with frames := ⟨sig, sigaction sig⟩ :: s.frames }
    else none
  | .handler pid =>
    match s.frames with
    | [] => none
    | ⟨sig, next⟩ :: rest => s.handle pid sig rest next

/-- After an `init_proc` that has returned. -/
def start : Parent := ⟨.fork 0, fun _ => false, [], fun _ => none, [], [], []⟩

end Parent

def Line.child : Line → Option (ℕ × ℤ)
  | .sigpipe_handler pid status | .sigchld_handler pid status => some (pid, status)
  | .sigterm_handler | .sighup_handler => none

def Parent.reported (s : Parent) : List (ℕ × ℤ) := s.cerr.filterMap Line.child

def Handler.child : Handler → Option (ℕ × ℤ)
  | .reaped pid status => some (pid, status)
  | .sigterm_handler | .sighup_handler | .waitpid => none

/-- What running handlers have reaped and not yet reported. -/
def Parent.held (s : Parent) : List (ℕ × ℤ) := s.frames.filterMap fun f => f.next.child

def Handler.Looping : Handler → Prop
  | .waitpid | .reaped _ _ => True
  | .sigterm_handler | .sighup_handler => False

/-- When the handler of SIGCHLD returns, no child is a zombie. -/
def Finds (s : Parent) (_ : Event) (t : Parent) : Prop :=
  ∀ f, s.frames = f :: t.frames → f.sig = .SIGCHLD → ∀ pid, t.zombie pid = none

end NetPrograms.ReaperModel
