import Mathlib.Data.Nat.Notation
import Mathlib.Logic.Function.Basic
import NetPrograms.RunInvariants

set_option autoImplicit false

/-!
# The threads of `pthread/main.c`

`main` starts a thread for each argument after the options, and joins them in order. A thread
makes an upper-case copy of its argument. `printf` of `thread_start` is left out, and so are the
thread attributes and what precedes `calloc`.
-/
namespace NetPrograms.ThreadJoinModel

variable {α : Type*}

structure CString where
  bytes : List UInt8
  noNul : 0 ∉ bytes

/-- The command line behind `getopt`. -/
structure Args where
  argc : ℕ
  optind : ℕ
  argv : ℕ → CString

def Args.num_threads (args : Args) : ℕ := args.argc - args.optind

def toupper (c : UInt8) : UInt8 := if 0x61 ≤ c ∧ c ≤ 0x7a then c - 0x20 else c

/-- `argv_string` is an index of `argv`, or NULL. -/
structure ThreadInfo where
  thread_id : ℕ
  thread_num : ℕ
  argv_string : Option ℕ
  deriving DecidableEq, Repr

/-- What `strdup` has allocated, and the thread that called it. -/
structure Cell where
  bytes : List UInt8
  owner : ℕ
  deriving DecidableEq, Repr

inductive Main (α : Type*) where
  | calloc
  | fill (tnum : ℕ)
  | create (tnum : ℕ)
  | join (tnum : ℕ)
  | printf (tnum : ℕ) (res : α)
  | free (tnum : ℕ) (res : α)
  | freeTinfo
  | exited (success : Bool)
  deriving DecidableEq, Repr

inductive Thread (α : Type*) where
  | uncreated
  | strdup (tinfo : ℕ)
  /-- At the condition `*p != '\0'`, with the index `p` in `uargv`. -/
  | loop (uargv : α) (p : ℕ)
  | returned (uargv : α)
  | joined
  deriving DecidableEq, Repr

structure System (α : Type*) where
  main : Main α
  thread : ℕ → Thread α
  heap : α → Option Cell
  tinfo : Option (ℕ → ThreadInfo)
  printed : List (ℕ × List UInt8)

/-- What a call does; `cell` is what `strdup` has got. -/
inductive Outcome (α : Type*) where
  | ok
  | fails
  | cell (a : α)
  deriving DecidableEq, Repr

def joinLoop (args : Args) (tnum : ℕ) : Main α :=
  if tnum < args.num_threads then .join tnum else .freeTinfo

def createLoop (args : Args) (tnum : ℕ) : Main α :=
  if tnum < args.num_threads then .fill tnum else joinLoop args 0

def cstring (bytes : List UInt8) : List UInt8 := bytes.takeWhile (· ≠ 0)

namespace System
variable [DecidableEq α]

def setThread (i : ℕ) (t : Thread α) (s : System α) : System α :=
  { s with thread := Function.update s.thread i t }

def setHeap (a : α) (cell : Option Cell) (s : System α) : System α :=
  { s with heap := Function.update s.heap a cell }

def setTinfo (tnum : ℕ) (f : ThreadInfo → ThreadInfo) (s : System α) (next : Main α) :
    Option (System α) :=
  s.tinfo.map fun info => { s with
    main := next
    tinfo := some (Function.update info tnum (f (info tnum))) }

/-- `pthread_join` blocks until the thread has returned. -/
def join (tnum : ℕ) (s : System α) : Option (System α) :=
  match s.tinfo with
  | some info =>
    match s.thread (info tnum).thread_id with
    | .returned uargv =>
      some { s.setThread (info tnum).thread_id .joined with main := .printf tnum uargv }
    | _ => none
  | none => none

def printf (tnum : ℕ) (res : α) (s : System α) : Option (System α) :=
  match s.tinfo, s.heap res with
  | some info, some cell =>
    some { s with
      main := .free tnum res
      printed := s.printed ++ [((info tnum).thread_num, cstring cell.bytes)] }
  | _, _ => none

/-- An access to what is not allocated has no result. A failing call ends the process. -/
def mainAct (args : Args) (o : Outcome α) (s : System α) : Option (System α) :=
  match s.main, o with
  | .calloc, .ok =>
    some { s with main := createLoop args 0, tinfo := some fun _ => ⟨0, 0, none⟩ }
  | .fill tnum, .ok => s.setTinfo tnum
      (fun info => { info with thread_num := tnum + 1, argv_string := some (args.optind + tnum) })
      (.create tnum)
  | .create tnum, .ok => (s.setThread tnum (.strdup tnum)).setTinfo tnum
      (fun info => { info with thread_id := tnum }) (createLoop args (tnum + 1))
  | .join tnum, .ok => s.join tnum
  | .printf tnum res, .ok => s.printf tnum res
  | .free tnum res, .ok => (s.heap res).map fun _ =>
      { s.setHeap res none with main := joinLoop args (tnum + 1) }
  | .freeTinfo, .ok => s.tinfo.map fun _ => { s with main := .exited true, tinfo := none }
  | .calloc, .fails | .create _, .fails | .join _, .fails => some { s with main := .exited false }
  | _, _ => none

def strdup (args : Args) (i : ℕ) (tinfo : ℕ) (a : α) (s : System α) : Option (System α) :=
  match s.tinfo with
  | some info =>
    match (info tinfo).argv_string with
    | some k =>
      if s.heap a = none then
        some ((s.setHeap a (some ⟨(args.argv k).bytes ++ [0], i⟩)).setThread i (.loop a 0))
      else none
    | none => none
  | none => none

def upper (i : ℕ) (uargv : α) (p : ℕ) (s : System α) : Option (System α) :=
  match s.heap uargv with
  | some cell =>
    match cell.bytes[p]? with
    | some c =>
      if c = 0 then some (s.setThread i (.returned uargv))
      else
        let copy := { cell with bytes := cell.bytes.set p (toupper c) }
        some ((s.setHeap uargv (some copy)).setThread i (.loop uargv (p + 1)))
    | none => none
  | none => none

def threadAct (args : Args) (i : ℕ) (o : Outcome α) (s : System α) : Option (System α) :=
  match s.thread i, o with
  | .strdup tinfo, .cell a => s.strdup args i tinfo a
  | .strdup _, .fails => some { s with main := .exited false }
  | .loop uargv p, .ok => s.upper i uargv p
  | _, _ => none

def act (args : Args) (who : Option ℕ) (o : Outcome α) (s : System α) : Option (System α) :=
  match who with
  | none => s.mainAct args o
  | some i => s.threadAct args i o

end System

def start : System α := ⟨.calloc, fun _ => .uncreated, fun _ => none, none, []⟩

def Steps [DecidableEq α] (args : Args) (s : System α) (a : Option ℕ × Outcome α)
    (t : System α) : Prop :=
  (∀ success, s.main ≠ .exited success) ∧ s.act args a.1 a.2 = some t

def result (args : Args) (i : ℕ) : List UInt8 :=
  (args.argv (args.optind + i)).bytes.map toupper

def Thread.cell : Thread α → Option α
  | .loop uargv _ | .returned uargv => some uargv
  | .uncreated | .strdup _ | .joined => none

/-- The results are printed in the order of the arguments, all of them if the program succeeds,
and then all memory has been freed. No thread uses memory that is not allocated or that another
thread has, and `pthread_join` is called for threads that exist and have not been joined. -/
structure Joins (args : Args) (s : System α) : Prop where
  printed : ∃ k ≤ args.num_threads,
    s.printed = (List.range k).map (fun i => (i + 1, result args i)) ∧
      (s.main = .exited true → k = args.num_threads)
  freed : s.main = .exited true → s.tinfo = none ∧ ∀ a, s.heap a = none
  copies : ∀ i tinfo, s.thread i = .strdup tinfo →
    ∃ info, s.tinfo = some info ∧ (info tinfo).argv_string = some (args.optind + i)
  inside : ∀ i uargv p, s.thread i = .loop uargv p →
    ∃ cell, s.heap uargv = some cell ∧ p < cell.bytes.length
  apart : ∀ i j a, (s.thread i).cell = some a → (s.thread j).cell = some a → i = j
  results : ∀ tnum res, s.main = .printf tnum res ∨ s.main = .free tnum res →
    s.heap res ≠ none ∧ ∀ i, (s.thread i).cell ≠ some res
  joinable : ∀ tnum, s.main = .join tnum →
    s.thread tnum ≠ .uncreated ∧ s.thread tnum ≠ .joined ∧
      ∃ info, s.tinfo = some info ∧ (info tnum).thread_id = tnum

end NetPrograms.ThreadJoinModel
