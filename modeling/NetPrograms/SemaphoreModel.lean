import Mathlib.Data.PNat.Notation
import Mathlib.Data.PNat.Defs
import Mathlib.Data.Fintype.Defs
import NetPrograms.Interleaving

set_option autoImplicit false

/-!
# The System V semaphore program

Processes that run `net/semaphores/main.c`, one system call at a time. All of them use one key,
so at most one set exists at a time; `semget` never gives the identifier of a removed set again.
-/
namespace NetPrograms.SemaphoreModel
open Interleaving

variable {P : Type*}

inductive Errno where
  | EEXIST
  | ENOSPC
  deriving DecidableEq, Repr

structure SemSet (P : Type*) where
  id : ℕ
  value : ℤ
  sem_otime : ℕ
  creator : P

structure Kernel (P : Type*) where
  set : Option (SemSet P)
  /-- Sets made so far, which is also the identifier of the next one. -/
  created : ℕ

inductive SemopResult (P : Type*) where
  | blocks
  | fails
  | succeeds (k : Kernel P)

def SEMVMX : ℤ := 32767

namespace Kernel

/-- The set with the identifier `semid`; `none` is the result -1 of a failed `semget`. -/
def find (semid : Option ℕ) (k : Kernel P) : Option (SemSet P) :=
  k.set.filter fun s => semid = some s.id

/-- `semget(key, 1, flags)`; `excl` is `IPC_EXCL`, and `full` that there is no room for a set. -/
def semget (p : P) (excl full : Bool) (k : Kernel P) : Except Errno ℕ × Kernel P :=
  match k.set with
  | some s => (if excl then .error .EEXIST else .ok s.id, k)
  | none =>
    if full then (.error .ENOSPC, k)
    else (.ok k.created, ⟨some ⟨k.created, 0, 0, p⟩, k.created + 1⟩)

/-- `IPC_STAT`, of which the program uses what it reads as `sem_otime`. -/
def stat (semid : Option ℕ) (otime : ℕ) (k : Kernel P) : Option ℕ :=
  (k.find semid).map fun _ => otime

def setval (semid : Option ℕ) (val : ℤ) (k : Kernel P) : Kernel P :=
  match k.find semid with
  | some s => { k with set := some { s with value := val } }
  | none => k

def rmid (semid : Option ℕ) (k : Kernel P) : Kernel P :=
  match k.find semid with
  | some _ => { k with set := none }
  | none => k

/-- `semop` with one operation other than 0. `SEM_UNDO` acts when a process exits, and then its
set has been removed. -/
def semop (semid : Option ℕ) (sem_op : ℤ) (now : ℕ+) (k : Kernel P) : SemopResult P :=
  match k.find semid with
  | none => .fails
  | some s =>
    if s.value + sem_op < 0 then .blocks
    else if SEMVMX < s.value + sem_op then .fails
    else .succeeds { k with
      set := some { s with value := s.value + sem_op, sem_otime := now } }

end Kernel

def max_tries : ℕ := 3

inductive Pc where
  | semgetExcl
  | semgetCreat
  | tryStat
  | setval
  | stat
  | info
  | askfor_res
  | free_res
  | rmid
  | exited
  deriving DecidableEq, Repr

structure Process where
  pc : Pc
  semid : Option ℕ
  i : ℕ
  init_ok : Bool
  deriving DecidableEq, Repr

namespace Process

def start : Process := ⟨.semgetExcl, none, 0, false⟩

def tryBody (otime : Option ℕ) (l : Process) : Process :=
  match otime with
  | none => { l with i := max_tries }
  | some t => if t ≠ 0 then { l with i := max_tries, init_ok := true } else l

def nextTry (l : Process) : Process :=
  if l.i + 1 < max_tries then { l with i := l.i + 1 }
  else { l with i := l.i + 1, pc := if l.init_ok then .stat else .setval }

end Process

/-- What the environment of a call decides: whether there is room for a set, the time, and what
`arg.buf->sem_otime` is after `IPC_STAT`. The layout that `linux/sem.h` gives `struct semid_ds` need
not be the one that `semctl` fills: on x86-64 the two have `sem_otime` at different offsets. -/
structure Outside where
  full : Bool
  now : ℕ+
  otime : ℕ

/-- `main`, up to its next system call. Every call but `semop` on a set that exists returns. -/
def main (p : P) (o : Outside) (k : Kernel P) (l : Process) : Option (Kernel P × Process) :=
  match l.pc with
  | .semgetExcl =>
    match k.semget p true o.full with
    | (.ok id, k) => some (k, { l with pc := .setval, semid := some id })
    | (.error tmperrno, k) =>
      if tmperrno = .EEXIST then some (k, { l with pc := .semgetCreat, semid := none })
      else some (k, { l with pc := .exited, semid := none })
  | .semgetCreat =>
    match k.semget p false o.full with
    | (.ok id, k) => some (k, { l with pc := .tryStat, semid := some id, i := 0 })
    | (.error _, k) => some (k, { l with pc := .tryStat, semid := none, i := 0 })
  | .tryStat => some (k, (l.tryBody (k.stat l.semid o.otime)).nextTry)
  | .setval => some (k.setval l.semid 1, { l with pc := .stat })
  | .stat => some (k, { l with pc := .info })
  | .info => some (k, { l with pc := .askfor_res })
  | .askfor_res =>
    match k.semop l.semid (-1) o.now with
    | .blocks => none
    | .fails => some (k, { l with pc := .free_res })
    | .succeeds k => some (k, { l with pc := .free_res })
  | .free_res =>
    match k.semop l.semid 1 o.now with
    | .blocks => none
    | .fails => some (k, { l with pc := .rmid })
    | .succeeds k => some (k, { l with pc := .rmid })
  | .rmid => some (k.rmid l.semid, { l with pc := .exited })
  | .exited => none

abbrev System (P : Type*) := Config P (Kernel P) Process

def start : System P := ⟨⟨none, 0⟩, fun _ => .start⟩

def Exclusive (c : System P) : Prop :=
  c.Pairwise fun l m => ¬(l.pc = .free_res ∧ m.pc = .free_res)

/-- The last try of a process does not read 0 as `sem_otime` once a `semop` has been made on the
set. -/
def ReadsOtime (c : System P) (a : P × Outside) : Prop :=
  ∀ s, c.shared.find (c.thread a.1).semid = some s → (c.thread a.1).pc = .tryStat →
    max_tries ≤ (c.thread a.1).i + 1 → a.2.otime = 0 → s.sem_otime = 0

/-- Only the creator of a set makes its last try while no `semop` has been made on the set: the
others find the creator's first `semop` done. -/
def Punctual (c : System P) (a : P × Outside) : Prop :=
  ∀ s, c.shared.find (c.thread a.1).semid = some s → (c.thread a.1).pc = .tryStat →
    s.sem_otime = 0 → max_tries ≤ (c.thread a.1).i + 1 → s.creator = a.1

/-- A set is removed only when all other processes that have its identifier have made their last
`semop`, and a process that does not get the set of another gets one of its own. -/
structure Orderly (c : System P) (a : P × Outside) : Prop where
  rmid : ∀ s, c.shared.find (c.thread a.1).semid = some s → (c.thread a.1).pc = .rmid →
    ∀ q, q ≠ a.1 → (c.thread q).semid = some s.id →
      (c.thread q).pc = .rmid ∨ (c.thread q).pc = .exited
  semget : (c.thread a.1).pc = .semgetCreat → c.shared.set = none → a.2.full = false

instance (c : System P) (a : P × Outside) : Decidable (ReadsOtime c a) :=
  decidable_of_iff (∀ s ∈ c.shared.find (c.thread a.1).semid, (c.thread a.1).pc = .tryStat →
    max_tries ≤ (c.thread a.1).i + 1 → a.2.otime = 0 → s.sem_otime = 0) Iff.rfl

instance (c : System P) (a : P × Outside) [DecidableEq P] : Decidable (Punctual c a) :=
  decidable_of_iff (∀ s ∈ c.shared.find (c.thread a.1).semid, (c.thread a.1).pc = .tryStat →
    s.sem_otime = 0 → max_tries ≤ (c.thread a.1).i + 1 → s.creator = a.1) Iff.rfl

instance (c : System P) (a : P × Outside) [DecidableEq P] [Fintype P] : Decidable (Orderly c a) :=
  decidable_of_iff
    ((∀ s ∈ c.shared.find (c.thread a.1).semid, (c.thread a.1).pc = .rmid →
      ∀ q, q ≠ a.1 → (c.thread q).semid = some s.id →
        (c.thread q).pc = .rmid ∨ (c.thread q).pc = .exited) ∧
      ((c.thread a.1).pc = .semgetCreat → c.shared.set.isNone → a.2.full = false))
    ⟨fun h => ⟨h.1, fun hpc hset => h.2 hpc (Option.isNone_iff_eq_none.mpr hset)⟩,
      fun h => ⟨h.1, fun hpc hset => h.2 hpc (Option.isNone_iff_eq_none.mp hset)⟩⟩

end NetPrograms.SemaphoreModel
