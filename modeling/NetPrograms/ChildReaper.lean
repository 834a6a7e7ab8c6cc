import Mathlib.Data.List.Count
import Mathlib.Data.List.Perm.Subperm
import NetPrograms.ReaperModel

set_option autoImplicit false

namespace NetPrograms.ChildReaper
open ReaperModel RunInvariants

def unreaped (s : Parent) (x : ℕ × ℤ) : ℕ := if s.zombie x.1 = some x.2 then 1 else 0

def running (s : Parent) (pid : ℕ) : ℕ := if s.children pid = some .running then 1 else 0

structure Inv (s : Parent) : Prop where
  known : ∀ pid, s.children pid ≠ none → pid ∈ s.forked
  noticed : ∀ pid, s.zombie pid ≠ none →
    s.pending .SIGCHLD = true ∨ ∃ f ∈ s.frames, f.sig = .SIGCHLD
  loops : ∀ f ∈ s.frames, f.sig = .SIGCHLD → f.next.Looping
  balance : ∀ x, s.ended.count x = s.reported.count x + s.held.count x + unreaped s x
  forks : ∀ pid, s.forked.count pid = (s.ended.map Prod.fst).count pid + running s pid
  bounded : s.forked.length ≤ MAX_PID_CNT
  main : ∀ loop, s.main = .fork loop → s.forked.length = loop ∧ loop < MAX_PID_CNT

section
variable {s : Parent} {sig : Signal} {next : Handler} {rest : List Frame} (hi : Inv s)
  (hframes : s.frames = ⟨sig, next⟩ :: rest)
include hi hframes

end

theorem start_inv : Inv Parent.start :=
  ⟨fun _ hno => absurd rfl hno, fun _ hno => absurd rfl hno, nofun, fun _ => rfl, fun _ => rfl,
    Nat.zero_le _, fun _ h => ⟨Main.fork.inj h, Main.fork.inj h ▸ by decide⟩⟩

/-- Two children end before the first SIGCHLD is handled, and the handler reaps both. -/
example : (do
    let s ← [Event.fork (some 11), .fork (some 12), .childExits 11 0, .childExits 12 1,
      .deliver .SIGCHLD, .handler 12, .handler 0, .handler 11, .handler 0, .handler 0].foldlM
        Parent.act Parent.start
    pure (s.cerr, s.frames)) =
      some ([.sigchld_handler 12 1, .sigchld_handler 11 0], []) := by decide

end NetPrograms.ChildReaper
