import Mathlib.Logic.Function.Basic
import Mathlib.Tactic.TypeStar

set_option autoImplicit false

/-!
# Edge-triggered readiness

An instance watches open files, each through a mask. A file gets on the list of the instance
when a change gives it something new to report and when its mask is set; a wait takes files off
the list. Whoever has taken a file holds it until he sets its mask again or closes it.
-/
namespace NetPrograms.EdgePoll

structure Instance (D F M : Type*) where
  file : D → Option F
  interest : D → Option M
  listed : D → Bool

variable {D F M : Type*} [DecidableEq D] (due : F → M → Bool)

namespace Instance

def opened (d : D) (f : F) (s : Instance D F M) : Instance D F M where
  file := Function.update s.file d (some f)
  interest := Function.update s.interest d none
  listed := Function.update s.listed d false

def closed (d : D) (s : Instance D F M) : Instance D F M where
  file := Function.update s.file d none
  interest := Function.update s.interest d none
  listed := Function.update s.listed d false

/-- The mask of `d` becomes `m`; `b` says whether `d` is on the list then. -/
def watched (d : D) (m : M) (b : Bool) (s : Instance D F M) : Instance D F M :=
  { s with
    interest := Function.update s.interest d (some m)
    listed := Function.update s.listed d b }

def add (d : D) (m : M) (s : Instance D F M) : Option (Instance D F M) :=
  match s.file d, s.interest d with
  | some f, none => some (s.watched d m (due f m))
  | _, _ => none

def modify (d : D) (m : M) (s : Instance D F M) : Option (Instance D F M) :=
  match s.file d, s.interest d with
  | some f, some _ => some (s.watched d m (s.listed d || due f m))
  | _, _ => none

/-- The file behind `d` becomes `f`; `wakes` says whether it gets on the list. -/
def changed (d : D) (f : F) (wakes : Bool) (s : Instance D F M) : Instance D F M :=
  { s with
    file := Function.update s.file d (some f)
    listed := Function.update s.listed d (s.listed d || wakes) }

def taken (ds : List D) (s : Instance D F M) : Instance D F M :=
  { s with listed := fun d => s.listed d && !decide (d ∈ ds) }

section
variable (d e : D) (f : F) (m : M) (b wakes : Bool) (s : Instance D F M)

theorem opened_file : (s.opened d f).file e = if e = d then some f else s.file e :=
  Function.update_apply _ _ _ _

theorem opened_interest : (s.opened d f).interest e = if e = d then none else s.interest e :=
  Function.update_apply _ _ _ _

theorem opened_listed : (s.opened d f).listed e = if e = d then false else s.listed e :=
  Function.update_apply _ _ _ _

theorem closed_file : (s.closed d).file e = if e = d then none else s.file e :=
  Function.update_apply _ _ _ _

theorem closed_interest : (s.closed d).interest e = if e = d then none else s.interest e :=
  Function.update_apply _ _ _ _

theorem closed_listed : (s.closed d).listed e = if e = d then false else s.listed e :=
  Function.update_apply _ _ _ _

theorem watched_interest :
    (s.watched d m b).interest e = if e = d then some m else s.interest e :=
  Function.update_apply _ _ _ _

theorem watched_listed : (s.watched d m b).listed e = if e = d then b else s.listed e :=
  Function.update_apply _ _ _ _

theorem changed_file : (s.changed d f wakes).file e = if e = d then some f else s.file e :=
  Function.update_apply _ _ _ _

theorem changed_listed :
    (s.changed d f wakes).listed e = if e = d then s.listed d || wakes else s.listed e :=
  Function.update_apply _ _ _ _

end
end Instance

/-- A change that gives the file something new to report wakes. -/
def Wakes (s : Instance D F M) (d : D) (f : F) (wakes : Bool) : Prop :=
  ∀ old m, s.file d = some old → s.interest d = some m → due old m = false → due f m = true →
    wakes = true

/-- A file that has something to report is on the list or held. -/
def Armed (held : D → Prop) (s : Instance D F M) : Prop :=
  ∀ d f m, s.file d = some f → s.interest d = some m → due f m = true → ¬held d →
    s.listed d = true

variable {due} {held held' : D → Prop} {s t : Instance D F M} {d : D}

theorem add_eq {f : F} {m : M} (hf : s.file d = some f) (hm : s.interest d = none) :
    s.add due d m = some (s.watched d m (due f m)) := by
  simp only [Instance.add, hf, hm]

theorem modify_eq {f : F} {m old : M} (hf : s.file d = some f) (hm : s.interest d = some old) :
    s.modify due d m = some (s.watched d m (s.listed d || due f m)) := by
  simp only [Instance.modify, hf, hm]

omit [DecidableEq D] in
theorem Armed.mono (h : Armed due held s) (hh : ∀ e, held e → held' e) : Armed due held' s :=
  fun e f m hf hm hdue hnot => h e f m hf hm hdue fun hheld => hnot (hh e hheld)

omit [DecidableEq D] in
theorem Armed.at (h : Armed due held s) (hfile : ∀ e, e ≠ d → t.file e = s.file e)
    (hinterest : ∀ e, e ≠ d → t.interest e = s.interest e)
    (hlisted : ∀ e, e ≠ d → s.listed e = true → t.listed e = true)
    (hh : ∀ e, e ≠ d → held e → held' e)
    (hd : ∀ f m, t.file d = some f → t.interest d = some m → due f m = true → ¬held' d →
      t.listed d = true) : Armed due held' t := by
  intro e f m hf hm hdue hnot
  by_cases he : e = d
  · subst he
    exact hd f m hf hm hdue hnot
  · rw [hfile e he] at hf
    rw [hinterest e he] at hm
    exact hlisted e he (h e f m hf hm hdue fun hheld => hnot (hh e he hheld))

theorem Armed.opened {f : F} (h : Armed due held s) (hh : ∀ e, e ≠ d → held e → held' e) :
    Armed due held' (s.opened d f) := by
  refine h.at (d := d) (fun e he => ?_) (fun e he => ?_) (fun e he hl => ?_) hh
    fun g m _ hm => ?_
  · rw [Instance.opened_file, if_neg he]
  · rw [Instance.opened_interest, if_neg he]
  · rw [Instance.opened_listed, if_neg he]
    exact hl
  · rw [Instance.opened_interest, if_pos rfl] at hm
    cases hm

theorem Armed.closed (h : Armed due held s) (hh : ∀ e, e ≠ d → held e → held' e) :
    Armed due held' (s.closed d) := by
  refine h.at (d := d) (fun e he => ?_) (fun e he => ?_) (fun e he hl => ?_) hh
    fun g m hg => ?_
  · rw [Instance.closed_file, if_neg he]
  · rw [Instance.closed_interest, if_neg he]
  · rw [Instance.closed_listed, if_neg he]
    exact hl
  · rw [Instance.closed_file, if_pos rfl] at hg
    cases hg

theorem Armed.watched {f : F} {m : M} {b : Bool} (h : Armed due held s) (hf : s.file d = some f)
    (hb : due f m = true → b = true) (hh : ∀ e, e ≠ d → held e → held' e) :
    Armed due held' (s.watched d m b) := by
  refine h.at (d := d) (fun _ _ => rfl) (fun e he => ?_) (fun e he hl => ?_) hh
    fun g k hg hk hdue _ => ?_
  · rw [Instance.watched_interest, if_neg he]
  · rw [Instance.watched_listed, if_neg he]
    exact hl
  · obtain rfl := Option.some.inj (hf.symm.trans hg)
    rw [Instance.watched_interest, if_pos rfl] at hk
    obtain rfl := Option.some.inj hk
    rw [Instance.watched_listed, if_pos rfl]
    exact hb hdue

theorem Armed.changed {f : F} {wakes : Bool} (h : Armed due held s)
    (hopen : s.file d ≠ none) (hwakes : Wakes due s d f wakes) :
    Armed due held (s.changed d f wakes) := by
  obtain ⟨old, hold⟩ := Option.ne_none_iff_exists'.mp hopen
  refine h.at (d := d) (fun e he => ?_) (fun _ _ => rfl) (fun e he hl => ?_) (fun _ _ => id)
    fun g m hg hm hdue hnot => ?_
  · rw [Instance.changed_file, if_neg he]
  · rw [Instance.changed_listed, if_neg he]
    exact hl
  · rw [Instance.changed_file, if_pos rfl] at hg
    obtain rfl := Option.some.inj hg
    rw [Instance.changed_listed, if_pos rfl]
    cases hwas : due old m with
    | false => rw [hwakes old m hold hm hwas hdue, Bool.or_true]
    | true => rw [h d old m hold hm hwas hnot, Bool.true_or]

theorem Armed.taken {ds : List D} (h : Armed due held s) (hh : ∀ e, held e → held' e)
    (hds : ∀ e ∈ ds, held' e ∨ ∀ f m, s.file e = some f → s.interest e = some m →
      due f m = false) : Armed due held' (s.taken ds) := by
  intro e f m hf hm hdue hnot
  have hlisted := h e f m hf hm hdue fun hheld => hnot (hh e hheld)
  have hmem : e ∉ ds := by
    intro he
    rcases hds e he with hheld | hidle
    · exact hnot hheld
    · exact Bool.false_ne_true ((hidle f m hf hm).symm.trans hdue)
  change (s.listed e && !decide (e ∈ ds)) = true
  rw [hlisted, decide_eq_false hmem]
  rfl

end NetPrograms.EdgePoll
