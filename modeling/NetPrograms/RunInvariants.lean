import Mathlib.Tactic.TypeStar
import Mathlib.Data.List.Infix

set_option autoImplicit false

/-!
# Runs of a labelled step relation

A system is a relation `step s a t`: label `a` takes state `s` to state `t`.
The labels carry every choice the environment makes, so that one list of labels
fixes a run. Nothing here depends on the systems that use it.
-/
namespace NetPrograms.RunInvariants

variable {S A : Type*}

inductive Run (step : S → A → S → Prop) : S → List A → S → Prop where
  | refl (s : S) : Run step s [] s
  | next {s u t : S} {a : A} {as : List A} (h : step s a u)
      (tail : Run step u as t) : Run step s (a :: as) t

/-- `P` holds in every state the run passes through, both ends included. -/
def Always (step : S → A → S → Prop) (P : S → Prop) : S → List A → Prop
  | s, [] => P s
  | s, a :: as => P s ∧ ∀ t, step s a t → Always step P t as

/-- `C` holds of every step of the run: the state before, the label, the state after. -/
def EachStep (step : S → A → S → Prop) (C : S → A → S → Prop) : S → List A → Prop
  | _, [] => True
  | s, a :: as => ∀ t, step s a t → C s a t ∧ EachStep step C t as

variable {step : S → A → S → Prop}

theorem Run.trans {s u t : S} {as bs : List A} (h : Run step s as u) (h' : Run step u bs t) :
    Run step s (as ++ bs) t := by
  induction h with
  | refl _ => exact h'
  | next hs _ ih => exact .next hs (ih h')

theorem Always.head {P : S → Prop} {s : S} {as : List A} (h : Always step P s as) : P s := by
  cases as with
  | nil => exact h
  | cons a as => exact h.1

theorem Always.mono {P Q : S → Prop} (hPQ : ∀ s, P s → Q s) {s : S} {as : List A}
    (h : Always step P s as) : Always step Q s as := by
  induction as generalizing s with
  | nil => exact hPQ s h
  | cons a as ih => exact ⟨hPQ s h.1, fun t ht => ih (h.2 t ht)⟩

theorem always_iff_run (P : S → Prop) (s : S) (as : List A) :
    Always step P s as ↔ ∀ bs t, bs <+: as → Run step s bs t → P t := by
  induction as generalizing s with
  | nil =>
    constructor
    · intro h bs t hbs hrun
      obtain rfl := List.prefix_nil.mp hbs
      cases hrun
      exact h
    · intro h
      exact h [] s List.prefix_rfl (.refl s)
  | cons a as ih =>
    constructor
    · rintro ⟨hs, htail⟩ bs t hbs hrun
      cases hrun with
      | refl _ => exact hs
      | next hstep hrest =>
        obtain ⟨rfl, hpre⟩ := List.cons_prefix_cons.mp hbs
        exact (ih _).mp (htail _ hstep) _ t hpre hrest
    · intro h
      refine ⟨h [] s List.nil_prefix (.refl s), fun u hu => (ih u).mpr ?_⟩
      intro bs t hbs hrun
      exact h (a :: bs) t (List.cons_prefix_cons.mpr ⟨rfl, hbs⟩) (.next hu hrun)

theorem eachStep_iff_run (C : S → A → S → Prop) (s : S) (as : List A) :
    EachStep step C s as ↔ ∀ bs a cs t u, as = bs ++ a :: cs → Run step s bs t → step t a u →
      C t a u := by
  induction as generalizing s with
  | nil => exact ⟨fun _ bs a cs t u h => absurd h (by simp), fun _ => trivial⟩
  | cons a as ih =>
    constructor
    · intro h bs b cs t u hsplit hrun hstep
      cases hrun with
      | refl _ =>
        obtain ⟨rfl, _⟩ := List.cons.inj hsplit
        exact (h u hstep).1
      | next hfirst hrest =>
        obtain ⟨rfl, hsplit'⟩ := List.cons.inj hsplit
        exact (ih _).mp (h _ hfirst).2 _ b cs t u hsplit' hrest hstep
    · intro h u hu
      refine ⟨h [] a as s u rfl (.refl s) hu, (ih u).mpr ?_⟩
      intro bs b cs t v hsplit hrun hstep
      exact h (a :: bs) b cs t v (congrArg (a :: ·) hsplit) (.next hu hrun) hstep

theorem EachStep.of_labels {L : A → Prop} {as : List A} (h : ∀ a ∈ as, L a) (s : S) :
    EachStep step (fun _ a _ => L a) s as := by
  induction as generalizing s with
  | nil => trivial
  | cons a as ih =>
    obtain ⟨ha, hrest⟩ := List.forall_mem_cons.mp h
    exact fun t _ => ⟨ha, ih hrest t⟩

/-- `C` holds along the one run that `f` computes, and that run has no error. -/
def checkRun {T E : Type*} (f : T → A → Except E T) (C : T → A → T → Bool) : T → List A → Bool
  | _, [] => true
  | s, a :: as =>
    match f s a with
    | .ok t => C s a t && checkRun f C t as
    | .error _ => false

theorem EachStep.of_check {T E : Type*} {f : T → A → Except E T} {C : T → A → T → Bool}
    {D : S → A → S → Prop} (π : S → T)
    (hf : ∀ {s a t u}, f (π s) a = .ok u → C (π s) a u = true → step s a t → u = π t)
    (hD : ∀ {s a t}, C (π s) a (π t) = true → D s a t) {s : S} {as : List A}
    (h : checkRun f C (π s) as = true) : EachStep step D s as := by
  induction as generalizing s with
  | nil => trivial
  | cons a as ih =>
    intro t ht
    rw [checkRun] at h
    split at h
    · next u hu =>
      obtain ⟨hc, hrest⟩ := Bool.and_eq_true_iff.mp h
      obtain rfl := hf hu hc ht
      exact ⟨hD hc, ih hrest⟩
    · cases h

theorem eachStep_cons {C : S → A → S → Prop} {s u : S} {a : A} {as : List A} (h : step s a u)
    (hu : ∀ t, step s a t → t = u) :
    EachStep step C s (a :: as) ↔ C s a u ∧ EachStep step C u as := by
  constructor
  · exact fun hall => hall u h
  · intro hone t ht
    obtain rfl := hu t ht
    exact hone

theorem EachStep.mono {C D : S → A → S → Prop} (hCD : ∀ s a t, C s a t → D s a t) {s : S}
    {as : List A} (h : EachStep step C s as) : EachStep step D s as := by
  induction as generalizing s with
  | nil => trivial
  | cons a as ih => exact fun t ht => ⟨hCD s a t (h t ht).1, ih (h t ht).2⟩

theorem EachStep.and {C D : S → A → S → Prop} {s : S} {as : List A} (h : EachStep step C s as)
    (h' : EachStep step D s as) : EachStep step (fun s a t => C s a t ∧ D s a t) s as := by
  induction as generalizing s with
  | nil => trivial
  | cons a as ih => exact fun t ht => ⟨⟨(h t ht).1, (h' t ht).1⟩, ih (h t ht).2 (h' t ht).2⟩

theorem EachStep.of_prefix {C : S → A → S → Prop} {s : S} {as bs : List A}
    (h : EachStep step C s as) (hb : bs <+: as) : EachStep step C s bs := by
  induction bs generalizing s as with
  | nil => trivial
  | cons b bs ih =>
    cases as with
    | nil => exact absurd hb (by simp)
    | cons a as =>
      obtain ⟨rfl, hpre⟩ := List.cons_prefix_cons.mp hb
      exact fun t ht => ⟨(h t ht).1, ih (h t ht).2 hpre⟩

/-- The run rule under a condition `G` on the steps: an invariant that steps meeting `G`
preserve, and under which they do what `C` says. -/
theorem EachStep.of_invariant {G C : S → A → S → Prop} (I : S → Prop)
    (hp : ∀ s a t, I s → step s a t → G s a t → C s a t ∧ I t)
    {s : S} {as : List A} (hG : EachStep step G s as) (hs : I s) : EachStep step C s as := by
  induction as generalizing s with
  | nil => trivial
  | cons a as ih =>
    intro t ht
    obtain ⟨hg, hrest⟩ := hG t ht
    obtain ⟨hc, hi⟩ := hp s a t hs ht hg
    exact ⟨hc, ih hrest hi⟩

theorem Always.of_invariant {G : S → A → S → Prop} (I : S → Prop)
    (hp : ∀ s a t, I s → step s a t → G s a t → I t)
    {s : S} {as : List A} (hG : EachStep step G s as) (hs : I s) : Always step I s as := by
  induction as generalizing s with
  | nil => exact hs
  | cons a as ih =>
    exact ⟨hs, fun t ht => ih (hG t ht).2 (hp s a t hs ht (hG t ht).1)⟩

/-- Exact conditions lift from steps to runs: if from a good state a step leads to a good
state exactly when `C` holds, then all states of a run are good exactly when all its steps
meet `C`. `I` and `G` are what the steps may rely on; `I` need only outlast good steps. -/
theorem always_iff_eachStep_while {P I : S → Prop} {G C : S → A → S → Prop}
    (hp : ∀ s a t, I s → P s → step s a t → G s a t → (P t ↔ C s a t) ∧ (C s a t → I t))
    {s : S} {as : List A} (hG : EachStep step G s as) (hI : I s) (hP : P s) :
    Always step P s as ↔ EachStep step C s as := by
  induction as generalizing s with
  | nil => exact ⟨fun _ => trivial, fun _ => hP⟩
  | cons a as ih =>
    constructor
    · rintro ⟨_, htail⟩ t ht
      obtain ⟨hg, hrest⟩ := hG t ht
      obtain ⟨hiff, hkeep⟩ := hp s a t hI hP ht hg
      have hPt := (htail t ht).head
      have hc := hiff.mp hPt
      exact ⟨hc, (ih hrest (hkeep hc) hPt).mp (htail t ht)⟩
    · intro h
      refine ⟨hP, fun t ht => ?_⟩
      obtain ⟨hg, hrest⟩ := hG t ht
      obtain ⟨hiff, hkeep⟩ := hp s a t hI hP ht hg
      have hc := (h t ht).1
      exact (ih hrest (hkeep hc) (hiff.mpr hc)).mpr (h t ht).2

theorem always_iff_eachStep {P I : S → Prop} {G C : S → A → S → Prop}
    (hp : ∀ s a t, I s → P s → step s a t → G s a t → I t ∧ (P t ↔ C s a t))
    {s : S} {as : List A} (hG : EachStep step G s as) (hI : I s) (hP : P s) :
    Always step P s as ↔ EachStep step C s as := by
  refine always_iff_eachStep_while (fun s a t hi hs ht hg => ?_) hG hI hP
  obtain ⟨hkeep, hiff⟩ := hp s a t hi hs ht hg
  exact ⟨hiff, fun _ => hkeep⟩

/-- The same for a property of steps: `Q` holds of all steps exactly when `C` does, if from
an invariant state it does so for one step and steps meeting `C` keep the invariant. -/
theorem eachStep_iff_eachStep {I : S → Prop} {G Q C : S → A → S → Prop}
    (hp : ∀ s a t, I s → step s a t → G s a t → (Q s a t ↔ C s a t) ∧ (C s a t → I t))
    {s : S} {as : List A} (hG : EachStep step G s as) (hI : I s) :
    EachStep step Q s as ↔ EachStep step C s as := by
  induction as generalizing s with
  | nil => exact Iff.rfl
  | cons a as ih =>
    constructor <;> intro h t ht <;>
      obtain ⟨hg, hrest⟩ := hG t ht <;>
      obtain ⟨hiff, hkeep⟩ := hp s a t hI ht hg
    · have hc := hiff.mp (h t ht).1
      exact ⟨hc, (ih hrest (hkeep hc)).mp (h t ht).2⟩
    · have hc := (h t ht).1
      exact ⟨hiff.mpr hc, (ih hrest (hkeep hc)).mpr (h t ht).2⟩

end NetPrograms.RunInvariants
