import Mathlib.Data.List.Basic
import Mathlib.Data.List.Induction

/-!
# Runs of a step function

A component is a total function `step : σ → ε → σ`: everything its environment
decides (the arguments of a request, the clock, which access fails) is part of
the event. A run is a list of events. `EveryStep` says that a relation between
the state before a step and the step's event holds all along a run, and
`EveryState` that a predicate holds of each state the run passes through. The
rules below turn one-step facts into facts about runs, so that a client proves
what one step does and never repeats the induction.
-/

namespace AcmeGitWebhook.Library

variable {σ ε : Type*} {step : σ → ε → σ} {P Q : σ → ε → Prop} {I : σ → Prop}

/-- The state a run of events reaches. -/
def run (step : σ → ε → σ) (s : σ) (es : List ε) : σ := es.foldl step s

@[simp] theorem run_nil (s : σ) : run step s [] = s := rfl

@[simp] theorem run_cons (s : σ) (e : ε) (es : List ε) :
    run step s (e :: es) = run step (step s e) es := rfl

theorem run_append (s : σ) (es fs : List ε) :
    run step s (es ++ fs) = run step (run step s es) fs := List.foldl_append

theorem run_concat (s : σ) (es : List ε) (e : ε) :
    run step s (es ++ [e]) = step (run step s es) e := List.foldl_concat _ _ _ _

/-- `P` relates the state before each step of the run to the step's event. -/
def EveryStep (step : σ → ε → σ) (P : σ → ε → Prop) (s : σ) (es : List ε) : Prop :=
  ∀ pre e post, es = pre ++ e :: post → P (run step s pre) e

/-- `I` holds of every state the run passes through, the first and the last included. -/
def EveryState (step : σ → ε → σ) (I : σ → Prop) (s : σ) (es : List ε) : Prop :=
  ∀ pre, pre <+: es → I (run step s pre)

@[simp] theorem everyStep_nil (s : σ) : EveryStep step P s [] := by
  intro pre e post h
  simp at h

@[simp] theorem everyStep_cons (s : σ) (e : ε) (es : List ε) :
    EveryStep step P s (e :: es) ↔ P s e ∧ EveryStep step P (step s e) es := by
  constructor
  · intro h
    refine ⟨h [] e es rfl, fun pre f post hes => ?_⟩
    exact h (e :: pre) f post (by rw [hes]; rfl)
  · rintro ⟨first, rest⟩ pre f post hes
    cases pre with
    | nil =>
      obtain ⟨rfl, rfl⟩ := List.cons.inj hes
      exact first
    | cons g pre =>
      obtain ⟨rfl, htail⟩ := List.cons.inj hes
      exact rest pre f post htail

@[simp] theorem everyStep_append (s : σ) (es fs : List ε) :
    EveryStep step P s (es ++ fs) ↔
      EveryStep step P s es ∧ EveryStep step P (run step s es) fs := by
  induction es generalizing s with
  | nil => simp
  | cons e es ih => simp [ih, and_assoc]

theorem EveryStep.take {s : σ} {es : List ε} (h : EveryStep step P s es) (n : ℕ) :
    EveryStep step P s (es.take n) := by
  rw [← List.take_append_drop n es] at h
  exact ((everyStep_append s _ _).mp h).1

@[simp] theorem everyState_nil (s : σ) : EveryState step I s [] ↔ I s := by
  simp [EveryState]

@[simp] theorem everyState_cons (s : σ) (e : ε) (es : List ε) :
    EveryState step I s (e :: es) ↔ I s ∧ EveryState step I (step s e) es := by
  constructor
  · intro h
    refine ⟨h [] (List.nil_prefix), fun pre hpre => ?_⟩
    exact h (e :: pre) (List.cons_prefix_cons.mpr ⟨rfl, hpre⟩)
  · rintro ⟨first, rest⟩ pre hpre
    cases pre with
    | nil => exact first
    | cons f pre =>
      obtain ⟨rfl, htail⟩ := List.cons_prefix_cons.mp hpre
      exact rest pre htail

theorem EveryState.first {s : σ} {es : List ε} (h : EveryState step I s es) : I s :=
  h [] List.nil_prefix

theorem EveryState.last {s : σ} {es : List ε} (h : EveryState step I s es) :
    I (run step s es) := h es (List.prefix_refl es)

/-- An invariant kept by the steps that satisfy `P` holds all along a run of such steps. -/
theorem EveryStep.invariant (keep : ∀ s e, I s → P s e → I (step s e)) {s : σ}
    {es : List ε} (start : I s) (h : EveryStep step P s es) : EveryState step I s es := by
  induction es generalizing s with
  | nil => simpa using start
  | cons e es ih =>
    obtain ⟨first, rest⟩ := (everyStep_cons s e es).mp h
    exact (everyState_cons s e es).mpr ⟨start, ih (keep s e start first) rest⟩

theorem EveryStep.and {s : σ} {es : List ε} (h : EveryStep step P s es)
    (h' : EveryStep step Q s es) : EveryStep step (fun s e => P s e ∧ Q s e) s es :=
  fun pre e post hes => ⟨h pre e post hes, h' pre e post hes⟩

/-- What every step of a run leaves as it is, the run leaves as it is. -/
theorem EveryStep.run_eq {α : Type*} {f : σ → α} (keep : ∀ s e, I s → P s e → I (step s e))
    (frame : ∀ s e, I s → P s e → f (step s e) = f s) {s : σ} {es : List ε} (start : I s)
    (h : EveryStep step P s es) : f (run step s es) = f s := by
  induction es generalizing s with
  | nil => rfl
  | cons e es ih =>
    obtain ⟨first, rest⟩ := (everyStep_cons s e es).mp h
    rw [run_cons, ih (keep s e start first) rest, frame s e start first]

/-- An invariant kept by every step holds of the state every run reaches. -/
theorem run_invariant (keep : ∀ s e, I s → I (step s e)) {s : σ} (start : I s)
    (es : List ε) : I (run step s es) := by
  induction es generalizing s with
  | nil => exact start
  | cons e es ih => exact ih (keep s e start)

/-- What is told of the events so far and the state they reach holds of every run, when it holds
at first and one more event keeps it. -/
theorem run_history {J : List ε → σ → Prop} {s : σ} (start : J [] s)
    (keep : ∀ es e, J es (run step s es) → J (es ++ [e]) (step (run step s es) e))
    (es : List ε) : J es (run step s es) := by
  induction es using List.reverseRecOn with
  | nil => exact start
  | append_singleton es e ih =>
    rw [run_concat]
    exact keep es e ih

theorem everyStep_congr (h : ∀ s e, P s e ↔ Q s e) (s : σ) (es : List ε) :
    EveryStep step P s es ↔ EveryStep step Q s es :=
  forall₄_congr fun _ _ _ _ => h _ _

/-- An invariant holds before each step of a run, so relations that agree where it holds
hold along the run together. -/
theorem everyStep_congr_of_invariant (keep : ∀ s e, I s → I (step s e))
    (h : ∀ s e, I s → (P s e ↔ Q s e)) {s : σ} (start : I s) (es : List ε) :
    EveryStep step P s es ↔ EveryStep step Q s es := by
  constructor
  · intro hP pre e post hes
    exact (h _ e (run_invariant keep start pre)).mp (hP pre e post hes)
  · intro hQ pre e post hes
    exact (h _ e (run_invariant keep start pre)).mpr (hQ pre e post hes)

/-- A condition that is exact for one step from good states is exact for runs: a run
stays in good states if and only if each of its steps meets the condition. Steps that the
guard `G` excludes need not be considered in a run that makes none. -/
theorem everyState_iff_everyStep {G : σ → ε → Prop}
    (exact : ∀ s e, I s → G s e → (I (step s e) ↔ P s e)) {s : σ} (start : I s) {es : List ε}
    (guard : EveryStep step G s es) : EveryState step I s es ↔ EveryStep step P s es := by
  induction es generalizing s with
  | nil => simpa using start
  | cons e es ih =>
    obtain ⟨allowed, guard⟩ := (everyStep_cons s e es).mp guard
    rw [everyState_cons, everyStep_cons]
    constructor
    · rintro ⟨-, rest⟩
      exact ⟨(exact s e start allowed).mp rest.first, (ih rest.first guard).mp rest⟩
    · rintro ⟨first, rest⟩
      have good := (exact s e start allowed).mpr first
      exact ⟨start, (ih good guard).mpr rest⟩

theorem everyStep_true (s : σ) (es : List ε) : EveryStep step (fun _ _ => True) s es :=
  fun _ _ _ _ => trivial

/-- The same, when the step condition is exact only where an invariant of all steps holds. -/
theorem everyState_iff_everyStep_of_invariant {J : σ → Prop} (keep : ∀ s e, J s → J (step s e))
    (exact : ∀ s e, J s → I s → (I (step s e) ↔ P s e)) {s : σ} (invariant : J s) (start : I s)
    (es : List ε) : EveryState step I s es ↔ EveryStep step P s es := by
  have both : ∀ s e, I s ∧ J s → True → (I (step s e) ∧ J (step s e) ↔ P s e) := by
    rintro s e ⟨good, inv⟩ -
    rw [← exact s e inv good]
    exact and_iff_left (keep s e inv)
  rw [← everyState_iff_everyStep (I := fun s => I s ∧ J s) both ⟨start, invariant⟩
    (everyStep_true s es)]
  exact ⟨fun h pre hpre => ⟨h pre hpre, run_invariant keep invariant pre⟩,
    fun h pre hpre => (h pre hpre).1⟩

/-- A predicate of the states a run reaches forces a relation on its steps, when at each
guarded step it forces the relation and the relation keeps the invariant. -/
theorem EveryState.everyStep {J : σ → Prop} {G : σ → ε → Prop}
    (forces : ∀ s e, I s → G s e → J (step s e) → P s e)
    (keep : ∀ s e, I s → P s e → I (step s e)) {s : σ} {es : List ε} (start : I s)
    (guard : EveryStep step G s es) (h : EveryState step J s es) : EveryStep step P s es := by
  induction es generalizing s with
  | nil => exact everyStep_nil s
  | cons e es ih =>
    obtain ⟨allowed, guard⟩ := (everyStep_cons s e es).mp guard
    obtain ⟨-, rest⟩ := (everyState_cons s e es).mp h
    have first := forces s e start allowed rest.first
    exact (everyStep_cons s e es).mpr ⟨first, ih (keep s e start first) guard rest⟩

/-- A fact that steps may make true and never make false holds of the state a run reaches if
and only if it held at first or some step of the run has made it true. -/
theorem run_iff_of_latch {J : σ → Prop} (latch : ∀ s e, J (step s e) ↔ J s ∨ P s e) (s : σ)
    (es : List ε) :
    J (run step s es) ↔ J s ∨ ¬ EveryStep step (fun s e => ¬ P s e) s es := by
  induction es generalizing s with
  | nil => simp
  | cons e es ih =>
    rw [run_cons, ih, latch, everyStep_cons]
    tauto

/-- What the steps of a run come to, `f` counting what one step does. -/
def tally (step : σ → ε → σ) (f : σ → ε → Nat) : σ → List ε → Nat
  | _, [] => 0
  | s, e :: es => f s e + tally step f (step s e) es

/-- A measure of the state that grows at each step by what the step counts, at least. -/
theorem tally_le {f : σ → ε → Nat} {g : σ → Nat} (grow : ∀ s e, g s + f s e ≤ g (step s e))
    (s : σ) (es : List ε) : g s + tally step f s es ≤ g (run step s es) := by
  induction es generalizing s with
  | nil => exact Nat.le_refl _
  | cons e es ih =>
    calc g s + tally step f s (e :: es) = g s + f s e + tally step f (step s e) es := by
          rw [tally, Nat.add_assoc]
      _ ≤ g (step s e) + tally step f (step s e) es := Nat.add_le_add_right (grow s e) _
      _ ≤ g (run step s (e :: es)) := ih (step s e)

end AcmeGitWebhook.Library
