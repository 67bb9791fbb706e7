import Mathlib.Data.Rat.Floor

/-!
# Polling loops with a timeout

A loop that asks in rounds until a round is conclusive or the time is up. The time that has
passed is not read from a clock: the interval between two rounds is added up. A round may fail,
and so may the sleep, which refuses a negative interval.

## Main results

* `run_conclusive`, `run_timeout`: where the loop ends, when the interval is positive.
* `run_ok_iff`: whether it ends with a result at all, for any timeout and interval.
-/

namespace AcmeGitWebhook.Library

structure Polling (ε β : Type*) where
  round : Nat → Except ε β
  conclusive : β → Bool
  timeout : Int
  interval : Int
  /-- What sleeping for a negative time fails with. -/
  refusal : ε

namespace Polling

variable {ε β : Type*} (p : Polling ε β)

/-- The loop from round `k` on, with what the round before gave: `none` when it needs more than
that many rounds, else the last round's result and the time reported. -/
def run : Nat → Nat → Int → β → Option (Except ε (β × Int))
  | 0, _, elapsed, last =>
    if elapsed < p.timeout then none else some (.ok (last, p.timeout))
  | rounds + 1, k, elapsed, last =>
    if elapsed < p.timeout then
      match p.round k with
      | .error err => some (.error err)
      | .ok result =>
        if p.conclusive result then some (.ok (result, elapsed))
        else if p.interval < 0 then some (.error p.refusal)
        else run rounds (k + 1) (elapsed + p.interval) result
    else some (.ok (last, p.timeout))

/-- Round `k` gives a result that ends the loop. -/
def Conclusive (k : Nat) : Prop := ∃ result, p.round k = .ok result ∧ p.conclusive result = true

/-- Round `k` gives a result that does not. -/
def Inconclusive (k : Nat) : Prop :=
  ∃ result, p.round k = .ok result ∧ p.conclusive result = false

def Fails (k : Nat) : Prop := ∃ err, p.round k = .error err

/-- Round `k` is due before the timeout. -/
def Due (k : Nat) : Prop := k * p.interval < p.timeout

/-- What the rounds before round `k` leave behind. -/
def lastResult (start : β) : Nat → β
  | 0 => start
  | k + 1 => (p.round k).toOption.getD start

variable {p} {start : β} {k : Nat}

theorem round_cases (k : Nat) : p.Conclusive k ∨ p.Inconclusive k ∨ p.Fails k := by
  unfold Conclusive Inconclusive Fails
  cases p.round k with
  | error err => exact Or.inr (Or.inr ⟨err, rfl⟩)
  | ok result => cases ended : p.conclusive result <;> simp [ended]

theorem Conclusive.not_inconclusive (conclusive : p.Conclusive k) : ¬ p.Inconclusive k := by
  obtain ⟨result, round, ended⟩ := conclusive
  simp [Inconclusive, round, ended]

theorem Conclusive.not_fails (conclusive : p.Conclusive k) : ¬ p.Fails k := by
  obtain ⟨result, round, ended⟩ := conclusive
  simp [Fails, round]

theorem Inconclusive.not_fails (goes : p.Inconclusive k) : ¬ p.Fails k := by
  obtain ⟨result, round, ended⟩ := goes
  simp [Fails, round]

theorem Due.lt (due : p.Due k) : (k * p.interval : Int) < p.timeout := due

theorem Due.mono (patient : 0 ≤ p.interval) (due : p.Due k) {j : Nat} (le : j ≤ k) : p.Due j :=
  lt_of_le_of_lt (mul_le_mul_of_nonneg_right (by exact_mod_cast le) patient) due

/-- A round that is due and settles nothing is followed by the next one. -/
theorem run_step (patient : 0 ≤ p.interval) (due : p.Due k) (goes : p.Inconclusive k)
    (rounds : Nat) (last : β) :
    p.run (rounds + 1) k (k * p.interval) last =
      p.run rounds (k + 1) ((k + 1 : Nat) * p.interval) (p.lastResult start (k + 1)) := by
  obtain ⟨result, round, undecided⟩ := goes
  have next : ((k + 1 : Nat) : Int) * p.interval = k * p.interval + p.interval := by
    push_cast
    ring
  have left : p.lastResult start (k + 1) = result := by
    simp [lastResult, round, Except.toOption]
  rw [run, if_pos due.lt, round, left, next]
  simp [undecided, not_lt.mpr patient]

/-- With no more than `k` rounds, all of them inconclusive, the loop does not get past round
`k`; with more, it comes to round `k` as the rounds left it. -/
theorem run_rounds (start : β) (patient : 0 ≤ p.interval) (due : ∀ j < k, p.Due j)
    (goes : ∀ j < k, p.Inconclusive j) (rounds : Nat) :
    p.run (rounds + k) 0 0 start =
      p.run rounds k (k * p.interval) (p.lastResult start k) := by
  induction k generalizing rounds with
  | zero => simp [lastResult]
  | succ k ih =>
    have before := ih (fun j lt => due j (by omega)) (fun j lt => goes j (by omega)) (rounds + 1)
    calc p.run (rounds + (k + 1)) 0 0 start
      _ = p.run (rounds + 1 + k) 0 0 start := by rw [Nat.add_right_comm, Nat.add_assoc]
      _ = p.run (rounds + 1) k (k * p.interval) (p.lastResult start k) := before
      _ = p.run rounds (k + 1) ((k + 1 : Nat) * p.interval) (p.lastResult start (k + 1)) :=
        run_step patient (due k (by omega)) (goes k (by omega)) rounds _

theorem run_unfinished (patient : 0 ≤ p.interval) (due : ∀ j ≤ k, p.Due j)
    (goes : ∀ j < k, p.Inconclusive j) {rounds : Nat} (le : rounds ≤ k) :
    p.run rounds 0 0 start = none := by
  have reached := run_rounds start patient
    (fun j (lt : j < rounds) => due j (by omega)) (fun j lt => goes j (by omega)) 0
  rw [Nat.zero_add] at reached
  rw [reached, run, if_pos (due rounds le).lt]

/-- The loop ends with the first conclusive round, if that is due. -/
theorem run_conclusive {result : β} (patient : 0 ≤ p.interval) (due : ∀ j ≤ k, p.Due j)
    (goes : ∀ j < k, p.Inconclusive j) (round : p.round k = .ok result)
    (ended : p.conclusive result = true) (rounds : Nat) :
    p.run rounds 0 0 start =
      if k + 1 ≤ rounds then some (.ok (result, k * p.interval)) else none := by
  split_ifs with enough
  · obtain ⟨more, rfl⟩ := Nat.exists_eq_add_of_le enough
    have reached := run_rounds start patient (fun j (lt : j < k) => due j (by omega))
      goes (more + 1)
    rw [show k + 1 + more = more + 1 + k by omega, reached, run, if_pos (due k le_rfl).lt, round]
    simp [ended]
  · exact run_unfinished patient due goes (by omega)

/-- The rounds that are due come before a number of them. -/
theorem due_iff_lt_ceil (positive : 0 < p.interval) (k : Nat) :
    p.Due k ↔ k < ⌈(p.timeout : ℚ) / p.interval⌉₊ := by
  have scaled : (0 : ℚ) < p.interval := by exact_mod_cast positive
  rw [Nat.lt_ceil, lt_div_iff₀ scaled, Due]
  exact_mod_cast Iff.rfl

/-- With only inconclusive rounds the loop makes all that are due and reports the timeout. -/
theorem run_timeout (positive : 0 < p.interval) (goes : ∀ j, p.Due j → p.Inconclusive j)
    (rounds : Nat) :
    p.run rounds 0 0 start =
      if ⌈(p.timeout : ℚ) / p.interval⌉₊ ≤ rounds then
        some (.ok (p.lastResult start ⌈(p.timeout : ℚ) / p.interval⌉₊, p.timeout))
      else none := by
  have due := due_iff_lt_ceil (p := p) positive
  generalize ⌈(p.timeout : ℚ) / p.interval⌉₊ = limit at due ⊢
  split_ifs with enough
  · obtain ⟨more, rfl⟩ := Nat.exists_eq_add_of_le enough
    have late : ¬ (limit * p.interval : Int) < p.timeout := fun early =>
      lt_irrefl _ ((due limit).mp early)
    rw [Nat.add_comm, run_rounds _ positive.le (fun j lt => (due j).mpr lt)
      (fun j lt => goes j ((due j).mpr lt))]
    cases more <;> rw [run, if_neg late]
  · obtain ⟨last, rfl⟩ : ∃ last, limit = last + 1 := ⟨limit - 1, by omega⟩
    exact run_unfinished (k := last) positive.le (fun j le => (due j).mpr (by omega))
      (fun j lt => goes j ((due j).mpr (by omega))) (by omega)

/-- A failing round that is reached ends the loop without a result. -/
theorem run_fails (patient : 0 ≤ p.interval) (due : ∀ j ≤ k, p.Due j)
    (goes : ∀ j < k, p.Inconclusive j) (fails : p.Fails k) (rounds : Nat) (reported : β × Int) :
    p.run rounds 0 0 start ≠ some (.ok reported) := by
  obtain ⟨err, round⟩ := fails
  rcases Nat.lt_or_ge k rounds with enough | short
  · obtain ⟨more, rfl⟩ := Nat.exists_eq_add_of_le enough
    have reached := run_rounds start patient (fun j (lt : j < k) => due j (by omega))
      goes (more + 1)
    rw [show k.succ + more = more + 1 + k by omega, reached, run, if_pos (due k le_rfl).lt, round]
    simp
  · simp [run_unfinished patient due goes short]

/-! ## When there is a result -/

/-- Nothing is due; or a conclusive round is reached; or the interval is positive and no round
that is due fails. -/
inductive Ends (p : Polling ε β) : Prop
  | late : p.timeout ≤ 0 → Ends p
  | found (k : Nat) : p.Conclusive k → (∀ j < k, ¬ p.Fails j) → (k = 0 ∨ 0 ≤ p.interval) →
      p.Due k → Ends p
  | tired : 0 < p.interval → (∀ k, p.Due k → ¬ p.Fails k) → Ends p

theorem Due.zero (started : ¬ p.timeout ≤ 0) : p.Due 0 := by simpa [Due] using started

/-- Up to the first round that is conclusive or fails there are only inconclusive ones. -/
theorem exists_first (settled : ∃ k, p.Due k ∧ ¬ p.Inconclusive k) :
    ∃ k, p.Due k ∧ ¬ p.Inconclusive k ∧ ∀ j < k, p.Due j → p.Inconclusive j := by
  classical
  refine ⟨Nat.find settled, (Nat.find_spec settled).1, (Nat.find_spec settled).2, ?_⟩
  intro j lt due
  by_contra goes
  exact Nat.find_min settled lt ⟨due, goes⟩

/-- The loop has a result when the first round that is not inconclusive does not fail. -/
theorem run_ok_of_settled (patient : 0 ≤ p.interval)
    (settled : ∃ k, p.Due k ∧ ¬ p.Inconclusive k)
    (clean : ∀ first, p.Due first → (∀ j < first, p.Inconclusive j) → ¬ p.Fails first) :
    ∃ rounds reported, p.run rounds 0 0 start = some (.ok reported) := by
  obtain ⟨first, due, settled, before⟩ := exists_first settled
  have goes : ∀ j < first, p.Inconclusive j := fun j lt => before j lt (due.mono patient lt.le)
  obtain ⟨result, round, ended⟩ : p.Conclusive first := by
    rcases round_cases (p := p) first with conclusive | no | fails
    · exact conclusive
    · exact absurd no settled
    · exact absurd fails (clean first due goes)
  refine ⟨first + 1, (result, first * p.interval), ?_⟩
  rw [run_conclusive patient (fun j => due.mono patient) goes round ended, if_pos le_rfl]

theorem run_ok_of_ends (ends : p.Ends) :
    ∃ rounds reported, p.run rounds 0 0 start = some (.ok reported) := by
  by_cases nothing : p.timeout ≤ 0
  · exact ⟨0, (start, p.timeout), by rw [run, if_neg (by omega)]⟩
  cases ends with
  | late le => exact absurd le nothing
  | found k conclusive clean reached due =>
    rcases reached with rfl | patient
    · obtain ⟨result, round, ended⟩ := conclusive
      refine ⟨1, (result, 0), ?_⟩
      rw [run, if_pos (by omega), round]
      simp [ended]
    · refine run_ok_of_settled patient ⟨k, due, conclusive.not_inconclusive⟩ ?_
      intro first _ before
      have le : first ≤ k := by
        by_contra lt
        exact conclusive.not_inconclusive (before k (by omega))
      rcases Nat.lt_or_eq_of_le le with lt | rfl
      · exact clean first lt
      · exact conclusive.not_fails
  | tired positive clean =>
    by_cases settled : ∃ k, p.Due k ∧ ¬ p.Inconclusive k
    · exact run_ok_of_settled positive.le settled fun first due _ => clean first due
    · have goes : ∀ j, p.Due j → p.Inconclusive j := by
        intro j due
        by_contra no
        exact settled ⟨j, due, no⟩
      exact ⟨_, _, by rw [run_timeout positive goes, if_pos le_rfl]⟩

theorem ends_of_run_ok {rounds : Nat} {reported : β × Int}
    (h : p.run rounds 0 0 start = some (.ok reported)) : p.Ends := by
  by_cases nothing : p.timeout ≤ 0
  · exact .late nothing
  have due : p.Due 0 := Due.zero nothing
  rcases lt_or_ge p.interval 0 with negative | patient
  · -- the first round is the last: there is no sleep after it
    cases rounds with
    | zero => simp [run, not_le.mp nothing] at h
    | succ rounds =>
      rw [run, if_pos (by omega)] at h
      rcases round_cases (p := p) 0 with conclusive | ⟨result, round, goes⟩ | ⟨err, round⟩
      · exact .found 0 conclusive (fun j lt => absurd lt (by omega)) (Or.inl rfl) due
      · simp [round, goes, negative] at h
      · simp [round] at h
  · by_cases settled : ∃ k, p.Due k ∧ ¬ p.Inconclusive k
    · obtain ⟨first, firstDue, settled, before⟩ := exists_first settled
      have goes : ∀ j < first, p.Inconclusive j := fun j lt =>
        before j lt (firstDue.mono patient lt.le)
      rcases round_cases (p := p) first with conclusive | no | fails
      · exact .found first conclusive (fun j lt => (goes j lt).not_fails) (Or.inr patient)
          firstDue
      · exact absurd no settled
      · exact absurd h (run_fails patient (fun j => firstDue.mono patient) goes fails _ _)
    · have goes : ∀ j, p.Due j → p.Inconclusive j := by
        intro j due
        by_contra no
        exact settled ⟨j, due, no⟩
      rcases patient.lt_or_eq with positive | zero
      · exact .tired positive fun k due => (goes k due).not_fails
      · -- the time stands still and no round is conclusive
        have always : ∀ j, p.Due j := by
          intro j
          simpa [Due, ← zero] using nothing
        rw [run_unfinished (k := rounds) patient (fun j _ => always j)
          (fun j _ => goes j (always j)) le_rfl] at h
        simp at h

theorem run_ok_iff (start : β) :
    (∃ rounds reported, p.run rounds 0 0 start = some (.ok reported)) ↔ p.Ends := by
  constructor
  · rintro ⟨rounds, reported, h⟩
    exact ends_of_run_ok h
  · exact run_ok_of_ends

end Polling

end AcmeGitWebhook.Library
