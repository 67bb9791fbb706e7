import AcmeGitWebhook.Library.RecordLock
import AcmeGitWebhook.Library.Run
import Mathlib.Logic.Function.Basic

/-!
# The lock on the zone clone

`acme_auth` and `acme_cleanup` of `app/main.py` serialise their work with a file lock that is
a record lock of their process. Requests are threads of worker processes and interleave
freely; what a request does between acquiring and releasing the lock is any number of work
steps, the last of which may raise. `exclusive_iff` says when the lock keeps them apart.
-/

namespace AcmeGitWebhook.Acme

open Library

/-- Where a request is: not arrived, waiting for up to thirty seconds, between a successful
acquire and its release, or answered. -/
inductive Phase where
  | idle | waiting | inside | answered
  deriving DecidableEq, Repr

structure State (ρ ι : Type) where
  phase : ρ → Phase
  lock : RecordLock ι

variable {ρ ι : Type}

def State.initial : State ρ ι := ⟨fun _ => .idle, .free⟩

/-- `tryAcquire` is one attempt of the waiting loop and `giveUp` its end after the timeout,
which is answered with 423 and closes the lock file. -/
inductive Event (ρ ι : Type) where
  | arrive (r : ρ)
  | tryAcquire (r : ρ)
  | giveUp (r : ρ)
  | work (r : ρ)
  | release (r : ρ)
  | crash (p : ι)

def State.move [DecidableEq ρ] (st : State ρ ι) (r : ρ) (phase : Phase) : State ρ ι :=
  { st with phase := fun r' => if r' = r then phase else st.phase r' }

variable (pid : ρ → ι)

/-- Events that do not fit the phase of their request change nothing. -/
def step [DecidableEq ρ] [DecidableEq ι] (st : State ρ ι) : Event ρ ι → State ρ ι
  | .arrive r => if st.phase r = .idle then st.move r .waiting else st
  | .tryAcquire r =>
    if st.phase r = .waiting ∧ st.lock.Grants (pid r) then
      { st.move r .inside with lock := ⟨some (pid r)⟩ }
    else st
  | .giveUp r =>
    if st.phase r = .waiting then { st.move r .answered with lock := st.lock.drop (pid r) } else st
  | .work _ => st
  | .release r =>
    if st.phase r = .inside then { st.move r .answered with lock := st.lock.drop (pid r) } else st
  | .crash p =>
    ⟨fun r => if pid r = p then .answered else st.phase r, st.lock.drop p⟩

/-- At most one request is between acquiring and releasing the lock. -/
def Exclusive (st : State ρ ι) : Prop :=
  ∀ r r', st.phase r = .inside → st.phase r' = .inside → r = r'

/-- No request of the process of `r` is inside. -/
def ProcessOutside (st : State ρ ι) (r : ρ) : Prop := ∀ r', pid r' = pid r → st.phase r' ≠ .inside

/-- A request that gives up closes the lock file under no other thread of its process. -/
def GivesUpAlone (st : State ρ ι) : Event ρ ι → Prop
  | .giveUp r => st.phase r = .waiting → ProcessOutside pid st r
  | _ => True

/-- A request tries to acquire the lock, or gives up, while no other thread of its process is
inside. -/
def Alone (st : State ρ ι) : Event ρ ι → Prop
  | .tryAcquire r | .giveUp r => st.phase r = .waiting → ProcessOutside pid st r
  | _ => True

/-- The invariant: a request inside is the only one, and its process holds the lock. -/
structure Guarded (st : State ρ ι) : Prop where
  exclusive : Exclusive st
  held : ∀ r, st.phase r = .inside → st.lock.holder = some (pid r)

variable {pid} {st : State ρ ι} {r : ρ}

theorem initial_guarded : Guarded pid (State.initial : State ρ ι) :=
  ⟨by simp [Exclusive, State.initial], by simp [State.initial]⟩

variable [DecidableEq ρ]

@[simp] theorem move_phase_self (phase : Phase) : (st.move r phase).phase r = phase := by
  simp [State.move]

theorem move_phase_of_ne {r' : ρ} (phase : Phase) (ne : r' ≠ r) :
    (st.move r phase).phase r' = st.phase r' := by
  simp [State.move, ne]

/-- Only the request that moves inside can be new there. -/
theorem inside_of_move {r' : ρ} {phase : Phase} (outside : phase ≠ .inside)
    (h : (st.move r phase).phase r' = .inside) : r' ≠ r ∧ st.phase r' = .inside := by
  by_cases same : r' = r
  · subst same
    rw [move_phase_self] at h
    exact absurd h outside
  · exact ⟨same, by rwa [move_phase_of_ne _ same] at h⟩

theorem acquire_guarded (guarded : Guarded pid st) (grants : st.lock.Grants (pid r))
    (alone : ProcessOutside pid st r) :
    Guarded pid { st.move r .inside with lock := ⟨some (pid r)⟩ } := by
  have nobody : ∀ r', st.phase r' ≠ .inside := by
    intro r' inside
    exact alone r' (grants.eq_of_holder (guarded.held r' inside)) inside
  have only : ∀ r', (st.move r .inside).phase r' = .inside → r' = r := by
    intro r' inside
    by_contra ne
    rw [move_phase_of_ne _ ne] at inside
    exact nobody r' inside
  refine ⟨fun r₁ r₂ h₁ h₂ => (only r₁ h₁).trans (only r₂ h₂).symm, fun r' h => ?_⟩
  rw [only r' h]

variable [DecidableEq ι]

/-- A request leaves, by its release or without having been inside, and takes the lock of
its process with it. -/
theorem leave_guarded (guarded : Guarded pid st) {phase : Phase} (outside : phase ≠ .inside)
    (alone : ∀ r', r' ≠ r → pid r' = pid r → st.phase r' ≠ .inside) :
    Guarded pid { st.move r phase with lock := st.lock.drop (pid r) } := by
  refine ⟨fun r₁ r₂ h₁ h₂ => ?_, fun r' h => ?_⟩
  · exact guarded.exclusive r₁ r₂ (inside_of_move outside h₁).2 (inside_of_move outside h₂).2
  · obtain ⟨ne, inside⟩ := inside_of_move outside h
    have other : pid r' ≠ pid r := fun same => alone r' ne same inside
    exact (RecordLock.holder_drop_of_ne other).mpr (guarded.held r' inside)

theorem step_guarded (guarded : Guarded pid st) {event : Event ρ ι} (alone : Alone pid st event) :
    Guarded pid (step pid st event) := by
  cases event with
  | arrive r =>
    simp only [step]
    split_ifs with idle
    · have waiting : Phase.waiting ≠ .inside := by decide
      refine ⟨fun r₁ r₂ h₁ h₂ => ?_, fun r' h => ?_⟩
      · exact guarded.exclusive r₁ r₂ (inside_of_move waiting h₁).2 (inside_of_move waiting h₂).2
      · exact guarded.held r' (inside_of_move waiting h).2
    · exact guarded
  | tryAcquire r =>
    simp only [step]
    split_ifs with able
    · exact acquire_guarded guarded able.2 (alone able.1)
    · exact guarded
  | giveUp r =>
    simp only [step]
    split_ifs with waiting
    · exact leave_guarded guarded (by decide) fun r' _ => alone waiting r'
    · exact guarded
  | work r => exact guarded
  | release r =>
    simp only [step]
    split_ifs with inside
    · refine leave_guarded guarded (by decide) fun r' ne _ inside' => ?_
      exact ne (guarded.exclusive r' r inside' inside)
    · exact guarded
  | crash p =>
    refine ⟨fun r₁ r₂ h₁ h₂ => ?_, fun r' h => ?_⟩
    · simp only [step] at h₁ h₂
      split_ifs at h₁ h₂
      exact guarded.exclusive r₁ r₂ h₁ h₂
    · simp only [step] at h
      split_ifs at h with other
      exact (RecordLock.holder_drop_of_ne other).mpr (guarded.held r' h)

/-- A thread that tries to acquire while another of its process is inside gets inside. -/
theorem alone_of_exclusive (guarded : Guarded pid st) {event : Event ρ ι}
    (givesUp : GivesUpAlone pid st event) (exclusive : Exclusive (step pid st event)) :
    Alone pid st event := by
  cases event with
  | tryAcquire r =>
    intro waiting r' same inside
    have grants : st.lock.Grants (pid r) := Or.inr (by rw [guarded.held r' inside, same])
    have ne : r' ≠ r := by
      rintro rfl
      simp [waiting] at inside
    rw [step, if_pos ⟨waiting, grants⟩] at exclusive
    refine ne (exclusive r' r ?_ (move_phase_self _))
    exact (move_phase_of_ne _ ne).trans inside
  | giveUp r => exact givesUp
  | arrive _ | work _ | release _ | crash _ => trivial

/-- With one request at a time in each process the lock does keep all requests apart. -/
theorem exclusive_of_injective (single : Function.Injective pid) (es : List (Event ρ ι)) :
    EveryState (step pid) Exclusive State.initial es := by
  have alone : ∀ (st : State ρ ι) event, Alone pid st event := by
    intro st event
    cases event with
    | tryAcquire r | giveUp r =>
      intro waiting r' same inside
      rw [single same, waiting] at inside
      contradiction
    | arrive _ | work _ | release _ | crash _ => trivial
  intro pre _
  exact (run_invariant (fun st event guarded => step_guarded guarded (alone st event))
    initial_guarded pre : Guarded pid _).exclusive

/-- In a run whose requests all try, and give up, while no thread of their process is inside,
at most one request is inside at any time; and as far as trying to acquire goes, in no other. -/
theorem exclusive_iff (pid : ρ → ι) (es : List (Event ρ ι)) :
    (EveryStep (step pid) (Alone pid) State.initial es →
      EveryState (step pid) Exclusive State.initial es) ∧
    (EveryStep (step pid) (GivesUpAlone pid) State.initial es →
      EveryState (step pid) Exclusive State.initial es →
        EveryStep (step pid) (Alone pid) State.initial es) := by
  have keep : ∀ (st : State ρ ι) event, Guarded pid st → Alone pid st event →
      Guarded pid (step pid st event) := fun _ _ guarded alone => step_guarded guarded alone
  constructor
  · intro alone pre hpre
    exact (alone.invariant keep initial_guarded pre hpre).exclusive
  · intro givesUp exclusive
    exact exclusive.everyStep (I := Guarded pid)
      (fun _ _ guarded alone exclusive => alone_of_exclusive guarded alone exclusive) keep
      initial_guarded givesUp

/-- Two requests of one worker process, served by two threads. -/
theorem threads_share_lock : ¬ EveryState (step fun _ : Bool => ()) Exclusive State.initial
    [.arrive true, .arrive false, .tryAcquire true, .tryAcquire false] := by
  intro exclusive
  have same := exclusive.last true false (by decide) (by decide)
  simp at same

end AcmeGitWebhook.Acme
