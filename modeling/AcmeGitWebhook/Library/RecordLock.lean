import Mathlib.Logic.Basic

/-!
# POSIX record locks

An exclusive `fcntl` record lock on one file. The lock belongs to a process, not to the
thread or the file descriptor that asked for it: a process that holds it is granted it
again, and closing any of its descriptors for the file gives it up.
-/

namespace AcmeGitWebhook.Library

/-- The process that holds the lock, if one does. -/
structure RecordLock (ι : Type*) where
  holder : Option ι
  deriving DecidableEq, Repr

namespace RecordLock

variable {ι : Type*}

def free : RecordLock ι := ⟨none⟩

/-- The lock is refused only while another process holds it. -/
def Grants (lock : RecordLock ι) (p : ι) : Prop := lock.holder = none ∨ lock.holder = some p

theorem Grants.eq_of_holder {lock : RecordLock ι} {p q : ι} (h : lock.Grants p)
    (held : lock.holder = some q) : q = p := by
  rcases h with free | own
  · simp [free] at held
  · simpa [held] using own

variable [DecidableEq ι]

instance (lock : RecordLock ι) (p : ι) : Decidable (lock.Grants p) :=
  inferInstanceAs (Decidable (_ ∨ _))

/-- A process unlocks, closes a descriptor or ends. -/
def drop (lock : RecordLock ι) (p : ι) : RecordLock ι :=
  if lock.holder = some p then free else lock

/-- A process that drops the lock takes it from no other process. -/
theorem holder_drop_of_ne {lock : RecordLock ι} {p q : ι} (ne : q ≠ p) :
    (lock.drop p).holder = some q ↔ lock.holder = some q := by
  by_cases own : lock.holder = some p
  · simp [drop, own, free, Ne.symm ne]
  · simp [drop, own]

end RecordLock

end AcmeGitWebhook.Library
