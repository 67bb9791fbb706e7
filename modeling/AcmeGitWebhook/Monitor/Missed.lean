import AcmeGitWebhook.Monitor.Overlaps
import AcmeGitWebhook.Monitor.Rearming

/-!
# Renewals that the scheduler misses

A check puts a due domain into `_renewing` and leaves a deferred renewal to the scheduler. If the
scheduler misses the job, nothing takes the domain out of the set, so checks leave it alone from
then on: until the process is restarted only `POST /acme/renew` renews it (`missed_forgotten`).
-/

namespace AcmeGitWebhook.Monitor

open Library

/-- No job of the domain is pending, and checks leave it alone. -/
structure Forgotten (mon : CertMonitor) (domain : String) (st : State) : Prop where
  keyed : ∀ id j, st.jobs.get? id = some j → id = renewId j.domain
  gone : st.jobs.get? (renewId domain) = none
  known : mon.command.isSome → domain ∈ st.renewing

variable {fromisoformat : String → Option IsoTime} {tzdata : String → Option Zone}
  {mon : CertMonitor} {st : State} {event : Event} {domain : String}

theorem checkDayThreshold_renewing (fromisoformat : String → Option IsoTime)
    (tzdata : String → Option Zone) (mon : CertMonitor) (domain' : String) (daysLeft : Int)
    (metadata : Dict String Json) (now : Int) (launch : Except PyError Unit)
    (webhook : Int → Bool) (known : domain ∈ st.renewing) :
    domain ∈ (checkDayThreshold fromisoformat tzdata mon domain' daysLeft metadata now launch
      webhook st).2.renewing := by
  cases hconfig : mon.config with
  | none => simpa [checkDayThreshold, hconfig] using known
  | some config =>
    have warned := (foldl_warn_quiet config domain' daysLeft webhook st).renewing
    simp only [checkDayThreshold, hconfig]
    split_ifs
    · rw [(runRenew_quiet tzdata mon domain' .check now launch _).renewing]
      exact List.mem_cons_of_mem _ (warned ▸ known)
    · exact warned ▸ known
    · exact warned ▸ known

/-- Nothing ever leaves `_renewing`. -/
theorem step_renewing (known : domain ∈ st.renewing) (event : Event) :
    domain ∈ (step fromisoformat tzdata mon st event).renewing := by
  by_cases visits : ∃ now launch publish webhook, event = .visit now launch publish webhook
  · obtain ⟨now, launch, publish, webhook, rfl⟩ := visits
    simp only [step]
    split
    · exact known
    · split_ifs
      · exact known
      · rename_i c rest _ _
        obtain ⟨checked, from_, after⟩ := visit_cases fromisoformat tzdata mon c now launch
          publish webhook { st with check := rest }
        have kept : domain ∈ checked.renewing := by
          rcases from_ with ⟨-, rfl⟩ | ⟨daysLeft, -, rfl⟩
          · exact known
          · exact checkDayThreshold_renewing _ _ _ _ _ _ _ _ _ known
        rcases after with after | ⟨err, after⟩ <;> rw [after]
        · exact kept
        · exact kept
  · rw [(step_quiet fromisoformat tzdata mon st fun now launch publish webhook same =>
      visits ⟨now, launch, publish, webhook, same⟩).renewing]
    exact known

/-- A forgotten domain is renewed by request only. -/
theorem Forgotten.idle (h : Forgotten mon domain st)
    (unasked : ∀ now launch, event ≠ .renew domain now launch) (now : Int) :
    attempt fromisoformat mon st event ≠ some (domain, now) := by
  intro tried
  have known : domain ∈ st.renewing := h.known (attempt_command tried)
  obtain ⟨command, hcommand⟩ := Option.isSome_iff_exists.mp (attempt_command tried)
  cases event with
  | visit now' launch publish webhook =>
    simp only [attempt, hcommand, Option.isNone_some, Bool.false_eq_true, if_false] at tried
    split at tried
    · split_ifs at tried with allowed
      obtain ⟨rfl, -⟩ := Prod.mk.inj (Option.some.inj tried)
      exact allowed.2.1 known
    · cases tried
  | fire id now' launch =>
    simp only [attempt, hcommand, Option.isNone_some, Bool.false_eq_true, if_false] at tried
    split at tried
    · next j pending =>
      split_ifs at tried
      obtain ⟨rfl, -⟩ := Prod.mk.inj (Option.some.inj tried)
      rw [h.keyed id j pending, h.gone] at pending
      cases pending
    · cases tried
  | renew domain' now' launch =>
    obtain rfl : domain' = domain := by
      simpa [attempt, hcommand] using congrArg (·.map Prod.fst) tried
    exact unasked now' launch rfl
  | beginCheck _ | finish _ _ _ | miss _ _ => simp [attempt] at tried

theorem step_forgotten (h : Forgotten mon domain st)
    (unasked : ∀ now launch, event ≠ .renew domain now launch) :
    Forgotten mon domain (step fromisoformat tzdata mon st event) := by
  have idle : ∀ now, attempt fromisoformat mon st event ≠ some (domain, now) := h.idle unasked
  refine ⟨step_keyed h.keyed event, ?_, fun configured => step_renewing (h.known configured) event⟩
  have left : (remaining st event).get? (renewId domain) = none := by
    by_contra pending
    obtain ⟨j, pending⟩ := Option.ne_none_iff_exists'.mp pending
    cases h.gone.symm.trans (get?_remaining pending)
  rw [step_jobs]
  cases tried : attempt fromisoformat mon st event with
  | none => exact left
  | some attempted =>
    obtain ⟨domain', now⟩ := attempted
    have other : renewId domain ≠ renewId domain' := fun same =>
      idle now (renewId_inj same ▸ tried)
    simp only [renewJobs]
    split
    · rw [Dict.get?_set_of_ne _ _ other]
      exact left
    · exact left

theorem step_running_forgotten (h : Forgotten mon domain st)
    (unasked : ∀ now launch, event ≠ .renew domain now launch) {caller : Caller}
    (runs : (domain, caller) ∈ (step fromisoformat tzdata mon st event).running) :
    (domain, caller) ∈ st.running := by
  have idle : ∀ now, attempt fromisoformat mon st event ≠ some (domain, now) := h.idle unasked
  rw [step_running] at runs
  cases tried : attempt fromisoformat mon st event with
  | none =>
    rw [tried] at runs
    exact (stillRunning_sublist st event).subset runs
  | some attempted =>
    obtain ⟨domain', now⟩ := attempted
    rw [tried] at runs
    have other : domain ≠ domain' := by
      rintro rfl
      exact idle now tried
    simp only [renewRunning] at runs
    split at runs
    · simpa [other] using runs
    · exact runs

variable (fromisoformat tzdata mon) in
/-- What the scheduler misses is gone. -/
theorem missed_gone {j : RenewJob} (lost : missed st event = some j) :
    ∃ id now, event = .miss id now ∧ st.jobs.get? id = some j ∧
      (step fromisoformat tzdata mon st event).jobs = st.jobs.erase id := by
  cases event with
  | miss id now =>
    obtain ⟨pending, late⟩ := Option.filter_eq_some_iff.mp lost
    refine ⟨id, now, rfl, pending, ?_⟩
    simp only [decide_eq_true_eq] at late
    simp [step, pending, late, State.record]
  | _ => cases lost

theorem run_forgotten {later : List Event} (start : Forgotten mon domain st)
    (unasked : ∀ event ∈ later, ∀ now launch, event ≠ .renew domain now launch) :
    Forgotten mon domain (run (step fromisoformat tzdata mon) st later) ∧
      ∀ caller, (domain, caller) ∈ (run (step fromisoformat tzdata mon) st later).running →
        (domain, caller) ∈ st.running := by
  induction later generalizing st with
  | nil => exact ⟨start, fun _ runs => runs⟩
  | cons event later ih =>
    obtain ⟨here, rest⟩ := List.forall_mem_cons.mp unasked
    obtain ⟨forgotten, still⟩ := ih (step_forgotten start here) rest
    exact ⟨forgotten, fun caller runs => step_running_forgotten start here (still caller runs)⟩

/-- Once a check has found the domain due and the scheduler has missed a renewal of it, no renewal
of the domain waits or is started any more, whatever later checks find, unless one is requested. -/
theorem missed_forgotten (fromisoformat : String → Option IsoTime) (tzdata : String → Option Zone)
    (mon : CertMonitor) (before later : List Event) (miss : Event) (j : RenewJob)
    (seen : Entry.due j.domain ∈ (run (step fromisoformat tzdata mon) State.initial before).log)
    (lost : missed (run (step fromisoformat tzdata mon) State.initial before) miss = some j)
    (unasked : ∀ event ∈ later, ∀ now launch, event ≠ .renew j.domain now launch) :
    (run (step fromisoformat tzdata mon) State.initial (before ++ miss :: later)).jobs.get?
        (renewId j.domain) = none ∧
      ∀ caller, (j.domain, caller) ∈
            (run (step fromisoformat tzdata mon) State.initial (before ++ miss :: later)).running →
          (j.domain, caller) ∈
            (run (step fromisoformat tzdata mon) State.initial before).running := by
  rw [run_append, run_cons]
  set st := run (step fromisoformat tzdata mon) State.initial before
  have keyed : ∀ id j, st.jobs.get? id = some j → id = renewId j.domain :=
    run_invariant (I := fun st : State => ∀ id j, st.jobs.get? id = some j → id = renewId j.domain)
      (fun _ event h => step_keyed h event) (by simp [State.initial]) before
  obtain ⟨id, now, rfl, pending, jobs⟩ :=
    missed_gone fromisoformat tzdata mon lost
  obtain rfl := keyed id j pending
  have start : Forgotten mon j.domain
      (step fromisoformat tzdata mon st (.miss (renewId j.domain) now)) := by
    refine ⟨step_keyed keyed _, by rw [jobs]; exact Dict.get?_erase_self _ _, fun configured => ?_⟩
    obtain ⟨command, hcommand⟩ := Option.isSome_iff_exists.mp configured
    exact step_renewing ((run_remembers hcommand before j.domain).mpr seen) _
  obtain ⟨forgotten, still⟩ := run_forgotten start unasked
  refine ⟨forgotten.gone, fun caller runs => ?_⟩
  have ran := still caller runs
  rw [step_running] at ran
  simpa [attempt, stillRunning] using ran

/-- On Thursdays from eight to six. -/
def thursdayMonitor : CertMonitor :=
  ⟨some { renewCommand := some "certbot renew",
          deployWindow := some ⟨"08:00", "18:00", [4], "UTC"⟩ }, true⟩

/-- A check at midnight. -/
def putOff : List Event := [.beginCheck [⟨"example.com", some 10, []⟩], dueVisit]

/-- A check at nine. -/
def atNine : List Event := [.beginCheck [⟨"example.com", some 10, []⟩],
  .visit (9 * usPerHour) (.ok ()) (.ok ()) fun _ => true]

/-- The renewal that the first check defers to eight is missed, and the second check, with the
window open, starts none. -/
theorem missed_forgotten_thursday :
    (run (step (fun _ => none) onlyUtc thursdayMonitor) State.initial
      (putOff ++ .miss "renew-example.com" (8 * usPerHour + 30000000) :: atNine)).jobs.get?
        "renew-example.com" = none ∧
      ∀ caller, ("example.com", caller) ∈
          (run (step (fun _ => none) onlyUtc thursdayMonitor) State.initial
            (putOff ++ .miss "renew-example.com" (8 * usPerHour + 30000000) :: atNine)).running →
        ("example.com", caller) ∈
          (run (step (fun _ => none) onlyUtc thursdayMonitor) State.initial putOff).running :=
  missed_forgotten (fun _ => none) onlyUtc thursdayMonitor putOff atNine _
    ⟨"example.com", 8 * usPerHour⟩ (by decide +kernel) (by decide +kernel) (by simp [atNine])

end AcmeGitWebhook.Monitor
