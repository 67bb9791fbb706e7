import AcmeGitWebhook.Monitor.CertMonitor

/-!
# Renewals of one domain at a time

A check looks a domain up in `_renewing` before it renews it; a deferred job and
`POST /acme/renew` do not. No state of a run has two commands for one domain exactly when
each renewal that starts its command finds none running for its domain (`single_iff`).
-/

namespace AcmeGitWebhook.Monitor

open Library

/-- No two commands that run are for the same domain. -/
def Single (st : State) : Prop := (st.running.map Prod.fst).Nodup

/-- The renewal that the event attempts starts its command: the window is open, and the
command can be started. -/
def Starts (fromisoformat : String → Option IsoTime) (tzdata : String → Option Zone)
    (mon : CertMonitor) (st : State) (domain : String) (event : Event) : Prop :=
  ∃ now, attempt fromisoformat mon st event = some (domain, now) ∧
    deferral tzdata mon.window now = .ok none ∧ event.launch = .ok ()

/-- A renewal that starts its command finds none running for its domain. -/
def FindsNone (fromisoformat : String → Option IsoTime) (tzdata : String → Option Zone)
    (mon : CertMonitor) (st : State) (event : Event) : Prop :=
  ∀ domain, Starts fromisoformat tzdata mon st domain event →
    ∀ caller, (domain, caller) ∉ st.running

variable {fromisoformat : String → Option IsoTime} {tzdata : String → Option Zone}
  {mon : CertMonitor} {st : State} {domain : String} {event : Event}

theorem stillRunning_sublist (st : State) (event : Event) :
    (stillRunning st event).Sublist st.running := by
  cases event with
  | finish domain caller outcome => exact List.erase_sublist
  | beginCheck _ | visit _ _ _ _ | fire _ _ _ | miss _ _ | renew _ _ _ =>
    exact List.Sublist.refl _

theorem step_running_of_starts (starts : Starts fromisoformat tzdata mon st domain event) :
    (step fromisoformat tzdata mon st event).running =
      st.running ++ [(domain, event.caller)] := by
  obtain ⟨now, tried, opened, launched⟩ := starts
  simp [step_running, tried, renewRunning, opened, launched]

theorem step_running_sublist (idle : ∀ domain, ¬ Starts fromisoformat tzdata mon st domain event) :
    (step fromisoformat tzdata mon st event).running.Sublist st.running := by
  rw [step_running]
  cases tried : attempt fromisoformat mon st event with
  | none => exact stillRunning_sublist st event
  | some attempt =>
    obtain ⟨domain, now⟩ := attempt
    simp only [renewRunning]
    split
    · rename_i opened launched
      exact absurd ⟨now, tried, opened, launched⟩ (idle domain)
    · exact List.Sublist.refl _

theorem step_single_iff (single : Single st) :
    Single (step fromisoformat tzdata mon st event) ↔
      FindsNone fromisoformat tzdata mon st event := by
  by_cases idle : ∀ domain, ¬ Starts fromisoformat tzdata mon st domain event
  · have kept : Single (step fromisoformat tzdata mon st event) :=
      List.Nodup.sublist ((step_running_sublist idle).map Prod.fst) single
    exact iff_of_true kept fun domain starts => absurd starts (idle domain)
  · obtain ⟨domain, starts⟩ := not_forall_not.mp idle
    have unique : ∀ domain', Starts fromisoformat tzdata mon st domain' event →
        domain' = domain := by
      rintro domain' ⟨now', tried', -⟩
      obtain ⟨now, tried, -⟩ := starts
      exact congrArg Prod.fst (Option.some.inj (tried'.symm.trans tried))
    have appended : Single (step fromisoformat tzdata mon st event) ↔
        domain ∉ st.running.map Prod.fst := by
      rw [Single, step_running_of_starts starts, List.map_append, List.nodup_append]
      simp only [List.map_cons, List.map_nil, List.mem_singleton]
      constructor
      · rintro ⟨-, -, apart⟩ mem
        exact apart domain mem domain rfl rfl
      · intro absent
        refine ⟨single, List.pairwise_singleton _ _, ?_⟩
        rintro domain' mem _ rfl rfl
        exact absent mem
    rw [appended]
    constructor
    · intro absent domain' starts' caller mem
      obtain rfl := unique domain' starts'
      exact absent (List.mem_map_of_mem mem)
    · intro finds mem
      obtain ⟨⟨domain', caller⟩, running, rfl⟩ := List.mem_map.mp mem
      exact finds domain' starts caller running

theorem single_iff (fromisoformat : String → Option IsoTime) (tzdata : String → Option Zone)
    (mon : CertMonitor) (es : List Event) :
    EveryState (step fromisoformat tzdata mon) Single State.initial es ↔
      EveryStep (step fromisoformat tzdata mon) (FindsNone fromisoformat tzdata mon)
        State.initial es := by
  have start : Single State.initial := by simp [Single, State.initial]
  exact everyState_iff_everyStep (fun _ _ single _ => step_single_iff single) start
    (everyStep_true _ _)

/-- Two requests for one domain, on threads of their own. -/
theorem requests_overlap : ¬ EveryState
    (step (fun _ => none) onlyUtc ⟨some { renewCommand := some "certbot renew" }, true⟩) Single
    State.initial [.renew "example.com" 0 (.ok ()), .renew "example.com" 0 (.ok ())] := by
  intro single
  have last : Single _ := single.last
  revert last
  unfold Single
  decide

end AcmeGitWebhook.Monitor
