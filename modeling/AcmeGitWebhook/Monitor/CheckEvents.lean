import AcmeGitWebhook.Monitor.Check

/-!
# The check as events of the monitor

`runCheck` waits for each command it starts, and the monitor's `step` has a command's end as an
event of its own. `checkAll_run` says that a check which gets through its certificates is the
run of the monitor in which nothing else happens meanwhile.
-/

namespace AcmeGitWebhook.Monitor

open Library

/-- The monitor with these certificates still to visit. -/
def State.visiting (st : State) (certs : List Cert) : State := { st with check := certs }

variable (s : Setting) (env : Surroundings)

/-- The visit, and the end of the command if the visit has started it. -/
def certEvents (c : CertStatus) (st : CheckState) : List Event :=
  .visit (env.now c.domain) (env.launch c.domain) (.ok ()) (env.webhook c.domain) ::
    if (checkCert s env c.toCert st.monitor).2.running = st.monitor.running then []
    else [.finish c.domain .check (env.outcome c.domain)]

def checkEvents : List CertStatus → CheckState → List Event
  | [], _ => []
  | c :: certs, st => certEvents s env c st ++ checkEvents certs (checkOne s env c st).2

variable {s env} {st : CheckState} {certs : List Cert}

/-! ## What is still to visit does not matter to a visit -/

theorem warn_visiting (config : MonitorConfig) (domain : String) (daysLeft : Int)
    (webhook : Int → Bool) (st : State) (threshold : Int) :
    warn config domain daysLeft webhook (st.visiting certs) threshold =
      (warn config domain daysLeft webhook st threshold).visiting certs := by
  by_cases crossed : daysLeft ≤ threshold ∧ threshold ∉ (st.sentWarnings.get? domain).getD []
  · have crossed' : daysLeft ≤ threshold ∧
        threshold ∉ ((st.visiting certs).sentWarnings.get? domain).getD [] := crossed
    rw [warn, warn, if_pos crossed, if_pos crossed']
    cases config.alertWebhookUrl.filter (· ≠ "") <;> rfl
  · have crossed' : ¬ (daysLeft ≤ threshold ∧
        threshold ∉ ((st.visiting certs).sentWarnings.get? domain).getD []) := crossed
    rw [warn, warn, if_neg crossed, if_neg crossed']

theorem foldl_warn_visiting (config : MonitorConfig) (domain : String) (daysLeft : Int)
    (webhook : Int → Bool) (thresholds : List Int) (st : State) :
    thresholds.foldl (warn config domain daysLeft webhook) (st.visiting certs) =
      (thresholds.foldl (warn config domain daysLeft webhook) st).visiting certs := by
  induction thresholds generalizing st with
  | nil => rfl
  | cons threshold thresholds ih => rw [List.foldl_cons, warn_visiting, ih, List.foldl_cons]

theorem runRenew_visiting (tzdata : String → Option Zone) (mon : CertMonitor) (domain : String)
    (caller : Caller) (now : Int) (launch : Except PyError Unit) (st : State) :
    runRenew tzdata mon domain caller now launch (st.visiting certs) =
      ((runRenew tzdata mon domain caller now launch st).1,
        (runRenew tzdata mon domain caller now launch st).2.visiting certs) := by
  cases command : mon.command with
  | none => simp [runRenew, command]
  | some text =>
    rw [runRenew_eq command, runRenew_eq command]
    rcases deferral tzdata mon.window now with err | _ | next
    · rfl
    · cases launch <;> rfl
    · rfl

theorem checkCert_visiting (s : Setting) (env : Surroundings) (c : Cert) (st : State) :
    checkCert s env c (st.visiting certs) =
      ((checkCert s env c st).1, (checkCert s env c st).2.visiting certs) := by
  cases days : c.daysLeft with
  | none => simp [checkCert, days]
  | some daysLeft =>
    cases config : s.mon.config with
    | none => simp [checkCert, checkDayThreshold, days, config]
    | some config' =>
      simp only [checkCert, checkDayThreshold, days, config, foldl_warn_visiting]
      generalize config'.warnDays.foldl (warn config' c.domain daysLeft (env.webhook c.domain)) st =
        warned
      by_cases due : shouldRenew s.fromisoformat config' daysLeft c.metadata = true
      · have noted : (warned.visiting certs).record (.due c.domain) =
            (warned.record (.due c.domain)).visiting certs := rfl
        rw [if_pos due, if_pos due, noted]
        by_cases attempted : s.mon.command.isSome ∧
            c.domain ∉ (warned.record (.due c.domain)).renewing
        · have attempted' : s.mon.command.isSome ∧
              c.domain ∉ ((warned.record (.due c.domain)).visiting certs).renewing := attempted
          rw [if_pos attempted, if_pos attempted']
          exact runRenew_visiting s.tzdata s.mon c.domain .check _ _
            { warned.record (.due c.domain) with
              renewing := c.domain :: (warned.record (.due c.domain)).renewing }
        · have attempted' : ¬ (s.mon.command.isSome ∧
              c.domain ∉ ((warned.record (.due c.domain)).visiting certs).renewing) := attempted
          rw [if_neg attempted, if_neg attempted']
      · rw [if_neg due, if_neg due]

/-- A visit starts at most the command of its own certificate. -/
theorem checkCert_running (s : Setting) (env : Surroundings) (c : Cert) (st : State) :
    (checkCert s env c st).2.running = st.running ∨
      (checkCert s env c st).2.running = st.running ++ [(c.domain, .check)] := by
  obtain ⟨noted, note, cases_⟩ := checkCert_cases s env c st
  rw [cases_]
  split_ifs
  · rcases runRenew_cases s.tzdata s.mon c.domain .check (env.now c.domain) (env.launch c.domain)
      { noted with renewing := c.domain :: st.renewing } with
      same | ⟨next, -, deferred⟩ | ⟨-, started⟩
    · exact Or.inl (by rw [same]; exact note.running)
    · exact Or.inl (by rw [deferred]; exact note.running)
    · exact Or.inr (by rw [started]; exact congrArg (· ++ _) note.running)
  · exact Or.inl note.running

theorem visit_eq_checkCert (s : Setting) (env : Surroundings) (c : Cert) (st : State) :
    visit s.fromisoformat s.tzdata s.mon c (env.now c.domain) (env.launch c.domain) (.ok ())
        (env.webhook c.domain) st =
      match checkCert s env c st with
      | (.ok (), checked) => checked
      | (.error err, checked) => checked.abort err := by
  unfold visit checkCert
  cases c.daysLeft with
  | none => rfl
  | some daysLeft =>
    dsimp only
    rcases checkDayThreshold s.fromisoformat s.tzdata s.mon c.domain daysLeft c.metadata
      (env.now c.domain) (env.launch c.domain) (env.webhook c.domain) st with ⟨err | _, checked⟩
    · rfl
    · rfl

/-! ## The check -/

/-- A renewal that goes through has started no command, or has waited for its end. -/
theorem renewOne_ok {c : Cert} {after : CheckState} (h : renewOne s env c st = (.ok (), after)) :
    ∃ checked, checkCert s env c st.monitor = (.ok (), checked) ∧
      (checked.running = st.monitor.running ∧ after.monitor = checked ∨
        checked.running = st.monitor.running ++ [(c.domain, .check)] ∧
          (∀ err, env.outcome c.domain ≠ .error err) ∧
          after.monitor = ({ checked with running := st.monitor.running } : State).record
            (.ended c.domain .check (env.outcome c.domain))) := by
  have running := checkCert_running s env c st.monitor
  rcases visited : checkCert s env c st.monitor with ⟨err | ⟨⟩, checked⟩
  · simp [renewOne, visited] at h
  · refine ⟨checked, rfl, ?_⟩
    rw [visited] at running
    simp only [renewOne, visited, awaitRenewal] at h
    by_cases same : checked.running = st.monitor.running
    · rw [if_pos same] at h
      cases h
      exact Or.inl ⟨same, rfl⟩
    · rw [if_neg same] at h
      refine Or.inr ⟨running.resolve_left same, ?_⟩
      cases outcome : env.outcome c.domain with
      | error err =>
        rw [outcome] at h
        cases h
      | success | timeout | failure =>
        rw [outcome] at h
        cases h
        exact ⟨by simp, rfl⟩

/-- A certificate that the check gets through is one visit, and the end of the command that the
visit has started. -/
theorem checkOne_run {c : CertStatus} {after : CheckState} (idle : ¬ st.monitor.Busy)
    (through : checkOne s env c st = (.ok (), after)) (certs : List Cert) :
    run (step s.fromisoformat s.tzdata s.mon) (st.monitor.visiting (c.toCert :: certs))
        (certEvents s env c st) = after.monitor.visiting certs ∧
      after.monitor.running = st.monitor.running := by
  have idle' : ¬ (st.monitor.visiting (c.toCert :: certs)).Busy := idle
  have monitor := checkOne_monitor s env c st
  obtain ⟨mid, renewed, same⟩ : ∃ mid, renewOne s env c.toCert st = (.ok (), mid) ∧
      after.monitor = mid.monitor := by
    rw [through] at monitor
    rcases renewed : renewOne s env c.toCert st with ⟨err | ⟨⟩, mid⟩
    · simp [checkOne, renewed] at through
    · exact ⟨mid, rfl, by rw [monitor, renewed]⟩
  obtain ⟨checked, visited, ended⟩ := renewOne_ok renewed
  have visits : step s.fromisoformat s.tzdata s.mon (st.monitor.visiting (c.toCert :: certs))
      (.visit (env.now c.domain) (env.launch c.domain) (.ok ()) (env.webhook c.domain)) =
        checked.visiting certs := by
    calc
      _ = visit s.fromisoformat s.tzdata s.mon c.toCert (env.now c.domain) (env.launch c.domain)
            (.ok ()) (env.webhook c.domain) (st.monitor.visiting certs) := if_neg idle'
      _ = checked.visiting certs := by
        rw [visit_eq_checkCert, checkCert_visiting, visited]
  rw [same, certEvents, run_cons, visits, visited]
  rcases ended with ⟨running, kept⟩ | ⟨running, outcome, kept⟩
  · rw [if_pos running, kept]
    exact ⟨rfl, running⟩
  · have started : checked.running ≠ st.monitor.running := by simp [running]
    have erased : (st.monitor.running ++ [(c.domain, Caller.check)]).erase (c.domain, .check) =
        st.monitor.running := by
      have free : (c.domain, Caller.check) ∉ st.monitor.running := fun mem => idle ⟨_, mem⟩
      rw [List.erase_append_right _ free, List.erase_cons_head, List.append_nil]
    rw [if_neg started, kept]
    refine ⟨?_, rfl⟩
    simp only [run_cons, run_nil, step, State.visiting, running, List.mem_append,
      List.mem_singleton, or_true, if_true, erased]
    cases ended : env.outcome c.domain with
    | error err => exact absurd ended (outcome err)
    | success | timeout | failure => rfl

/-- A check that gets through its certificates is the run of its events. -/
theorem checkAll_run (certs : List CertStatus) {after : CheckState} (idle : ¬ st.monitor.Busy)
    (through : checkAll s env certs st = (.ok (), after)) :
    run (step s.fromisoformat s.tzdata s.mon) (st.monitor.visiting (certs.map (·.toCert)))
        (checkEvents s env certs st) = after.monitor.visiting [] := by
  induction certs generalizing st with
  | nil =>
    cases through
    rfl
  | cons c certs ih =>
    rcases first : checkOne s env c st with ⟨err | _, mid⟩
    · simp [checkAll, first] at through
    · obtain ⟨here, running⟩ := checkOne_run idle first (certs.map (·.toCert))
      have idle' : ¬ mid.monitor.Busy := by rwa [State.Busy, running]
      simp only [checkAll, first] at through
      rw [List.map_cons, checkEvents, first, run_append, here]
      exact ih idle' through

end AcmeGitWebhook.Monitor
