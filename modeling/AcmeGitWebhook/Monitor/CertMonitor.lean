import AcmeGitWebhook.Config
import AcmeGitWebhook.Library.Dict
import AcmeGitWebhook.Library.Run

/-!
# The certificate monitor

`CertMonitor` of `app/cert_monitor.py`: its checks, the renewals it starts or defers, and
the scheduler that runs the deferred ones. A check visits the certificates it has loaded one
by one; while a renew command it started is running it waits, and jobs of the scheduler and
`POST /acme/renew` requests, each on a thread of its own, go on. Outside systems are part of
the events: whether a command can be started and how it ends, whether an alert is delivered,
whether publishing a certificate's metrics raises. One check runs at a time.

The log keeps what the source sends to its logger, and notes each visit that finds a
certificate due, which the source does not.
-/

namespace AcmeGitWebhook.Monitor

open Library

/-- The fields of the `monitor` section that checks and renewals read. -/
structure MonitorConfig where
  warnDays : List Int := [60, 30, 14, 7, 3, 1]
  alertWebhookUrl : Option String := none
  renewCommand : Option String := none
  renewThreshold : Int := 14
  renewPercentage : Option Int := none
  deployWindow : Option DeployWindow := none

/-- The monitor's fixed parts: its configuration and whether its scheduler is started. -/
structure CertMonitor where
  config : Option MonitorConfig
  scheduler : Bool

/-- What a check reads of a certificate that was loaded from Vault. -/
structure Cert where
  domain : String
  daysLeft : Option Int
  metadata : Dict String Json

/-- The thread a renewal runs on. -/
inductive Caller where
  | check | scheduler | request
  deriving DecidableEq, Repr

inductive Outcome where
  | success
  | timeout
  | failure (returncode : Int)
  | error (err : PyError)
  deriving DecidableEq, Repr

structure RenewJob where
  domain : String
  runDate : Int
  deriving DecidableEq, Repr

inductive Entry where
  | alerted (domain : String) (daysLeft threshold : Int) (delivered : Bool)
  | due (domain : String)
  | started (domain : String) (caller : Caller) (instant : Int)
  | deferred (j : RenewJob)
  | fired (j : RenewJob)
  | missed (j : RenewJob)
  | ended (domain : String) (caller : Caller) (outcome : Outcome)
  | raised (err : PyError)
  deriving DecidableEq, Repr

/-- `renewing` and `sentWarnings` are the source's sets; `check` holds the certificates the
check in progress has still to visit, and `running` the commands that have not ended. -/
structure State where
  renewing : List String
  sentWarnings : Dict String (List Int)
  jobs : Dict String RenewJob
  running : List (String × Caller)
  check : List Cert
  log : List Entry

def State.initial : State := ⟨[], [], [], [], [], []⟩

def State.record (st : State) (entry : Entry) : State := { st with log := st.log ++ [entry] }

/-- The check waits for a command that it started. -/
def State.Busy (st : State) : Prop := ∃ domain, (domain, Caller.check) ∈ st.running

instance (st : State) : Decidable st.Busy :=
  decidable_of_iff (∃ r ∈ st.running, r.2 = .check) (by simp [State.Busy])

variable (fromisoformat : String → Option IsoTime) (tzdata : String → Option Zone)
  (mon : CertMonitor)

/-! ## Renewals -/

/-- The renew command; an empty string counts as none. -/
def CertMonitor.command : Option String :=
  mon.config.bind fun config => config.renewCommand.filter (· ≠ "")

/-- The window that renewals keep to; without a scheduler there is nothing to defer with. -/
def CertMonitor.window : Option DeployWindow :=
  if mon.scheduler then mon.config.bind (·.deployWindow) else none

def renewId (domain : String) : String := "renew-" ++ domain

def deferRenew (j : RenewJob) (st : State) : State :=
  ({ st with jobs := st.jobs.set (renewId j.domain) j }).record (.deferred j)

/-- `_run_renew`: `launch` is what splitting the command line and starting it does. -/
def runRenew (domain : String) (caller : Caller) (now : Int) (launch : Except PyError Unit)
    (st : State) : Except PyError Unit × State :=
  match mon.command with
  | none => (.ok (), st)
  | some _ =>
    match deferral tzdata mon.window now with
    | .error err => (.error err, st)
    | .ok (some next) => (.ok (), deferRenew ⟨domain, next⟩ st)
    | .ok none =>
      match launch with
      | .error err => (.error err, st)
      | .ok () =>
        (.ok (), ({ st with running := st.running ++ [(domain, caller)] }).record
          (.started domain caller now))

/-! ## Checks -/

def shouldRenewByPercentage (config : MonitorConfig) (daysLeft : Int)
    (metadata : Dict String Json) : Bool :=
  match config.renewPercentage, metadata.get? "not_before", metadata.get? "expiry" with
  | some pct, some (.string notBefore), some (.string expiry) =>
    if notBefore = "" ∨ expiry = "" ∨ notBefore = "unknown" ∨ expiry = "unknown" then false
    else
      let lifetime := do
        let expires ← fromisoformat expiry
        let begins ← fromisoformat notBefore
        expires.sub? begins
      match lifetime with
      | none => false
      | some lifetime =>
        let total := lifetime / usPerDay
        if total ≤ 0 then false else decide (Python.scaledRatio daysLeft total 100 ≤ pct)
  -- absent and falsy fields, and those of another type, for which the dates raise TypeError
  | _, _, _ => false

/-- The monitor's own rule. -/
def shouldRenew (config : MonitorConfig) (daysLeft : Int) (metadata : Dict String Json) : Bool :=
  decide (daysLeft ≤ config.renewThreshold) ||
    shouldRenewByPercentage fromisoformat config daysLeft metadata

/-- One threshold of the warning loop; an empty webhook URL sends nothing. -/
def warn (config : MonitorConfig) (domain : String) (daysLeft : Int) (webhook : Int → Bool)
    (st : State) (threshold : Int) : State :=
  let sent := (st.sentWarnings.get? domain).getD []
  if daysLeft ≤ threshold ∧ threshold ∉ sent then
    let st := { st with sentWarnings := st.sentWarnings.set domain (threshold :: sent) }
    match config.alertWebhookUrl.filter (· ≠ "") with
    | none => st
    | some _ => st.record (.alerted domain daysLeft threshold (webhook threshold))
  else st

def checkDayThreshold (domain : String) (daysLeft : Int) (metadata : Dict String Json) (now : Int)
    (launch : Except PyError Unit) (webhook : Int → Bool) (st : State) :
    Except PyError Unit × State :=
  match mon.config with
  | none => (.ok (), st)
  | some config =>
    let st := config.warnDays.foldl (warn config domain daysLeft webhook) st
    if shouldRenew fromisoformat config daysLeft metadata then
      let st := st.record (.due domain)
      if mon.command.isSome ∧ domain ∉ st.renewing then
        runRenew tzdata mon domain .check now launch { st with renewing := domain :: st.renewing }
      else (.ok (), st)
    else (.ok (), st)

/-- An exception ends the check. -/
def State.abort (st : State) (err : PyError) : State :=
  ({ st with check := [] }).record (.raised err)

/-- The loop body of `run_check`: `publish` is what setting the certificate's metrics does. -/
def visit (c : Cert) (now : Int) (launch publish : Except PyError Unit) (webhook : Int → Bool)
    (st : State) : State :=
  let checked : Except PyError Unit × State :=
    match c.daysLeft with
    | none => (.ok (), st)
    | some daysLeft =>
      checkDayThreshold fromisoformat tzdata mon c.domain daysLeft c.metadata now launch webhook st
  match checked.1, publish with
  | .ok (), .ok () => checked.2
  | .ok (), .error err => checked.2.abort err
  | .error err, _ => checked.2.abort err

/-! ## The system -/

inductive Event where
  | beginCheck (certs : List Cert)
  | visit (now : Int) (launch publish : Except PyError Unit) (webhook : Int → Bool)
  | finish (domain : String) (caller : Caller) (outcome : Outcome)
  | fire (id : String) (now : Int) (launch : Except PyError Unit)
  | miss (id : String) (now : Int)
  | renew (domain : String) (now : Int) (launch : Except PyError Unit)

/-- The thread that an event's renewal runs on. -/
def Event.caller : Event → Caller
  | .fire _ _ _ => .scheduler
  | .renew _ _ _ => .request
  | _ => .check

/-- What starting the command of the event's renewal does. -/
def Event.launch : Event → Except PyError Unit
  | .visit _ launch _ _ | .fire _ _ launch | .renew _ _ launch => launch
  | .beginCheck _ | .finish _ _ _ | .miss _ _ => .ok ()

/-- An exception on a thread of its own ends that thread's work only. -/
def settle : Except PyError Unit × State → State
  | (.ok (), st) => st
  | (.error err, st) => st.record (.raised err)

/-- The scheduler runs a deferred renewal. -/
def fireJob (id : String) (j : RenewJob) (now : Int) (launch : Except PyError Unit) (st : State) :
    State :=
  settle (runRenew tzdata mon j.domain .scheduler now launch
    (({ st with jobs := st.jobs.erase id }).record (.fired j)))

/-- Events that are not enabled change nothing. -/
def step (st : State) : Event → State
  | .beginCheck certs => if st.check.isEmpty ∧ ¬ st.Busy then { st with check := certs } else st
  | .visit now launch publish webhook =>
    match st.check with
    | [] => st
    | c :: rest =>
      if st.Busy then st
      else visit fromisoformat tzdata mon c now launch publish webhook { st with check := rest }
  | .finish domain caller outcome =>
    if (domain, caller) ∈ st.running then
      let st := ({ st with running := st.running.erase (domain, caller) }).record
        (.ended domain caller outcome)
      match caller, outcome with
      | .check, .error err => st.abort err
      | _, .error err => st.record (.raised err)
      | _, _ => st
    else st
  | .fire id now launch =>
    match st.jobs.get? id with
    | none => st
    | some j =>
      if j.runDate ≤ now then
        -- the scheduler runs one instance of a job at a time, and drops a run it has no room for
        if (j.domain, .scheduler) ∈ st.running then { st with jobs := st.jobs.erase id }
        else fireJob tzdata mon id j now launch st
      else st
  | .miss id now =>
    match st.jobs.get? id with
    | none => st
    | some j =>
      if j.runDate + misfireGraceTime < now then
        ({ st with jobs := st.jobs.erase id }).record (.missed j)
      else st
  | .renew domain now launch => settle (runRenew tzdata mon domain .request now launch st)

/-! ## What a step can do

The three things a renewal can come to are `runRenew_cases`, and `visit_cases` says what a visit
adds to its check of the thresholds; the warning loop only adds alerts. What the scheduler does with
a job is `step_fire_cases` and `step_miss_cases`. -/

variable {fromisoformat tzdata mon} {domain command : String} {caller : Caller} {now : Int}
  {launch publish : Except PyError Unit} {webhook : Int → Bool} {st : State}

theorem runRenew_eq (h : mon.command = some command) :
    runRenew tzdata mon domain caller now launch st =
      match deferral tzdata mon.window now, launch with
      | .error err, _ => (.error err, st)
      | .ok (some next), _ => (.ok (), deferRenew ⟨domain, next⟩ st)
      | .ok none, .error err => (.error err, st)
      | .ok none, .ok () =>
        (.ok (), ({ st with running := st.running ++ [(domain, caller)] }).record
          (.started domain caller now)) := by
  simp only [runRenew, h]
  rcases deferral tzdata mon.window now with err | (_ | next)
  · rfl
  · cases launch <;> rfl
  · rfl

/-- A renewal does nothing, is deferred or is started. -/
theorem runRenew_cases (tzdata : String → Option Zone) (mon : CertMonitor) (domain : String)
    (caller : Caller) (now : Int) (launch : Except PyError Unit) (st : State) :
    (runRenew tzdata mon domain caller now launch st).2 = st ∨
      (∃ next, deferral tzdata mon.window now = .ok (some next) ∧
        runRenew tzdata mon domain caller now launch st = (.ok (), deferRenew ⟨domain, next⟩ st)) ∨
      (deferral tzdata mon.window now = .ok none ∧
        runRenew tzdata mon domain caller now launch st =
          (.ok (), ({ st with running := st.running ++ [(domain, caller)] }).record
            (.started domain caller now))) := by
  cases command : mon.command with
  | none => exact Or.inl (by simp [runRenew, command])
  | some text =>
    rw [runRenew_eq command]
    rcases decision : deferral tzdata mon.window now with err | (_ | next)
    · exact Or.inl rfl
    · cases launch with
      | error err => exact Or.inl rfl
      | ok => exact Or.inr (Or.inr ⟨rfl, rfl⟩)
    · exact Or.inr (Or.inl ⟨next, rfl, rfl⟩)

theorem warn_eq (config : MonitorConfig) (domain : String) (daysLeft : Int)
    (webhook : Int → Bool) (st : State) (threshold : Int) :
    ∃ sent alerts, warn config domain daysLeft webhook st threshold =
        { st with sentWarnings := sent, log := st.log ++ alerts } ∧
      ∀ entry ∈ alerts, ∃ delivered, entry = .alerted domain daysLeft threshold delivered := by
  dsimp only [warn]
  split_ifs
  · split
    · exact ⟨st.sentWarnings.set domain _, [], by rw [List.append_nil], by simp⟩
    · exact ⟨_, [.alerted domain daysLeft threshold (webhook threshold)], rfl, by simp⟩
  · exact ⟨st.sentWarnings, [], by simp, by simp⟩

theorem foldl_warn (config : MonitorConfig) (domain : String) (daysLeft : Int)
    (webhook : Int → Bool) (thresholds : List Int) (st : State) :
    ∃ sent alerts, thresholds.foldl (warn config domain daysLeft webhook) st =
        { st with sentWarnings := sent, log := st.log ++ alerts } ∧
      ∀ entry ∈ alerts, ∃ threshold delivered,
        entry = .alerted domain daysLeft threshold delivered := by
  induction thresholds generalizing st with
  | nil => exact ⟨st.sentWarnings, [], by simp, by simp⟩
  | cons threshold thresholds ih =>
    obtain ⟨sent, alerts, here, all⟩ := warn_eq config domain daysLeft webhook st threshold
    obtain ⟨sent', alerts', rest, all'⟩ := ih (warn config domain daysLeft webhook st threshold)
    refine ⟨sent', alerts ++ alerts', by rw [List.foldl_cons, rest, here]; simp, ?_⟩
    intro entry mem
    rcases List.mem_append.mp mem with mem | mem
    · exact ⟨threshold, all entry mem⟩
    · exact all' entry mem

/-- Beyond its check of the thresholds a visit adds at most the exception that ends it. -/
theorem visit_cases (fromisoformat : String → Option IsoTime) (tzdata : String → Option Zone)
    (mon : CertMonitor) (c : Cert) (now : Int) (launch publish : Except PyError Unit)
    (webhook : Int → Bool) (st : State) :
    ∃ checked : State, (c.daysLeft = none ∧ checked = st ∨
        ∃ daysLeft, c.daysLeft = some daysLeft ∧ checked = (checkDayThreshold fromisoformat tzdata
          mon c.domain daysLeft c.metadata now launch webhook st).2) ∧
      (visit fromisoformat tzdata mon c now launch publish webhook st = checked ∨
        ∃ err, visit fromisoformat tzdata mon c now launch publish webhook st =
          checked.abort err) := by
  cases days : c.daysLeft with
  | none =>
    refine ⟨st, Or.inl ⟨rfl, rfl⟩, ?_⟩
    cases publish with
    | ok => exact Or.inl (by simp [visit, days])
    | error err => exact Or.inr ⟨err, by simp [visit, days]⟩
  | some daysLeft =>
    refine ⟨_, Or.inr ⟨daysLeft, rfl, rfl⟩, ?_⟩
    simp only [visit, days]
    generalize checkDayThreshold fromisoformat tzdata mon c.domain daysLeft c.metadata now launch
      webhook st = checked
    obtain ⟨_ | _, after⟩ := checked
    · exact Or.inr ⟨_, rfl⟩
    · cases publish with
      | ok => exact Or.inl rfl
      | error err => exact Or.inr ⟨err, rfl⟩

/-- The scheduler comes to nothing, or to a due job, which it drops or runs. -/
theorem step_fire_cases (fromisoformat : String → Option IsoTime) (tzdata : String → Option Zone)
    (mon : CertMonitor) (st : State) (id : String) (now : Int) (launch : Except PyError Unit) :
    step fromisoformat tzdata mon st (.fire id now launch) = st ∨
      ∃ j, st.jobs.get? id = some j ∧ j.runDate ≤ now ∧
        ((j.domain, .scheduler) ∈ st.running ∧
            step fromisoformat tzdata mon st (.fire id now launch) =
              { st with jobs := st.jobs.erase id } ∨
          (j.domain, .scheduler) ∉ st.running ∧
            step fromisoformat tzdata mon st (.fire id now launch) =
              fireJob tzdata mon id j now launch st) := by
  simp only [step]
  cases pending : st.jobs.get? id with
  | none => exact Or.inl rfl
  | some j =>
    by_cases due : j.runDate ≤ now
    · by_cases running : (j.domain, Caller.scheduler) ∈ st.running
      · exact Or.inr ⟨j, rfl, due, Or.inl ⟨running, by simp [due, running]⟩⟩
      · exact Or.inr ⟨j, rfl, due, Or.inr ⟨running, by simp [due, running]⟩⟩
    · exact Or.inl (if_neg due)

theorem step_miss_cases (fromisoformat : String → Option IsoTime) (tzdata : String → Option Zone)
    (mon : CertMonitor) (st : State) (id : String) (now : Int) :
    step fromisoformat tzdata mon st (.miss id now) = st ∨
      ∃ j, st.jobs.get? id = some j ∧ j.runDate + misfireGraceTime < now ∧
        step fromisoformat tzdata mon st (.miss id now) =
          ({ st with jobs := st.jobs.erase id }).record (.missed j) := by
  simp only [step]
  cases pending : st.jobs.get? id with
  | none => exact Or.inl rfl
  | some j =>
    by_cases late : j.runDate + misfireGraceTime < now
    · exact Or.inr ⟨j, rfl, late, if_pos late⟩
    · exact Or.inl (if_neg late)

/-- The renewal an event attempts, and when: a due job's, a request's, or that of the
certificate a check visits. -/
def attempt (fromisoformat : String → Option IsoTime) (mon : CertMonitor) (st : State)
    (event : Event) : Option (String × Int) :=
  if mon.command.isNone then none
  else
    match event with
    | .visit now _ _ _ =>
      match st.check, mon.config with
      | c :: _, some config =>
        if ¬ st.Busy ∧ c.domain ∉ st.renewing ∧ c.daysLeft.any fun daysLeft =>
            shouldRenew fromisoformat config daysLeft c.metadata then some (c.domain, now)
        else none
      | _, _ => none
    | .fire id now _ =>
      match st.jobs.get? id with
      | some j =>
        if j.runDate ≤ now ∧ (j.domain, .scheduler) ∉ st.running then some (j.domain, now)
        else none
      | none => none
    | .renew domain now _ => some (domain, now)
    | .beginCheck _ | .finish _ _ _ | .miss _ _ => none

/-- The job that the scheduler misses. -/
def missed (st : State) : Event → Option RenewJob
  | .miss id now => (st.jobs.get? id).filter fun j => j.runDate + misfireGraceTime < now
  | _ => none

/-- The jobs an event leaves before it defers anything. -/
def remaining (st : State) : Event → Dict String RenewJob
  | .fire id now _ =>
    match st.jobs.get? id with
    | some j => if j.runDate ≤ now then st.jobs.erase id else st.jobs
    | none => st.jobs
  | .miss id now =>
    match st.jobs.get? id with
    | some j => if j.runDate + misfireGraceTime < now then st.jobs.erase id else st.jobs
    | none => st.jobs
  | _ => st.jobs

def renewJobs (tzdata : String → Option Zone) (mon : CertMonitor) (domain : String) (now : Int)
    (jobs : Dict String RenewJob) : Dict String RenewJob :=
  match deferral tzdata mon.window now with
  | .ok (some next) => jobs.set (renewId domain) ⟨domain, next⟩
  | _ => jobs

/-- The commands that run after a renewal is attempted. -/
def renewRunning (tzdata : String → Option Zone) (mon : CertMonitor) (domain : String)
    (caller : Caller) (now : Int) (launch : Except PyError Unit)
    (running : List (String × Caller)) : List (String × Caller) :=
  match deferral tzdata mon.window now, launch with
  | .ok none, .ok () => running ++ [(domain, caller)]
  | _, _ => running

/-- The commands an event leaves running before it starts one. -/
def stillRunning (st : State) : Event → List (String × Caller)
  | .finish domain caller _ => st.running.erase (domain, caller)
  | _ => st.running

/-- The jobs and the running commands, which renewals change. -/
def State.work (st : State) : Dict String RenewJob × List (String × Caller) :=
  (st.jobs, st.running)

theorem runRenew_work (hcommand : mon.command = some command) :
    (runRenew tzdata mon domain caller now launch st).2.work =
      (renewJobs tzdata mon domain now st.jobs,
        renewRunning tzdata mon domain caller now launch st.running) := by
  rw [runRenew_eq hcommand]
  simp only [renewJobs, renewRunning]
  rcases deferral tzdata mon.window now with err | (_ | next)
  · rfl
  · rcases launch with err | ⟨⟩ <;> rfl
  · cases launch <;> rfl

@[simp] theorem settle_work (result : Except PyError Unit × State) :
    (settle result).work = result.2.work := by
  obtain ⟨_ | _, after⟩ := result <;> rfl

@[simp] theorem visit_work (c : Cert) : (visit fromisoformat tzdata mon c now launch publish webhook
      st).work = match c.daysLeft with
        | none => st.work
        | some daysLeft => (checkDayThreshold fromisoformat tzdata mon c.domain daysLeft c.metadata
            now launch webhook st).2.work := by
  cases days : c.daysLeft with
  | none => cases publish <;> simp [visit, days, State.abort, State.record, State.work]
  | some daysLeft =>
    simp only [visit, days]
    generalize checkDayThreshold fromisoformat tzdata mon c.domain daysLeft c.metadata now launch
      webhook st = checked
    obtain ⟨_ | _, after⟩ := checked <;> cases publish <;> rfl

theorem checkDayThreshold_work {config : MonitorConfig} (hconfig : mon.config = some config)
    (hcommand : mon.command = some command) (daysLeft : Int) (metadata : Dict String Json) :
    (checkDayThreshold fromisoformat tzdata mon domain daysLeft metadata now launch webhook
      st).2.work = if domain ∉ st.renewing ∧ shouldRenew fromisoformat config daysLeft metadata then
        (renewJobs tzdata mon domain now st.jobs,
          renewRunning tzdata mon domain .check now launch st.running) else st.work := by
  obtain ⟨sent, alerts, warned, -⟩ := foldl_warn config domain daysLeft webhook config.warnDays st
  simp only [checkDayThreshold, hconfig, hcommand, warned]
  by_cases due : shouldRenew fromisoformat config daysLeft metadata = true
  · by_cases known : domain ∈ st.renewing
    · simp [due, known, State.record, State.work]
    · simp [due, known, State.record, runRenew_work hcommand]
  · simp [due, State.work]

/-- A monitor without a command never starts or schedules anything. -/
theorem checkDayThreshold_work_none (hcommand : mon.command = none) (daysLeft : Int)
    (metadata : Dict String Json) : (checkDayThreshold fromisoformat tzdata mon domain daysLeft
      metadata now launch webhook st).2.work = st.work := by
  cases hconfig : mon.config with
  | none => simp [checkDayThreshold, hconfig]
  | some config =>
    obtain ⟨sent, alerts, warned, -⟩ := foldl_warn config domain daysLeft webhook config.warnDays st
    simp only [checkDayThreshold, hconfig, hcommand, warned]
    split_ifs <;> grind [State.record, State.work]

/-- A visit tries the renewal of the certificate it has come to. -/
theorem step_visit_work (fromisoformat : String → Option IsoTime) (tzdata : String → Option Zone)
    (mon : CertMonitor) (st : State) (now : Int) (launch publish : Except PyError Unit)
    (webhook : Int → Bool) :
    (step fromisoformat tzdata mon st (.visit now launch publish webhook)).work =
      match attempt fromisoformat mon st (.visit now launch publish webhook) with
      | none => st.work
      | some (domain, instant) => (renewJobs tzdata mon domain instant st.jobs,
          renewRunning tzdata mon domain .check instant launch st.running) := by
  simp only [step, attempt]
  cases check : st.check with
  | nil => cases mon.command <;> rfl
  | cons c rest =>
    by_cases busy : st.Busy
    · cases mon.config <;> simp [busy]
    · cases hcommand : mon.command with
      | none =>
        simp only [busy, if_false, visit_work, Option.isNone_none, if_true]
        cases days : c.daysLeft with
        | none => rfl
        | some daysLeft => exact checkDayThreshold_work_none hcommand daysLeft c.metadata
      | some command =>
        simp only [busy, if_false, visit_work, Option.isNone_some, Bool.false_eq_true]
        cases hconfig : mon.config with
        | none => simp [CertMonitor.command, hconfig] at hcommand
        | some config =>
          cases days : c.daysLeft with
          | none => simp [days, State.work]
          | some daysLeft =>
            dsimp only
            rw [checkDayThreshold_work hconfig hcommand]
            by_cases known : c.domain ∈ st.renewing <;>
              by_cases due : shouldRenew fromisoformat config daysLeft c.metadata = true <;>
              simp [known, due, days, State.work]

/-- A job that fires is taken out of the store before its renewal is tried. -/
theorem step_fire_work (fromisoformat : String → Option IsoTime) (tzdata : String → Option Zone)
    (mon : CertMonitor) (st : State) (id : String) (now : Int) (launch : Except PyError Unit) :
    (step fromisoformat tzdata mon st (.fire id now launch)).work =
      match attempt fromisoformat mon st (.fire id now launch) with
      | none => (remaining st (.fire id now launch), st.running)
      | some (domain, instant) =>
        (renewJobs tzdata mon domain instant (remaining st (.fire id now launch)),
          renewRunning tzdata mon domain .scheduler instant launch st.running) := by
  simp only [step, attempt, remaining]
  cases pending : st.jobs.get? id with
  | none => cases mon.command <;> rfl
  | some j =>
    by_cases due : j.runDate ≤ now
    · by_cases running : (j.domain, Caller.scheduler) ∈ st.running
      · cases mon.command <;> simp [due, running, State.work]
      · cases hcommand : mon.command with
        | none => simp [due, running, fireJob, runRenew, hcommand, settle, State.record, State.work]
        | some command => simp [due, running, fireJob, runRenew_work hcommand, State.record]
    · cases mon.command <;> simp [due, State.work]

/-- What a step does to the jobs and the running commands is what the renewal that it attempts
does, after a job has fired or a command ended. -/
theorem step_work (fromisoformat : String → Option IsoTime) (tzdata : String → Option Zone)
    (mon : CertMonitor) (st : State) (event : Event) :
    (step fromisoformat tzdata mon st event).work =
      match attempt fromisoformat mon st event with
      | none => (remaining st event, stillRunning st event)
      | some (domain, now) => (renewJobs tzdata mon domain now (remaining st event),
          renewRunning tzdata mon domain event.caller now event.launch st.running) := by
  cases event with
  | beginCheck certs =>
    simp only [step, attempt, remaining, stillRunning]
    split_ifs <;> rfl
  | visit now launch publish webhook =>
    exact step_visit_work fromisoformat tzdata mon st now launch publish webhook
  | finish domain caller outcome =>
    simp only [step, attempt, remaining, stillRunning]
    by_cases running : (domain, caller) ∈ st.running
    · rw [if_pos running]
      split
      all_goals split_ifs <;> rfl
    · rw [if_neg running, List.erase_of_not_mem running]
      split_ifs <;> rfl
  | fire id now launch => exact step_fire_work fromisoformat tzdata mon st id now launch
  | miss id now =>
    have idle : attempt fromisoformat mon st (.miss id now) = none := by simp [attempt]
    rw [idle]
    simp only [step, remaining, stillRunning]
    cases st.jobs.get? id with
    | none => rfl
    | some j =>
      dsimp only
      split_ifs <;> rfl
  | renew domain now launch =>
    simp only [step, attempt, remaining, stillRunning, settle_work]
    cases hcommand : mon.command with
    | none => simp [runRenew, hcommand, State.work]
    | some command => simp [runRenew_work hcommand, Event.caller, Event.launch]

theorem step_jobs (fromisoformat : String → Option IsoTime) (tzdata : String → Option Zone)
    (mon : CertMonitor) (st : State) (event : Event) :
    (step fromisoformat tzdata mon st event).jobs =
      match attempt fromisoformat mon st event with
      | none => remaining st event
      | some (domain, now) => renewJobs tzdata mon domain now (remaining st event) := by
  have work := congrArg Prod.fst (step_work fromisoformat tzdata mon st event)
  cases tried : attempt fromisoformat mon st event <;> simpa [tried, State.work] using work

theorem step_running (fromisoformat : String → Option IsoTime) (tzdata : String → Option Zone)
    (mon : CertMonitor) (st : State) (event : Event) :
    (step fromisoformat tzdata mon st event).running =
      match attempt fromisoformat mon st event with
      | none => stillRunning st event
      | some (domain, now) =>
        renewRunning tzdata mon domain event.caller now event.launch st.running := by
  have work := congrArg Prod.snd (step_work fromisoformat tzdata mon st event)
  cases tried : attempt fromisoformat mon st event <;> simpa [tried, State.work] using work

theorem get?_of_erase {jobs : Dict String RenewJob} {id id' : String} {j : RenewJob}
    (h : (Dict.erase jobs id').get? id = some j) : jobs.get? id = some j := by
  by_cases same : id = id'
  · simp [same] at h
  · simpa [same] using h

/-- Only a job that the scheduler comes to leaves the store before anything is deferred. -/
theorem remaining_cases (st : State) (event : Event) :
    remaining st event = st.jobs ∨ ∃ id, remaining st event = st.jobs.erase id := by
  cases event with
  | fire id _ _ | miss id _ =>
    simp only [remaining]
    split
    · split_ifs
      · exact Or.inr ⟨id, rfl⟩
      · exact Or.inl rfl
    · exact Or.inl rfl
  | beginCheck _ | visit _ _ _ _ | finish _ _ _ | renew _ _ _ => exact Or.inl rfl

/-- The scheduler comes to no job but the one of that id. -/
theorem remaining_of_ne {id id' : String} (other : id' ≠ id) (st : State) (now : Int)
    (launch : Except PyError Unit) :
    (remaining st (.fire id now launch)).get? id' = st.jobs.get? id' ∧
      (remaining st (.miss id now)).get? id' = st.jobs.get? id' := by
  simp only [remaining]
  cases st.jobs.get? id with
  | none => exact ⟨rfl, rfl⟩
  | some j =>
    dsimp only
    constructor <;> split_ifs <;> simp [other]

theorem get?_remaining {event : Event} {id : String} {j : RenewJob}
    (h : (remaining st event).get? id = some j) : st.jobs.get? id = some j := by
  rcases remaining_cases st event with same | ⟨id', erased⟩
  · rwa [same] at h
  · exact get?_of_erase (erased ▸ h)

/-- A pending job was pending before or is the renewal the event attempts and defers. -/
theorem step_pending {event : Event} {id : String} {j : RenewJob}
    (h : (step fromisoformat tzdata mon st event).jobs.get? id = some j) :
    st.jobs.get? id = some j ∨ ∃ now, attempt fromisoformat mon st event = some (j.domain, now) ∧
      deferral tzdata mon.window now = .ok (some j.runDate) := by
  rw [step_jobs] at h
  cases tried : attempt fromisoformat mon st event with
  | none => exact Or.inl (get?_remaining (by simpa [tried] using h))
  | some attempt =>
    obtain ⟨domain, now⟩ := attempt
    simp only [tried, renewJobs] at h
    split at h
    · rename_i next decision
      by_cases same : id = renewId domain
      · obtain rfl : ⟨domain, next⟩ = j := by simpa [same] using h
        exact Or.inr ⟨now, rfl, decision⟩
      · exact Or.inl (get?_remaining (by simpa [same] using h))
    · exact Or.inl (get?_remaining h)

/-- Jobs wait under the ids of their domains. -/
theorem step_keyed (keyed : ∀ id j, st.jobs.get? id = some j → id = renewId j.domain)
    (event : Event) (id : String) (j : RenewJob)
    (pending : (step fromisoformat tzdata mon st event).jobs.get? id = some j) :
    id = renewId j.domain := by
  rw [step_jobs] at pending
  split at pending
  · exact keyed id j (get?_remaining pending)
  · next domain now tried =>
    simp only [renewJobs] at pending
    split at pending
    · next next decided =>
      by_cases same : id = renewId domain
      · obtain rfl : ⟨domain, next⟩ = j := by simpa [same] using pending
        exact same
      · exact keyed id j (get?_remaining (by simpa [same] using pending))
    · exact keyed id j (get?_remaining pending)

theorem renewId_inj {domain' : String} (h : renewId domain = renewId domain') :
    domain = domain' := by
  simpa [renewId, ← String.toList_inj] using h

theorem step_schedules {event : Event} {next : Int}
    (tried : attempt fromisoformat mon st event = some (domain, now))
    (decision : deferral tzdata mon.window now = .ok (some next)) :
    (step fromisoformat tzdata mon st event).jobs.get? (renewId domain) = some ⟨domain, next⟩ := by
  simp [step_jobs, tried, renewJobs, decision]

theorem attempt_command {event : Event}
    (tried : attempt fromisoformat mon st event = some (domain, now)) : mon.command.isSome := by
  cases hcommand : mon.command with
  | none => simp [attempt, hcommand] at tried
  | some command => rfl

end AcmeGitWebhook.Monitor
