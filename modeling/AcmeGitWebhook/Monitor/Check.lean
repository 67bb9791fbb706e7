import AcmeGitWebhook.Monitor.Alerts
import AcmeGitWebhook.Vault.Handler

/-!
# A whole check

`run_check` of `app/cert_monitor.py` from the listing of Vault's secrets to the cached status
and the metrics, each renew command run to its end. In one check a domain's renewal is
attempted at most once, and so is the alert of each of its thresholds, so what happens to
them is given by domain. `survives_iff` says when a check gets through its certificates.
-/

namespace AcmeGitWebhook.Monitor

open Library

/-! ## Loading -/

/-- A key of the listing, with the instant its secret is read at and the data that are read. -/
structure Listed where
  key : String
  now : Int
  read : Except PyError Json

/-- A certificate as `get_status` returns it; `expiry` is kept as the date that its text
stands for, and a missing `stored_at` is null. -/
structure CertStatus extends Cert where
  expiry : Option IsoTime
  storedAt : Json

/-- What a check runs on: `json.loads`, `datetime.fromisoformat`, the process's time zone and
`str` of the standard library, the time zone database, and the monitor. -/
structure Setting where
  loads : String → Option Json
  fromisoformat : String → Option IsoTime
  localTime : Int → Except PyError ℚ
  str : Json → String
  tzdata : String → Option Zone
  mon : CertMonitor

variable (s : Setting)

/-- A date of the metadata, unless it is missing, empty or `unknown`. -/
def knownDate (metadata : Dict String Json) (key : String) : Option Json :=
  match metadata.get? key with
  | some (.string text) => if text = "" ∨ text = "unknown" then none else some (.string text)
  | some date => if date.truthy then some date else none
  | none => none

/-- `datetime.fromisoformat` of any value. -/
def parseDate : Json → Except PyError IsoTime
  | .string text =>
    match s.fromisoformat text with
    | some date => .ok date
    | none => .error (.valueError "")
  | _ => .error .typeError

/-- The expiry and the days left until it; a naive date cannot be compared with the clock. -/
def expiryOf (metadata : Dict String Json) (now : Int) : Except PyError (Option (IsoTime × Int)) :=
  match knownDate metadata "expiry" with
  | none => .ok none
  | some date => do
    let expiry ← parseDate s date
    match expiry.instant? with
    | some instant => return some (expiry, (instant - now) / usPerDay)
    | none => .error .typeError

/-- `domain_key.rstrip("/")`. -/
def domainOf (key : String) : String :=
  String.ofList (key.toList.reverse.dropWhile (· = '/')).reverse

/-- One entry of the listing. -/
def loadCert (listed : Listed) : Except PyError CertStatus := do
  let data ← listed.read
  match data with
  | .object data =>
    match ← Vault.metadataOf s.loads data with
    | .object metadata =>
      let expiry ← expiryOf s metadata listed.now
      return {
        domain := domainOf listed.key
        daysLeft := expiry.map Prod.snd
        metadata := metadata
        expiry := expiry.map Prod.fst
        storedAt := (Dict.get? metadata "stored_at").getD .null }
    | _ => .error .attributeError
  | _ => .error .attributeError

/-- `_load_certs_from_vault`: entries that raise are left out, as is a listing that does. -/
def loadCertsFromVault (listing : Except PyError (List Listed)) : List CertStatus :=
  match listing with
  | .error _ => []
  | .ok listed => listed.filterMap fun l => (loadCert s l).toOption

/-! ## Metrics -/

/-- The gauges of `app/metrics.py` that are labelled by domain or status. -/
structure Metrics where
  expiryDaysLeft : Dict String Int
  expiryTimestamp : Dict String ℚ
  notBeforeTimestamp : Dict String ℚ
  info : Dict (String × String) Int
  lastRenewalTimestamp : Dict (String × String) ℚ
  renewalCount : Dict String Nat
  total : Dict String Nat

def Metrics.initial : Metrics := ⟨[], [], [], [], [], [], []⟩

/-- `date.timestamp()`; a naive date is read in the process's time zone. -/
def timestamp (date : IsoTime) : Except PyError ℚ :=
  match date.instant? with
  | some instant => .ok (Python.roundDouble (instant / 1000000))
  | none => s.localTime date.wall

def notBeforeTimestamp (metadata : Dict String Json) : Except PyError (Option ℚ) :=
  match knownDate metadata "not_before" with
  | none => .ok none
  | some date => do
    let notBefore ← parseDate s date
    return some (← timestamp s notBefore)

/-- The label `stored_at` of a certificate. -/
def CertStatus.label (c : CertStatus) : String :=
  match c.storedAt with
  | .string text => text
  | value => if value.truthy then s.str value else ""

/-- `days or -1`. -/
def daysOrMinusOne : Option Int → Int
  | none | some 0 => -1
  | some days => days

/-- What the loop sets for a certificate once its renewal is dealt with. -/
def publish (c : CertStatus) (m : Metrics) : Except PyError Unit × Metrics :=
  let m := { m with
    expiryDaysLeft := m.expiryDaysLeft.set c.domain (daysOrMinusOne c.daysLeft)
    expiryTimestamp := m.expiryTimestamp.set c.domain
      (((c.expiry.map (timestamp s)).bind Except.toOption).getD (-1)) }
  match notBeforeTimestamp s c.metadata with
  | .error err => (.error err, m)
  | .ok notBefore =>
    (.ok (), { m with
      notBeforeTimestamp := match notBefore with
        | none => m.notBeforeTimestamp
        | some time => m.notBeforeTimestamp.set c.domain time
      info := m.info.set (c.domain, c.label s) 1 })

/-- What the end of a renew command sets. -/
def publishRenewal (domain : String) (now : Int) (outcome : Outcome) (m : Metrics) : Metrics :=
  let time := Python.roundDouble (now / 1000000)
  match outcome with
  | .success => { m with
      lastRenewalTimestamp := m.lastRenewalTimestamp.set (domain, "success") time
      renewalCount := m.renewalCount.set domain ((m.renewalCount.get? domain).getD 0 + 1) }
  | .timeout | .failure _ =>
    { m with lastRenewalTimestamp := m.lastRenewalTimestamp.set (domain, "failure") time }
  | .error _ => m

/-- The status a certificate counts under. -/
def kind (daysLeft : Option Int) : String :=
  match daysLeft with
  | none => "expired"
  | some days =>
    if days ≤ 0 then "expired" else if days ≤ 14 then "critical" else if days ≤ 60 then "warning"
    else "valid"

def kinds : List String := ["valid", "warning", "critical", "expired"]

/-- The counts by status. -/
def statuses (certs : List CertStatus) : Dict String Nat :=
  certs.foldl (fun counts c =>
    Dict.set counts (kind c.daysLeft) ((Dict.get? counts (kind c.daysLeft)).getD 0 + 1))
    (kinds.map fun status => (status, 0))

def publishTotals (certs : List CertStatus) (m : Metrics) : Metrics :=
  { m with total := (statuses certs).foldl (fun total item => total.set item.1 item.2) m.total }

/-! ## The check -/

/-- What a check meets outside, by domain. -/
structure Surroundings where
  now : String → Int
  launch : String → Except PyError Unit
  outcome : String → Outcome
  webhook : String → Int → Bool

structure CheckState where
  monitor : State
  latestStatus : List CertStatus
  metrics : Metrics

def CheckState.initial : CheckState := ⟨.initial, [], .initial⟩

variable (env : Surroundings)

/-- The thresholds of a certificate whose days left are known. -/
def checkCert (c : Cert) (st : State) : Except PyError Unit × State :=
  match c.daysLeft with
  | none => (.ok (), st)
  | some days =>
    checkDayThreshold s.fromisoformat s.tzdata s.mon c.domain days c.metadata (env.now c.domain)
      (env.launch c.domain) (env.webhook c.domain) st

/-- The check waits for the command that it has started, if it has. -/
def awaitRenewal (domain : String) (running : List (String × Caller)) (st : CheckState) :
    Except PyError Unit × CheckState :=
  if st.monitor.running = running then (.ok (), st)
  else
    let st := { st with
      monitor := ({ st.monitor with running := running } : State).record
        (.ended domain .check (env.outcome domain))
      metrics := publishRenewal domain (env.now domain) (env.outcome domain) st.metrics }
    match env.outcome domain with
    | .error err => (.error err, st)
    | _ => (.ok (), st)

/-- `_check_day_threshold` with the renewal run to its end. -/
def renewOne (c : Cert) (st : CheckState) : Except PyError Unit × CheckState :=
  match checkCert s env c st.monitor with
  | (.error err, monitor) => (.error err, { st with monitor := monitor })
  | (.ok (), monitor) =>
    awaitRenewal env c.domain st.monitor.running { st with monitor := monitor }

/-- The loop body of `run_check`. -/
def checkOne (c : CertStatus) (st : CheckState) : Except PyError Unit × CheckState :=
  match renewOne s env c.toCert st with
  | (.error err, st) => (.error err, st)
  | (.ok (), st) =>
    let (result, metrics) := publish s c st.metrics
    (result, { st with metrics := metrics })

def checkAll : List CertStatus → CheckState → Except PyError Unit × CheckState
  | [], st => (.ok (), st)
  | c :: certs, st =>
    match checkOne s env c st with
    | (.error err, st) => (.error err, st)
    | (.ok (), st) => checkAll certs st

def runCheck (listing : Except PyError (List Listed)) (st : CheckState) :
    Except PyError (List CertStatus) × CheckState :=
  let certs := loadCertsFromVault s listing
  match checkAll s env certs st with
  | (.error err, st) => (.error err, st)
  | (.ok (), st) =>
    (.ok certs, { st with latestStatus := certs, metrics := publishTotals certs st.metrics })

/-! ## What can go wrong -/

/-- The certificate is due for renewal. -/
def due (c : Cert) : Bool :=
  s.mon.config.any fun config => c.daysLeft.any fun days =>
    shouldRenew s.fromisoformat config days c.metadata

/-- The check attempts to renew the certificate. -/
def attempts (renewing : List String) (c : Cert) : Bool :=
  s.mon.command.isSome && due s c && decide (c.domain ∉ renewing)

/-- How an attempt ends: it is deferred, or raises, or its command runs. -/
def renewalResult (domain : String) : Except PyError Unit :=
  match deferral s.tzdata s.mon.window (env.now domain) with
  | .error err => .error err
  | .ok (some _) => .ok ()
  | .ok none =>
    match env.launch domain, env.outcome domain with
    | .error err, _ => .error err
    | .ok (), .error err => .error err
    | .ok (), _ => .ok ()

def renewalFails (renewing : List String) (c : Cert) : Bool :=
  attempts s renewing c && !(renewalResult s env c.domain).isOk

/-- The start of the certificate's validity cannot be read. -/
def dateFails (c : Cert) : Bool := !(notBeforeTimestamp s c.metadata).isOk

/-- Neither the renewal nor the date of the certificate fails. -/
def fine (renewing : List String) (c : Cert) : Bool :=
  !renewalFails s env renewing c && !dateFails s c

variable {s env} {st : CheckState} {c : Cert}

/-- The warnings of a certificate are dealt with, and it is noted if it is due. -/
structure Noted (s : Setting) (c : Cert) (st noted : State) : Prop where
  log : ∃ added, noted.log = st.log ++ added
  renewing : noted.renewing = st.renewing
  running : noted.running = st.running
  sent : ∀ domain threshold, threshold ∈ noted.sent domain ↔ threshold ∈ st.sent domain ∨
    domain = c.domain ∧ ∃ config ∈ s.mon.config, ∃ days ∈ c.daysLeft,
      threshold ∈ config.warnDays ∧ days ≤ threshold

theorem foldl_warn_noted {config : MonitorConfig} {days : Int}
    (hconfig : s.mon.config = some config) (hdays : c.daysLeft = some days)
    (webhook : Int → Bool) (st : State) :
    Noted s c st (config.warnDays.foldl (warn config c.domain days webhook) st) := by
  obtain ⟨sent, alerts, warned, -⟩ := foldl_warn config c.domain days webhook config.warnDays st
  have remembered := (foldl_warn_warned config c.domain days webhook config.warnDays st).sent
  refine ⟨⟨alerts, by rw [warned]⟩, by rw [warned], by rw [warned], fun domain threshold => ?_⟩
  rw [remembered]
  simp [hconfig, hdays]

theorem Noted.record {st noted : State} (h : Noted s c st noted) (entry : Entry) :
    Noted s c st (noted.record entry) := by
  obtain ⟨⟨added, log⟩, renewing, running, sent⟩ := h
  exact ⟨⟨added ++ [entry], by simp [State.record, log]⟩, renewing, running, sent⟩

/-- After the warnings comes the renewal, if one is attempted. -/
theorem checkCert_cases (s : Setting) (env : Surroundings) (c : Cert)
    (st : State) : ∃ noted, Noted s c st noted ∧
      checkCert s env c st =
        if attempts s st.renewing c then
          runRenew s.tzdata s.mon c.domain .check (env.now c.domain) (env.launch c.domain)
            { noted with renewing := c.domain :: st.renewing }
        else (.ok (), noted) := by
  cases hdays : c.daysLeft with
  | none =>
    refine ⟨st, ⟨⟨[], by simp⟩, rfl, rfl, by simp [hdays]⟩, ?_⟩
    simp [checkCert, hdays, attempts, due]
  | some days =>
    cases hconfig : s.mon.config with
    | none =>
      refine ⟨st, ⟨⟨[], by simp⟩, rfl, rfl, by simp [hconfig]⟩, ?_⟩
      simp [checkCert, hdays, checkDayThreshold, hconfig, attempts, due]
    | some config =>
      have warned : Noted s c st
          (config.warnDays.foldl (warn config c.domain days (env.webhook c.domain)) st) :=
        foldl_warn_noted hconfig hdays (env.webhook c.domain) st
      simp only [checkCert, hdays, checkDayThreshold, hconfig, attempts, due, Option.any_some]
      generalize config.warnDays.foldl (warn config c.domain days (env.webhook c.domain)) st =
        noted at warned
      by_cases isDue : shouldRenew s.fromisoformat config days c.metadata = true
      · refine ⟨noted.record (.due c.domain), warned.record _, ?_⟩
        have renewing : (noted.record (.due c.domain)).renewing = st.renewing := warned.renewing
        simp [isDue, renewing]
      · exact ⟨noted, warned, by simp [isDue]⟩

/-- The entry tells that a check has started the domain's renewal or put it off to the window. -/
def Entry.begins (domain : String) : Entry → Bool
  | .started domain' .check _ => domain' = domain
  | .deferred j => j.domain = domain
  | _ => false

/-- What the attempt to renew a certificate leaves. -/
structure Attempted (s : Setting) (env : Surroundings) (c : Cert) (noted : State)
    (st after : CheckState) : Prop where
  status : after.latestStatus = st.latestStatus
  renewing : after.monitor.renewing = c.domain :: st.monitor.renewing
  sentWarnings : after.monitor.sentWarnings = noted.sentWarnings
  log : ∃ added, after.monitor.log = noted.log ++ added ∧
    (renewalResult s env c.domain = .ok () → ∃ entry ∈ added, entry.begins c.domain)
  metrics : after.metrics = st.metrics ∨ after.metrics =
    publishRenewal c.domain (env.now c.domain) (env.outcome c.domain) st.metrics
  failed : (renewalResult s env c.domain).isOk = false → after.metrics = st.metrics

theorem renewOne_cases (s : Setting) (env : Surroundings) (c : Cert)
    (st : CheckState) : ∃ noted, Noted s c st.monitor noted ∧
      if attempts s st.monitor.renewing c then
        (renewOne s env c st).1 = renewalResult s env c.domain ∧
          Attempted s env c noted st (renewOne s env c st).2
      else renewOne s env c st = (.ok (), { st with monitor := noted }) := by
  obtain ⟨noted, note, checked⟩ := checkCert_cases s env c st.monitor
  refine ⟨noted, note, ?_⟩
  by_cases attempt : attempts s st.monitor.renewing c = true
  · rw [if_pos attempt]
    obtain ⟨command, hcommand⟩ : ∃ command, s.mon.command = some command := by
      simp only [attempts, Bool.and_eq_true, Option.isSome_iff_exists] at attempt
      exact attempt.1.1
    simp only [attempt, if_true, runRenew_eq hcommand] at checked
    unfold renewOne renewalResult
    rw [checked]
    rcases decision : deferral s.tzdata s.mon.window (env.now c.domain) with err | (_ | next)
    · exact ⟨rfl, rfl, rfl, rfl, ⟨[], by simp, by simp [renewalResult, decision]⟩, Or.inl rfl,
        fun _ => rfl⟩
    · cases launch : env.launch c.domain with
      | error err =>
        exact ⟨rfl, rfl, rfl, rfl, ⟨[], by simp, by simp [renewalResult, decision, launch]⟩,
          Or.inl rfl, fun _ => rfl⟩
      | ok =>
        have grown : noted.running ++ [(c.domain, Caller.check)] ≠ st.monitor.running := by
          rw [note.running]
          simp
        have started :
            (Entry.started c.domain .check (env.now c.domain)).begins c.domain = true := by
          simp [Entry.begins]
        simp only [awaitRenewal, State.record, grown, if_false]
        cases outcome : env.outcome c.domain
        all_goals exact ⟨rfl, rfl, rfl, rfl, ⟨[_, _], List.append_assoc _ _ _,
          fun _ => ⟨_, List.mem_cons_self, started⟩⟩, Or.inr (by rw [outcome]),
          by simp [renewalResult, decision, launch, outcome, Except.isOk, Except.toBool,
            publishRenewal]⟩
    · have same : (deferRenew ⟨c.domain, next⟩
          { noted with renewing := c.domain :: st.monitor.renewing }).running =
            st.monitor.running := note.running
      simp only [awaitRenewal, same, if_true]
      exact ⟨trivial, rfl, rfl, rfl, ⟨[_], rfl, fun _ => ⟨_, List.mem_cons_self,
        by simp [Entry.begins]⟩⟩, Or.inl rfl, fun _ => rfl⟩
  · rw [if_neg attempt]
    simp only [attempt, Bool.false_eq_true, if_false] at checked
    simp only [renewOne, checked, awaitRenewal, note.running, if_true]

theorem renewOne_isOk (s : Setting) (env : Surroundings) (c : Cert) (st : CheckState) :
    (renewOne s env c st).1.isOk = !renewalFails s env st.monitor.renewing c := by
  obtain ⟨noted, -, cases_⟩ := renewOne_cases s env c st
  by_cases attempt : attempts s st.monitor.renewing c = true
  · rw [if_pos attempt] at cases_
    rw [cases_.1, renewalFails, attempt, Bool.true_and, Bool.not_not]
  · rw [if_neg attempt] at cases_
    simp [cases_, renewalFails, attempt, Except.isOk, Except.toBool]

theorem renewOne_renewing (s : Setting) (env : Surroundings) (c : Cert) (st : CheckState) :
    (renewOne s env c st).2.monitor.renewing =
      if attempts s st.monitor.renewing c then c.domain :: st.monitor.renewing
      else st.monitor.renewing := by
  obtain ⟨noted, note, cases_⟩ := renewOne_cases s env c st
  by_cases attempt : attempts s st.monitor.renewing c = true
  · rw [if_pos attempt] at cases_ ⊢
    exact cases_.2.renewing
  · rw [if_neg attempt] at cases_ ⊢
    rw [cases_]
    exact note.renewing

/-- Publishing raises exactly at a date that cannot be read. -/
theorem publish_isOk (s : Setting) (c : CertStatus) (m : Metrics) :
    (publish s c m).1.isOk = !dateFails s c.toCert := by
  unfold publish dateFails
  cases notBeforeTimestamp s c.metadata <;> rfl

theorem checkOne_eq (s : Setting) (env : Surroundings) (c : CertStatus) (st : CheckState) :
    checkOne s env c st =
      match renewOne s env c.toCert st with
      | (.error err, after) => (.error err, after)
      | (.ok (), after) => ((publish s c after.metrics).1,
          { after with metrics := (publish s c after.metrics).2 }) := rfl

/-- The check goes on after a certificate unless its renewal or its date fails. -/
theorem checkOne_isOk (s : Setting) (env : Surroundings) (c : CertStatus) (st : CheckState) :
    (checkOne s env c st).1.isOk =
      (!renewalFails s env st.monitor.renewing c.toCert && !dateFails s c.toCert) := by
  have renewed := renewOne_isOk s env c.toCert st
  rw [checkOne_eq]
  rcases step : renewOne s env c.toCert st with ⟨_ | _, after⟩
  · rw [step] at renewed
    simp [← renewed, Except.isOk, Except.toBool]
  · rw [step] at renewed
    rw [← renewed, ← publish_isOk s c after.metrics]
    rfl

theorem checkOne_monitor (s : Setting) (env : Surroundings) (c : CertStatus) (st : CheckState) :
    (checkOne s env c st).2.monitor = (renewOne s env c.toCert st).2.monitor := by
  rw [checkOne_eq]
  rcases renewOne s env c.toCert st with ⟨_ | _, after⟩ <;> rfl

/-- A renewal that goes through does not change which others fail. -/
theorem renewalFails_after {renewing : List String}
    (fine : renewalFails s env renewing c = false) (c' : Cert) :
    renewalFails s env (if attempts s renewing c then c.domain :: renewing else renewing) c' =
      renewalFails s env renewing c' := by
  by_cases attempt : attempts s renewing c = true
  · have ended : (renewalResult s env c.domain).isOk = true := by
      simpa [renewalFails, attempt] using fine
    rw [if_pos attempt]
    by_cases same : c'.domain = c.domain
    · simp [renewalFails, attempts, same, ended]
    · simp [renewalFails, attempts, same]
  · rw [if_neg attempt]

/-- After a certificate that is fine, the same renewals fail as before. -/
theorem renewalFails_step {c : CertStatus} {after : CheckState}
    (step : checkOne s env c st = (.ok (), after)) (c' : Cert) :
    renewalFails s env after.monitor.renewing c' = renewalFails s env st.monitor.renewing c' := by
  have ok := checkOne_isOk s env c st
  have renewing := congrArg State.renewing (checkOne_monitor s env c st)
  rw [renewOne_renewing] at renewing
  rw [step] at ok renewing
  have passed : renewalFails s env st.monitor.renewing c.toCert = false := by
    simpa using (Bool.and_eq_true_iff.mp ok.symm).1
  rw [renewing, renewalFails_after passed]

/-- The loop goes through all certificates exactly when each of them is fine. -/
theorem checkAll_isOk (s : Setting) (env : Surroundings) (certs : List CertStatus)
    (st : CheckState) : (checkAll s env certs st).1.isOk =
      certs.all fun c => fine s env st.monitor.renewing c.toCert := by
  induction certs generalizing st with
  | nil => rfl
  | cons c certs ih =>
    have here := checkOne_isOk s env c st
    rcases step : checkOne s env c st with ⟨_ | _, after⟩
    · rw [step] at here
      simp [checkAll, step, fine, ← here, Except.isOk, Except.toBool]
    · rw [step] at here
      simp only [checkAll, step, ih, fine, renewalFails_step step, List.all_cons, ← here]
      rfl

/-! ## What a check that gets through has done -/

/-- Between two states the domain's renewal was started or put off. -/
def Began (domain : String) (before after : State) : Prop :=
  ∃ added, after.log = before.log ++ added ∧ ∃ entry ∈ added, entry.begins domain

/-- What a check that goes on only adds to. -/
structure Progress (before after : State) : Prop where
  sent : ∀ domain threshold, threshold ∈ before.sent domain → threshold ∈ after.sent domain
  log : ∃ added, after.log = before.log ++ added
  renewing : ∀ domain ∈ after.renewing, domain ∈ before.renewing ∨ Began domain before after

/-- A certificate has been dealt with between two states: its alerts are remembered, and if it
is due its renewal has begun, then or earlier. -/
structure Handled (s : Setting) (c : Cert) (before after : State) : Prop where
  warned : ∀ config ∈ s.mon.config, ∀ days ∈ c.daysLeft, ∀ threshold ∈ config.warnDays,
    days ≤ threshold → threshold ∈ after.sent c.domain
  renewed : s.mon.command.isSome → due s c → c.domain ∈ before.renewing ∨
    Began c.domain before after

section
variable {domain : String} {before middle after : State}

theorem Began.mono_left (h : Began domain middle after)
    (log : ∃ added, middle.log = before.log ++ added) : Began domain before after := by
  obtain ⟨added, log⟩ := log
  obtain ⟨new, log', entry, mem, renews⟩ := h
  exact ⟨added ++ new, by rw [log', log, List.append_assoc], entry,
    List.mem_append_right _ mem, renews⟩

theorem Began.mono_right (h : Began domain before middle)
    (log : ∃ added, after.log = middle.log ++ added) : Began domain before after := by
  obtain ⟨added, log⟩ := log
  obtain ⟨new, log', entry, mem, renews⟩ := h
  exact ⟨new ++ added, by rw [log, log', List.append_assoc], entry,
    List.mem_append_left _ mem, renews⟩

theorem Progress.refl (st : State) : Progress st st :=
  ⟨fun _ _ h => h, ⟨[], by simp⟩, fun _ h => Or.inl h⟩

theorem Progress.trans (h : Progress before middle) (h' : Progress middle after) :
    Progress before after where
  sent domain threshold known := h'.sent _ _ (h.sent _ _ known)
  log := by
    obtain ⟨added, log⟩ := h.log
    obtain ⟨added', log'⟩ := h'.log
    exact ⟨added ++ added', by rw [log', log, List.append_assoc]⟩
  renewing domain known := by
    rcases h'.renewing domain known with known | began
    · exact (h.renewing domain known).imp_right fun began => began.mono_right h'.log
    · exact Or.inr (began.mono_left h.log)

theorem Handled.mono_right (h : Handled s c before middle) (rest : Progress middle after) :
    Handled s c before after where
  warned config hconfig days hdays threshold listed low :=
    rest.sent _ _ (h.warned config hconfig days hdays threshold listed low)
  renewed command isDue :=
    (h.renewed command isDue).imp_right fun began => began.mono_right rest.log

theorem Handled.mono_left (h : Handled s c middle after) (start : Progress before middle)
    (rest : Progress middle after) : Handled s c before after where
  warned := h.warned
  renewed command isDue := by
    rcases h.renewed command isDue with known | began
    · exact (start.renewing _ known).imp_right fun began => began.mono_right rest.log
    · exact Or.inr (began.mono_left start.log)

end

/-- A renewal that does not raise has dealt with its certificate. -/
theorem renewOne_handled {after : CheckState} (step : renewOne s env c st = (.ok (), after)) :
    Progress st.monitor after.monitor ∧ Handled s c st.monitor after.monitor := by
  obtain ⟨noted, note, cases_⟩ := renewOne_cases s env c st
  obtain ⟨noise, log⟩ := note.log
  have kept : ∀ domain threshold, threshold ∈ st.monitor.sent domain →
      threshold ∈ noted.sent domain :=
    fun domain threshold known => (note.sent domain threshold).mpr (Or.inl known)
  have warned : ∀ config ∈ s.mon.config, ∀ days ∈ c.daysLeft, ∀ threshold ∈ config.warnDays,
      days ≤ threshold → threshold ∈ noted.sent c.domain :=
    fun config hconfig days hdays threshold listed low =>
      (note.sent _ _).mpr (Or.inr ⟨rfl, config, hconfig, days, hdays, listed, low⟩)
  by_cases attempt : attempts s st.monitor.renewing c = true
  · rw [if_pos attempt, step] at cases_
    obtain ⟨ended, attempted⟩ := cases_
    obtain ⟨added, log', renews⟩ := attempted.log
    obtain ⟨entry, mem, renews⟩ := renews ended.symm
    have began : Began c.domain st.monitor after.monitor :=
      ⟨noise ++ added, by rw [log', log, List.append_assoc], entry, List.mem_append_right _ mem,
        renews⟩
    have sent : after.monitor.sent = noted.sent := by
      funext domain
      rw [State.sent, attempted.sentWarnings, State.sent]
    refine ⟨⟨sent ▸ kept, ⟨noise ++ added, by rw [log', log, List.append_assoc]⟩, ?_⟩,
      ⟨sent ▸ warned, fun _ _ => Or.inr began⟩⟩
    intro domain known
    rw [attempted.renewing] at known
    rcases List.mem_cons.mp known with rfl | known
    · exact Or.inr began
    · exact Or.inl known
  · rw [if_neg attempt, step] at cases_
    obtain rfl : after = { st with monitor := noted } := congrArg Prod.snd cases_
    refine ⟨⟨kept, ⟨noise, log⟩, fun domain known => Or.inl (note.renewing ▸ known)⟩,
      ⟨warned, fun command isDue => Or.inl ?_⟩⟩
    simpa [attempts, command, isDue] using attempt

theorem checkOne_handled {c : CertStatus} {after : CheckState}
    (step : checkOne s env c st = (.ok (), after)) :
    Progress st.monitor after.monitor ∧ Handled s c.toCert st.monitor after.monitor := by
  have monitor := checkOne_monitor s env c st
  rcases renewed : renewOne s env c.toCert st with ⟨_ | _, between⟩
  · simp [checkOne_eq, renewed] at step
  · have same : after.monitor = between.monitor := by simpa [step, renewed] using monitor
    rw [same]
    exact renewOne_handled renewed

/-- A loop that gets to its end has dealt with each certificate. -/
theorem checkAll_handled {certs : List CertStatus} {after : CheckState}
    (done : checkAll s env certs st = (.ok (), after)) :
    Progress st.monitor after.monitor ∧
      ∀ c ∈ certs, Handled s c.toCert st.monitor after.monitor := by
  induction certs generalizing st with
  | nil =>
    obtain rfl : st = after := congrArg Prod.snd done
    exact ⟨Progress.refl _, by simp⟩
  | cons c certs ih =>
    rcases step : checkOne s env c st with ⟨_ | _, middle⟩
    · simp [checkAll, step] at done
    · simp only [checkAll, step] at done
      obtain ⟨start, first⟩ := checkOne_handled step
      obtain ⟨rest, others⟩ := ih done
      refine ⟨start.trans rest, fun c' mem => ?_⟩
      rcases List.mem_cons.mp mem with rfl | mem
      · exact first.mono_right rest
      · exact (others c' mem).mono_left start rest

/-! ## The law -/

def entries (listing : Except PyError (List Listed)) : List Listed := listing.toOption.getD []

/-- The check returns every certificate that loads, they are the new status, and each of them
has been dealt with. -/
structure Survives (s : Setting) (env : Surroundings) (listing : Except PyError (List Listed))
    (st : CheckState) : Prop where
  returns : ∃ certs, (runCheck s env listing st).1 = .ok certs ∧
    (runCheck s env listing st).2.latestStatus = certs ∧
    ∀ l ∈ entries listing, ∀ c, loadCert s l = .ok c → c ∈ certs
  handled : ∀ l ∈ entries listing, ∀ c, loadCert s l = .ok c →
    Handled s c.toCert st.monitor (runCheck s env listing st).2.monitor

/-- Every certificate that loads has a start date that can be read, if it has one, and its
renewal, if the check attempts it, does not raise. -/
structure Untroubled (s : Setting) (env : Surroundings) (listing : Except PyError (List Listed))
    (st : CheckState) : Prop where
  dates : ∀ l ∈ entries listing, ∀ c, loadCert s l = .ok c →
    (notBeforeTimestamp s c.metadata).isOk
  renewals : ∀ l ∈ entries listing, ∀ c, loadCert s l = .ok c →
    attempts s st.monitor.renewing c.toCert → (renewalResult s env c.domain).isOk

theorem mem_loadCertsFromVault {listing : Except PyError (List Listed)} {c : CertStatus} :
    c ∈ loadCertsFromVault s listing ↔ ∃ l ∈ entries listing, loadCert s l = .ok c := by
  have loaded (l : Listed) : (loadCert s l).toOption = some c ↔ loadCert s l = .ok c := by
    cases loadCert s l <;> simp [Except.toOption]
  cases listing with
  | error err => simp [loadCertsFromVault, entries, Except.toOption]
  | ok listed =>
    simp only [loadCertsFromVault, List.mem_filterMap, loaded]
    rfl

theorem isOk_iff {ε : Type} {result : Except ε Unit} : result.isOk = true ↔ result = .ok () := by
  cases result <;> simp [Except.isOk, Except.toBool]

/-- The condition is that the loop gets to its end. -/
theorem untroubled_iff {listing : Except PyError (List Listed)} : Untroubled s env listing st ↔
    (checkAll s env (loadCertsFromVault s listing) st).1 = .ok () := by
  rw [← isOk_iff, checkAll_isOk]
  simp only [List.all_eq_true, mem_loadCertsFromVault, fine, renewalFails, dateFails,
    Bool.and_eq_true, Bool.not_eq_true', Bool.and_eq_false_iff, Bool.not_eq_false']
  constructor
  · rintro ⟨dates, renewals⟩ c ⟨l, listed, loads⟩
    refine ⟨?_, dates l listed c loads⟩
    cases attempt : attempts s st.monitor.renewing c.toCert with
    | false => exact Or.inl rfl
    | true => exact Or.inr (renewals l listed c loads attempt)
  · intro all
    refine ⟨fun l listed c loads => (all c ⟨l, listed, loads⟩).2,
      fun l listed c loads attempt => ?_⟩
    exact (all c ⟨l, listed, loads⟩).1.resolve_left (by simp [attempt])

theorem survives_iff (s : Setting) (env : Surroundings) (listing : Except PyError (List Listed))
    (st : CheckState) : Survives s env listing st ↔ Untroubled s env listing st := by
  rw [untroubled_iff]
  rcases loop : checkAll s env (loadCertsFromVault s listing) st with ⟨err | ⟨⟩, after⟩
  · refine iff_of_false ?_ (by simp)
    rintro ⟨⟨certs, returned, -⟩, -⟩
    simp [runCheck, loop] at returned
  · refine iff_of_true ⟨⟨loadCertsFromVault s listing, by simp [runCheck, loop],
      by simp [runCheck, loop], fun l listed c loads => ?_⟩, fun l listed c loads => ?_⟩ rfl
    · exact mem_loadCertsFromVault.mpr ⟨l, listed, loads⟩
    · have handled := (checkAll_handled loop).2 c (mem_loadCertsFromVault.mpr ⟨l, listed, loads⟩)
      simpa [runCheck, loop] using handled

/-! ## A check that fails -/

def exampleSetting : Setting where
  loads _ := none
  fromisoformat text :=
    if text = "1970-03-01T00:00:00+00:00" then some ⟨59 * usPerDay, some 0⟩ else none
  localTime _ := .error (.valueError "")
  str _ := ""
  tzdata := onlyUtc
  mon := ⟨some {}, true⟩

def calm : Surroundings := ⟨fun _ => 0, fun _ => .ok (), fun _ => .success, fun _ _ => true⟩

/-- A secret whose metadata have these fields. -/
def secretOf (key : String) (now : Int) (metadata : Dict String Json) : Listed :=
  ⟨key, now, .ok (.object [("metadata", .object metadata)])⟩

def badDate : Listed := secretOf "bad.example.com" 0
  [("expiry", .string "1970-03-01T00:00:00+00:00"), ("not_before", .string "yesterday")]

def goodSecret : Listed := secretOf "example.com" 0
  [("expiry", .string "1970-03-01T00:00:00+00:00")]

/-- A start date that is no date raises, and the certificate after it is not looked at. -/
theorem bad_date_stops_check :
    ¬ Survives exampleSetting calm (.ok [badDate, goodSecret]) .initial := by
  intro survives
  obtain ⟨certs, returned, -⟩ := survives.returns
  have raised : (runCheck exampleSetting calm (.ok [badDate, goodSecret]) .initial).1.isOk =
      false := by decide +kernel
  simp [returned, Except.isOk, Except.toBool] at raised

end AcmeGitWebhook.Monitor
