import AcmeGitWebhook.Monitor.CertMonitor

/-!
# When a due certificate is renewed

A check adds a domain to `_renewing` before its renewal and nothing ever takes it out, so
the set is the record of every domain some visit has seen due (`run_remembers`).
`rearms_iff` draws the consequence for whole runs: due certificates of idle domains are
renewed at every visit exactly when no such visit is a second one, and the visit can read
its window and start its command.
-/

namespace AcmeGitWebhook.Monitor

open Library

/-- An entry that tells of a renewal of the domain being started or deferred. -/
def Entry.renews (domain : String) : Entry → Bool
  | .started domain' _ _ => domain' = domain
  | .deferred j => j.domain = domain
  | _ => false

def renewals (log : List Entry) (domain : String) : Nat := log.countP (Entry.renews domain)

/-- No renewal of the domain is running or waiting in the scheduler. -/
def State.Idle (st : State) (domain : String) : Prop :=
  (∀ caller, (domain, caller) ∉ st.running) ∧ st.jobs.get? (renewId domain) = none

/-- The event visits a certificate of the domain that is due by the monitor's own rule. -/
def SeesDue (fromisoformat : String → Option IsoTime) (mon : CertMonitor) (st : State)
    (domain : String) : Event → Prop
  | .visit _ _ _ _ => ∃ c rest config daysLeft, st.check = c :: rest ∧ ¬ st.Busy ∧
      mon.config = some config ∧ c.domain = domain ∧ c.daysLeft = some daysLeft ∧
      shouldRenew fromisoformat config daysLeft c.metadata = true
  | _ => False

/-- A visit that sees an idle domain due starts or defers one renewal of it. -/
def Rearms (fromisoformat : String → Option IsoTime) (tzdata : String → Option Zone)
    (mon : CertMonitor) (st : State) (event : Event) : Prop :=
  ∀ domain, SeesDue fromisoformat mon st domain event → st.Idle domain →
    renewals (step fromisoformat tzdata mon st event).log domain = renewals st.log domain + 1

/-- The window's strings are well formed, and the command can be started when it is open. -/
def CanRenew (tzdata : String → Option Zone) (mon : CertMonitor) : Event → Prop
  | .visit now launch _ _ =>
    match mon.window with
    | none => launch = .ok ()
    | some window => (∃ z s e, window.Reads tzdata z s e) ∧
        (isWithinWindow tzdata window now = .ok true → launch = .ok ())
  | _ => True

/-- A visit that sees an idle domain due is the first to see it due, and can renew. -/
def FirstDue (fromisoformat : String → Option IsoTime) (tzdata : String → Option Zone)
    (mon : CertMonitor) (st : State) (event : Event) : Prop :=
  ∀ domain, SeesDue fromisoformat mon st domain event → st.Idle domain →
    Entry.due domain ∉ st.log ∧ CanRenew tzdata mon event

/-- `_renewing` holds the domains that some visit has seen due. -/
def State.Remembers (st : State) : Prop :=
  ∀ domain, domain ∈ st.renewing ↔ Entry.due domain ∈ st.log

variable {fromisoformat : String → Option IsoTime} {tzdata : String → Option Zone}
  {mon : CertMonitor} {st st' : State} {domain : String} {caller : Caller} {now : Int}
  {launch publish : Except PyError Unit} {webhook : Int → Bool} {command : String}

theorem canRenew_iff : CanRenew tzdata mon (.visit now launch publish webhook) ↔
    ∃ decision, deferral tzdata mon.window now = .ok decision ∧
      (decision = none → launch = .ok ()) := by
  simp only [CanRenew]
  cases mon.window with
  | none => simp
  | some window =>
    dsimp only
    rw [← deferral_ok_iff now]
    constructor
    · rintro ⟨⟨decision, h⟩, start⟩
      refine ⟨decision, h, ?_⟩
      rintro rfl
      exact start (deferral_eq_none_iff.mp h)
    · rintro ⟨decision, h, start⟩
      refine ⟨⟨decision, h⟩, fun within => start ?_⟩
      rw [deferral_eq_none_iff.mpr within] at h
      exact (Except.ok.inj h).symm

/-! ## The set and the record -/

/-- A step that leaves `_renewing` alone and sees nothing due. -/
structure Quiet (st st' : State) : Prop where
  renewing : st'.renewing = st.renewing
  due : ∀ domain, Entry.due domain ∈ st'.log ↔ Entry.due domain ∈ st.log

theorem Quiet.remembers (quiet : Quiet st st') (h : st.Remembers) : st'.Remembers := by
  intro domain
  rw [quiet.renewing, quiet.due]
  exact h domain

theorem Quiet.trans {st'' : State} (h : Quiet st st') (h' : Quiet st' st'') : Quiet st st'' :=
  ⟨h'.renewing.trans h.renewing, fun domain => (h'.due domain).trans (h.due domain)⟩

theorem runRenew_quiet (tzdata : String → Option Zone) (mon : CertMonitor) (domain : String)
    (caller : Caller) (now : Int) (launch : Except PyError Unit) (st : State) :
    Quiet st (runRenew tzdata mon domain caller now launch st).2 := by
  rcases runRenew_cases tzdata mon domain caller now launch st with h | ⟨next, -, h⟩ | ⟨-, h⟩
  all_goals rw [h]
  · exact ⟨rfl, fun _ => Iff.rfl⟩
  · exact ⟨rfl, by simp [deferRenew, State.record]⟩
  · exact ⟨rfl, by simp [State.record]⟩

theorem settle_quiet {result : Except PyError Unit × State} (h : Quiet st result.2) :
    Quiet st (settle result) := by
  obtain ⟨_ | _, after⟩ := result
  · exact ⟨h.renewing, by simpa [settle, State.record] using h.due⟩
  · exact h

theorem foldl_warn_quiet (config : MonitorConfig) (domain : String) (daysLeft : Int)
    (webhook : Int → Bool) (st : State) :
    Quiet st (config.warnDays.foldl (warn config domain daysLeft webhook) st) := by
  obtain ⟨sent, alerts, after, all⟩ :=
    foldl_warn config domain daysLeft webhook config.warnDays st
  rw [after]
  refine ⟨rfl, fun domain' => ⟨fun mem => ?_, List.mem_append_left _⟩⟩
  rcases List.mem_append.mp mem with old | new
  · exact old
  · obtain ⟨threshold, delivered, h⟩ := all _ new
    simp at h

theorem foldl_warn_renewals (config : MonitorConfig) (domain : String) (daysLeft : Int)
    (webhook : Int → Bool) (st : State) (domain' : String) :
    renewals (config.warnDays.foldl (warn config domain daysLeft webhook) st).log domain' =
      renewals st.log domain' := by
  obtain ⟨sent, alerts, after, all⟩ :=
    foldl_warn config domain daysLeft webhook config.warnDays st
  have silent : renewals alerts domain' = 0 := by
    refine List.countP_eq_zero.mpr fun entry mem => ?_
    obtain ⟨threshold, delivered, rfl⟩ := all entry mem
    simp [Entry.renews]
  rw [after, renewals, List.countP_append]
  exact Nat.add_eq_left.mpr silent

@[simp] theorem renewals_record (st : State) (entry : Entry) (domain : String) :
    renewals (st.record entry).log domain =
      renewals st.log domain + if entry.renews domain then 1 else 0 := by
  simp [renewals, State.record, List.countP_append, List.countP_cons]

/-- What a visit does about a domain that is due, after the warnings. -/
theorem checkDayThreshold_due (tzdata : String → Option Zone) (domain : String) (now : Int)
    (launch : Except PyError Unit) (webhook : Int → Bool) {config : MonitorConfig} {daysLeft : Int}
    {metadata : Dict String Json} (hconfig : mon.config = some config)
    (hcommand : mon.command = some command)
    (due : shouldRenew fromisoformat config daysLeft metadata = true) (st : State) :
    ∃ warned : State, Quiet st warned ∧
      (∀ domain', renewals warned.log domain' = renewals st.log domain') ∧
      checkDayThreshold fromisoformat tzdata mon domain daysLeft metadata now launch webhook st =
        if domain ∈ st.renewing then (.ok (), warned.record (.due domain))
        else runRenew tzdata mon domain .check now launch
          { warned.record (.due domain) with renewing := domain :: st.renewing } := by
  have quiet := foldl_warn_quiet config domain daysLeft webhook st
  refine ⟨_, quiet, foldl_warn_renewals config domain daysLeft webhook st, ?_⟩
  have same : (config.warnDays.foldl (warn config domain daysLeft webhook) st).renewing =
    st.renewing := quiet.renewing
  by_cases known : domain ∈ st.renewing <;>
    simp [checkDayThreshold, hconfig, due, hcommand, State.record, same, known]

theorem record_due_remembers (h : st.Remembers) :
    State.Remembers { st.record (.due domain) with renewing := domain :: st.renewing } := by
  intro domain'
  simp [State.record, h domain', or_comm]

theorem checkDayThreshold_remembers (hcommand : mon.command = some command) {daysLeft : Int}
    {metadata : Dict String Json} (h : st.Remembers) :
    (checkDayThreshold fromisoformat tzdata mon domain daysLeft metadata now launch webhook
      st).2.Remembers := by
  cases hconfig : mon.config with
  | none => simpa [checkDayThreshold, hconfig] using h
  | some config =>
    by_cases due : shouldRenew fromisoformat config daysLeft metadata = true
    · obtain ⟨warned, quiet, -, after⟩ :=
        checkDayThreshold_due tzdata domain now launch webhook hconfig hcommand due st
      have kept := quiet.remembers h
      rw [after]
      split_ifs with known
      · intro domain'
        have same : (warned.record (.due domain)).renewing = st.renewing := quiet.renewing
        rw [same, h domain']
        simp only [State.record, List.mem_append, List.mem_singleton, quiet.due,
          Entry.due.injEq]
        exact ⟨Or.inl, fun mem => mem.elim id fun same => (h domain').mp (same ▸ known)⟩
      · refine (runRenew_quiet tzdata mon domain .check now launch _).remembers ?_
        rw [← quiet.renewing]
        exact record_due_remembers kept
    · have after : (checkDayThreshold fromisoformat tzdata mon domain daysLeft metadata now launch
          webhook st).2 = config.warnDays.foldl (warn config domain daysLeft webhook) st := by
        simp [checkDayThreshold, hconfig, due]
      rw [after]
      exact (foldl_warn_quiet config domain daysLeft webhook st).remembers h

theorem abort_quiet (st : State) (err : PyError) : Quiet st (st.abort err) :=
  ⟨rfl, by simp [State.abort, State.record]⟩

/-- Only visits see anything due. -/
theorem step_quiet (fromisoformat : String → Option IsoTime) (tzdata : String → Option Zone)
    (mon : CertMonitor) (st : State) {event : Event}
    (other : ∀ now launch publish webhook, event ≠ .visit now launch publish webhook) :
    Quiet st (step fromisoformat tzdata mon st event) := by
  have same : Quiet st st := ⟨rfl, fun _ => Iff.rfl⟩
  cases event with
  | beginCheck certs =>
    simp only [step]
    split_ifs
    · exact ⟨rfl, fun _ => Iff.rfl⟩
    · exact same
  | visit now launch publish webhook => exact absurd rfl (other now launch publish webhook)
  | finish domain caller outcome =>
    simp only [step]
    split_ifs
    · split
      all_goals exact ⟨rfl, by simp [State.abort, State.record]⟩
    · exact same
  | fire id now launch =>
    rcases step_fire_cases fromisoformat tzdata mon st id now launch with
      unchanged | ⟨j, -, -, ⟨-, dropped⟩ | ⟨-, run⟩⟩
    · rwa [unchanged]
    · rw [dropped]
      exact ⟨rfl, fun _ => Iff.rfl⟩
    · have fired : Quiet st (({ st with jobs := st.jobs.erase id }).record (.fired j)) :=
        ⟨rfl, by simp [State.record]⟩
      rw [run]
      exact settle_quiet (fired.trans (runRenew_quiet _ _ _ _ _ _ _))
  | miss id now =>
    rcases step_miss_cases fromisoformat tzdata mon st id now with unchanged | ⟨j, -, -, lost⟩
    · rwa [unchanged]
    · rw [lost]
      exact ⟨rfl, by simp [State.record]⟩
  | renew domain now launch =>
    exact settle_quiet (runRenew_quiet tzdata mon domain .request now launch st)

theorem step_remembers (hcommand : mon.command = some command) (h : st.Remembers) (event : Event) :
    (step fromisoformat tzdata mon st event).Remembers := by
  by_cases visits : ∃ now launch publish webhook, event = .visit now launch publish webhook
  · obtain ⟨now, launch, publish, webhook, rfl⟩ := visits
    simp only [step]
    split
    · exact h
    · split_ifs
      · exact h
      · rename_i c rest _ _
        obtain ⟨checked, from_, after⟩ := visit_cases fromisoformat tzdata mon c now launch
          publish webhook { st with check := rest }
        have kept : checked.Remembers := by
          rcases from_ with ⟨-, rfl⟩ | ⟨daysLeft, -, rfl⟩
          · exact h
          · exact checkDayThreshold_remembers hcommand h
        rcases after with after | ⟨err, after⟩ <;> rw [after]
        · exact kept
        · exact (abort_quiet checked err).remembers kept
  · have quiet := step_quiet fromisoformat tzdata mon st fun now launch publish webhook same =>
      visits ⟨now, launch, publish, webhook, same⟩
    exact quiet.remembers h

theorem run_remembers (hcommand : mon.command = some command) (es : List Event) :
    (run (step fromisoformat tzdata mon) State.initial es).Remembers :=
  run_invariant (I := State.Remembers) (fun _ event h => step_remembers hcommand h event)
    (by simp [State.Remembers, State.initial]) es

/-! ## Rearming -/

theorem runRenew_renewals_iff (hcommand : mon.command = some command) (st : State) :
    renewals (runRenew tzdata mon domain caller now launch st).2.log domain =
        renewals st.log domain + 1 ↔
      ∃ decision, deferral tzdata mon.window now = .ok decision ∧
        (decision = none → launch = .ok ()) := by
  rw [runRenew_eq hcommand]
  rcases deferral tzdata mon.window now with err | (_ | next)
  · simp
  · cases launch with
    | error err => simp
    | ok => simp [Entry.renews]
  · simp [deferRenew, Entry.renews]

theorem visit_rearms_iff (hcommand : mon.command = some command) (h : st.Remembers)
    {config : MonitorConfig} (hconfig : mon.config = some config) {c : Cert} {daysLeft : Int}
    (days : c.daysLeft = some daysLeft)
    (due : shouldRenew fromisoformat config daysLeft c.metadata = true) :
    renewals (visit fromisoformat tzdata mon c now launch publish webhook st).log c.domain =
        renewals st.log c.domain + 1 ↔
      Entry.due c.domain ∉ st.log ∧ CanRenew tzdata mon (.visit now launch publish webhook) := by
  obtain ⟨checked, from_, after⟩ :=
    visit_cases fromisoformat tzdata mon c now launch publish webhook st
  obtain rfl : checked = _ := by
    rcases from_ with ⟨absent, -⟩ | ⟨daysLeft', present, from_⟩
    · simp [absent] at days
    · obtain rfl : daysLeft' = daysLeft := by simpa [present] using days
      exact from_
  have count : renewals (visit fromisoformat tzdata mon c now launch publish webhook st).log
      c.domain = renewals (checkDayThreshold fromisoformat tzdata mon c.domain daysLeft c.metadata
        now launch webhook st).2.log c.domain := by
    rcases after with after | ⟨err, after⟩ <;> rw [after]
    simp [State.abort, Entry.renews, renewals_record]
  obtain ⟨warned, quiet, silent, check⟩ :=
    checkDayThreshold_due tzdata c.domain now launch webhook hconfig hcommand due st
  rw [count, check, ← h c.domain, canRenew_iff]
  by_cases known : c.domain ∈ st.renewing
  · simp [known, silent, Entry.renews]
  · have start : renewals (warned.record (.due c.domain)).log c.domain =
        renewals st.log c.domain := by
      simp [silent, Entry.renews]
    rw [if_neg known, ← start, and_iff_right known]
    exact runRenew_renewals_iff hcommand _

theorem rearms_step_iff (hcommand : mon.command = some command) (h : st.Remembers) (event : Event) :
    Rearms fromisoformat tzdata mon st event ↔ FirstDue fromisoformat tzdata mon st event := by
  refine forall_congr' fun domain => forall_congr' fun sees => forall_congr' fun _ => ?_
  cases event with
  | visit now launch publish webhook =>
    obtain ⟨c, rest, config, daysLeft, visiting, idle, hconfig, rfl, days, due⟩ := sees
    have h' : State.Remembers { st with check := rest } := h
    simp only [step, visiting, idle, if_false]
    exact visit_rearms_iff hcommand h' hconfig days due
  | beginCheck _ | finish _ _ _ | fire _ _ _ | miss _ _ | renew _ _ _ => exact sees.elim

theorem rearms_iff (fromisoformat : String → Option IsoTime) (tzdata : String → Option Zone)
    (mon : CertMonitor) (configured : mon.command.isSome) (es : List Event) :
    EveryStep (step fromisoformat tzdata mon) (Rearms fromisoformat tzdata mon) State.initial es ↔
      EveryStep (step fromisoformat tzdata mon) (FirstDue fromisoformat tzdata mon)
        State.initial es := by
  obtain ⟨command, hcommand⟩ := Option.isSome_iff_exists.mp configured
  exact everyStep_congr_of_invariant (I := State.Remembers)
    (fun _ event h => step_remembers hcommand h event)
    (fun _ event h => rearms_step_iff hcommand h event)
    (by simp [State.Remembers, State.initial]) es

/-- A monitor that renews with certbot two weeks ahead, at any hour. -/
def certbotMonitor : CertMonitor := ⟨some { renewCommand := some "certbot renew" }, true⟩

def dueVisit : Event := .visit 0 (.ok ()) (.ok ()) fun _ => true

theorem rearms_once : EveryStep (step (fun _ => none) onlyUtc certbotMonitor)
    (Rearms (fun _ => none) onlyUtc certbotMonitor) State.initial
    [.beginCheck [⟨"example.com", some 10, []⟩], dueVisit] := by
  refine (rearms_iff (fun _ => none) onlyUtc certbotMonitor (by decide) _).mpr ?_
  simp only [everyStep_cons, everyStep_nil, and_true]
  exact ⟨fun _ sees => sees.elim, fun _ _ _ => ⟨List.not_mem_nil, rfl⟩⟩

/-- The command fails, and the next check leaves the certificate alone. -/
theorem not_rearmed : ¬ EveryStep (step (fun _ => none) onlyUtc certbotMonitor)
    (Rearms (fun _ => none) onlyUtc certbotMonitor) State.initial
    [.beginCheck [⟨"example.com", some 10, []⟩], dueVisit,
      .finish "example.com" .check (.failure 1),
      .beginCheck [⟨"example.com", some 9, []⟩], dueVisit] := by
  intro rearms
  have again := rearms [_, _, _, _] dueVisit [] rfl "example.com"
    ⟨_, _, _, 9, rfl, by decide, rfl, rfl, rfl, by decide⟩
    ⟨by rintro (_ | _ | _) <;> decide, by decide⟩
  revert again
  decide

end AcmeGitWebhook.Monitor
