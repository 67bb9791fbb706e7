import AcmeGitWebhook.Monitor.CertMonitor

/-!
# How often an expiry alert is delivered

The warning loop remembers a threshold for a domain once a visit has found the domain at or
below it (`mem_sent_run`), whether or not the alert got through and whichever certificate of
the domain was visited. `exactlyOnce_iff` draws the consequence for whole runs: an alert
never comes twice, and it comes at the first visit that could deliver it exactly when that
visit is the first of the run to find the domain at or below the threshold.
-/

namespace AcmeGitWebhook.Monitor

open Library

/-- A certificate as alerts count them: a renewed one has another expiry. -/
structure Tracked where
  domain : String
  expiry : Option Int
  deriving DecidableEq, Repr

def Cert.tracked (fromisoformat : String → Option IsoTime) (c : Cert) : Tracked :=
  ⟨c.domain, match c.metadata.get? "expiry" with
    | some (.string expiry) => (fromisoformat expiry).bind IsoTime.instant?
    | _ => none⟩

/-- The webhook that alerts go to; an empty URL counts as none. -/
def CertMonitor.alertWebhook (mon : CertMonitor) : Option String :=
  mon.config.bind fun config => config.alertWebhookUrl.filter (· ≠ "")

def CertMonitor.warnDays (mon : CertMonitor) : List Int := (mon.config.map (·.warnDays)).getD []

/-- The certificate that a check visits at the event. -/
def visited (st : State) : Event → Option Cert
  | .visit _ _ _ _ => if st.Busy then none else st.check.head?
  | _ => none

/-- The event visits a certificate of the domain that is at or below the threshold. -/
def SeesDomain (domain : String) (threshold : Int) (st : State) (event : Event) : Prop :=
  ∃ c daysLeft, visited st event = some c ∧ c.domain = domain ∧ c.daysLeft = some daysLeft ∧
    daysLeft ≤ threshold

/-- Which of the alerts sent during the event the webhook delivers, by threshold. -/
def Event.webhook : Event → Int → Bool
  | .visit _ _ _ webhook => webhook
  | _ => fun _ => false

/-- The event visits the certificate at or below the threshold, with a working webhook. -/
def CanAlert (fromisoformat : String → Option IsoTime) (cert : Tracked) (threshold : Int)
    (st : State) (event : Event) : Prop :=
  ∃ c daysLeft, visited st event = some c ∧ c.tracked fromisoformat = cert ∧
    c.daysLeft = some daysLeft ∧ daysLeft ≤ threshold ∧ event.webhook threshold = true

def Entry.delivers (domain : String) (threshold : Int) : Entry → Bool
  | .alerted domain' _ threshold' delivered =>
    domain' = domain ∧ threshold' = threshold ∧ delivered
  | _ => false

/-- The alerts of the log that were delivered for a domain and a threshold. -/
def deliveries (log : List Entry) (domain : String) (threshold : Int) : Nat :=
  log.countP (Entry.delivers domain threshold)

/-- The alerts that a step delivers for a certificate and a threshold. -/
def delivered (fromisoformat : String → Option IsoTime) (tzdata : String → Option Zone)
    (mon : CertMonitor) (cert : Tracked) (threshold : Int) (st : State) (event : Event) : Nat :=
  if (visited st event).any (·.tracked fromisoformat = cert) then
    deliveries (step fromisoformat tzdata mon st event).log cert.domain threshold -
      deliveries st.log cert.domain threshold
  else 0

/-- For each certificate and threshold an alert is delivered at most once, and by the first
visit that can deliver it. -/
def ExactlyOnce (fromisoformat : String → Option IsoTime) (tzdata : String → Option Zone)
    (mon : CertMonitor) (es : List Event) : Prop :=
  ∀ cert, ∀ threshold ∈ mon.warnDays,
    tally (step fromisoformat tzdata mon) (delivered fromisoformat tzdata mon cert threshold)
      State.initial es ≤ 1 ∧
    ∀ pre event post, es = pre ++ event :: post →
      CanAlert fromisoformat cert threshold
        (run (step fromisoformat tzdata mon) State.initial pre) event →
      EveryStep (step fromisoformat tzdata mon)
        (fun st e => ¬ CanAlert fromisoformat cert threshold st e) State.initial pre →
      delivered fromisoformat tzdata mon cert threshold
        (run (step fromisoformat tzdata mon) State.initial pre) event = 1

/-- The first visit that can deliver an alert for a certificate is the first of the run that
finds its domain at or below the threshold. -/
def FirstSight (fromisoformat : String → Option IsoTime) (tzdata : String → Option Zone)
    (mon : CertMonitor) (es : List Event) : Prop :=
  ∀ cert, ∀ threshold ∈ mon.warnDays, ∀ pre event post, es = pre ++ event :: post →
    CanAlert fromisoformat cert threshold
      (run (step fromisoformat tzdata mon) State.initial pre) event →
    EveryStep (step fromisoformat tzdata mon)
      (fun st e => ¬ CanAlert fromisoformat cert threshold st e) State.initial pre →
    EveryStep (step fromisoformat tzdata mon)
      (fun st e => ¬ SeesDomain cert.domain threshold st e) State.initial pre

/-- The thresholds remembered for a domain. -/
def State.sent (st : State) (domain : String) : List Int :=
  (st.sentWarnings.get? domain).getD []

variable {fromisoformat : String → Option IsoTime} {tzdata : String → Option Zone}
  {mon : CertMonitor} {st st' : State} {domain : String} {caller : Caller} {now : Int}
  {launch publish : Except PyError Unit} {webhook : Int → Bool} {event : Event}

/-! ## The warning loop -/

@[simp] theorem deliveries_record (st : State) (entry : Entry) (domain : String)
    (threshold : Int) :
    deliveries (st.record entry).log domain threshold =
      deliveries st.log domain threshold + if entry.delivers domain threshold then 1 else 0 := by
  simp [deliveries, State.record, List.countP_append, List.countP_cons]

@[simp] theorem sent_record (st : State) (entry : Entry) (domain : String) :
    (st.record entry).sent domain = st.sent domain := rfl

def State.remember (st : State) (domain : String) (threshold : Int) : State :=
  { st with sentWarnings := st.sentWarnings.set domain (threshold :: st.sent domain) }

@[simp] theorem remember_log (st : State) (domain : String) (threshold : Int) :
    (st.remember domain threshold).log = st.log := rfl

@[simp] theorem mem_sent_remember {domain' : String} {threshold threshold' : Int} :
    threshold' ∈ (st.remember domain threshold).sent domain' ↔
      threshold' ∈ st.sent domain' ∨ domain' = domain ∧ threshold' = threshold := by
  by_cases same : domain' = domain
  · subst same
    simp [State.remember, State.sent, or_comm]
  · simp [State.remember, State.sent, same]

theorem warn_eq_remember (config : MonitorConfig) (domain : String) (daysLeft : Int)
    (webhook : Int → Bool) (st : State) (threshold : Int) :
    warn config domain daysLeft webhook st threshold =
      if daysLeft ≤ threshold ∧ threshold ∉ st.sent domain then
        match config.alertWebhookUrl.filter (· ≠ "") with
        | none => st.remember domain threshold
        | some _ => (st.remember domain threshold).record
            (.alerted domain daysLeft threshold (webhook threshold))
      else st := rfl

/-- The loop has come to the thresholds at or above `daysLeft`: they are remembered for the
domain, and those that were not have sent an alert. -/
structure Warned (config : MonitorConfig) (thresholds : List Int) (domain : String)
    (daysLeft : Int) (webhook : Int → Bool) (st st' : State) : Prop where
  sent : ∀ domain' threshold, threshold ∈ st'.sent domain' ↔ threshold ∈ st.sent domain' ∨
    domain' = domain ∧ threshold ∈ thresholds ∧ daysLeft ≤ threshold
  delivered : ∀ domain' threshold, deliveries st'.log domain' threshold =
    deliveries st.log domain' threshold +
      if (domain' = domain ∧ threshold ∈ thresholds ∧ daysLeft ≤ threshold) ∧
        threshold ∉ st.sent domain' ∧ config.alertWebhookUrl.filter (· ≠ "") ≠ none ∧
        webhook threshold = true then 1 else 0

theorem warn_warned (config : MonitorConfig) (domain : String) (daysLeft : Int)
    (webhook : Int → Bool) (st : State) (threshold : Int) :
    Warned config [threshold] domain daysLeft webhook st
      (warn config domain daysLeft webhook st threshold) := by
  rw [warn_eq_remember]
  by_cases new : daysLeft ≤ threshold ∧ threshold ∉ st.sent domain
  · rw [if_pos new]
    cases url : config.alertWebhookUrl.filter (· ≠ "") with
    | none =>
      refine ⟨fun domain' threshold' => by simp; grind, fun domain' threshold' => ?_⟩
      rw [remember_log, if_neg fun h => h.2.2.1 url, Nat.add_zero]
    | some url' =>
      refine ⟨fun domain' threshold' => by simp; grind, fun domain' threshold' => ?_⟩
      rw [deliveries_record, remember_log]
      simp only [Entry.delivers, url, List.mem_singleton]
      grind
  · rw [if_neg new]
    exact ⟨fun domain' threshold' => by simp; grind, fun domain' threshold' => by simp; grind⟩

theorem Warned.append {config : MonitorConfig} {first rest : List Int} {daysLeft : Int}
    {st'' : State} (h : Warned config first domain daysLeft webhook st st')
    (h' : Warned config rest domain daysLeft webhook st' st'') :
    Warned config (first ++ rest) domain daysLeft webhook st st'' where
  sent domain' threshold := by
    rw [h'.sent, h.sent, List.mem_append]
    tauto
  delivered domain' threshold := by
    have known := h.sent domain' threshold
    rw [h'.delivered, h.delivered]
    simp only [List.mem_append]
    grind

theorem foldl_warn_warned (config : MonitorConfig) (domain : String) (daysLeft : Int)
    (webhook : Int → Bool) (thresholds : List Int) (st : State) :
    Warned config thresholds domain daysLeft webhook st
      (thresholds.foldl (warn config domain daysLeft webhook) st) := by
  induction thresholds generalizing st with
  | nil => exact ⟨by simp, by simp⟩
  | cons threshold thresholds ih =>
    exact (warn_warned config domain daysLeft webhook st threshold).append (ih _)

/-! ## Steps -/

/-- Nothing is remembered and no alert delivered. -/
structure Unwarned (st st' : State) : Prop where
  sentWarnings : st'.sentWarnings = st.sentWarnings
  delivered : ∀ domain threshold,
    deliveries st'.log domain threshold = deliveries st.log domain threshold

theorem Unwarned.refl (st : State) : Unwarned st st := ⟨rfl, fun _ _ => rfl⟩

theorem Unwarned.trans {st'' : State} (h : Unwarned st st') (h' : Unwarned st' st'') :
    Unwarned st st'' :=
  ⟨h'.sentWarnings.trans h.sentWarnings, fun domain threshold =>
    (h'.delivered domain threshold).trans (h.delivered domain threshold)⟩

theorem unwarned_record {entry : Entry} (h : ∀ domain threshold, ¬ entry.delivers domain threshold)
    (st : State) : Unwarned st (st.record entry) :=
  ⟨rfl, fun domain threshold => by simp [h domain threshold]⟩

theorem runRenew_unwarned (tzdata : String → Option Zone) (mon : CertMonitor) (domain : String)
    (caller : Caller) (now : Int) (launch : Except PyError Unit) (st : State) :
    Unwarned st (runRenew tzdata mon domain caller now launch st).2 := by
  rcases runRenew_cases tzdata mon domain caller now launch st with h | ⟨next, -, h⟩ | ⟨-, h⟩
  all_goals rw [h]
  · exact ⟨rfl, fun _ _ => rfl⟩
  · exact ⟨rfl, fun _ _ => by simp [deferRenew, Entry.delivers]⟩
  · exact ⟨rfl, fun _ _ => by simp [Entry.delivers]⟩

theorem settle_unwarned {result : Except PyError Unit × State} (h : Unwarned st result.2) :
    Unwarned st (settle result) := by
  obtain ⟨err | _, after⟩ := result
  · exact h.trans (unwarned_record (by simp [Entry.delivers]) after)
  · exact h

theorem abort_unwarned (st : State) (err : PyError) : Unwarned st (st.abort err) :=
  ⟨rfl, fun _ _ => by simp [State.abort, Entry.delivers]⟩

theorem Warned.unwarned {config : MonitorConfig} {thresholds : List Int} {daysLeft : Int}
    {st'' : State} (h : Warned config thresholds domain daysLeft webhook st st')
    (h' : Unwarned st' st'') : Warned config thresholds domain daysLeft webhook st st'' where
  sent domain' threshold := by
    rw [State.sent, h'.sentWarnings, ← State.sent, h.sent]
  delivered domain' threshold := by
    rw [h'.delivered, h.delivered]

/-- After the warnings of a visit come its renewal and what ends it, which warn of nothing. -/
theorem visit_warned {config : MonitorConfig} (hconfig : mon.config = some config) {c : Cert}
    {daysLeft : Int} (days : c.daysLeft = some daysLeft) :
    Warned config config.warnDays c.domain daysLeft webhook st
      (visit fromisoformat tzdata mon c now launch publish webhook st) := by
  refine (foldl_warn_warned config c.domain daysLeft webhook config.warnDays st).unwarned ?_
  obtain ⟨checked, from_, after⟩ :=
    visit_cases fromisoformat tzdata mon c now launch publish webhook st
  obtain rfl : checked = _ := by
    rcases from_ with ⟨absent, -⟩ | ⟨daysLeft', present, from_⟩
    · simp [absent] at days
    · obtain rfl : daysLeft' = daysLeft := by simpa [present] using days
      exact from_
  have renewal : Unwarned (config.warnDays.foldl (warn config c.domain daysLeft webhook) st)
      (checkDayThreshold fromisoformat tzdata mon c.domain daysLeft c.metadata now launch webhook
        st).2 := by
    generalize warned : config.warnDays.foldl (warn config c.domain daysLeft webhook) st = st'
    have due : Unwarned st' (st'.record (.due c.domain)) :=
      unwarned_record (by simp [Entry.delivers]) st'
    simp only [checkDayThreshold, hconfig, warned]
    split_ifs
    · exact due.trans ⟨(runRenew_unwarned tzdata mon c.domain .check now launch _).sentWarnings,
        (runRenew_unwarned tzdata mon c.domain .check now launch _).delivered⟩
    · exact due
    · exact ⟨rfl, fun _ _ => rfl⟩
  rcases after with after | ⟨err, after⟩ <;> rw [after]
  · exact renewal
  · exact renewal.trans (abort_unwarned _ err)

/-- A step warns of the certificate that it visits, if the days left are known. -/
theorem step_warned (fromisoformat : String → Option IsoTime) (tzdata : String → Option Zone)
    {config : MonitorConfig} (hconfig : mon.config = some config) (st : State) (event : Event) :
    (∃ c daysLeft, visited st event = some c ∧ c.daysLeft = some daysLeft ∧
        Warned config config.warnDays c.domain daysLeft event.webhook st
          (step fromisoformat tzdata mon st event)) ∨
      (∀ c, visited st event = some c → c.daysLeft = none) ∧
        Unwarned st (step fromisoformat tzdata mon st event) := by
  cases event with
  | visit now launch publish webhook =>
    cases check : st.check with
    | nil =>
      refine Or.inr ⟨by simp [visited, check], ?_⟩
      simpa [step, check] using Unwarned.refl st
    | cons c rest =>
      by_cases busy : st.Busy
      · refine Or.inr ⟨by simp [visited, busy], ?_⟩
        simpa [step, check, busy] using Unwarned.refl st
      · have here : visited st (.visit now launch publish webhook) = some c := by
          simp [visited, check, busy]
        have same : Unwarned st { st with check := rest } := ⟨rfl, fun _ _ => rfl⟩
        simp only [step, check, busy, if_false]
        cases days : c.daysLeft with
        | none =>
          refine Or.inr ⟨fun c' h => by simp_all, ?_⟩
          cases publish with
          | ok => simpa [visit, days] using same
          | error err => simpa [visit, days] using same.trans (abort_unwarned _ err)
        | some daysLeft =>
          refine Or.inl ⟨c, daysLeft, here, days, ?_⟩
          obtain ⟨sent, delivered⟩ : Warned config config.warnDays c.domain daysLeft webhook
              { st with check := rest } (visit fromisoformat tzdata mon c now launch publish webhook
                { st with check := rest }) := visit_warned hconfig days
          exact ⟨sent, delivered⟩
  | beginCheck certs =>
    refine Or.inr ⟨by simp [visited], ?_⟩
    simp only [step]
    split_ifs <;> exact ⟨rfl, fun _ _ => rfl⟩
  | finish domain caller outcome =>
    refine Or.inr ⟨by simp [visited], ?_⟩
    simp only [step]
    split_ifs
    · split
      all_goals exact ⟨rfl, fun _ _ => by simp [State.abort, Entry.delivers]⟩
    · exact ⟨rfl, fun _ _ => rfl⟩
  | fire id now launch =>
    refine Or.inr ⟨by simp [visited], ?_⟩
    rcases step_fire_cases fromisoformat tzdata mon st id now launch with
      same | ⟨j, -, -, ⟨-, dropped⟩ | ⟨-, run⟩⟩
    · rw [same]
      exact Unwarned.refl st
    · rw [dropped]
      exact ⟨rfl, fun _ _ => rfl⟩
    · have fired : Unwarned st (({ st with jobs := st.jobs.erase id }).record (.fired j)) :=
        ⟨rfl, fun _ _ => by simp [Entry.delivers]⟩
      rw [run]
      exact settle_unwarned (fired.trans (runRenew_unwarned _ _ _ _ _ _ _))
  | miss id now =>
    refine Or.inr ⟨by simp [visited], ?_⟩
    rcases step_miss_cases fromisoformat tzdata mon st id now with same | ⟨j, -, -, lost⟩
    · rw [same]
      exact Unwarned.refl st
    · rw [lost]
      exact ⟨rfl, fun _ _ => by simp [Entry.delivers]⟩
  | renew domain now launch =>
    exact Or.inr ⟨by simp [visited],
      settle_unwarned (runRenew_unwarned tzdata mon domain .request now launch st)⟩

variable {config : MonitorConfig} {threshold : Int} {cert : Tracked}

theorem mem_sent_step (hconfig : mon.config = some config) (mem : threshold ∈ config.warnDays)
    (st : State) (event : Event) :
    threshold ∈ (step fromisoformat tzdata mon st event).sent domain ↔
      threshold ∈ st.sent domain ∨ SeesDomain domain threshold st event := by
  rcases step_warned fromisoformat tzdata hconfig st event with
    ⟨c, daysLeft, here, days, warned⟩ | ⟨blind, unwarned⟩
  · rw [warned.sent]
    refine or_congr_right ⟨?_, ?_⟩
    · rintro ⟨rfl, -, below⟩
      exact ⟨c, daysLeft, here, rfl, days, below⟩
    · rintro ⟨c', daysLeft', here', rfl, days', below⟩
      obtain rfl : c = c' := Option.some.inj (here.symm.trans here')
      obtain rfl : daysLeft = daysLeft' := Option.some.inj (days.symm.trans days')
      exact ⟨rfl, mem, below⟩
  · rw [State.sent, unwarned.sentWarnings, ← State.sent]
    refine (or_iff_left ?_).symm
    rintro ⟨c, daysLeft, here, -, days, -⟩
    simp [blind c here] at days

/-- The memory of a threshold is the history of the visits that found the domain at or
below it. -/
theorem mem_sent_run (hconfig : mon.config = some config) (mem : threshold ∈ config.warnDays)
    (es : List Event) :
    threshold ∈ (run (step fromisoformat tzdata mon) State.initial es).sent domain ↔
      ¬ EveryStep (step fromisoformat tzdata mon)
        (fun st e => ¬ SeesDomain domain threshold st e) State.initial es := by
  rw [run_iff_of_latch (J := fun st => threshold ∈ st.sent domain)
    (fun st e => mem_sent_step hconfig mem st e)]
  exact or_iff_right (by simp [State.sent, State.initial])

/-- At most one alert is delivered for a domain and a threshold, and only with the threshold
remembered. -/
def OnceSent (domain : String) (threshold : Int) (st : State) : Prop :=
  deliveries st.log domain threshold ≤ if threshold ∈ st.sent domain then 1 else 0

theorem step_onceSent (hconfig : mon.config = some config) (st : State) (event : Event)
    (h : OnceSent domain threshold st) :
    OnceSent domain threshold (step fromisoformat tzdata mon st event) := by
  unfold OnceSent at h ⊢
  rcases step_warned fromisoformat tzdata hconfig st event with
    ⟨c, daysLeft, here, days, warned⟩ | ⟨-, unwarned⟩
  · have sent := warned.sent domain threshold
    have delivered := warned.delivered domain threshold
    grind
  · rw [unwarned.delivered, State.sent, unwarned.sentWarnings, ← State.sent]
    exact h

theorem step_deliveries_mono (hconfig : mon.config = some config) (st : State) (event : Event) :
    deliveries st.log domain threshold ≤
      deliveries (step fromisoformat tzdata mon st event).log domain threshold := by
  rcases step_warned fromisoformat tzdata hconfig st event with
    ⟨c, daysLeft, here, days, warned⟩ | ⟨-, unwarned⟩
  · rw [warned.delivered]
    exact Nat.le_add_right _ _
  · rw [unwarned.delivered]

theorem tally_delivered_le (hconfig : mon.config = some config) (es : List Event) :
    tally (step fromisoformat tzdata mon) (delivered fromisoformat tzdata mon cert threshold)
      State.initial es ≤ 1 := by
  have grow : ∀ st event, deliveries st.log cert.domain threshold +
      delivered fromisoformat tzdata mon cert threshold st event ≤
        deliveries (step fromisoformat tzdata mon st event).log cert.domain threshold := by
    intro st event
    have mono : deliveries st.log cert.domain threshold ≤
        deliveries (step fromisoformat tzdata mon st event).log cert.domain threshold :=
      step_deliveries_mono hconfig st event
    unfold delivered
    split_ifs <;> omega
  have all := tally_le (g := fun st => deliveries st.log cert.domain threshold) grow
    State.initial es
  have once : OnceSent cert.domain threshold
      (run (step fromisoformat tzdata mon) State.initial es) :=
    run_invariant (fun st event h => step_onceSent hconfig st event h)
      (by simp [OnceSent, deliveries, State.initial]) es
  unfold OnceSent at once
  split_ifs at once <;> omega

theorem delivered_eq (hconfig : mon.config = some config) (mem : threshold ∈ config.warnDays)
    (configured : mon.alertWebhook.isSome) (h : CanAlert fromisoformat cert threshold st event) :
    delivered fromisoformat tzdata mon cert threshold st event =
      if threshold ∈ st.sent cert.domain then 0 else 1 := by
  obtain ⟨c, daysLeft, here, rfl, days, below, works⟩ := h
  rcases step_warned fromisoformat tzdata hconfig st event with
    ⟨c', daysLeft', here', days', warned⟩ | ⟨blind, -⟩
  · obtain rfl : c = c' := Option.some.inj (here.symm.trans here')
    obtain rfl : daysLeft = daysLeft' := Option.some.inj (days.symm.trans days')
    have url : config.alertWebhookUrl.filter (· ≠ "") ≠ none := by
      rw [CertMonitor.alertWebhook, hconfig, Option.isSome_iff_ne_none] at configured
      exact configured
    have count := warned.delivered c.domain threshold
    simp only [delivered, here, Option.any_some, decide_true, if_true]
    rw [show (c.tracked fromisoformat).domain = c.domain from rfl, count, Nat.add_sub_cancel_left]
    by_cases known : threshold ∈ st.sent c.domain
    · rw [if_pos known, if_neg fun h => h.2.1 known]
    · rw [if_neg known, if_pos ⟨⟨rfl, mem, below⟩, known, url, works⟩]
  · simp [blind c here] at days

theorem exactlyOnce_iff (fromisoformat : String → Option IsoTime) (tzdata : String → Option Zone)
    (mon : CertMonitor) (configured : mon.alertWebhook.isSome) (es : List Event) :
    ExactlyOnce fromisoformat tzdata mon es ↔ FirstSight fromisoformat tzdata mon es := by
  obtain ⟨config, hconfig⟩ : ∃ config, mon.config = some config := by
    cases h : mon.config with
    | none => simp [CertMonitor.alertWebhook, h] at configured
    | some config => exact ⟨config, rfl⟩
  have listed : mon.warnDays = config.warnDays := by simp [CertMonitor.warnDays, hconfig]
  unfold ExactlyOnce FirstSight
  rw [listed]
  refine forall_congr' fun cert => forall₂_congr fun threshold mem => ?_
  rw [and_iff_right (tally_delivered_le hconfig es)]
  refine forall_congr' fun pre => forall_congr' fun event => forall_congr' fun post =>
    forall_congr' fun _ => forall_congr' fun can => forall_congr' fun _ => ?_
  have history : threshold ∈
      (run (step fromisoformat tzdata mon) State.initial pre).sent cert.domain ↔ _ :=
    mem_sent_run hconfig mem pre
  rw [delivered_eq hconfig mem configured can, ← not_iff_not, ← history]
  split_ifs with known <;> simp [known]

/-- A monitor that only sends alerts. -/
def alertMonitor : CertMonitor :=
  ⟨some { alertWebhookUrl := some "https://hooks.example.com" }, true⟩

/-- A certificate that expires on 1 March 2026, and its successor, which does on 30 May. -/
def expiries (text : String) : Option IsoTime :=
  if text = "2026-03-01T00:00:00+00:00" then some ⟨1772323200000000, some 0⟩
  else if text = "2026-05-30T00:00:00+00:00" then some ⟨1780099200000000, some 0⟩
  else none

def expiring (expiry : String) : Cert := ⟨"example.com", some 14, [("expiry", .string expiry)]⟩

def checkOf (expiry : String) : List Event :=
  [.beginCheck [expiring expiry], .visit 0 (.ok ()) (.ok ()) fun _ => true]

theorem exactlyOnce_iff_single :
    ExactlyOnce expiries onlyUtc alertMonitor (checkOf "2026-03-01T00:00:00+00:00") ↔
      FirstSight expiries onlyUtc alertMonitor (checkOf "2026-03-01T00:00:00+00:00") :=
  exactlyOnce_iff expiries onlyUtc alertMonitor (by decide) _

/-- The alert of the first certificate silences that of the second. -/
theorem successor_unannounced : ¬ ExactlyOnce expiries onlyUtc alertMonitor
    (checkOf "2026-03-01T00:00:00+00:00" ++ checkOf "2026-05-30T00:00:00+00:00") := by
  intro once
  obtain ⟨-, first⟩ := once ⟨"example.com", some 1780099200000000⟩ 14 (by decide)
  have silent := first [_, _, _] _ [] rfl ⟨_, 14, rfl, by decide, rfl, by decide, rfl⟩ ?_
  · revert silent
    decide
  · simp only [everyStep_cons, everyStep_nil, and_true]
    refine ⟨?_, ?_, ?_⟩
    · rintro ⟨c, daysLeft, here, -⟩
      simp [visited] at here
    · rintro ⟨c, daysLeft, here, same, -⟩
      obtain rfl := Option.some.inj here
      revert same
      decide
    · rintro ⟨c, daysLeft, here, -⟩
      simp [visited] at here

end AcmeGitWebhook.Monitor
