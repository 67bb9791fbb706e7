import AcmeGitWebhook.Targets.Fleet
import AcmeGitWebhook.Targets.Profiles

/-!
# What the results of a call mean

A target that answers `ok` has what the call gave it when the call is over, also when the same
target is named again in the call and fails then: an F5 holds both objects, an Ivanti appliance
has taken the certificate and an Exchange host has been sent the three scripts
(`deploy_installed`). A target that is reported as deferred has its job pending
(`deploy_scheduled`).
-/

namespace AcmeGitWebhook.Fleet

open Library Targets

variable {lower : String → String} {str : PyError → String} {tzdata : String → Option Zone}
  {m : DeployManager} {domain fullchainPem privkeyPem : String} {calls : Calls} {sys : System}
  {makes : Exchange.Pfx → Prop}

/-- What is to be found at a target, `makes` telling the certificates made of the pair. -/
def System.Holds (domain fullchainPem privkeyPem : String) (makes : Exchange.Pfx → Prop) :
    System → Prop
  | .f5 _ dev => dev.certs.get? (F5.fullName domain) = some fullchainPem ∧
      dev.keys.get? (F5.fullName domain) = some privkeyPem
  | .ivanti cfg st => ∃ pfx key, makes pfx ∧ (key, Ivanti.payload cfg pfx) ∈ st.received
  | .exchange cfg sent => ∃ pfx, makes pfx ∧ Exchange.scripts cfg domain pfx <:+: sent

/-! ## F5 -/

section F5

variable {cfg : F5.F5TargetConfig} {f5Calls : F5.Calls} {dev : F5.Device}

theorem f5_ok {deployed : F5.Deployed} {dev' : F5.Device}
    (ok : F5.deploy lower cfg domain fullchainPem privkeyPem f5Calls dev = (.ok deployed, dev')) :
    dev'.certs.get? (F5.fullName domain) = some fullchainPem ∧
      dev'.keys.get? (F5.fullName domain) = some privkeyPem := by
  obtain ⟨updated, -⟩ := F5.deploy_ok ok
  obtain ⟨certs, keys⟩ := F5.updateProfiles_objects (F5.fullName domain) (F5.fullName domain)
    f5Calls.put (F5.findSslProfilesForDomain lower domain f5Calls.listing dev)
    ⟨dev.certs.set (F5.fullName domain) fullchainPem, dev.keys.set (F5.fullName domain) privkeyPem,
      dev.profiles⟩
  rw [updated] at certs keys
  constructor
  · rw [show dev'.certs = _ from certs, Dict.get?_set_self]
  · rw [show dev'.keys = _ from keys, Dict.get?_set_self]

/-- Each of the domain's objects is as it was or has been uploaded. -/
structure Reuploaded (domain fullchainPem privkeyPem : String) (dev dev' : F5.Device) : Prop where
  certs : dev'.certs = dev.certs ∨ dev'.certs = dev.certs.set (F5.fullName domain) fullchainPem
  keys : dev'.keys = dev.keys ∨ dev'.keys = dev.keys.set (F5.fullName domain) privkeyPem

theorem uploadCert_reuploaded (domain fullchainPem privkeyPem : String)
    (outcome : F5.Outcome) (dev : F5.Device) :
    Reuploaded domain fullchainPem privkeyPem dev
      (F5.uploadCert (F5.fullName domain) fullchainPem outcome dev).2 := by
  rcases outcome.call_cases (fun dev => { dev with certs := dev.certs.set _ fullchainPem }) dev
    with same | changed
  · rw [F5.uploadCert, same]; exact ⟨.inl rfl, .inl rfl⟩
  · rw [F5.uploadCert, changed]; exact ⟨.inr rfl, .inl rfl⟩

theorem uploadKey_reuploaded (domain fullchainPem privkeyPem : String)
    (outcome : F5.Outcome) (dev : F5.Device) :
    Reuploaded domain fullchainPem privkeyPem dev
      (F5.uploadKey (F5.fullName domain) privkeyPem outcome dev).2 := by
  rcases outcome.call_cases (fun dev => { dev with keys := dev.keys.set _ privkeyPem }) dev
    with same | changed
  · rw [F5.uploadKey, same]; exact ⟨.inl rfl, .inl rfl⟩
  · rw [F5.uploadKey, changed]; exact ⟨.inl rfl, .inr rfl⟩

theorem Reuploaded.trans {dev' dev'' : F5.Device}
    (h : Reuploaded domain fullchainPem privkeyPem dev dev')
    (h' : Reuploaded domain fullchainPem privkeyPem dev' dev'') :
    Reuploaded domain fullchainPem privkeyPem dev dev'' := by
  obtain ⟨certs, keys⟩ := h
  obtain ⟨certs', keys'⟩ := h'
  constructor
  · rcases certs with eq | eq <;> rcases certs' with eq' | eq' <;> simp [eq, eq']
  · rcases keys with eq | eq <;> rcases keys' with eq' | eq' <;> simp [eq, eq']

variable (lower domain fullchainPem privkeyPem) in
theorem f5_reuploaded (cfg : F5.F5TargetConfig) (f5Calls : F5.Calls) (dev : F5.Device) :
    Reuploaded domain fullchainPem privkeyPem dev
      (F5.deploy lower cfg domain fullchainPem privkeyPem f5Calls dev).2 := by
  unfold F5.deploy
  have cert := uploadCert_reuploaded domain fullchainPem privkeyPem f5Calls.cert dev
  generalize F5.uploadCert (F5.fullName domain) fullchainPem f5Calls.cert dev = answer at cert
  obtain ⟨err | ⟨⟩, dev₁⟩ := answer
  · exact cert
  have key := cert.trans (uploadKey_reuploaded domain fullchainPem privkeyPem f5Calls.key dev₁)
  dsimp only
  generalize F5.uploadKey (F5.fullName domain) privkeyPem f5Calls.key dev₁ = answer at key
  obtain ⟨err | ⟨⟩, dev₂⟩ := answer
  · exact key
  have objects := F5.updateProfiles_objects (F5.fullName domain) (F5.fullName domain)
    f5Calls.put (F5.findSslProfilesForDomain lower domain f5Calls.listing dev₂) dev₂
  have updated := key.trans ⟨.inl objects.1, .inl objects.2⟩
  dsimp only
  generalize F5.updateProfiles (F5.fullName domain) (F5.fullName domain) f5Calls.put
    (F5.findSslProfilesForDomain lower domain f5Calls.listing dev₂) dev₂ = answer at updated
  obtain ⟨err | ⟨⟩, dev₃⟩ := answer <;> exact updated

/-- Deploying the same pair again leaves it, however the calls end. -/
theorem Reuploaded.keeps {dev' : F5.Device}
    (h : Reuploaded domain fullchainPem privkeyPem dev dev')
    (cert : dev.certs.get? (F5.fullName domain) = some fullchainPem)
    (key : dev.keys.get? (F5.fullName domain) = some privkeyPem) :
    dev'.certs.get? (F5.fullName domain) = some fullchainPem ∧
      dev'.keys.get? (F5.fullName domain) = some privkeyPem := by
  constructor
  · rcases h.certs with eq | eq <;> simp [eq, cert]
  · rcases h.keys with eq | eq <;> simp [eq, key]

end F5

/-! ## The other targets -/

section Others

variable {ivantiCfg : Ivanti.IvantiTargetConfig} {ivantiCalls : Ivanti.Calls} {st : Ivanti.State}
  {exchangeCfg : Exchange.ExchangeTargetConfig} {exchangeCalls : Exchange.Calls}

theorem ivanti_ok (ok : (Ivanti.deploy ivantiCfg fullchainPem privkeyPem ivantiCalls st).1.status =
    .ok) : ∃ pfx key, ivantiCalls.pemToPfx fullchainPem privkeyPem = .ok pfx ∧
      (key, Ivanti.payload ivantiCfg pfx) ∈
        (Ivanti.deploy ivantiCfg fullchainPem privkeyPem ivantiCalls st).2.received := by
  have received := Ivanti.attempt_received ivantiCfg fullchainPem privkeyPem ivantiCalls st
  unfold Ivanti.deploy at ok ⊢
  generalize Ivanti.attempt ivantiCfg fullchainPem privkeyPem ivantiCalls st = answer
    at received ok ⊢
  obtain ⟨text | ⟨⟩, st'⟩ := answer
  · cases ok
  · rcases received with ⟨-, text, failed⟩ | ⟨pfx, key, made, added⟩
    · cases failed
    · exact ⟨pfx, key, made, by simp [show st'.received = _ from added]⟩

theorem ivanti_keeps : st.received <+:
    (Ivanti.deploy ivantiCfg fullchainPem privkeyPem ivantiCalls st).2.received := by
  have received := Ivanti.attempt_received ivantiCfg fullchainPem privkeyPem ivantiCalls st
  unfold Ivanti.deploy
  generalize Ivanti.attempt ivantiCfg fullchainPem privkeyPem ivantiCalls st = answer at received ⊢
  obtain ⟨text | ⟨⟩, st'⟩ := answer <;>
    rcases received with ⟨same, -⟩ | ⟨pfx, key, -, added⟩
  · exact (show st'.received = _ from same) ▸ List.prefix_refl _
  · exact (show st'.received = _ from added) ▸ List.prefix_append _ _
  · exact (show st'.received = _ from same) ▸ List.prefix_refl _
  · exact (show st'.received = _ from added) ▸ List.prefix_append _ _

theorem exchange_ok (ok : (Exchange.deploy exchangeCfg domain fullchainPem privkeyPem
      exchangeCalls).1.status = .ok) :
    ∃ pfx, exchangeCalls.pemToPfx fullchainPem privkeyPem = .ok pfx ∧
      (Exchange.deploy exchangeCfg domain fullchainPem privkeyPem exchangeCalls).2 =
        Exchange.scripts exchangeCfg domain pfx := by
  have login : exchangeCalls.winrm = .ok () := by
    cases login : exchangeCalls.winrm with
    | error text => simp [Exchange.deploy, Exchange.attempt, login] at ok
    | ok => rfl
  cases made : exchangeCalls.pemToPfx fullchainPem privkeyPem with
  | error text => simp [Exchange.deploy, Exchange.attempt, login, made] at ok
  | ok pfx => exact ⟨pfx, rfl, Exchange.deploy_ok_sent login made ok⟩

end Others

/-! ## Any target -/

/-- The certificates that the calls of a deployment make of the pair. -/
def Calls.Makes (fullchainPem privkeyPem : String) (calls : Calls) (pfx : Exchange.Pfx) : Prop :=
  calls.ivanti.pemToPfx fullchainPem privkeyPem = .ok pfx ∨
    calls.exchange.pemToPfx fullchainPem privkeyPem = .ok pfx

theorem System.deploy_ok {result : Result}
    (answered : (sys.deploy lower str domain fullchainPem privkeyPem calls).1 = .ok result)
    (ok : result.status = .ok) (made : ∀ pfx, calls.Makes fullchainPem privkeyPem pfx → makes pfx) :
    (sys.deploy lower str domain fullchainPem privkeyPem calls).2.Holds domain fullchainPem
      privkeyPem makes := by
  cases sys with
  | f5 cfg dev =>
    rcases deployed : F5.deploy lower cfg domain fullchainPem privkeyPem calls.f5 dev with
      ⟨err | answer, dev'⟩
    · simp [System.deploy, deployed] at answered
    · simpa [System.deploy, deployed, System.Holds] using f5_ok deployed
  | ivanti cfg st =>
    obtain rfl := Except.ok.inj answered
    obtain ⟨pfx, key, eq, mem⟩ := ivanti_ok ok
    exact ⟨pfx, key, made pfx (.inl eq), mem⟩
  | exchange cfg sent =>
    obtain rfl := Except.ok.inj answered
    obtain ⟨pfx, eq, scripts⟩ := exchange_ok ok
    refine ⟨pfx, made pfx (.inr eq), ?_⟩
    rw [← scripts]
    exact (List.suffix_append sent _).isInfix

/-- Deploying the same pair to it once more takes nothing away from a target. -/
theorem System.deploy_keeps (holds : sys.Holds domain fullchainPem privkeyPem makes) :
    (sys.deploy lower str domain fullchainPem privkeyPem calls).2.Holds domain fullchainPem
      privkeyPem makes := by
  cases sys with
  | f5 cfg dev =>
    have uploads := f5_reuploaded lower domain fullchainPem privkeyPem cfg calls.f5 dev
    have kept := uploads.keeps holds.1 holds.2
    rcases deployed : F5.deploy lower cfg domain fullchainPem privkeyPem calls.f5 dev with
      ⟨err | answer, dev'⟩ <;>
    · rw [deployed] at kept
      simpa [System.deploy, deployed, System.Holds] using kept
  | ivanti cfg st =>
    obtain ⟨pfx, key, made, mem⟩ := holds
    exact ⟨pfx, key, made, ivanti_keeps.mem mem⟩
  | exchange cfg sent =>
    obtain ⟨pfx, made, scripts⟩ := holds
    exact ⟨pfx, made, scripts.trans (List.prefix_append _ _).isInfix⟩

theorem f5_target {cfg : F5.F5TargetConfig} {f5Calls : F5.Calls} {dev dev' : F5.Device}
    {deployed : F5.Deployed}
    (ok : F5.deploy lower cfg domain fullchainPem privkeyPem f5Calls dev = (.ok deployed, dev')) :
    deployed.target = cfg.name := by
  unfold F5.deploy at ok
  split at ok
  · cases (Prod.mk.inj ok).1
  split at ok
  · cases (Prod.mk.inj ok).1
  dsimp only at ok
  split at ok
  · cases (Prod.mk.inj ok).1
  · rw [← Except.ok.inj (Prod.mk.inj ok).1]

theorem ivanti_target (cfg : Ivanti.IvantiTargetConfig) (fullchainPem privkeyPem : String)
    (ivantiCalls : Ivanti.Calls) (st : Ivanti.State) :
    (Ivanti.deploy cfg fullchainPem privkeyPem ivantiCalls st).1.target = cfg.name := by
  unfold Ivanti.deploy
  split <;> rfl

theorem exchange_target (cfg : Exchange.ExchangeTargetConfig)
    (domain fullchainPem privkeyPem : String) (exchangeCalls : Exchange.Calls) :
    (Exchange.deploy cfg domain fullchainPem privkeyPem exchangeCalls).1.target = cfg.name := by
  unfold Exchange.deploy
  split <;> rfl

theorem System.deploy_name :
    (sys.deploy lower str domain fullchainPem privkeyPem calls).2.name = sys.name := by
  cases sys with
  | f5 cfg dev =>
    rcases deployed : F5.deploy lower cfg domain fullchainPem privkeyPem calls.f5 dev with
      ⟨err | answer, dev'⟩ <;> simp [System.deploy, deployed, System.name]
  | ivanti cfg st => rfl
  | exchange cfg sent => rfl

/-- A result names the target that it is from. -/
theorem System.deploy_target {result : Result}
    (answered : (sys.deploy lower str domain fullchainPem privkeyPem calls).1 = .ok result) :
    result.target = sys.name := by
  cases sys with
  | f5 cfg dev =>
    rcases deployed : F5.deploy lower cfg domain fullchainPem privkeyPem calls.f5 dev with
      ⟨err | answer, dev'⟩
    · simp [System.deploy, deployed] at answered
    · simp only [System.deploy, deployed, Except.ok.injEq] at answered
      rw [← answered]
      exact f5_target deployed
  | ivanti cfg st =>
    rw [← Except.ok.inj answered]
    exact ivanti_target cfg fullchainPem privkeyPem calls.ivanti st
  | exchange cfg sent =>
    rw [← Except.ok.inj answered]
    exact exchange_target cfg domain fullchainPem privkeyPem calls.exchange

/-! ## The manager's loop -/

variable {fl : State} {name : String} {call : Call} {k i : Nat} {ts : List DeployTarget}

/-- Systems are kept under their own names. -/
def Named (fl : State) : Prop := ∀ name sys, fl.systems.get? name = some sys → sys.name = name

theorem Named.congr {fl' : State} (named : Named fl) (same : fl'.systems = fl.systems) :
    Named fl' := fun name sys found => named name sys (same ▸ found)

/-- There is a system of that name, and it holds the pair. -/
def Installed (name domain fullchainPem privkeyPem : String) (makes : Exchange.Pfx → Prop)
    (fl : State) : Prop :=
  ∃ sys, fl.systems.get? name = some sys ∧ sys.Holds domain fullchainPem privkeyPem makes

theorem handTo_named (named : Named fl) (h : HandOver String) :
    Named (handTo lower str h calls fl).2 := by
  intro name sys found
  unfold handTo at found
  cases here : fl.systems.get? h.target with
  | none =>
    rw [here] at found
    exact named name sys found
  | some old =>
    rw [here] at found
    by_cases same : name = h.target
    · subst same
      obtain rfl := Option.some.inj ((Dict.get?_set_self _ _ _).symm.trans found)
      exact System.deploy_name.trans (named _ old here)
    · exact named name sys ((Dict.get?_set_of_ne _ _ same).symm.trans found)

/-- Handing a pair to any target leaves it wherever it is installed. -/
theorem handTo_keeps {h : HandOver String}
    (installed : Installed name h.domain h.fullchainPem h.privkeyPem makes fl) :
    Installed name h.domain h.fullchainPem h.privkeyPem makes (handTo lower str h calls fl).2 := by
  obtain ⟨sys, found, holds⟩ := installed
  unfold handTo
  cases here : fl.systems.get? h.target with
  | none => exact ⟨sys, found, holds⟩
  | some old =>
    by_cases same : name = h.target
    · subst same
      obtain rfl : old = sys := Option.some.inj (here.symm.trans found)
      exact ⟨_, Dict.get?_set_self _ _ _, System.deploy_keeps holds⟩
    · exact ⟨sys, (Dict.get?_set_of_ne _ _ same).trans found, holds⟩

theorem handTo_ok (named : Named fl) {h : HandOver String} {result : Result}
    (answered : (handTo lower str h calls fl).1 = .ok result) (ok : result.status = .ok)
    (made : ∀ pfx, calls.Makes h.fullchainPem h.privkeyPem pfx → makes pfx) :
    Installed result.target h.domain h.fullchainPem h.privkeyPem makes
      (handTo lower str h calls fl).2 := by
  unfold handTo at answered ⊢
  cases here : fl.systems.get? h.target with
  | none => simp [here] at answered
  | some sys =>
    rw [here] at answered
    have target : result.target = h.target :=
      (System.deploy_target answered).trans (named _ sys here)
    exact ⟨_, target ▸ Dict.get?_set_self _ _ _, System.deploy_ok answered ok made⟩

variable (lower str tzdata m call k) in
/-- What every turn of a call's loop keeps. -/
structure Kept (J : State → Prop) : Prop where
  hands : ∀ fl i (t : DeployTarget), J fl →
    J (handTo lower str (call.handOver k t.name) (call.calls i) fl).2
  schedules : ∀ fl (t : DeployTarget) next, m.deferral tzdata t.name call.now = .ok (some next) →
    J fl → J ⟨scheduleDeferred fl.manager (call.job k t.name next), fl.systems⟩

/-- Scheduling leaves the systems alone. -/
theorem Kept.of_systems {J : State → Prop}
    (hands : ∀ fl i (t : DeployTarget), J fl →
      J (handTo lower str (call.handOver k t.name) (call.calls i) fl).2)
    (congr : ∀ fl fl' : State, fl'.systems = fl.systems → J fl → J fl') :
    Kept lower str tzdata m call k J :=
  ⟨hands, fun fl _ _ _ => congr fl _ rfl⟩

theorem Kept.deployEach {J : State → Prop} (kept : Kept lower str tzdata m call k J)
    (start : J fl) : J (deployEach lower str tzdata m call k i ts fl).2 := by
  induction ts generalizing i fl with
  | nil => exact start
  | cons t ts ih =>
    cases decision : m.deferral tzdata t.name call.now with
    | error err => simpa [Fleet.deployEach, decision] using start
    | ok next =>
      cases next with
      | some next =>
        simpa [Fleet.deployEach, decision] using ih (kept.schedules fl t next decision start)
      | none => simpa [Fleet.deployEach, decision] using ih (kept.hands fl i t start)

/-- What a result tells of the state when it is made, and later turns keep, is so when the loop
is over. -/
theorem deployEach_tells {J : State → Prop} {Q : Result → State → Prop}
    (kept : Kept lower str tzdata m call k J) (tells : ∀ r, Kept lower str tzdata m call k (Q r))
    (hands : ∀ fl i (t : DeployTarget), J fl →
      Q (outcomeResult t (handTo lower str (call.handOver k t.name) (call.calls i) fl).1)
        (handTo lower str (call.handOver k t.name) (call.calls i) fl).2)
    (schedules : ∀ (fl : State) (t : DeployTarget) next, Q (ofDeployResult (deferredResult t next))
      ⟨scheduleDeferred fl.manager (call.job k t.name next), fl.systems⟩)
    (start : J fl) {results : List Result}
    (answered : (deployEach lower str tzdata m call k i ts fl).1 = .ok results) :
    ∀ r ∈ results, Q r (deployEach lower str tzdata m call k i ts fl).2 := by
  induction ts generalizing i fl results with
  | nil =>
    obtain rfl := Except.ok.inj answered
    simp
  | cons t ts ih =>
    cases decision : m.deferral tzdata t.name call.now with
    | error err => simp [deployEach, decision] at answered
    | ok next =>
      -- the turn of `t` leaves a state in which its result tells the truth, and the rest keeps that
      have rest : ∀ fl' first, J fl' → Q first fl' →
          (deployEach lower str tzdata m call k (i + 1) ts fl').1.map (first :: ·) = .ok results →
          ∀ r ∈ results, Q r (deployEach lower str tzdata m call k (i + 1) ts fl').2 := by
        intro fl' first start' told answered'
        cases others : (deployEach lower str tzdata m call k (i + 1) ts fl').1 with
        | error err => simp [others, Except.map] at answered'
        | ok later =>
          rw [others] at answered'
          obtain rfl := Except.ok.inj answered'
          rintro r (_ | ⟨_, mem⟩)
          · exact (tells first).deployEach told
          · exact ih start' others r mem
      cases next with
      | some next =>
        simp only [deployEach, decision] at answered ⊢
        exact rest _ _ (kept.schedules fl t next decision start) (schedules fl t next) answered
      | none =>
        simp only [deployEach, decision] at answered ⊢
        exact rest _ _ (kept.hands fl i t start) (hands fl i t start) answered

theorem named_kept : Kept lower str tzdata m call k Named :=
  .of_systems (fun _ _ _ named => handTo_named named _)
    fun _ _ same named => named.congr same

/-- The certificates that the deployments of a call make of its pair. -/
def Call.Makes (call : Call) (pfx : Exchange.Pfx) : Prop :=
  ∃ i, (call.calls i).Makes call.fullchainPem call.privkeyPem pfx

theorem installed_kept (r : Result) : Kept lower str tzdata m call k fun fl => r.status = .ok →
    Installed r.target call.domain call.fullchainPem call.privkeyPem call.Makes fl := by
  refine .of_systems (fun fl i t installed ok => ?_) fun fl fl' same installed ok => ?_
  · exact handTo_keeps (h := call.handOver k t.name) (installed ok)
  · obtain ⟨sys, found, holds⟩ := installed ok
    exact ⟨sys, same ▸ found, holds⟩

theorem deployEach_installed (named : Named fl) {results : List Result}
    (answered : (deployEach lower str tzdata m call k i ts fl).1 = .ok results) :
    ∀ r ∈ results, r.status = .ok → Installed r.target call.domain call.fullchainPem
      call.privkeyPem call.Makes (deployEach lower str tzdata m call k i ts fl).2 := by
  refine deployEach_tells named_kept installed_kept (fun fl i t named ok => ?_)
    (fun fl t next ok => by cases ok) named answered
  cases outcome : (handTo lower str (call.handOver k t.name) (call.calls i) fl).1 with
  | error text =>
    rw [outcome] at ok
    cases ok
  | ok result =>
    rw [outcome] at ok
    exact handTo_ok (h := call.handOver k t.name) named outcome ok fun pfx made => ⟨i, made⟩

/-! ## Scheduled deployments -/

/-- The call's job for the target is pending. -/
def Scheduled (name domain fullchainPem privkeyPem : String) (k : Nat) (fl : State) : Prop :=
  ∃ runDate, fl.manager.jobs.get? (jobId name domain) =
    some ⟨name, domain, fullchainPem, privkeyPem, runDate, k⟩

theorem ivanti_status (cfg : Ivanti.IvantiTargetConfig) (fullchainPem privkeyPem : String)
    (ivantiCalls : Ivanti.Calls) (st : Ivanti.State) :
    (Ivanti.deploy cfg fullchainPem privkeyPem ivantiCalls st).1.status ≠ .deferred := by
  unfold Ivanti.deploy
  split <;> simp

theorem exchange_status (cfg : Exchange.ExchangeTargetConfig)
    (domain fullchainPem privkeyPem : String) (exchangeCalls : Exchange.Calls) :
    (Exchange.deploy cfg domain fullchainPem privkeyPem exchangeCalls).1.status ≠ .deferred := by
  unfold Exchange.deploy
  split <;> simp

/-- No target defers anything itself. -/
theorem System.deploy_status {result : Result}
    (answered : (sys.deploy lower str domain fullchainPem privkeyPem calls).1 = .ok result) :
    result.status ≠ .deferred := by
  cases sys with
  | f5 cfg dev =>
    rcases deployed : F5.deploy lower cfg domain fullchainPem privkeyPem calls.f5 dev with
      ⟨err | answer, dev'⟩
    · simp [System.deploy, deployed] at answered
    · simp only [System.deploy, deployed, Except.ok.injEq] at answered
      simp [← answered, ofDeployed]
  | ivanti cfg st =>
    rw [← Except.ok.inj answered]
    exact ivanti_status cfg fullchainPem privkeyPem calls.ivanti st
  | exchange cfg sent =>
    rw [← Except.ok.inj answered]
    exact exchange_status cfg domain fullchainPem privkeyPem calls.exchange

theorem scheduled_kept (r : Result) : Kept lower str tzdata m call k fun fl =>
    r.status = .deferred →
      Scheduled r.target call.domain call.fullchainPem call.privkeyPem k fl := by
  refine ⟨fun fl i t scheduled late => ?_, fun fl t next decision scheduled late => ?_⟩
  · obtain ⟨runDate, pending⟩ := scheduled late
    exact ⟨runDate, by rw [handTo_manager]; exact pending⟩
  · obtain ⟨runDate, pending⟩ := scheduled late
    by_cases same : r.target = t.name
    · exact ⟨next, by rw [same]; exact Dict.get?_set_self _ _ _⟩
    · have other : jobId r.target call.domain ≠ jobId t.name call.domain :=
        fun clash => same (jobId_inj_target clash)
      exact ⟨runDate, (Dict.get?_set_of_ne _ _ other).trans pending⟩

theorem deployEach_scheduled {results : List Result}
    (answered : (deployEach lower str tzdata m call k i ts fl).1 = .ok results) :
    ∀ r ∈ results, r.status = .deferred → Scheduled r.target call.domain call.fullchainPem
      call.privkeyPem k (deployEach lower str tzdata m call k i ts fl).2 := by
  refine deployEach_tells (J := fun _ => True) ⟨fun _ _ _ => id, fun _ _ _ _ => id⟩
    scheduled_kept (fun fl i t _ late => ?_)
    (fun fl t next _ => ⟨next, Dict.get?_set_self _ _ _⟩) trivial answered
  unfold handTo at late ⊢
  cases here : fl.systems.get? (call.handOver k t.name).target with
  | none =>
    rw [here] at late
    cases late
  | some sys =>
    rw [here] at late
    cases outcome : (sys.deploy lower str call.domain call.fullchainPem call.privkeyPem
        (call.calls i)).1 with
    | error text =>
      simp only [Call.handOver, outcome] at late
      cases late
    | ok result =>
      simp only [Call.handOver, outcome] at late
      exact absurd late (System.deploy_status outcome)

/-! ## Runs -/

/-- The state that the loop of a call starts from. -/
def State.counted (fl : State) : State :=
  ⟨{ fl.manager with calls := fl.manager.calls + 1 }, fl.systems⟩

variable (lower str tzdata m fl) in
/-- What a call with known targets answers and does to jobs and systems is what its loop does. -/
theorem deploy_loop (selected : m.select call.targetNames = .ok ts) :
    (deploy lower str tzdata m call fl).1 =
        (deployEach lower str tzdata m call fl.manager.calls 0 ts fl.counted).1 ∧
      (deploy lower str tzdata m call fl).2.manager.jobs =
        (deployEach lower str tzdata m call fl.manager.calls 0 ts fl.counted).2.manager.jobs ∧
      (deploy lower str tzdata m call fl).2.systems =
        (deployEach lower str tzdata m call fl.manager.calls 0 ts fl.counted).2.systems := by
  unfold deploy
  rw [selected]
  rcases loop : deployEach lower str tzdata m call fl.manager.calls 0 ts fl.counted with
    ⟨err | results, fl'⟩ <;>
  · rw [State.counted] at loop
    simp [loop, Targets.State.record]

theorem deploy_named (named : Named fl) : Named (deploy lower str tzdata m call fl).2 := by
  cases selected : m.select call.targetNames with
  | error err =>
    refine named.congr ?_
    simp [deploy, selected]
  | ok ts =>
    have counted : Named fl.counted := named
    exact (named_kept.deployEach counted).congr (deploy_loop lower str tzdata m fl selected).2.2

theorem step_named (named : Named fl) (event : Event) :
    Named (step lower str tzdata m fl event) := by
  cases event with
  | deploy call => exact deploy_named named
  | fire id instant calls =>
    simp only [step]
    cases fl.manager.jobs.get? id with
    | none => exact named
    | some j =>
      dsimp only
      split_ifs with due
      · unfold deferredDeploy
        cases m.targets.get? j.target with
        | none => exact named
        | some t =>
          have fired : Named ⟨({ fl.manager with jobs := fl.manager.jobs.erase id } :
              Targets.State String).record (.fired j), fl.systems⟩ := named
          exact handTo_named fired _
      · exact named
  | miss id instant => exact named

/-- At first a target is as the last configuration of its name has it. -/
theorem initial_configured {targets : List Configured}
    (found : (initial targets).systems.get? name = some sys) :
    ∃ c ∈ targets, c.system.name = name ∧ c.system = sys := by
  by_cases assigned : ∃ c ∈ targets, c.system.name = name
  · obtain ⟨c, mem, same, last⟩ : ∃ c ∈ targets, c.system.name = name ∧
        (initial targets).systems.get? name = some c.system :=
      Dict.exists_get?_foldl_set [] assigned
    exact ⟨c, mem, same, Option.some.inj (last.symm.trans found)⟩
  · have absent : (initial targets).systems.get? name = none :=
      Dict.get?_foldl_set_of_ne [] fun c mem same => assigned ⟨c, mem, same⟩
    cases absent.symm.trans found

theorem initial_named (targets : List Configured) : Named (initial targets) := by
  intro name sys found
  obtain ⟨c, -, same, rfl⟩ := initial_configured found
  exact same

theorem run_named (targets : List Configured) (es : List Event) :
    Named (run (step lower str tzdata m) (initial targets) es) :=
  run_invariant (I := Named) (fun _ event named => step_named named event)
    (initial_named targets) es

theorem deploy_holds (named : Named fl) {results : List Result}
    (answered : (deploy lower str tzdata m call fl).1 = .ok results) :
    ∀ r ∈ results, r.status = .ok → Installed r.target call.domain call.fullchainPem
      call.privkeyPem call.Makes (deploy lower str tzdata m call fl).2 := by
  have counted : Named fl.counted := named
  cases selected : m.select call.targetNames with
  | error err => simp [deploy, selected] at answered
  | ok ts =>
    obtain ⟨answer, -, systems⟩ := deploy_loop lower str tzdata m fl selected
    intro r mem ok
    obtain ⟨sys, found, holds⟩ :=
      deployEach_installed counted (answer.symm.trans answered) r mem ok
    exact ⟨sys, (congrArg (Dict.get? · _) systems).trans found, holds⟩

theorem deploy_scheduled {results : List Result}
    (answered : (deploy lower str tzdata m call fl).1 = .ok results) :
    ∀ r ∈ results, r.status = .deferred → Scheduled r.target call.domain call.fullchainPem
      call.privkeyPem fl.manager.calls (deploy lower str tzdata m call fl).2 := by
  cases selected : m.select call.targetNames with
  | error err => simp [deploy, selected] at answered
  | ok ts =>
    obtain ⟨answer, jobs, -⟩ := deploy_loop lower str tzdata m fl selected
    intro r mem late
    obtain ⟨runDate, pending⟩ := deployEach_scheduled (answer.symm.trans answered) r mem late
    exact ⟨runDate, (congrArg (Dict.get? · _) jobs).trans pending⟩

/-- A target that answers `ok` when its job fires holds the job's pair. -/
theorem fire_holds (named : Named fl) (sound : fl.manager.Sound m) {id : String} {j : Job String}
    {instant : Int} (pending : fl.manager.jobs.get? id = some j) (due : j.runDate ≤ instant)
    (found : fl.systems.get? j.target = some sys) {result : Result}
    (answered : (sys.deploy lower str j.domain j.fullchainPem j.privkeyPem calls).1 = .ok result)
    (ok : result.status = .ok) :
    Installed j.target j.domain j.fullchainPem j.privkeyPem
      (calls.Makes j.fullchainPem j.privkeyPem)
      (step lower str tzdata m fl (.fire id instant calls)) := by
  obtain ⟨t, registered⟩ := Option.isSome_iff_exists.mp (sound.registered id j pending)
  have target : result.target = j.target :=
    (System.deploy_target answered).trans (named _ sys found)
  simp only [step, pending, if_pos due, deferredDeploy, registered]
  have fired : Named ⟨({ fl.manager with jobs := fl.manager.jobs.erase id } :
      Targets.State String).record (.fired j), fl.systems⟩ := named
  rw [← target]
  refine handTo_ok (h := j.handOver instant) fired ?_ ok fun pfx made => made
  unfold handTo
  simp [Job.handOver, found, answered]

/-- In every state that the manager and its targets reach, a target that a call answers `ok` for
has the call's pair once the call is over. -/
theorem deploy_installed (lower : String → String) (str : PyError → String)
    (tzdata : String → Option Zone) (targets : List Configured)
    (defaultWindow : Option DeployWindow) (es : List Event) (call : Call) (results : List Result)
    (answered : (deploy lower str tzdata (initManager targets defaultWindow) call
      (run (step lower str tzdata (initManager targets defaultWindow)) (initial targets) es)).1 =
        .ok results) :
    ∀ r ∈ results, r.status = .ok →
      Installed r.target call.domain call.fullchainPem call.privkeyPem call.Makes
        (deploy lower str tzdata (initManager targets defaultWindow) call
          (run (step lower str tzdata (initManager targets defaultWindow)) (initial targets)
            es)).2 :=
  deploy_holds (run_named targets es) answered

def edge : List Configured := [⟨.f5 ⟨"edge", "https://f5.example.com"⟩ ⟨[], [], []⟩, none⟩]

def toEdge (fullchainPem : String) (cert : F5.Outcome) : Call where
  domain := "example.com"
  fullchainPem := fullchainPem
  privkeyPem := "KEY"
  now := 0
  calls _ := ⟨{ cert := cert }, ⟨fun _ _ => .error "", .missing, .ok (), .done⟩,
    { pemToPfx := fun _ _ => .error "" }⟩

/-- A deployment that fails, and then one that does not. -/
theorem edge_installed : Installed "edge" "example.com" "NEW" "KEY" (toEdge "NEW" .done).Makes
    (deploy id (fun _ => "") (fun _ => none) (initManager edge none) (toEdge "NEW" .done)
      (run (step id (fun _ => "") (fun _ => none) (initManager edge none)) (initial edge)
        [.deploy (toEdge "OLD" (.rejected .osError))])).2 :=
  deploy_installed id (fun _ => "") (fun _ => none) edge none
    [.deploy (toEdge "OLD" (.rejected .osError))] (toEdge "NEW" .done)
    [ofDeployed ⟨"edge", "https://f5.example.com", F5.fullName "example.com",
      F5.fullName "example.com", []⟩] rfl _ (List.mem_singleton.mpr rfl) rfl

end AcmeGitWebhook.Fleet
