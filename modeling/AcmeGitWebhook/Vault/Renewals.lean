import AcmeGitWebhook.Vault.Pairs
import AcmeGitWebhook.Vault.Routing
import AcmeGitWebhook.Vault.Updates

/-!
# Routing and renewals

`store_cert` makes the metadata anew, without the targets that a change of routing has put
there. `keepsRouting_iff` says over whole histories when a deployment still finds the targets
of the last change: when no certificate is stored for a domain that has been routed.
-/

namespace AcmeGitWebhook.Vault

open Library

def Entry.targets? (domain : String) : Entry → Option (List String)
  | .routed domain' targets => if domain' = domain then some targets else none
  | .stored _ _ _ | .handed _ _ _ => none

/-- The targets of the last change of routing that took effect for the domain. -/
def lastRouting (log : List Entry) (domain : String) : Option (List String) :=
  (log.filterMap (Entry.targets? domain)).getLast?

/-- A deployment that looks a domain's targets up finds those of the last change. -/
def KeepsRouting (loads : String → Option Json) (app : App) (st : State) : Prop :=
  ∀ domain targets, lastRouting st.kv.log domain = some targets → st.kv.client = true →
    (storedTargets loads app domain .done st.kv).1 = some (.array (targets.map .string))

/-- The call logs in, and its write is not lost. -/
def TakesEffect (auth : Except PyError Unit) (write : WriteOutcome) : Prop :=
  auth = .ok () ∧ ∀ err, write ≠ .lost err

/-- A certificate is stored for a domain only if no change of routing came before. -/
def StoresUnrouted (app : App) (st : State) : Event → Prop
  | .store req _ auth write => app.handler.isSome → TakesEffect auth write →
      lastRouting st.kv.log req.domain = none
  | _ => True

/-- `json.loads` gives back the metadata that `json.dumps` made the event's text of. -/
def RoundTrips (dumps : Json → String) (loads : String → Option Json)
    (x509 : String → Option (String × String)) (app : App) (st : State) : Event → Prop
  | .store req now _ _ => loads (dumps (certMetadata x509 req.domain req.certPem now)) =
      some (certMetadata x509 req.domain req.certPem now)
  | .route domain targets now _ read _ => ∀ cfg, app.handler = some cfg → ∀ metadata,
      setTargets targets (foundMetadata loads cfg domain now read st.kv) = .ok metadata →
        loads (dumps metadata) = some metadata
  | _ => True

/-- The secrets hold the routing that the record tells of. -/
def Routed (loads : String → Option Json) (app : App) (st : State) : Prop :=
  ∀ domain targets, lastRouting st.kv.log domain = some targets →
    ∃ cfg, app.handler = some cfg ∧ HoldsTargets loads cfg st.kv domain targets

variable {dumps : Json → String} {loads : String → Option Json}
  {x509 : String → Option (String × String)} {tzdata : String → Option Zone} {app : App}
  {cfg : VaultConfig} {st st' : State} {kv kv' : Kv} {domain : String} {targets : List String}
  {now : Int} {auth : Except PyError Unit} {read : ReadOutcome} {write : WriteOutcome}

theorem lastRouting_append (log : List Entry) (entry : Entry) (domain : String) :
    lastRouting (log ++ [entry]) domain =
      (entry.targets? domain).or (lastRouting log domain) := by
  cases found : entry.targets? domain <;> simp [lastRouting, found]

/-! ## What the requests do to a secret -/

variable (dumps x509) in
/-- A store leaves everything as it is, or takes effect and writes its certificate. -/
theorem acmeDeploy_cases (req : CertDeployRequest) (now : Int) (auth : Except PyError Unit)
    (write : WriteOutcome) (st : State) (handler : app.handler = some cfg) :
    (¬ TakesEffect auth write ∧
      (acmeDeploy dumps x509 app req now auth write st).2.kv.secrets = st.kv.secrets ∧
      (acmeDeploy dumps x509 app req now auth write st).2.kv.log = st.kv.log) ∨
    TakesEffect auth write ∧
      (acmeDeploy dumps x509 app req now auth write st).2.kv =
        (⟨st.kv.secrets.set (secretPath cfg req.domain) (certSecret dumps x509 req.domain
          req.certPem req.chainPem req.fullchainPem req.privkeyPem now), true, st.kv.log,
            st.kv.accesses + 1⟩ : Kv).record
              (.stored req.domain req.fullchainPem req.privkeyPem) := by
  cases auth with
  | error err =>
    simp [TakesEffect, acmeDeploy, handler, storeCert, ensureAuthenticated]
  | ok =>
    cases write <;> simp [TakesEffect, acmeDeploy, handler, storeCert, ensureAuthenticated,
      writeSecret, Kv.record]

variable (dumps loads) in
/-- A change of routing leaves everything as it is, or writes metadata with its targets. -/
theorem patchCertTargets_cases (domain : String) (targets : List String) (now : Int)
    (auth : Except PyError Unit) (read : ReadOutcome) (write : WriteOutcome) (st : State)
    (handler : app.handler = some cfg) :
    ((patchCertTargets dumps loads app domain targets now auth read write st).2.kv.secrets =
        st.kv.secrets ∧
      (patchCertTargets dumps loads app domain targets now auth read write st).2.kv.log =
        st.kv.log) ∨
    ∃ metadata, setTargets targets (foundMetadata loads cfg domain now read st.kv) = .ok metadata ∧
      (patchCertTargets dumps loads app domain targets now auth read write st).2.kv =
        (⟨st.kv.secrets.set (secretPath cfg domain) [("metadata", .string (dumps metadata))], true,
          st.kv.log, st.kv.accesses + 2⟩ : Kv).record (.routed domain targets) := by
  simp only [patchCertTargets, handler]
  split
  · exact Or.inl ⟨rfl, rfl⟩
  · cases auth with
    | error err => exact Or.inl ⟨rfl, rfl⟩
    | ok =>
      rw [updateCertTargets_eq]
      cases set : setTargets targets (foundMetadata loads cfg domain now read st.kv) with
      | error err => exact Or.inl ⟨rfl, rfl⟩
      | ok metadata =>
        cases write with
        | lost err => exact Or.inl ⟨rfl, rfl⟩
        | done | late err => exact Or.inr ⟨metadata, rfl, rfl⟩

/-- A deployment writes no secret, and tells of no change of routing. -/
theorem deploy_frame (req : DeployRequest) (pemRead routingRead : ReadOutcome)
    (outcome : Nat → Except String Targets.DeployResult) :
    (deployCertToTargets loads tzdata app domain req pemRead routingRead now outcome
        st).2.kv.secrets = st.kv.secrets ∧
      ∀ domain', lastRouting (deployCertToTargets loads tzdata app domain req pemRead routingRead
        now outcome st).2.kv.log domain' = lastRouting st.kv.log domain' := by
  have asked := deploy_kv loads tzdata app domain req pemRead routingRead now outcome st
  rw [asked.secrets, asked.log]
  split
  · exact ⟨rfl, fun domain' => by simp [Kv.record, lastRouting_append, Entry.targets?]⟩
  · exact ⟨rfl, fun _ => rfl⟩

/-! ## Histories -/

theorem HoldsTargets.congr (h : HoldsTargets loads cfg kv domain targets)
    (same : kv'.secrets.get? (secretPath cfg domain) = kv.secrets.get? (secretPath cfg domain)) :
    HoldsTargets loads cfg kv' domain targets := by
  obtain ⟨data, fields, present, metadata, stored⟩ := h
  exact ⟨data, fields, same.trans present, metadata, stored⟩

theorem Routed.congr (h : Routed loads app st) (secrets : st'.kv.secrets = st.kv.secrets)
    (log : ∀ domain, lastRouting st'.kv.log domain = lastRouting st.kv.log domain) :
    Routed loads app st' := by
  intro domain targets last
  obtain ⟨cfg, handler, holds⟩ := h domain targets (log domain ▸ last)
  exact ⟨cfg, handler, holds.congr (by rw [secrets])⟩

/-- A fresh certificate has no targets to be found. -/
theorem storedTargets_stored {certPem fullchainPem privkeyPem : String} {chainPem : Option String}
    (handler : app.handler = some cfg)
    (present : kv.secrets.get? (secretPath cfg domain) =
      some (certSecret dumps x509 domain certPem chainPem fullchainPem privkeyPem now))
    (text : loads (dumps (certMetadata x509 domain certPem now)) =
      some (certMetadata x509 domain certPem now)) :
    (storedTargets loads app domain .done kv).1 = none := by
  have metadata : metadataOf loads (certSecret dumps x509 domain certPem chainPem fullchainPem
      privkeyPem now) = .ok (certMetadata x509 domain certPem now) := metadataOf_text rfl text
  cases client : kv.client with
  | false => simp [storedTargets_fst, handler, client]
  | true =>
    simp only [storedTargets_fst, handler, client, if_true, readSecret, present, Except.bind,
      metadata, certMetadata]
    rfl

theorem keepsRouting_of_routed (h : Routed loads app st) : KeepsRouting loads app st := by
  intro domain targets last client
  obtain ⟨cfg, handler, holds⟩ := h domain targets last
  exact storedTargets_of_works handler holds client

/-- One write, and what it means for the routing of each domain. -/
theorem Routed.written (h : Routed loads app st) (handler : app.handler = some cfg)
    {domain : String} {data : Secret} {entry : Entry}
    (secrets : st'.kv.secrets = st.kv.secrets.set (secretPath cfg domain) data)
    (log : st'.kv.log = st.kv.log ++ [entry])
    (others : ∀ domain', domain' ≠ domain → entry.targets? domain' = none)
    (here : ∀ targets, (entry.targets? domain).or (lastRouting st.kv.log domain) = some targets →
      HoldsTargets loads cfg st'.kv domain targets) : Routed loads app st' := by
  intro domain' targets last
  rw [log, lastRouting_append] at last
  by_cases same : domain' = domain
  · subst same
    exact ⟨cfg, handler, here targets last⟩
  · rw [others domain' same, Option.none_or] at last
    obtain ⟨cfg', handler', holds⟩ := h domain' targets last
    obtain rfl : cfg = cfg' := Option.some.inj (handler.symm.trans handler')
    refine ⟨cfg, handler, holds.congr ?_⟩
    rw [secrets]
    exact Dict.get?_set_of_ne _ _ (by rwa [Ne, secretPath_inj])

variable (tzdata) in
theorem route_routed (h : Routed loads app st) (domain : String) (targets : List String) (now : Int)
    (auth : Except PyError Unit) (read : ReadOutcome) (write : WriteOutcome)
    (text : RoundTrips dumps loads x509 app st (.route domain targets now auth read write)) :
    Routed loads app
      (step dumps loads x509 tzdata app st (.route domain targets now auth read write)) := by
  cases handler : app.handler with
  | none =>
    have same : step dumps loads x509 tzdata app st
        (.route domain targets now auth read write) = st := by
      simp [step, patchCertTargets, handler]
    rwa [same]
  | some cfg =>
    rcases patchCertTargets_cases dumps loads domain targets now auth read write st handler with
      ⟨secrets, log⟩ | ⟨metadata, set, after⟩
    · exact h.congr secrets fun _ => by rw [step, log]
    · refine h.written handler (congrArg Kv.secrets after) (congrArg Kv.log after) ?_ ?_
      · intro domain' other
        simp [Entry.targets?, Ne.symm other]
      · intro targets' last
        obtain rfl : targets = targets' := by simpa [Entry.targets?] using last
        have written : (step dumps loads x509 tzdata app st (.route domain targets now auth read
            write)).kv.secrets.get? (secretPath cfg domain) =
              some [("metadata", .string (dumps metadata))] := by
          rw [step, after]
          exact Dict.get?_set_self ..
        cases found : foundMetadata loads cfg domain now read st.kv with
        | object fields =>
          obtain rfl : .object (Dict.set fields "targets" (.array (targets.map .string))) =
            metadata := by simpa [found, setTargets] using set
          exact ⟨_, _, written, metadataOf_text rfl (text cfg handler _ set), Dict.get?_set_self ..⟩
        | null | bool _ | number _ | string _ | array _ => simp [found, setTargets] at set

variable (tzdata) in
theorem step_routed (h : Routed loads app st) (event : Event)
    (unrouted : StoresUnrouted app st event) (text : RoundTrips dumps loads x509 app st event) :
    Routed loads app (step dumps loads x509 tzdata app st event) := by
  cases event with
  | route domain targets now auth read write =>
    exact route_routed tzdata h domain targets now auth read write text
  | store req now auth write =>
    cases handler : app.handler with
    | none =>
      have same : step dumps loads x509 tzdata app st (.store req now auth write) = st := by
        simp [step, acmeDeploy, handler]
      rwa [same]
    | some cfg =>
      rcases acmeDeploy_cases dumps x509 req now auth write st handler with
        ⟨-, secrets, log⟩ | ⟨takes, after⟩
      · exact h.congr secrets fun _ => by rw [step, log]
      · refine h.written handler (congrArg Kv.secrets after) (congrArg Kv.log after)
          (fun _ _ => rfl) fun targets last => ?_
        have none := unrouted (by simp [handler]) takes
        simp [Entry.targets?, none] at last
  | deploy domain req pemRead routingRead now outcome =>
    obtain ⟨secrets, log⟩ := deploy_frame req pemRead routingRead outcome
    exact h.congr secrets log
  | login | restart => exact h.congr rfl fun _ => rfl

/-- A store for a routed domain shows at once. -/
theorem storesUnrouted_of_keeps (event : Event) (text : RoundTrips dumps loads x509 app st event)
    (keeps : KeepsRouting loads app (step dumps loads x509 tzdata app st event)) :
    StoresUnrouted app st event := by
  cases event with
  | store req now auth write =>
    intro handled takes
    obtain ⟨cfg, handler⟩ := Option.isSome_iff_exists.mp handled
    obtain ⟨lost, -⟩ | ⟨-, after⟩ := acmeDeploy_cases dumps x509 req now auth write st handler
    · exact absurd takes lost
    · cases last : lastRouting st.kv.log req.domain with
      | none => rfl
      | some targets =>
        have present : (step dumps loads x509 tzdata app st (.store req now auth
            write)).kv.secrets.get? (secretPath cfg req.domain) = some (certSecret dumps x509
              req.domain req.certPem req.chainPem req.fullchainPem req.privkeyPem now) := by
          rw [step, after]
          exact Dict.get?_set_self ..
        have kept := keeps req.domain targets
          (by rw [step, after]; simp [Kv.record, lastRouting_append, Entry.targets?, last])
          (by rw [step, after]; rfl)
        rw [storedTargets_stored handler present text] at kept
        cases kept
  | route _ _ _ _ _ _ | deploy _ _ _ _ _ _ | login | restart => trivial

/-- Over a whole history, whatever the secrets were at first: a deployment finds the targets of
the last change of routing at all times exactly if each certificate is stored for a domain that
has not been routed. -/
theorem keepsRouting_iff (dumps : Json → String) (loads : String → Option Json)
    (x509 : String → Option (String × String)) (tzdata : String → Option Zone) (app : App)
    (secrets : Dict (String × String) Secret) (client : Bool) (manager : Targets.State Json)
    (es : List Event)
    (text : EveryStep (step dumps loads x509 tzdata app) (RoundTrips dumps loads x509 app)
      ⟨⟨secrets, client, [], 0⟩, manager⟩ es) :
    EveryState (step dumps loads x509 tzdata app) (KeepsRouting loads app)
        ⟨⟨secrets, client, [], 0⟩, manager⟩ es ↔
      EveryStep (step dumps loads x509 tzdata app) (StoresUnrouted app)
        ⟨⟨secrets, client, [], 0⟩, manager⟩ es := by
  have start : Routed loads app ⟨⟨secrets, client, [], 0⟩, manager⟩ := by
    intro domain targets last
    simp [lastRouting] at last
  have keep : ∀ st e, Routed loads app st →
      StoresUnrouted app st e ∧ RoundTrips dumps loads x509 app st e →
        Routed loads app (step dumps loads x509 tzdata app st e) :=
    fun _ e h both => step_routed tzdata h e both.1 both.2
  constructor
  · intro keeps pre e post split
    exact (keeps.everyStep (fun _ e _ text keeps => ⟨storesUnrouted_of_keeps e text keeps, text⟩)
      keep start text pre e post split).1
  · intro unrouted pre hpre
    exact keepsRouting_of_routed ((unrouted.and text).invariant keep start pre hpre)

/-! ## A renewal after a change of routing -/

def renewalApp : App := ⟨some {}, none⟩

def renewalStore : Event := .store ⟨"example.com", "CERT", none, "CERT", "KEY"⟩ 0 (.ok ()) .done

def renewalRoute : Event :=
  .route "example.com" routeCall.targets routeCall.now (.ok ()) .done .done

def renewalStep : State → Event → State :=
  step textDumps raceLoads (fun _ => none) onlyUtc renewalApp

theorem renewal_roundTrips :
    EveryStep renewalStep (RoundTrips textDumps raceLoads (fun _ => none) renewalApp)
      State.initial [renewalStore, renewalRoute] := by
  rw [everyStep_cons, everyStep_cons]
  refine ⟨raceLoads_written storedJson .stored, ?_, everyStep_nil _⟩
  intro cfg handler metadata set
  obtain rfl : {} = cfg := Option.some.inj handler
  have found : foundMetadata raceLoads {} "example.com" routeCall.now .done
      (renewalStep State.initial renewalStore).kv = storedJson :=
    foundMetadata_done rfl (metadataOf_text rfl (raceLoads_written _ .stored))
  rw [found] at set
  obtain rfl : routedJson = metadata := Except.ok.inj set
  exact raceLoads_written routedJson (.routed _ 0 .store)

theorem keepsRouting_iff_renewal :
    EveryState renewalStep (KeepsRouting raceLoads renewalApp) State.initial
        [renewalStore, renewalRoute] ↔
      EveryStep renewalStep (StoresUnrouted renewalApp) State.initial
        [renewalStore, renewalRoute] :=
  keepsRouting_iff textDumps raceLoads (fun _ => none) onlyUtc renewalApp [] false .initial
    [renewalStore, renewalRoute] renewal_roundTrips

/-- The domain is routed to `f5`, and its first certificate wipes that out. -/
theorem loses_routing : ¬ EveryState renewalStep (KeepsRouting raceLoads renewalApp) State.initial
    [renewalRoute, renewalStore] := by
  intro keeps
  have kept := keeps.last "example.com" ["f5"] rfl rfl
  have lost : (storedTargets raceLoads renewalApp "example.com" .done
      (run renewalStep State.initial [renewalRoute, renewalStore]).kv).1 = none :=
    storedTargets_stored rfl rfl (raceLoads_written storedJson .stored)
  rw [lost] at kept
  cases kept

end AcmeGitWebhook.Vault
