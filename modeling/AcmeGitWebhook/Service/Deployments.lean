import AcmeGitWebhook.Targets.Installed
import AcmeGitWebhook.Vault.Pairs

/-!
# From the stored certificate to the target

The certificate endpoints of `app/main.py` over the secrets they share and over the manager with
its targets. A certificate is stored, stays in Vault when the process is restarted, and is read
by a deployment, which hands it to a target at once or out of a scheduled job. A request, and the
firing of a job, is taken as a whole.

## Main results

* `run_kv`: whatever the targets do, the secrets are those of the endpoints' own model.
* `deploy_delivers`: a target with the result `ok` holds the pair that the request meant, and one
  with the result `deferred` has a job with it.
* `single_apart`: a deployment to one target leaves every other target alone.
* `scheduled_delivers`: the target of a job that is left alone holds its pair once it has fired,
  and nothing comes of a job that the scheduler misses.
-/

namespace AcmeGitWebhook.Service

open Library Vault

structure State where
  kv : Kv
  fleet : Fleet.State

/-- The targets as they are at start-up; without any there is no manager. -/
structure Site where
  vault : Option VaultConfig
  targets : List Fleet.Configured
  defaultWindow : Option DeployWindow := none

def Site.app (site : Site) : App :=
  ⟨site.vault,
    if site.targets.isEmpty then none else some (Fleet.initManager site.targets site.defaultWindow)⟩

def Site.initial (site : Site) : State := ⟨⟨[], false, [], 0⟩, Fleet.initial site.targets⟩

variable (dumps : Json → String) (loads : String → Option Json)
  (x509 : String → Option (String × String)) (lower : String → String) (str : PyError → String)
  (tzdata : String → Option Zone) (app : App)

def deployCertToTargets (domain : String) (req : DeployRequest)
    (pemRead routingRead : ReadOutcome) (now : Int) (calls : Nat → Fleet.Calls) (st : State) :
    Except Failure (List Targets.Result) × State :=
  match app.manager with
  | none => (.error (.http 400 "No deployment targets configured"), st)
  | some mgr =>
    match pemsFor app domain req pemRead st.kv with
    | (.error failure, kv) => (.error failure, { st with kv := kv })
    | (.ok (.string fullchainPem, .string privkeyPem), kv) =>
      match targetNamesFor loads app domain req routingRead
          (kv.record (.handed domain (.string fullchainPem) (.string privkeyPem))) with
      | (.error err, kv) => (.error (.raised err), { st with kv := kv })
      | (.ok targetNames, kv) =>
        match Fleet.deploy lower str tzdata mgr
            ⟨domain, fullchainPem, privkeyPem, targetNames, now, calls⟩ st.fleet with
        | (.ok results, fleet) => (.ok results, ⟨kv, fleet⟩)
        | (.error err, fleet) => (.error (.raised err), ⟨kv, fleet⟩)
    -- no secret comes to hold anything but texts (`pemsFor_meant`)
    | (.ok _, kv) => (.error (.raised .typeError), { st with kv := kv })

def deployCertToSingleTarget (domain target : String) (req : DeployRequest)
    (pemRead routingRead : ReadOutcome) (now : Int) (calls : Nat → Fleet.Calls) (st : State) :
    Except Failure (List Targets.Result) × State :=
  deployCertToTargets loads lower str tzdata app domain { req with targetNames := some [target] }
    pemRead routingRead now calls st

/-- A new process: the target's object is built anew, and has read no API key yet. -/
def restart : Fleet.System → Fleet.System
  | .ivanti cfg st => .ivanti cfg { received := st.received }
  | sys => sys

/-- Jobs are kept in memory, and what the systems have taken is not. -/
def State.restart (st : State) : State :=
  ⟨{ st.kv with client := false },
    ⟨.initial, st.fleet.systems.map fun item => (item.1, Service.restart item.2)⟩⟩

/-- The events of the endpoints' own model, and the scheduler running a pending job or missing
it. -/
inductive Event where
  | store (req : CertDeployRequest) (now : Int) (auth : Except PyError Unit) (write : WriteOutcome)
  | route (domain : String) (targets : List String) (now : Int) (auth : Except PyError Unit)
      (read : ReadOutcome) (write : WriteOutcome)
  | deploy (domain : String) (req : DeployRequest) (pemRead routingRead : ReadOutcome) (now : Int)
      (calls : Nat → Fleet.Calls)
  | fire (id : String) (instant : Int) (calls : Fleet.Calls)
  | miss (id : String) (instant : Int)
  | login
  | restart

def step (st : State) : Event → State
  | .store req now auth write =>
    { st with kv := (acmeDeploy dumps x509 app req now auth write ⟨st.kv, .initial⟩).2.kv }
  | .route domain targets now auth read write =>
    { st with
      kv := (patchCertTargets dumps loads app domain targets now auth read write
        ⟨st.kv, .initial⟩).2.kv }
  | .deploy domain req pemRead routingRead now calls =>
    (deployCertToTargets loads lower str tzdata app domain req pemRead routingRead now calls st).2
  | .fire id instant calls =>
    match app.manager with
    | none => st
    | some mgr =>
      { st with fleet := Fleet.step lower str tzdata mgr st.fleet (.fire id instant calls) }
  | .miss id instant =>
    match app.manager with
    | none => st
    | some mgr => { st with fleet := Fleet.step lower str tzdata mgr st.fleet (.miss id instant) }
  | .login => { st with kv := { st.kv with client := true } }
  | .restart => st.restart

/-- The pair that a request asks to deploy: its own, or if it lacks a part what the last write to
the domain's secret has left, which is nothing if that changed the routing. -/
inductive Meant (domain : String) (req : DeployRequest) (kv : Kv) : String → String → Prop
  | given {fullchainPem privkeyPem : String} (chain : req.fullchainPem = some fullchainPem)
      (key : req.privkeyPem = some privkeyPem) : Meant domain req kv fullchainPem privkeyPem
  | stored {fullchainPem privkeyPem : String}
      (missing : req.fullchainPem = none ∨ req.privkeyPem = none)
      (last : lastWrite kv.log domain = some (.stored domain fullchainPem privkeyPem)) :
      Meant domain req kv fullchainPem privkeyPem
  | routed {targets : List String} (missing : req.fullchainPem = none ∨ req.privkeyPem = none)
      (last : lastWrite kv.log domain = some (.routed domain targets)) : Meant domain req kv "" ""

/-! ## The store -/

variable {dumps loads x509 lower str tzdata app} {cfg : VaultConfig} {domain : String}
  {req : DeployRequest} {pemRead routingRead : ReadOutcome} {now : Int}
  {calls : Nat → Fleet.Calls} {kv : Kv} {st : State}

theorem pemsFor_meant (mirrored : ∀ cfg, app.handler = some cfg → Mirrors cfg kv)
    {pair : Json × Json} (found : (pemsFor app domain req pemRead kv).1 = .ok pair) :
    ∃ fullchainPem privkeyPem, pair = (.string fullchainPem, .string privkeyPem) ∧
      Meant domain req kv fullchainPem privkeyPem := by
  by_cases missing : req.fullchainPem = none ∨ req.privkeyPem = none
  · cases handler : app.handler with
    | none =>
      rcases missing with missing | missing <;> simp [pemsFor, missing, handler] at found
    | some cfg =>
      rw [pemsFor_of_missing missing handler] at found
      obtain ⟨client, returns, data, present⟩ := readPems_ok found
      have reflects := mirrored cfg handler domain
      rw [readPems_eq client returns present] at found
      rw [present] at reflects
      cases last : lastWrite kv.log domain with
      | none => simp [last, Reflects] at reflects
      | some entry =>
        rw [last] at reflects
        obtain ⟨data', same, leaves⟩ := reflects
        obtain rfl := Option.some.inj same
        have writes := (mem_of_lastWrite last).2
        cases entry with
        | stored domain' f p =>
          obtain rfl : domain' = domain := by simpa [Vault.Entry.writes] using writes
          rw [leaves.1, leaves.2] at found
          exact ⟨f, p, (Except.ok.inj found).symm, .stored missing last⟩
        | routed domain' targets =>
          obtain rfl : domain' = domain := by simpa [Vault.Entry.writes] using writes
          rw [leaves.1, leaves.2] at found
          exact ⟨"", "", (Except.ok.inj found).symm, .routed missing last⟩
        | handed domain' f p => exact leaves.elim
  · obtain ⟨f, chain⟩ := Option.ne_none_iff_exists'.mp (fun h => missing (Or.inl h))
    obtain ⟨p, key⟩ := Option.ne_none_iff_exists'.mp (fun h => missing (Or.inr h))
    refine ⟨f, p, ?_, .given chain key⟩
    simpa [pemsFor, chain, key] using found.symm

/-- The same event of the endpoints' own model, if it has one. -/
def Event.endpoint? : Event → Option Vault.Event
  | .store req now auth write => some (.store req now auth write)
  | .route domain targets now auth read write => some (.route domain targets now auth read write)
  | .deploy domain req pemRead routingRead now _ =>
    some (.deploy domain req pemRead routingRead now fun _ => .error "")
  | .fire _ _ _ | .miss _ _ => none
  | .login => some .login
  | .restart => some .restart

/-- The store as the endpoints' own model has it. -/
def State.Mirrored (app : App) (st : State) : Prop :=
  ∀ cfg, app.handler = some cfg → Mirrors cfg st.kv

variable (loads lower str tzdata) in
/-- A deployment fails before the targets are called, or calls them with the pair it means. -/
theorem deploy_cases (mirrored : st.Mirrored app) :
    ((∃ failure, (deployCertToTargets loads lower str tzdata app domain req pemRead routingRead now
          calls st).1 = .error failure) ∧
        (deployCertToTargets loads lower str tzdata app domain req pemRead routingRead now calls
          st).2.fleet = st.fleet) ∨
      ∃ mgr fullchainPem privkeyPem targetNames, app.manager = some mgr ∧
        (targetNamesFor loads app domain req routingRead st.kv).1 = .ok targetNames ∧
        Meant domain req st.kv fullchainPem privkeyPem ∧
        (deployCertToTargets loads lower str tzdata app domain req pemRead routingRead now calls
          st).1 = (Fleet.deploy lower str tzdata mgr
            ⟨domain, fullchainPem, privkeyPem, targetNames, now, calls⟩ st.fleet).1.mapError
              .raised ∧
        (deployCertToTargets loads lower str tzdata app domain req pemRead routingRead now calls
          st).2.fleet = (Fleet.deploy lower str tzdata mgr
            ⟨domain, fullchainPem, privkeyPem, targetNames, now, calls⟩ st.fleet).2 := by
  unfold deployCertToTargets
  cases managed : app.manager with
  | none => exact .inl ⟨⟨_, rfl⟩, rfl⟩
  | some mgr =>
    have asked : Kv.Unwritten st.kv (pemsFor app domain req pemRead st.kv).2 := pemsFor_unwritten
    rcases found : pemsFor app domain req pemRead st.kv with ⟨failure | pair, kv⟩
    · exact .inl ⟨⟨failure, rfl⟩, rfl⟩
    · rw [found] at asked
      obtain ⟨f, p, rfl, meant⟩ := pemsFor_meant mirrored (congrArg Prod.fst found)
      have same : (targetNamesFor loads app domain req routingRead
          (kv.record (.handed domain (.string f) (.string p)))).1 =
          (targetNamesFor loads app domain req routingRead st.kv).1 :=
        targetNamesFor_congr asked.secrets asked.client
      dsimp only
      rcases routed : targetNamesFor loads app domain req routingRead
        (kv.record (.handed domain (.string f) (.string p))) with ⟨err | targetNames, kv'⟩
      · exact .inl ⟨⟨_, rfl⟩, rfl⟩
      · rw [routed] at same
        refine .inr ⟨mgr, f, p, targetNames, rfl, same.symm, meant, ?_⟩
        dsimp only
        rcases Fleet.deploy lower str tzdata mgr ⟨domain, f, p, targetNames, now, calls⟩
          st.fleet with ⟨err | results, fleet⟩ <;> exact ⟨rfl, rfl⟩

variable (dumps loads x509 lower str tzdata) in
/-- What an event does to the store does not depend on the manager or its targets. -/
theorem step_kv (mirrored : st.Mirrored app) (event : Event) (manager : Targets.State Json) :
    (step dumps loads x509 lower str tzdata app st event).kv =
      (run (Vault.step dumps loads x509 tzdata app) ⟨st.kv, manager⟩
        event.endpoint?.toList).kv := by
  cases event with
  | store req now auth write =>
    simp only [step, Event.endpoint?, Option.toList_some, run_cons, run_nil, Vault.step, acmeDeploy]
    cases app.handler with
    | none => rfl
    | some cfg => dsimp only; split <;> rfl
  | route domain targets now auth read write =>
    simp only [step, Event.endpoint?, Option.toList_some, run_cons, run_nil, Vault.step,
      patchCertTargets]
    cases app.handler with
    | none => rfl
    | some cfg =>
      dsimp only
      split
      · rfl
      · split <;> rfl
  | deploy domain req pemRead routingRead now calls =>
    simp only [step, Event.endpoint?, Option.toList_some, run_cons, run_nil, Vault.step]
    unfold deployCertToTargets Vault.deployCertToTargets
    cases app.manager with
    | none => rfl
    | some mgr =>
      rcases found : pemsFor app domain req pemRead st.kv with ⟨failure | pair, kv⟩
      · rfl
      · obtain ⟨f, p, rfl, -⟩ := pemsFor_meant mirrored (congrArg Prod.fst found)
        dsimp only
        generalize targetNamesFor loads app domain req routingRead
          (kv.record (.handed domain (.string f) (.string p))) = names
        obtain ⟨err | targetNames, kv⟩ := names
        · rfl
        · dsimp only
          split <;> split <;> rfl
  | fire id instant calls =>
    simp only [step]
    cases app.manager <;> rfl
  | miss id instant =>
    simp only [step]
    cases app.manager <;> rfl
  | login | restart => rfl

theorem step_mirrored (mirrored : st.Mirrored app) (event : Event) :
    (step dumps loads x509 lower str tzdata app st event).Mirrored app := by
  have before : Vault.State.Mirrored app ⟨st.kv, .initial⟩ := mirrored
  have keep : ∀ (st : Vault.State) event, st.Mirrored app →
      (Vault.step dumps loads x509 tzdata app st event).Mirrored app :=
    fun _ event h => Vault.step_mirrored h event
  have after := run_invariant keep before event.endpoint?.toList
  intro cfg handler
  rw [step_kv dumps loads x509 lower str tzdata mirrored event .initial]
  exact after cfg handler

variable (dumps loads x509 lower str tzdata) in
/-- The state that the service reaches from its start-up. -/
def Site.run (site : Site) (es : List Event) : State :=
  Library.run (step dumps loads x509 lower str tzdata site.app) site.initial es

/-- A run of the service as the store sees it is a run of the endpoints' own model: there the
jobs are left out and no target ever answers. -/
theorem run_kv (dumps : Json → String) (loads : String → Option Json)
    (x509 : String → Option (String × String)) (lower : String → String) (str : PyError → String)
    (tzdata : String → Option Zone) (site : Site) (es : List Event) :
    (site.run dumps loads x509 lower str tzdata es).kv =
      (run (Vault.step dumps loads x509 tzdata site.app) Vault.State.initial
        (es.filterMap Event.endpoint?)).kv := by
  have from_any : ∀ (st : State) (manager : Targets.State Json), st.Mirrored site.app →
      (run (step dumps loads x509 lower str tzdata site.app) st es).kv =
        (run (Vault.step dumps loads x509 tzdata site.app) ⟨st.kv, manager⟩
          (es.filterMap Event.endpoint?)).kv := by
    induction es with
    | nil => exact fun _ _ _ => rfl
    | cons event es ih =>
      intro st manager mirrored
      have here := step_kv dumps loads x509 lower str tzdata mirrored event manager
      rw [run_cons, ih _ (run (Vault.step dumps loads x509 tzdata site.app) ⟨st.kv, manager⟩
        event.endpoint?.toList).manager (step_mirrored mirrored event), here]
      cases found : event.endpoint? <;> simp [found]
  exact from_any site.initial .initial fun _ _ _ => rfl

/-! ## What a step does to the targets -/

/-- What an event asks of the manager: a request, the pair that it means. -/
inductive Asks (st : State) : Event → Fleet.Event → Prop
  | deploy {domain fullchainPem privkeyPem : String} {req : DeployRequest}
      {pemRead routingRead : ReadOutcome} {targetNames : Option (List String)} {now : Int}
      {calls : Nat → Fleet.Calls} (meant : Meant domain req st.kv fullchainPem privkeyPem) :
      Asks st (.deploy domain req pemRead routingRead now calls)
        (.deploy ⟨domain, fullchainPem, privkeyPem, targetNames, now, calls⟩)
  | fire (id : String) (instant : Int) (calls : Fleet.Calls) :
      Asks st (.fire id instant calls) (.fire id instant calls)
  | miss (id : String) (instant : Int) : Asks st (.miss id instant) (.miss id instant)

variable (lower str tzdata app st) in
/-- What an event makes of the manager and its targets. -/
inductive Moves (event : Event) : Fleet.State → Prop
  | still (other : event ≠ .restart) : Moves event st.fleet
  | asks {mgr : Targets.DeployManager} (managed : app.manager = some mgr) {asked : Fleet.Event}
      (asks : Asks st event asked) :
      Moves event (Fleet.step lower str tzdata mgr st.fleet asked)
  | restart (same : event = .restart) : Moves event st.restart.fleet

variable (dumps loads x509 lower str tzdata) in
theorem step_moves (mirrored : st.Mirrored app) (event : Event) :
    Moves lower str tzdata app st event
      (step dumps loads x509 lower str tzdata app st event).fleet := by
  cases event with
  | store _ _ _ _ | route _ _ _ _ _ _ | login => exact .still (by simp)
  | deploy domain req pemRead routingRead now calls =>
    rw [step]
    rcases deploy_cases loads lower str tzdata mirrored with
      ⟨-, same⟩ | ⟨mgr, f, p, targetNames, managed, -, meant, -, after⟩
    · rw [same]
      exact .still (by simp)
    · rw [after]
      exact .asks managed (.deploy meant)
  | fire id instant calls =>
    simp only [step]
    cases managed : app.manager with
    | none => exact .still (by simp)
    | some mgr => exact .asks managed (.fire id instant calls)
  | miss id instant =>
    simp only [step]
    cases managed : app.manager with
    | none => exact .still (by simp)
    | some mgr => exact .asks managed (.miss id instant)
  | restart => exact .restart rfl

theorem restart_name (sys : Fleet.System) : (restart sys).name = sys.name := by
  cases sys <;> rfl

theorem get?_restart {name : String} {sys : Fleet.System}
    (found : st.restart.fleet.systems.get? name = some sys) :
    ∃ old, st.fleet.systems.get? name = some old ∧ restart old = sys := by
  simpa [State.restart, Dict.get?_map] using found

theorem Moves.named {event : Event} {fl : Fleet.State}
    (moves : Moves lower str tzdata app st event fl) (named : Fleet.Named st.fleet) :
    Fleet.Named fl := by
  cases moves with
  | still other => exact named
  | asks managed asks => exact Fleet.step_named named _
  | restart same =>
    intro name sys found
    obtain ⟨old, before, rfl⟩ := get?_restart found
    exact (restart_name old).trans (named name old before)

theorem Moves.managed {event : Event} {fl : Fleet.State}
    (moves : Moves lower str tzdata app st event fl) {mgr : Targets.DeployManager}
    (managed : app.manager = some mgr) (sound : st.fleet.manager.Sound mgr) :
    fl.manager.Sound mgr := by
  cases moves with
  | still other => exact sound
  | @asks mgr' managed' asked asks =>
    obtain rfl := Option.some.inj (managed.symm.trans managed')
    obtain ⟨event', -, refines⟩ := Fleet.step_refines lower str tzdata mgr st.fleet asked
    rw [← refines]
    exact Targets.step_sound sound event'
  | restart same => exact Targets.initial_sound

theorem Moves.idle {event : Event} {fl : Fleet.State}
    (moves : Moves lower str tzdata app st event fl) (unmanaged : app.manager = none)
    (idle : st.fleet.manager.jobs = []) : fl.manager.jobs = [] := by
  cases moves with
  | still other => exact idle
  | asks managed asks => cases unmanaged.symm.trans managed
  | restart same => rfl

/-- What every state of a run has. -/
structure State.Sound (app : App) (st : State) : Prop where
  mirrored : st.Mirrored app
  named : Fleet.Named st.fleet
  managed : ∀ mgr, app.manager = some mgr → st.fleet.manager.Sound mgr
  idle : app.manager = none → st.fleet.manager.jobs = []

variable (dumps loads x509 lower str tzdata) in
theorem run_sound (site : Site) (es : List Event) :
    (site.run dumps loads x509 lower str tzdata es).Sound site.app := by
  have start : site.initial.Sound site.app :=
    ⟨fun _ _ _ => rfl, Fleet.initial_named site.targets, fun _ _ => Targets.initial_sound,
      fun _ => rfl⟩
  refine run_invariant (I := State.Sound site.app) (fun st event sound => ?_) start es
  have moves := step_moves dumps loads x509 lower str tzdata sound.mirrored event
  exact ⟨step_mirrored sound.mirrored event, moves.named sound.named,
    fun mgr managed => moves.managed managed (sound.managed mgr managed),
    fun unmanaged => moves.idle unmanaged (sound.idle unmanaged)⟩

/-! ## What a deployment delivers -/

/-- After any run, a deployment that is answered concerns one pair, the one that the request
means: a target with the result `ok` holds it, and one with the result `deferred` has a job with
it. -/
theorem deploy_delivers (dumps : Json → String) (loads : String → Option Json)
    (x509 : String → Option (String × String)) (lower : String → String) (str : PyError → String)
    (tzdata : String → Option Zone) (site : Site) (es : List Event) (domain : String)
    (req : DeployRequest) (pemRead routingRead : ReadOutcome) (now : Int)
    (calls : Nat → Fleet.Calls) (results : List Targets.Result)
    (answered : (deployCertToTargets loads lower str tzdata site.app domain req pemRead routingRead
      now calls (site.run dumps loads x509 lower str tzdata es)).1 = .ok results) :
    ∃ fullchainPem privkeyPem,
      Meant domain req (site.run dumps loads x509 lower str tzdata es).kv fullchainPem
        privkeyPem ∧
      ∀ r ∈ results,
        (r.status = .ok → Fleet.Installed r.target domain fullchainPem privkeyPem
          (fun pfx => ∃ i, (calls i).Makes fullchainPem privkeyPem pfx)
          (site.run dumps loads x509 lower str tzdata
            (es ++ [.deploy domain req pemRead routingRead now calls])).fleet) ∧
        (r.status = .deferred → ∃ k, Fleet.Scheduled r.target domain fullchainPem privkeyPem k
          (site.run dumps loads x509 lower str tzdata
            (es ++ [.deploy domain req pemRead routingRead now calls])).fleet) := by
  have sound := run_sound dumps loads x509 lower str tzdata site es
  have last : (site.run dumps loads x509 lower str tzdata
      (es ++ [.deploy domain req pemRead routingRead now calls])).fleet =
        (deployCertToTargets loads lower str tzdata site.app domain req pemRead routingRead now
          calls (site.run dumps loads x509 lower str tzdata es)).2.fleet := by
    rw [Site.run, run_concat]
    rfl
  rw [last]
  rcases deploy_cases loads lower str tzdata sound.mirrored with
    ⟨⟨failure, failed⟩, -⟩ | ⟨mgr, f, p, targetNames, -, -, meant, answer, after⟩
  · cases failed.symm.trans answered
  · rw [answer] at answered
    rw [after]
    cases called : (Fleet.deploy lower str tzdata mgr ⟨domain, f, p, targetNames, now, calls⟩
        (site.run dumps loads x509 lower str tzdata es).fleet).1 with
    | error err =>
      rw [called] at answered
      cases answered
    | ok results' =>
      rw [called] at answered
      obtain rfl := Except.ok.inj answered
      exact ⟨f, p, meant, fun r mem => ⟨Fleet.deploy_holds sound.named called r mem,
        fun late => ⟨_, Fleet.deploy_scheduled called r mem late⟩⟩⟩

/-- An F5 that takes deployments on Thursdays, from eight to six. -/
def edgeSite : Site :=
  ⟨some {}, [⟨.f5 ⟨"edge", "https://f5.example.com"⟩ ⟨[], [], []⟩,
    some ⟨"08:00", "18:00", [4], "UTC"⟩⟩], none⟩

def storeChain (fullchainPem : String) : Event :=
  .store ⟨"example.com", "CERT", none, fullchainPem, "KEY"⟩ 0 (.ok ()) .done

def allDone : Fleet.Calls :=
  ⟨{}, ⟨fun _ _ => .error "", .missing, .ok (), .done⟩, { pemToPfx := fun _ _ => .error "" }⟩

def deployAt (now : Int) : Event := .deploy "example.com" {} .done .done now fun _ => allDone

set_option maxRecDepth 4000 in
/-- The certificate is stored, the process restarted, and what it deploys is the certificate. -/
theorem deploy_delivers_edge : ∃ fullchainPem privkeyPem,
    Meant "example.com" {} (edgeSite.run exampleDumps exampleLoads (fun _ => none) id (fun _ => "")
      onlyUtc [storeChain "CHAIN", .restart, .login]).kv fullchainPem privkeyPem ∧
    ∀ r ∈ [Fleet.ofDeployed ⟨"edge", "https://f5.example.com", F5.fullName "example.com",
        F5.fullName "example.com", []⟩],
      (r.status = .ok → Fleet.Installed r.target "example.com" fullchainPem privkeyPem
        (fun pfx => ∃ _ : Nat, allDone.Makes fullchainPem privkeyPem pfx)
        (edgeSite.run exampleDumps exampleLoads (fun _ => none) id (fun _ => "") onlyUtc
          ([storeChain "CHAIN", .restart, .login] ++ [deployAt (9 * usPerHour)])).fleet) ∧
      (r.status = .deferred → ∃ k, Fleet.Scheduled r.target "example.com" fullchainPem privkeyPem k
        (edgeSite.run exampleDumps exampleLoads (fun _ => none) id (fun _ => "") onlyUtc
          ([storeChain "CHAIN", .restart, .login] ++ [deployAt (9 * usPerHour)])).fleet) :=
  deploy_delivers exampleDumps exampleLoads (fun _ => none) id (fun _ => "") onlyUtc edgeSite
    [storeChain "CHAIN", .restart, .login] "example.com" {} .done .done (9 * usPerHour)
    (fun _ => allDone) _ rfl

/-! ## Deployments by name -/

variable (lower str tzdata) in
/-- A call by name hands nothing to other targets, and leaves the jobs of others alone. -/
theorem fleet_apart (mgr : Targets.DeployManager) {call : Fleet.Call} {names : List String}
    (named : call.targetNames = some names) (fl : Fleet.State) :
    (∀ name ∉ names, (Fleet.deploy lower str tzdata mgr call fl).2.systems.get? name =
        fl.systems.get? name) ∧
      ∀ id, (∀ name ∈ names, id ≠ Targets.jobId name call.domain) →
        (Fleet.deploy lower str tzdata mgr call fl).2.manager.jobs.get? id =
          fl.manager.jobs.get? id := by
  obtain ⟨outcome, refines⟩ := Fleet.deploy_refines lower str tzdata mgr call fl
  have manager : (Targets.deploy tzdata mgr (call.answered outcome) fl.manager).2 =
      (Fleet.deploy lower str tzdata mgr call fl).2.manager := congrArg Prod.snd refines
  have handled : ∀ a ∈ mgr.actions tzdata (call.answered outcome), a.1.name ∈ names :=
    fun a mem => Targets.actions_named named mem
  constructor
  · intro name other
    have silent : (call.handOvers tzdata mgr fl.manager.calls).filter
        (fun h => h.1.target = name) = [] := by
      rw [List.filter_eq_nil_iff]
      intro h mem
      obtain ⟨t, handling, target⟩ := Fleet.mem_handOvers outcome mem
      have mine := handled _ handling
      grind
    rw [(Fleet.deploy_replays lower str tzdata mgr call fl).systems, silent, Fleet.map_replay_nil]
  · intro id others
    rw [← manager]
    exact Targets.deploy_jobs_of_ne fun t next mem => others t.name (handled _ mem)

variable (loads lower str tzdata) in
theorem named_apart (mirrored : st.Mirrored app) (domain : String) (names : List String)
    (req : DeployRequest) (pemRead routingRead : ReadOutcome) (now : Int)
    (calls : Nat → Fleet.Calls) :
    (∀ name ∉ names,
        (deployCertToTargets loads lower str tzdata app domain
            { req with targetNames := some names } pemRead routingRead now calls
            st).2.fleet.systems.get? name = st.fleet.systems.get? name) ∧
      ∀ id, (∀ name ∈ names, id ≠ Targets.jobId name domain) →
        (deployCertToTargets loads lower str tzdata app domain
            { req with targetNames := some names } pemRead routingRead now calls
            st).2.fleet.manager.jobs.get? id = st.fleet.manager.jobs.get? id := by
  rcases deploy_cases loads lower str tzdata mirrored with
    ⟨-, same⟩ | ⟨mgr, f, p, targetNames, -, routed, -, -, after⟩
  · rw [same]
    exact ⟨fun _ _ => rfl, fun _ _ => rfl⟩
  · obtain rfl : targetNames = some names := by simpa [targetNamesFor] using routed.symm
    rw [after]
    exact fleet_apart lower str tzdata mgr rfl _

/-- After any run, a deployment to one target has nothing to do with any other: their systems are
as they were, and so is every job with another id. Names can be joined to the same id, so the job
it displaces need not be one of this target. -/
theorem single_apart (dumps : Json → String) (loads : String → Option Json)
    (x509 : String → Option (String × String)) (lower : String → String) (str : PyError → String)
    (tzdata : String → Option Zone) (site : Site) (es : List Event) (domain target : String)
    (req : DeployRequest) (pemRead routingRead : ReadOutcome) (now : Int)
    (calls : Nat → Fleet.Calls) :
    (∀ name ≠ target,
        (deployCertToSingleTarget loads lower str tzdata site.app domain target req pemRead
            routingRead now calls
            (site.run dumps loads x509 lower str tzdata es)).2.fleet.systems.get? name =
          (site.run dumps loads x509 lower str tzdata es).fleet.systems.get? name) ∧
      ∀ id ≠ Targets.jobId target domain,
        (deployCertToSingleTarget loads lower str tzdata site.app domain target req pemRead
            routingRead now calls
            (site.run dumps loads x509 lower str tzdata es)).2.fleet.manager.jobs.get? id =
          (site.run dumps loads x509 lower str tzdata es).fleet.manager.jobs.get? id := by
  have sound := run_sound dumps loads x509 lower str tzdata site es
  obtain ⟨systems, jobs⟩ := named_apart loads lower str tzdata sound.mirrored domain [target] req
    pemRead routingRead now calls
  exact ⟨fun name other => systems name (by simpa using other),
    fun id other => jobs id (by simpa using other)⟩

/-! ## What becomes of a scheduled deployment -/

/-- The event leaves a pending job alone: the process goes on, no deployment has a job of the same
id, and the scheduler comes to the job at most before its time, and does not miss it. -/
def Event.Spares (app : App) (id : String) (j : Targets.Job String) : Event → Prop
  | .deploy domain _ _ _ _ _ => ∀ mgr name, app.manager = some mgr →
      (mgr.targets.get? name).isSome → Targets.jobId name domain ≠ id
  | .fire id' instant _ => id' = id → instant < j.runDate
  | .miss id' instant => id' = id → instant ≤ j.runDate + misfireGraceTime
  | .restart => False
  | .store _ _ _ _ | .route _ _ _ _ _ _ | .login => True

theorem Moves.spares {id : String} {j : Targets.Job String} {event : Event} {fl : Fleet.State}
    (moves : Moves lower str tzdata app st event fl) (sound : st.Sound app)
    (pending : st.fleet.manager.jobs.get? id = some j) (spares : event.Spares app id j) :
    fl.manager.jobs.get? id = some j := by
  cases moves with
  | still other => exact pending
  | restart same =>
    subst same
    exact spares.elim
  | @asks mgr managed asked asks =>
    obtain ⟨event', same, refines⟩ := Fleet.step_refines lower str tzdata mgr st.fleet asked
    rw [← refines]
    cases asks with
    | @deploy domain f p req pemRead routingRead targetNames now calls meant =>
      obtain ⟨outcome, rfl⟩ := same
      have others : (Targets.deploy tzdata mgr (Fleet.Call.answered
            ⟨domain, f, p, targetNames, now, calls⟩ outcome) st.fleet.manager).2.jobs.get? id =
          st.fleet.manager.jobs.get? id := Targets.deploy_jobs_of_ne fun t next mem =>
        (spares mgr t.name managed (Targets.actions_registered mem)).symm
      exact others.trans pending
    | fire id' instant calls =>
      obtain rfl := same
      rcases Targets.step_fire_cases tzdata mgr st.fleet.manager id' instant with
        same | ⟨j', found, due⟩
      · rw [same]
        exact pending
      · rw [Targets.step_fire (sound.managed mgr managed) found due]
        have other : id ≠ id' := by
          rintro rfl
          obtain rfl := Option.some.inj (pending.symm.trans found)
          exact absurd due (not_le.mpr (spares rfl))
        exact (Dict.get?_erase_of_ne _ other).trans pending
    | miss id' instant =>
      obtain rfl := same
      rcases Targets.step_miss_cases tzdata mgr st.fleet.manager id' instant with
        same | ⟨j', found, late, after⟩
      · rw [same]
        exact pending
      · rw [after]
        have other : id ≠ id' := by
          rintro rfl
          obtain rfl := Option.some.inj (pending.symm.trans found)
          exact absurd late (not_lt.mpr (spares rfl))
        exact (Dict.get?_erase_of_ne _ other).trans pending

/-- What the scheduler does when it comes to a job whose time has come: it runs it, or is too late
for that. -/
def comesTo (id : String) (j : Targets.Job String) (instant : Int) (calls : Fleet.Calls) : Event :=
  if instant ≤ j.runDate + misfireGraceTime then .fire id instant calls else .miss id instant

variable (dumps loads x509 lower str tzdata) in
theorem Site.run_pending (site : Site) {es later : List Event} {id : String}
    {j : Targets.Job String}
    (pending : (site.run dumps loads x509 lower str tzdata es).fleet.manager.jobs.get? id = some j)
    (spared : ∀ event ∈ later, event.Spares site.app id j) :
    (site.run dumps loads x509 lower str tzdata (es ++ later)).fleet.manager.jobs.get? id =
      some j := by
  induction later using List.reverseRecOn with
  | nil => simpa using pending
  | append_singleton later event ih =>
    obtain ⟨before, here⟩ := List.forall_mem_append.mp spared
    rw [← List.append_assoc, Site.run, run_concat]
    have sound := run_sound dumps loads x509 lower str tzdata site (es ++ later)
    exact (step_moves dumps loads x509 lower str tzdata sound.mirrored event).spares sound
      (ih before) (here event (List.mem_singleton.mpr rfl))

/-- A job that is pending after a run stays so while it is spared. If the scheduler then comes to it
in time, a target that answers `ok` holds its pair; if it comes too late, the job is gone and no
target has been touched. -/
theorem scheduled_delivers (dumps : Json → String) (loads : String → Option Json)
    (x509 : String → Option (String × String)) (lower : String → String) (str : PyError → String)
    (tzdata : String → Option Zone) (site : Site) (es later : List Event) (id : String)
    (j : Targets.Job String)
    (pending : (site.run dumps loads x509 lower str tzdata es).fleet.manager.jobs.get? id = some j)
    (spared : ∀ event ∈ later, event.Spares site.app id j) (instant : Int)
    (due : j.runDate ≤ instant) (calls : Fleet.Calls) :
    (site.run dumps loads x509 lower str tzdata (es ++ later)).fleet.manager.jobs.get? id =
        some j ∧
      (instant ≤ j.runDate + misfireGraceTime → ∀ sys result,
        (site.run dumps loads x509 lower str tzdata (es ++ later)).fleet.systems.get? j.target =
          some sys →
        (sys.deploy lower str j.domain j.fullchainPem j.privkeyPem calls).1 = .ok result →
        result.status = .ok →
        Fleet.Installed j.target j.domain j.fullchainPem j.privkeyPem
          (calls.Makes j.fullchainPem j.privkeyPem)
          (site.run dumps loads x509 lower str tzdata
            (es ++ later ++ [comesTo id j instant calls])).fleet) ∧
      (j.runDate + misfireGraceTime < instant →
        (site.run dumps loads x509 lower str tzdata
            (es ++ later ++ [comesTo id j instant calls])).fleet.systems =
          (site.run dumps loads x509 lower str tzdata (es ++ later)).fleet.systems ∧
        (site.run dumps loads x509 lower str tzdata
            (es ++ later ++ [comesTo id j instant calls])).fleet.manager.jobs.get? id = none) := by
  have sound := run_sound dumps loads x509 lower str tzdata site (es ++ later)
  have waiting := site.run_pending dumps loads x509 lower str tzdata pending spared
  have last : site.run dumps loads x509 lower str tzdata
      (es ++ later ++ [comesTo id j instant calls]) =
        step dumps loads x509 lower str tzdata site.app
          (site.run dumps loads x509 lower str tzdata (es ++ later))
          (comesTo id j instant calls) := run_concat _ _ _
  rw [last]
  cases managed : site.app.manager with
  | none => simp [sound.idle managed] at waiting
  | some mgr =>
    refine ⟨waiting, fun inTime sys result found answered ok => ?_, fun late => ?_⟩
    · rw [comesTo, if_pos inTime]
      simp only [step, managed]
      exact Fleet.fire_holds sound.named (sound.managed mgr managed) waiting due found answered ok
    · rw [comesTo, if_neg (not_le.mpr late)]
      simp only [step, managed, Fleet.step, Targets.step, waiting, if_pos late, true_and]
      exact Dict.get?_erase_self _ _

set_option maxRecDepth 4000 in
/-- Deferred at midnight and fired at eight; a certificate that is stored in between is not the
one that the target gets. Half a minute later the job would have been dropped. -/
theorem scheduled_delivers_edge :
    Fleet.Installed "edge" "example.com" "CHAIN" "KEY" (allDone.Makes "CHAIN" "KEY")
      (edgeSite.run exampleDumps exampleLoads (fun _ => none) id (fun _ => "") onlyUtc
        ([storeChain "CHAIN", deployAt 0] ++ [storeChain "NEW"] ++
          [.fire "deploy-edge-example.com" (8 * usPerHour + 500000) allDone])).fleet ∧
    (edgeSite.run exampleDumps exampleLoads (fun _ => none) id (fun _ => "") onlyUtc
      ([storeChain "CHAIN", deployAt 0] ++ [storeChain "NEW"] ++
        [.miss "deploy-edge-example.com" (8 * usPerHour + 30000000)])).fleet.systems =
      (edgeSite.run exampleDumps exampleLoads (fun _ => none) id (fun _ => "") onlyUtc
        ([storeChain "CHAIN", deployAt 0] ++ [storeChain "NEW"])).fleet.systems := by
  have reached (instant : Int) (due : 8 * usPerHour ≤ instant) :=
    scheduled_delivers exampleDumps exampleLoads (fun _ => none) id (fun _ => "") onlyUtc edgeSite
      [storeChain "CHAIN", deployAt 0] [storeChain "NEW"] "deploy-edge-example.com"
      ⟨"edge", "example.com", "CHAIN", "KEY", 8 * usPerHour, 0⟩ rfl
      (by simp [storeChain, Event.Spares]) instant due allDone
  constructor
  · have fired := (reached (8 * usPerHour + 500000) (by decide)).2.1 (by decide)
      (.f5 ⟨"edge", "https://f5.example.com"⟩ ⟨[], [], []⟩)
      (Fleet.ofDeployed ⟨"edge", "https://f5.example.com", F5.fullName "example.com",
        F5.fullName "example.com", []⟩) rfl rfl rfl
    rwa [comesTo, if_pos (by decide)] at fired
  · have missed := ((reached (8 * usPerHour + 30000000) (by decide)).2.2 (by decide)).1
    rwa [comesTo, if_neg (by decide)] at missed

end AcmeGitWebhook.Service
