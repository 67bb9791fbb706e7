import AcmeGitWebhook.Targets.Ivanti

/-!
# The manager with its targets

`DeployManager` of `app/targets/manager.py` over the F5, Ivanti and Exchange targets that it
builds, each with the system it deploys to. Where the manager's own model is given how each target
answers, here the answer comes out of the target's `deploy`, and how the calls of that deployment
end is given instead.

## Main results

* `run_refines`: a run of the manager with its targets is a run of the manager's own model.
* `run_replays`: each system has been through exactly the deployments that the events of the run
  make to its target, and the manager has logged these and no others.
* `deploy_installed`: a target that answered `ok` has what the call gave it.
-/

namespace AcmeGitWebhook.Fleet

open Library Targets

/-- A target: its configuration, the connection it keeps and what it deploys to. For an Exchange
host this is the scripts it has been sent. -/
inductive System where
  | f5 (cfg : F5.F5TargetConfig) (dev : F5.Device)
  | ivanti (cfg : Ivanti.IvantiTargetConfig) (st : Ivanti.State)
  | exchange (cfg : Exchange.ExchangeTargetConfig) (sent : List String)

def System.name : System → String
  | .f5 cfg _ => cfg.name
  | .ivanti cfg _ => cfg.name
  | .exchange cfg _ => cfg.name

def System.provider : System → Provider
  | .f5 _ _ => .f5
  | .ivanti _ _ => .ivanti
  | .exchange _ _ => .exchange

/-- How the calls of one deployment end, whichever target makes them. -/
structure Calls where
  f5 : F5.Calls
  ivanti : Ivanti.Calls
  exchange : Exchange.Calls

def textDetail : String × Json → Option (String × String)
  | (key, .string text) => some (key, text)
  | _ => none

/-- What the manager's own model keeps of a result: the details that are texts. -/
def texts (r : Result) : DeployResult :=
  ⟨r.target, r.provider, r.status, r.details.filterMap textDetail, r.error⟩

def ofDeployResult (r : DeployResult) : Result :=
  ⟨r.target, r.provider, r.status, r.details.map (Prod.map id .string), r.error⟩

def ofDeployed (d : F5.Deployed) : Result :=
  ⟨d.target, Provider.f5.text, .ok, [("host", .string d.host), ("cert_name", .string d.certName),
    ("key_name", .string d.keyName),
    ("updated_profiles", .array (d.updatedProfiles.map .string))], none⟩

variable (lower : String → String) (str : PyError → String)

/-- A target's `deploy`; only that of an F5 lets exceptions through. -/
def System.deploy (domain fullchainPem privkeyPem : String) (calls : Calls) :
    System → Except String Result × System
  | .f5 cfg dev =>
    match F5.deploy lower cfg domain fullchainPem privkeyPem calls.f5 dev with
    | (.ok deployed, dev) => (.ok (ofDeployed deployed), .f5 cfg dev)
    | (.error err, dev) => (.error (str err), .f5 cfg dev)
  | .ivanti cfg st =>
    let (result, st) := Ivanti.deploy cfg fullchainPem privkeyPem calls.ivanti st
    (.ok result, .ivanti cfg st)
  | .exchange cfg sent =>
    let (result, scripts) := Exchange.deploy cfg domain fullchainPem privkeyPem calls.exchange
    (.ok (ofDeployResult result), .exchange cfg (sent ++ scripts))

structure State where
  manager : Targets.State String
  systems : Dict String System

/-- A target's `deploy` is called. -/
def handTo (h : HandOver String) (calls : Calls) (fl : State) : Except String Result × State :=
  let manager := fl.manager.record (.handed h)
  match fl.systems.get? h.target with
  | none => (.error "", ⟨manager, fl.systems⟩)
  | some sys =>
    let (answer, sys) := sys.deploy lower str h.domain h.fullchainPem h.privkeyPem calls
    (answer, ⟨manager, fl.systems.set h.target sys⟩)

/-- The arguments of `deploy` and the clock, and how the calls of the deployment to the target at
each position end. -/
structure Call where
  domain : String
  fullchainPem : String
  privkeyPem : String
  targetNames : Option (List String) := none
  now : Int
  calls : Nat → Calls

/-- The same call of the manager's own model, its targets answering as given. -/
def Call.answered (call : Call) (outcome : Nat → Except String DeployResult) :
    DeployCall String :=
  ⟨call.domain, call.fullchainPem, call.privkeyPem, call.targetNames, call.now, outcome⟩

def Call.job (call : Call) (k : Nat) (target : String) (runAt : Int) : Job String :=
  ⟨target, call.domain, call.fullchainPem, call.privkeyPem, runAt, k⟩

def Call.handOver (call : Call) (k : Nat) (target : String) : HandOver String :=
  ⟨target, call.domain, call.fullchainPem, call.privkeyPem, call.now, k⟩

def outcomeResult (t : DeployTarget) : Except String Result → Result
  | .ok result => result
  | .error text => ⟨t.name, t.providerType.text, .error, [], some text⟩

variable (tzdata : String → Option Zone) (m : DeployManager)

/-- The loop over the requested targets. -/
def deployEach (call : Call) (k : Nat) : Nat → List DeployTarget → State →
    Except PyError (List Result) × State
  | _, [], fl => (.ok [], fl)
  | i, t :: ts, fl =>
    match m.deferral tzdata t.name call.now with
    | .error err => (.error err, fl)
    | .ok (some next) =>
      let (rest, fl) := deployEach call k (i + 1) ts
        ⟨scheduleDeferred fl.manager (call.job k t.name next), fl.systems⟩
      (rest.map (ofDeployResult (deferredResult t next) :: ·), fl)
    | .ok none =>
      let (outcome, fl) := handTo lower str (call.handOver k t.name) (call.calls i) fl
      let (rest, fl) := deployEach call k (i + 1) ts fl
      (rest.map (outcomeResult t outcome :: ·), fl)

def deploy (call : Call) (fl : State) : Except PyError (List Result) × State :=
  let k := fl.manager.calls
  let fl : State := ⟨{ fl.manager with calls := k + 1 }, fl.systems⟩
  match m.select call.targetNames with
  | .error err => (.error err, ⟨fl.manager.record (.raised k err), fl.systems⟩)
  | .ok targets =>
    match deployEach lower str tzdata m call k 0 targets fl with
    | (.ok results, fl) =>
      (.ok results, ⟨fl.manager.record (.answered k (results.map texts)), fl.systems⟩)
    | (.error err, fl) => (.error err, ⟨fl.manager.record (.raised k err), fl.systems⟩)

def deferredDeploy (j : Job String) (instant : Int) (calls : Calls) (fl : State) : State :=
  match m.targets.get? j.target with
  | none => fl
  | some _ => (handTo lower str (j.handOver instant) calls fl).2

inductive Event where
  | deploy (call : Call)
  | fire (id : String) (instant : Int) (calls : Calls)
  | miss (id : String) (instant : Int)

def step (fl : State) : Event → State
  | .deploy call => (deploy lower str tzdata m call fl).2
  | .fire id instant calls =>
    match fl.manager.jobs.get? id with
    | none => fl
    | some j =>
      if j.runDate ≤ instant then
        deferredDeploy lower str m j instant calls
          ⟨({ fl.manager with jobs := fl.manager.jobs.erase id } : Targets.State String).record
            (.fired j), fl.systems⟩
      else fl
  | .miss id instant => ⟨Targets.step tzdata m fl.manager (.miss id instant), fl.systems⟩

/-! ## Start-up -/

/-- A configured target as it is at start-up, with a window of its own. -/
structure Configured where
  system : System
  deployWindow : Option DeployWindow := none

def Configured.targetConfig (c : Configured) : TargetConfig :=
  ⟨c.system.name, c.system.provider, c.deployWindow⟩

def initManager (targets : List Configured) (defaultWindow : Option DeployWindow) :
    DeployManager := .init (targets.map Configured.targetConfig) defaultWindow

/-- A repeated name keeps the last definition. -/
def initial (targets : List Configured) : State :=
  ⟨.initial, targets.foldl (fun systems c => systems.set c.system.name c.system) []⟩

/-! ## The manager's own model -/

variable {lower str tzdata m} {call : Call} {fl : State} {k : Nat}

variable (tzdata m call k) in
/-- The answers of targets that the loop has passed do not matter any more. -/
theorem deployEach_congr (outcome outcome' : Nat → Except String DeployResult) {i : Nat}
    (same : ∀ j, i ≤ j → outcome j = outcome' j) (ts : List DeployTarget)
    (st : Targets.State String) :
    Targets.deployEach tzdata m (call.answered outcome) k i ts st =
      Targets.deployEach tzdata m (call.answered outcome') k i ts st := by
  induction ts generalizing i st with
  | nil => rfl
  | cons t ts ih =>
    have rest := ih (i := i + 1) fun j le => same j (by omega)
    have here : (call.answered outcome).outcome i = (call.answered outcome').outcome i :=
      same i le_rfl
    have now : (call.answered outcome).now = (call.answered outcome').now := rfl
    have job : (call.answered outcome).job = (call.answered outcome').job := rfl
    have handOver : (call.answered outcome).handOver = (call.answered outcome').handOver := rfl
    simp only [Targets.deployEach, rest, here, now, job, handOver]

theorem texts_ofDeployResult (r : DeployResult) : texts (ofDeployResult r) = r := by
  have kept : ∀ detail, textDetail (Prod.map id Json.string detail) = some detail := fun _ => rfl
  simp [texts, ofDeployResult, List.filterMap_map, kept]

theorem texts_outcomeResult (t : DeployTarget) (outcome : Except String Result) :
    texts (outcomeResult t outcome) = Targets.outcomeResult t (outcome.map texts) := by
  cases outcome <;> rfl

variable (lower str) in
theorem handTo_manager (h : HandOver String) (calls : Calls) (fl : State) :
    (handTo lower str h calls fl).2.manager = fl.manager.record (.handed h) := by
  unfold handTo
  cases fl.systems.get? h.target <;> rfl

variable (lower str tzdata m) in
/-- The loop does what the manager's own does when the targets answer as they do here. -/
theorem deployEach_refines (call : Call) (k i : Nat) (ts : List DeployTarget) (fl : State) :
    ∃ outcome, Targets.deployEach tzdata m (call.answered outcome) k i ts fl.manager =
      ((deployEach lower str tzdata m call k i ts fl).1.map (List.map texts),
        (deployEach lower str tzdata m call k i ts fl).2.manager) := by
  induction ts generalizing i fl with
  | nil => exact ⟨fun _ => .error "", rfl⟩
  | cons t ts ih =>
    cases decision : m.deferral tzdata t.name call.now with
    | error err =>
      refine ⟨fun _ => .error "", ?_⟩
      simp [deployEach, Targets.deployEach, decision, Call.answered, Except.map]
    | ok next =>
      cases next with
      | some next =>
        obtain ⟨outcome, rest⟩ := ih (i + 1)
          ⟨scheduleDeferred fl.manager (call.job k t.name next), fl.systems⟩
        refine ⟨outcome, ?_⟩
        have job : (call.answered outcome).job k t.name next = call.job k t.name next := rfl
        have now : (call.answered outcome).now = call.now := rfl
        simp only [Targets.deployEach, deployEach, now, decision, job, rest]
        generalize deployEach lower str tzdata m call k (i + 1) ts _ = answer
        obtain ⟨err | results, fl'⟩ := answer
        · rfl
        · simp [Except.map, texts_ofDeployResult]
      | none =>
        have handed := handTo_manager lower str (call.handOver k t.name)
          (call.calls i) fl
        generalize here : handTo lower str (call.handOver k t.name) (call.calls i) fl = answer
          at handed
        obtain ⟨answered, fl'⟩ := answer
        obtain ⟨outcome, rest⟩ := ih (i + 1) fl'
        -- this target answers as it does here, those behind it as the rest of the loop says
        refine ⟨fun j => if j = i then answered.map texts else outcome j, ?_⟩
        have tail := deployEach_congr tzdata m call k
          (fun j => if j = i then answered.map texts else outcome j) outcome (i := i + 1)
          (fun j le => if_neg (by omega)) ts fl'.manager
        have handOver : ∀ outcome, (call.answered outcome).handOver k t.name =
          call.handOver k t.name := fun _ => rfl
        have now : ∀ outcome, (call.answered outcome).now = call.now := fun _ => rfl
        have answers : ∀ outcome, (call.answered outcome).outcome i = outcome i := fun _ => rfl
        simp only [Targets.deployEach, deployEach, now, decision, handOver, here, answers, if_true,
          ← handed, tail, rest]
        generalize deployEach lower str tzdata m call k (i + 1) ts fl' = after
        obtain ⟨err | results, fl''⟩ := after
        · rfl
        · simp [Except.map, texts_outcomeResult]

variable (lower str tzdata m) in
theorem deploy_refines (call : Call) (fl : State) :
    ∃ outcome, Targets.deploy tzdata m (call.answered outcome) fl.manager =
      ((deploy lower str tzdata m call fl).1.map (List.map texts),
        (deploy lower str tzdata m call fl).2.manager) := by
  cases selected : m.select call.targetNames with
  | error err =>
    refine ⟨fun _ => .error "", ?_⟩
    simp [deploy, Targets.deploy, selected, Call.answered, Except.map]
  | ok ts =>
    obtain ⟨outcome, loop⟩ := deployEach_refines lower str tzdata m call fl.manager.calls 0 ts
      ⟨{ fl.manager with calls := fl.manager.calls + 1 }, fl.systems⟩
    refine ⟨outcome, ?_⟩
    have names : (call.answered outcome).targetNames = call.targetNames := rfl
    simp only [Targets.deploy, deploy, names, selected, loop]
    generalize deployEach lower str tzdata m call fl.manager.calls 0 ts _ = answer
    obtain ⟨err | results, fl'⟩ := answer <;> rfl

/-- The same event of the manager's own model, where the targets may answer in any way. -/
def Event.Matches : Event → Targets.Event String → Prop
  | .deploy call, event => ∃ outcome, event = .deploy (call.answered outcome)
  | .fire id instant _, event => event = .fire id instant
  | .miss id instant, event => event = .miss id instant

variable (lower str tzdata m) in
theorem step_refines (fl : State) (event : Event) :
    ∃ event', event.Matches event' ∧ Targets.step tzdata m fl.manager event' =
      (step lower str tzdata m fl event).manager := by
  cases event with
  | deploy call =>
    obtain ⟨outcome, same⟩ := deploy_refines lower str tzdata m call fl
    exact ⟨.deploy (call.answered outcome), ⟨outcome, rfl⟩, congrArg Prod.snd same⟩
  | fire id instant calls =>
    refine ⟨.fire id instant, rfl, ?_⟩
    simp only [Targets.step, step]
    cases fl.manager.jobs.get? id with
    | none => rfl
    | some j =>
      dsimp only
      split_ifs with due
      · simp only [Targets.deferredDeploy, deferredDeploy]
        cases m.targets.get? j.target with
        | none => rfl
        | some t => simp only [handTo_manager]; rfl
      · rfl
  | miss id instant => exact ⟨.miss id instant, rfl, rfl⟩

/-- Whatever the systems do, the manager behaves as its own model does for some answers of the
targets: the jobs it keeps, what it logs and what it answers. -/
theorem run_refines (lower : String → String) (str : PyError → String)
    (tzdata : String → Option Zone) (m : DeployManager) (fl : State) (es : List Event) :
    ∃ es', List.Forall₂ Event.Matches es es' ∧ run (Targets.step tzdata m) fl.manager es' =
      (run (step lower str tzdata m) fl es).manager := by
  induction es generalizing fl with
  | nil => exact ⟨[], .nil, rfl⟩
  | cons event es ih =>
    obtain ⟨event', here, same⟩ := step_refines lower str tzdata m fl event
    obtain ⟨es', rest, run_same⟩ := ih (step lower str tzdata m fl event)
    exact ⟨event' :: es', .cons here rest, by rw [run_cons, run_cons, same, run_same]⟩

/-! ## What the systems have been through -/

/-- What one round of a call's loop hands over, and how the calls of that deployment end. -/
def Call.handOver? (call : Call) (k : Nat) :
    (DeployTarget × Option Int) × Nat → Option (HandOver String × Calls)
  | ((t, none), i) => some (call.handOver k t.name, call.calls i)
  | ((_, some _), _) => none

/-- The deployments that a call makes at once: one for each target whose window is open. -/
def Call.handOvers (tzdata : String → Option Zone) (m : DeployManager) (call : Call) (k : Nat) :
    List (HandOver String × Calls) :=
  match m.select call.targetNames with
  | .error _ => []
  | .ok ts => (m.handled tzdata call.now ts).zipIdx.filterMap (call.handOver? k)

/-- The deployments that an event makes, by the manager's jobs and windows. -/
def Event.handOvers (tzdata : String → Option Zone) (m : DeployManager)
    (st : Targets.State String) : Event → List (HandOver String × Calls)
  | .deploy call => call.handOvers tzdata m st.calls
  | .fire id instant calls =>
    match st.jobs.get? id with
    | none => []
    | some j =>
      if j.runDate ≤ instant ∧ (m.targets.get? j.target).isSome then [(j.handOver instant, calls)]
      else []
  | .miss _ _ => []

/-- A call deploys at once to targets that it handles so. -/
theorem mem_handOvers {tzdata : String → Option Zone} {m : DeployManager} {call : Call} {k : Nat}
    (outcome : Nat → Except String DeployResult) {h : HandOver String × Calls}
    (mem : h ∈ call.handOvers tzdata m k) :
    ∃ t, (t, none) ∈ m.actions tzdata (call.answered outcome) ∧ h.1.target = t.name := by
  unfold Call.handOvers at mem
  cases selected : m.select call.targetNames with
  | error err => simp [selected] at mem
  | ok ts =>
    rw [selected] at mem
    obtain ⟨⟨⟨t, decision⟩, i⟩, handled, found⟩ := List.mem_filterMap.mp mem
    cases decision with
    | some next => cases found
    | none =>
      obtain rfl := Option.some.inj found
      refine ⟨t, ?_, rfl⟩
      have names : (call.answered outcome).targetNames = call.targetNames := rfl
      rw [DeployManager.actions, names, selected]
      exact List.fst_mem_of_mem_zipIdx handled

variable (lower str tzdata m) in
/-- The deployments that the events of a run make. -/
def runHandOvers : State → List Event → List (HandOver String × Calls)
  | _, [] => []
  | fl, event :: es =>
    event.handOvers tzdata m fl.manager ++ runHandOvers (step lower str tzdata m fl event) es

def handed? : Entry String → Option (HandOver String)
  | .handed h => some h
  | _ => none

theorem mem_handed {log : List (Entry String)} {h : HandOver String} :
    h ∈ log.filterMap handed? ↔ .handed h ∈ log := by
  rw [List.mem_filterMap]
  constructor
  · rintro ⟨entry, mem, same⟩
    cases entry with
    | handed h' =>
      obtain rfl := Option.some.inj same
      exact mem
    | _ => cases same
  · exact fun mem => ⟨_, mem, rfl⟩

variable (lower str) in
/-- Deployments to one system, one after the other. -/
def replay (history : List (HandOver String × Calls)) (sys : System) : System :=
  history.foldl (fun sys h =>
    (sys.deploy lower str h.1.domain h.1.fullchainPem h.1.privkeyPem h.2).2) sys

@[simp] theorem map_replay_nil (sys : Option System) : sys.map (replay lower str []) = sys := by
  cases sys <;> rfl

variable (lower str) in
/-- The hand-overs of the history are those that were logged on the way, and each system has been
through those for its target. -/
structure Replays (history : List (HandOver String × Calls)) (fl fl' : State) : Prop where
  log : ∃ new, fl'.manager.log = fl.manager.log ++ new ∧
    new.filterMap handed? = history.map Prod.fst
  systems : ∀ name, fl'.systems.get? name = (fl.systems.get? name).map
    (replay lower str (history.filter fun h => h.1.target = name))

theorem Replays.none {fl' : State} (new : List (Entry String))
    (log : fl'.manager.log = fl.manager.log ++ new) (silent : new.filterMap handed? = [])
    (systems : fl'.systems = fl.systems) : Replays lower str [] fl fl' :=
  ⟨⟨new, log, silent⟩, fun name => by rw [systems, List.filter_nil, map_replay_nil]⟩

theorem Replays.trans {history history' : List (HandOver String × Calls)} {fl' fl'' : State}
    (h : Replays lower str history fl fl') (h' : Replays lower str history' fl' fl'') :
    Replays lower str (history ++ history') fl fl'' := by
  obtain ⟨⟨new, log, handed⟩, systems⟩ := h
  obtain ⟨⟨new', log', handed'⟩, systems'⟩ := h'
  refine ⟨⟨new ++ new', by rw [log', log, List.append_assoc], ?_⟩, fun name => ?_⟩
  · rw [List.filterMap_append, handed, handed', List.map_append]
  · rw [systems', systems, Option.map_map, List.filter_append]
    congr 1
    funext sys
    exact (List.foldl_append).symm

variable (lower str) in
theorem handTo_replays (h : HandOver String) (calls : Calls) (fl : State) :
    Replays lower str [(h, calls)] fl (handTo lower str h calls fl).2 := by
  refine ⟨⟨[.handed h], by rw [handTo_manager]; rfl, rfl⟩, fun name => ?_⟩
  unfold handTo
  cases found : fl.systems.get? h.target with
  | none =>
    by_cases here : h.target = name
    · simp [← here, found]
    · simp [here]
  | some sys =>
    by_cases here : h.target = name
    · simp [← here, found, replay]
    · simp [here, Ne.symm here]

variable (lower str tzdata m) in
theorem deployEach_replays (call : Call) (k i : Nat) (ts : List DeployTarget) (fl : State) :
    Replays lower str (((m.handled tzdata call.now ts).zipIdx i).filterMap (call.handOver? k)) fl
      (deployEach lower str tzdata m call k i ts fl).2 := by
  induction ts generalizing i fl with
  | nil => exact .none [] (List.append_nil _).symm rfl rfl
  | cons t ts ih =>
    cases decision : m.deferral tzdata t.name call.now with
    | error err =>
      simp only [deployEach, DeployManager.handled, decision]
      exact .none [] (List.append_nil _).symm rfl rfl
    | ok next =>
      simp only [deployEach, DeployManager.handled, decision, List.zipIdx_cons,
        List.filterMap_cons]
      cases next with
      | some next =>
        have first : Replays lower str [] fl
            ⟨scheduleDeferred fl.manager (call.job k t.name next), fl.systems⟩ :=
          .none [.deferred (call.job k t.name next)] rfl rfl rfl
        exact first.trans (ih (i + 1) _)
      | none => exact (handTo_replays lower str _ _ fl).trans (ih (i + 1) _)

variable (lower str tzdata m) in
theorem deploy_replays (call : Call) (fl : State) :
    Replays lower str (call.handOvers tzdata m fl.manager.calls) fl
      (deploy lower str tzdata m call fl).2 := by
  cases selected : m.select call.targetNames with
  | error err =>
    simp only [deploy, Call.handOvers, selected]
    exact .none [.raised fl.manager.calls err] rfl rfl rfl
  | ok ts =>
    have loop := deployEach_replays lower str tzdata m call fl.manager.calls 0 ts
      ⟨{ fl.manager with calls := fl.manager.calls + 1 }, fl.systems⟩
    have counted : Replays lower str [] fl
        ⟨{ fl.manager with calls := fl.manager.calls + 1 }, fl.systems⟩ :=
      .none [] (List.append_nil _).symm rfl rfl
    simp only [deploy, Call.handOvers, selected]
    rw [← List.append_nil (List.filterMap _ _)]
    generalize deployEach lower str tzdata m call fl.manager.calls 0 ts _ = answer at loop
    obtain ⟨err | results, fl'⟩ := answer
    · exact (counted.trans loop).trans (.none [.raised fl.manager.calls err] rfl rfl rfl)
    · exact (counted.trans loop).trans
        (.none [.answered fl.manager.calls (results.map texts)] rfl rfl rfl)

theorem Replays.still (fl : State) : Replays lower str [] fl fl :=
  .none [] (List.append_nil _).symm rfl rfl

variable (lower str tzdata m) in
theorem step_replays (fl : State) (event : Event) :
    Replays lower str (event.handOvers tzdata m fl.manager) fl
      (step lower str tzdata m fl event) := by
  cases event with
  | deploy call => exact deploy_replays lower str tzdata m call fl
  | fire id instant calls =>
    simp only [step, Event.handOvers]
    cases fl.manager.jobs.get? id with
    | none => exact .still fl
    | some j =>
      by_cases due : j.runDate ≤ instant
      · have fired : Replays lower str [] fl
            ⟨({ fl.manager with jobs := fl.manager.jobs.erase id } : Targets.State String).record
              (.fired j), fl.systems⟩ := .none [.fired j] rfl rfl rfl
        simp only [due, true_and, if_true, deferredDeploy]
        cases m.targets.get? j.target with
        | none => exact fired
        | some t => exact fired.trans (handTo_replays lower str _ calls _)
      · simp only [due, false_and, if_false]
        exact .still fl
  | miss id instant =>
    simp only [step, Event.handOvers]
    rcases Targets.step_miss_cases tzdata m fl.manager id instant with
      same | ⟨j, -, -, after⟩
    · rw [same]
      exact .still fl
    · exact .none [.missed j] (by rw [after]) rfl rfl

/-- Each system has been through the deployments that the events make to its target, with the calls
that they give, one after the other and nothing else: none is skipped, and none, failed or not,
reaches the system of another target. -/
theorem run_replays (lower : String → String) (str : PyError → String)
    (tzdata : String → Option Zone) (m : DeployManager) (fl : State) (es : List Event) :
    Replays lower str (runHandOvers lower str tzdata m fl es) fl
      (run (step lower str tzdata m) fl es) := by
  induction es generalizing fl with
  | nil => exact .still fl
  | cons event es ih => exact (step_replays lower str tzdata m fl event).trans (ih _)

end AcmeGitWebhook.Fleet
