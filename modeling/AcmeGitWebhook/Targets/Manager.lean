import AcmeGitWebhook.Config
import AcmeGitWebhook.Library.Dict
import AcmeGitWebhook.Library.Run

/-!
# The deploy manager

`DeployManager` of `app/targets/manager.py` and the scheduler it owns. The
certificate and key texts are stored and handed over but never looked at, so their
type is the parameter `π`. A target's own `deploy` is an outside system: the answer
it gives to a call is part of the call. A call is taken at the one instant it reads
from the clock.

Each pending job and each log entry also carries the number of the deploy call it
comes from. The source keeps no such number; it only lets statements speak of the
call whose certificate a target receives.
-/

namespace AcmeGitWebhook.Targets

open Library

inductive Provider where
  | f5 | ivanti | exchange
  deriving DecidableEq, Repr

def Provider.text : Provider → String
  | .f5 => "f5"
  | .ivanti => "ivanti"
  | .exchange => "exchange"

/-- The fields of a target's configuration that the manager reads. -/
structure TargetConfig where
  name : String
  provider : Provider
  deployWindow : Option DeployWindow := none
  deriving DecidableEq, Repr

structure DeployTarget where
  name : String
  providerType : Provider
  deriving DecidableEq, Repr

inductive DeployStatus where
  | ok | error | deferred
  deriving DecidableEq, Repr

structure DeployResult where
  target : String
  provider : String
  status : DeployStatus
  details : List (String × String) := []
  error : Option String := none
  deriving DecidableEq, Repr

/-- The provider class that is built sets its name and provider type from the configuration. -/
def buildTarget (cfg : TargetConfig) : DeployTarget := ⟨cfg.name, cfg.provider⟩

/-- Targets are registered under their own names. -/
structure DeployManager where
  targets : Dict String DeployTarget
  windows : Dict String (Option DeployWindow)
  keyed : ∀ item ∈ targets, item.2.name = item.1

namespace DeployManager

/-- One round of the constructor's loop; a repeated name keeps the last definition. -/
def register (defaultWindow : Option DeployWindow) (m : DeployManager) (cfg : TargetConfig) :
    DeployManager where
  targets := m.targets.set (buildTarget cfg).name (buildTarget cfg)
  windows := m.windows.set (buildTarget cfg).name (cfg.deployWindow <|> defaultWindow)
  keyed item h := by
    rcases Dict.mem_set h with rfl | old
    · rfl
    · exact m.keyed item old

def init (targetConfigs : List TargetConfig) (defaultWindow : Option DeployWindow := none) :
    DeployManager :=
  targetConfigs.foldl (register defaultWindow) ⟨[], [], by simp⟩

end DeployManager

/-! ## State of the scheduler and record of what happened -/

variable {π : Type}

/-- The arguments stored for `_deferred_deploy`, its run date, and the call it comes from. -/
structure Job (π : Type) where
  target : String
  domain : String
  fullchainPem : π
  privkeyPem : π
  runDate : Int
  call : Nat
  deriving DecidableEq, Repr

/-- One invocation of a target's `deploy`. -/
structure HandOver (π : Type) where
  target : String
  domain : String
  fullchainPem : π
  privkeyPem : π
  instant : Int
  call : Nat
  deriving DecidableEq, Repr

inductive Entry (π : Type) where
  | handed (h : HandOver π)
  | deferred (j : Job π)
  | fired (j : Job π)
  | missed (j : Job π)
  | answered (call : Nat) (results : List DeployResult)
  | raised (call : Nat) (err : PyError)
  deriving DecidableEq, Repr

/-- The target that the entry tells of being deployed to or scheduled. -/
def Entry.target? : Entry π → Option String
  | .handed h => some h.target
  | .deferred j => some j.target
  | .fired _ | .missed _ | .answered _ _ | .raised _ _ => none

structure State (π : Type) where
  jobs : Dict String (Job π)
  calls : Nat
  log : List (Entry π)
  deriving DecidableEq, Repr

def State.initial : State π := ⟨[], 0, []⟩

def State.record (st : State π) (entry : Entry π) : State π :=
  { st with log := st.log ++ [entry] }

/-- The arguments of `deploy`, the clock it reads, and what the target at each position of
the requested list does: return a result, or raise with the given text. -/
structure DeployCall (π : Type) where
  domain : String
  fullchainPem : π
  privkeyPem : π
  targetNames : Option (List String) := none
  now : Int
  outcome : Nat → Except String DeployResult

def jobId (targetName domain : String) : String := "deploy-" ++ targetName ++ "-" ++ domain

def DeployCall.job (call : DeployCall π) (k : Nat) (target : String) (runAt : Int) : Job π :=
  ⟨target, call.domain, call.fullchainPem, call.privkeyPem, runAt, k⟩

def DeployCall.handOver (call : DeployCall π) (k : Nat) (target : String) : HandOver π :=
  ⟨target, call.domain, call.fullchainPem, call.privkeyPem, call.now, k⟩

/-- `add_job` with `replace_existing=True`. -/
def scheduleDeferred (st : State π) (j : Job π) : State π :=
  ({ st with jobs := st.jobs.set (jobId j.target j.domain) j }).record (.deferred j)

/-- The job has left the store when it runs; what the target answers is only logged. -/
def deferredDeploy (m : DeployManager) (j : Job π) (instant : Int) (st : State π) : State π :=
  match m.targets.get? j.target with
  | none => st
  | some _ =>
    st.record (.handed ⟨j.target, j.domain, j.fullchainPem, j.privkeyPem, instant, j.call⟩)

/-! ## `deploy` -/

variable (tzdata : String → Option Zone) (m : DeployManager)

/-- `self._windows.get(t.name)`. -/
def DeployManager.window (name : String) : Option DeployWindow := (m.windows.get? name).join

def DeployManager.deferral (name : String) (now : Int) : Except PyError (Option Int) :=
  AcmeGitWebhook.deferral tzdata (m.window name) now

/-- `targets = list(values)` or `[self._targets[n] for n in target_names]`. -/
def DeployManager.select (targetNames : Option (List String)) :
    Except PyError (List DeployTarget) :=
  match targetNames with
  | none => .ok m.targets.values
  | some names => names.mapM fun n =>
    match m.targets.get? n with
    | some t => .ok t
    | none => .error (.keyError n)

def deferredResult (t : DeployTarget) (next : Int) : DeployResult :=
  ⟨t.name, t.providerType.text, .deferred, [("next_window", isoformat next)], none⟩

def outcomeResult (t : DeployTarget) : Except String DeployResult → DeployResult
  | .ok result => result
  | .error text => ⟨t.name, t.providerType.text, .error, [], some text⟩

/-- The loop over the requested targets; an error of the window test ends it. -/
def deployEach (call : DeployCall π) (k : Nat) : Nat → List DeployTarget → State π →
    Except PyError (List DeployResult) × State π
  | _, [], st => (.ok [], st)
  | i, t :: ts, st =>
    match m.deferral tzdata t.name call.now with
    | .error err => (.error err, st)
    | .ok (some next) =>
      let (rest, st) := deployEach call k (i + 1) ts (scheduleDeferred st (call.job k t.name next))
      (rest.map (deferredResult t next :: ·), st)
    | .ok none =>
      let (rest, st) := deployEach call k (i + 1) ts (st.record (.handed (call.handOver k t.name)))
      (rest.map (outcomeResult t (call.outcome i) :: ·), st)

def deploy (call : DeployCall π) (st : State π) : Except PyError (List DeployResult) × State π :=
  let k := st.calls
  let st := { st with calls := k + 1 }
  match m.select call.targetNames with
  | .error err => (.error err, st.record (.raised k err))
  | .ok targets =>
    match deployEach tzdata m call k 0 targets st with
    | (.ok results, st) => (.ok results, st.record (.answered k results))
    | (.error err, st) => (.error err, st.record (.raised k err))

/-- What can happen to a manager: a deploy call, or the scheduler running a pending job, or
missing it. -/
inductive Event (π : Type) where
  | deploy (call : DeployCall π)
  | fire (id : String) (instant : Int)
  | miss (id : String) (instant : Int)

/-- A firing takes the job out of the store and runs it, a miss only takes it out; before its run
date, or when no such job is pending, nothing happens, and within the grace time no job is
missed. A firing has no latest instant: it is that of the hand-over, which a thread makes at some
time after the scheduler has looked at its clock. -/
def step (st : State π) : Event π → State π
  | .deploy call => (deploy tzdata m call st).2
  | .fire id instant =>
    match st.jobs.get? id with
    | none => st
    | some j =>
      if j.runDate ≤ instant then
        deferredDeploy m j instant (({ st with jobs := st.jobs.erase id }).record (.fired j))
      else st
  | .miss id instant =>
    match st.jobs.get? id with
    | none => st
    | some j =>
      if j.runDate + misfireGraceTime < instant then
        ({ st with jobs := st.jobs.erase id }).record (.missed j)
      else st

/-! ## What a step can do

A deploy call handles a prefix of the selected targets, in order, and its effect is one
action for each; everything later modules prove about a call goes through `deploy_log`,
`deploy_jobs` and `deploy_jobs_of_ne`. -/

/-- The targets the loop handles, with the decision for each. -/
def DeployManager.handled (now : Int) : List DeployTarget → List (DeployTarget × Option Int)
  | [] => []
  | t :: ts =>
    match m.deferral tzdata t.name now with
    | .error _ => []
    | .ok decision => (t, decision) :: handled now ts

def DeployManager.actions (call : DeployCall π) : List (DeployTarget × Option Int) :=
  match m.select call.targetNames with
  | .error _ => []
  | .ok targets => m.handled tzdata call.now targets

def actionEntry (call : DeployCall π) (k : Nat) : DeployTarget × Option Int → Entry π
  | (t, some next) => .deferred (call.job k t.name next)
  | (t, none) => .handed (call.handOver k t.name)

def act (call : DeployCall π) (k : Nat) (st : State π) : DeployTarget × Option Int → State π
  | (t, some next) => scheduleDeferred st (call.job k t.name next)
  | (t, none) => st.record (.handed (call.handOver k t.name))

def actionResult (call : DeployCall π) (i : Nat) : DeployTarget × Option Int → DeployResult
  | (t, some next) => deferredResult t next
  | (t, none) => outcomeResult t (call.outcome i)

/-- The entry that closes a call tells its answer and concerns no single target. -/
def Entry.closes (k : Nat) : Entry π → Prop
  | .answered k' _ | .raised k' _ => k' = k
  | _ => False

variable {tzdata m} {call : DeployCall π} {st : State π} {k : Nat}

variable (tzdata m) in
theorem deployEach_state (call : DeployCall π) (k i : Nat) (ts : List DeployTarget)
    (st : State π) : (deployEach tzdata m call k i ts st).2 =
      (m.handled tzdata call.now ts).foldl (act call k) st := by
  induction ts generalizing i st with
  | nil => rfl
  | cons t ts ih =>
    cases decision : m.deferral tzdata t.name call.now with
    | error err => simp [deployEach, DeployManager.handled, decision]
    | ok next =>
      cases next <;> simp [deployEach, DeployManager.handled, decision, ih, act]

/-- The loop answers with one result for each target, in order. -/
theorem deployEach_answer {i : Nat} {ts : List DeployTarget} {results : List DeployResult}
    (h : (deployEach tzdata m call k i ts st).1 = .ok results) :
    results = ((m.handled tzdata call.now ts).zipIdx i).map fun a => actionResult call a.2 a.1 := by
  induction ts generalizing i st results with
  | nil => simpa [deployEach, DeployManager.handled, eq_comm] using h
  | cons t ts ih =>
    cases decision : m.deferral tzdata t.name call.now with
    | error err => simp [deployEach, decision] at h
    | ok next =>
      cases next with
      | none =>
        simp only [deployEach, decision, Except.map] at h
        split at h
        · simp at h
        · rename_i rest answered
          obtain rfl : _ = results := Except.ok.inj h
          simp [DeployManager.handled, decision, actionResult, ih answered]
      | some next =>
        simp only [deployEach, decision, Except.map] at h
        split at h
        · simp at h
        · rename_i rest answered
          obtain rfl : _ = results := Except.ok.inj h
          simp [DeployManager.handled, decision, actionResult, ih answered]

theorem mem_handled {now : Int} {ts : List DeployTarget} {a : DeployTarget × Option Int}
    (h : a ∈ m.handled tzdata now ts) :
    a.1 ∈ ts ∧ m.deferral tzdata a.1.name now = .ok a.2 := by
  induction ts with
  | nil => simp [DeployManager.handled] at h
  | cons t ts ih =>
    cases decision : m.deferral tzdata t.name now with
    | error err => simp [DeployManager.handled, decision] at h
    | ok next =>
      simp only [DeployManager.handled, decision, List.mem_cons] at h
      rcases h with rfl | h
      · exact ⟨List.mem_cons_self, decision⟩
      · exact ⟨List.mem_cons_of_mem _ (ih h).1, (ih h).2⟩

theorem mem_actions {a : DeployTarget × Option Int} (h : a ∈ m.actions tzdata call) :
    m.deferral tzdata a.1.name call.now = .ok a.2 := by
  unfold DeployManager.actions at h
  split at h
  · simp at h
  · exact (mem_handled h).2

/-- The decision depends on the target's name alone. -/
theorem actions_decision {t t' : DeployTarget} {decision decision' : Option Int}
    (mem : (t, decision) ∈ m.actions tzdata call)
    (mem' : (t', decision') ∈ m.actions tzdata call) (name : t.name = t'.name) :
    decision = decision' := by
  have decided : m.deferral tzdata t.name call.now = .ok decision := mem_actions mem
  have decided' : m.deferral tzdata t'.name call.now = .ok decision' := mem_actions mem'
  rw [← name, decided] at decided'
  exact Except.ok.inj decided'

theorem select_names {names : List String} {ts : List DeployTarget}
    (h : m.select (some names) = .ok ts) :
    List.Forall₂ (fun n t => m.targets.get? n = some t) names ts := by
  induction names generalizing ts with
  | nil =>
    obtain rfl : [] = ts := by
      simpa [DeployManager.select, pure, Except.pure] using h
    exact .nil
  | cons n names ih =>
    simp only [DeployManager.select, List.mapM_cons, bind, Except.bind, pure, Except.pure] at h ih
    cases found : m.targets.get? n with
    | none => simp [found] at h
    | some t =>
      simp only [found] at h
      split at h
      · simp at h
      · rename_i rest hrest
        obtain rfl : t :: rest = ts := by simpa using h
        exact .cons found (ih hrest)

theorem mem_select {names : List String} {ts : List DeployTarget} {t : DeployTarget}
    (h : m.select (some names) = .ok ts) (ht : t ∈ ts) :
    ∃ n ∈ names, m.targets.get? n = some t := by
  have pairs := select_names h
  clear h
  induction pairs with
  | nil => simp at ht
  | cons found _ ih =>
    rcases List.mem_cons.mp ht with rfl | tail
    · exact ⟨_, List.mem_cons_self, found⟩
    · obtain ⟨n, hn, found'⟩ := ih tail
      exact ⟨n, List.mem_cons_of_mem _ hn, found'⟩

theorem select_registered {names : Option (List String)} {ts : List DeployTarget}
    (h : m.select names = .ok ts) : ∀ t ∈ ts, (m.targets.get? t.name).isSome := by
  intro t ht
  cases names with
  | none =>
    obtain rfl : m.targets.values = ts := by simpa [DeployManager.select] using h
    obtain ⟨item, hitem, rfl⟩ := List.mem_map.mp ht
    rw [m.keyed item hitem]
    exact Dict.get?_isSome_of_mem hitem
  | some names =>
    obtain ⟨n, -, found⟩ := mem_select h ht
    rw [m.keyed _ (Dict.mem_of_get? found), found]
    rfl

theorem actions_registered {a : DeployTarget × Option Int} (h : a ∈ m.actions tzdata call) :
    (m.targets.get? a.1.name).isSome := by
  unfold DeployManager.actions at h
  split at h
  · simp at h
  · rename_i ts selected
    exact select_registered selected _ (mem_handled h).1

/-- A call by name handles the named targets only. -/
theorem actions_named {names : List String} (named : call.targetNames = some names)
    {a : DeployTarget × Option Int} (h : a ∈ m.actions tzdata call) : a.1.name ∈ names := by
  unfold DeployManager.actions at h
  rw [named] at h
  split at h
  · simp at h
  · rename_i ts selected
    obtain ⟨name, mem, found⟩ := mem_select selected (mem_handled h).1
    rw [m.keyed _ (Dict.mem_of_get? found)]
    exact mem

variable (tzdata m) in
/-- The state after a call: its actions in order, then the entry that closes it. -/
theorem deploy_state (call : DeployCall π) (st : State π) :
    ∃ last : Entry π, last.closes st.calls ∧ (deploy tzdata m call st).2 =
      ((m.actions tzdata call).foldl (act call st.calls)
        { st with calls := st.calls + 1 }).record last := by
  unfold deploy DeployManager.actions
  cases selected : m.select call.targetNames with
  | error err => exact ⟨.raised st.calls err, rfl, rfl⟩
  | ok ts =>
    have loop := deployEach_state tzdata m call st.calls 0 ts { st with calls := st.calls + 1 }
    dsimp only
    split
    · rename_i results st' h
      rw [h] at loop
      exact ⟨.answered st.calls results, rfl, by rw [← loop]⟩
    · rename_i err st' h
      rw [h] at loop
      exact ⟨.raised st.calls err, rfl, by rw [← loop]⟩

/-- A call that returns answers `deferred` for exactly the jobs it schedules, and with the
target's own result or error for the others. -/
theorem deploy_answer {results : List DeployResult}
    (h : (deploy tzdata m call st).1 = .ok results) :
    results = (m.actions tzdata call).zipIdx.map fun a => actionResult call a.2 a.1 := by
  unfold deploy at h
  unfold DeployManager.actions
  cases selected : m.select call.targetNames with
  | error err => simp [selected] at h
  | ok ts =>
    simp only [selected] at h
    split at h
    · rename_i loop
      obtain rfl : _ = results := Except.ok.inj h
      exact deployEach_answer (congrArg Prod.fst loop)
    · simp at h

section Actions

variable (call) (k)

theorem foldl_act_log (as : List (DeployTarget × Option Int)) (st : State π) :
    (as.foldl (act call k) st).log = st.log ++ as.map (actionEntry call k) := by
  induction as generalizing st with
  | nil => simp
  | cons a as ih =>
    obtain ⟨t, next⟩ := a
    cases next <;> simp [ih, act, actionEntry, scheduleDeferred, State.record]

theorem foldl_act_calls (as : List (DeployTarget × Option Int)) (st : State π) :
    (as.foldl (act call k) st).calls = st.calls := by
  induction as generalizing st with
  | nil => rfl
  | cons a as ih =>
    obtain ⟨t, next⟩ := a
    cases next <;> simp [ih, act, scheduleDeferred, State.record]

/-- A pending job was pending before the actions or was scheduled by one of them. -/
theorem foldl_act_jobs {as : List (DeployTarget × Option Int)} {st : State π} {id : String}
    {j : Job π} (h : (as.foldl (act call k) st).jobs.get? id = some j) :
    st.jobs.get? id = some j ∨
      ∃ t next, (t, some next) ∈ as ∧ j = call.job k t.name next ∧
        id = jobId j.target j.domain := by
  induction as generalizing st with
  | nil => exact Or.inl h
  | cons a as ih =>
    obtain ⟨t, next⟩ := a
    rcases ih h with old | ⟨t', next', mem, rest⟩
    · cases next with
      | none => exact Or.inl old
      | some next =>
        by_cases same : id = jobId t.name call.domain
        · refine Or.inr ⟨t, next, List.mem_cons_self, ?_⟩
          have : j = call.job k t.name next := by
            simpa [act, scheduleDeferred, State.record, DeployCall.job, same, eq_comm] using old
          subst this
          exact ⟨rfl, same⟩
        · refine Or.inl ?_
          simpa [act, scheduleDeferred, State.record, DeployCall.job, same] using old
    · exact Or.inr ⟨t', next', List.mem_cons_of_mem _ mem, rest⟩

/-- The job under an id that no action schedules stays as it is. -/
theorem foldl_act_jobs_of_ne {as : List (DeployTarget × Option Int)} (st : State π)
    {id : String} (other : ∀ t next, (t, some next) ∈ as → id ≠ jobId t.name call.domain) :
    (as.foldl (act call k) st).jobs.get? id = st.jobs.get? id := by
  induction as generalizing st with
  | nil => rfl
  | cons a as ih =>
    obtain ⟨t, next⟩ := a
    rw [List.foldl_cons, ih _ (fun t' next' mem => other t' next' (List.mem_cons_of_mem _ mem))]
    cases next with
    | none => rfl
    | some next =>
      have ne := other t next List.mem_cons_self
      simp [act, scheduleDeferred, State.record, DeployCall.job, ne]

/-- The job under an id is the one the last action for that id schedules. -/
theorem foldl_act_schedules {as : List (DeployTarget × Option Int)} (st : State π) {id : String}
    {j : Job π} (same : ∀ t next, (t, some next) ∈ as → id = jobId t.name call.domain →
      call.job k t.name next = j)
    (some_act : ∃ t next, (t, some next) ∈ as ∧ id = jobId t.name call.domain) :
    (as.foldl (act call k) st).jobs.get? id = some j := by
  induction as generalizing st with
  | nil => simp at some_act
  | cons a as ih =>
    have tail := fun t next mem => same t next (List.mem_cons_of_mem a mem)
    by_cases later : ∃ t next, (t, some next) ∈ as ∧ id = jobId t.name call.domain
    · exact ih _ tail later
    · obtain ⟨t, next, mem, hid⟩ := some_act
      rcases List.mem_cons.mp mem with rfl | mem
      · rw [List.foldl_cons, foldl_act_jobs_of_ne call k]
        · have here := same t next List.mem_cons_self hid
          rw [act, scheduleDeferred, here, ← here]
          simp [State.record, DeployCall.job, hid]
        · exact fun t' next' mem' hid' => later ⟨t', next', mem', hid'⟩
      · exact absurd ⟨t, next, mem, hid⟩ later

end Actions

variable (tzdata m) in
theorem deploy_calls (call : DeployCall π) (st : State π) :
    (deploy tzdata m call st).2.calls = st.calls + 1 := by
  obtain ⟨last, -, after⟩ := deploy_state tzdata m call st
  rw [after, State.record, foldl_act_calls]

variable (tzdata m) in
theorem deploy_log (call : DeployCall π) (st : State π) :
    ∃ last : Entry π, last.closes st.calls ∧ (deploy tzdata m call st).2.log =
      st.log ++ (m.actions tzdata call).map (actionEntry call st.calls) ++ [last] := by
  obtain ⟨last, closes, after⟩ := deploy_state tzdata m call st
  exact ⟨last, closes, by rw [after, State.record, foldl_act_log]⟩

theorem actionEntry_eq_handed {a : DeployTarget × Option Int} {h : HandOver π} :
    actionEntry call k a = .handed h ↔ ∃ t, a = (t, none) ∧ h = call.handOver k t.name := by
  obtain ⟨t, _ | next⟩ := a <;> simp [actionEntry, eq_comm]

theorem actionEntry_eq_deferred {a : DeployTarget × Option Int} {j : Job π} :
    actionEntry call k a = .deferred j ↔
      ∃ t next, a = (t, some next) ∧ j = call.job k t.name next := by
  obtain ⟨t, _ | next⟩ := a <;> simp [actionEntry, eq_comm]

theorem mem_log_deploy {entry : Entry π} (other : ¬ entry.closes st.calls) :
    entry ∈ (deploy tzdata m call st).2.log ↔ entry ∈ st.log ∨
      ∃ a ∈ m.actions tzdata call, actionEntry call st.calls a = entry := by
  obtain ⟨last, closes, log⟩ := deploy_log tzdata m call st
  have ne : entry ≠ last := by
    rintro rfl
    exact other closes
  simp only [log, List.mem_append, List.mem_map, List.mem_singleton, ne, or_false]

variable (tzdata m) in
/-- The hand-overs of a call: one for each target it deploys to at once. -/
theorem mem_handed_deploy (call : DeployCall π) (st : State π) (h : HandOver π) :
    Entry.handed h ∈ (deploy tzdata m call st).2.log ↔ Entry.handed h ∈ st.log ∨
      ∃ t, (t, none) ∈ m.actions tzdata call ∧ h = call.handOver st.calls t.name := by
  rw [mem_log_deploy id]
  refine or_congr_right ⟨?_, ?_⟩
  · rintro ⟨a, mem, entry⟩
    obtain ⟨t, rfl, rfl⟩ := actionEntry_eq_handed.mp entry
    exact ⟨t, mem, rfl⟩
  · rintro ⟨t, mem, rfl⟩
    exact ⟨_, mem, rfl⟩

variable (tzdata m) in
theorem mem_deferred_deploy (call : DeployCall π) (st : State π) (j : Job π) :
    Entry.deferred j ∈ (deploy tzdata m call st).2.log ↔ Entry.deferred j ∈ st.log ∨
      ∃ t next, (t, some next) ∈ m.actions tzdata call ∧ j = call.job st.calls t.name next := by
  rw [mem_log_deploy id]
  refine or_congr_right ⟨?_, ?_⟩
  · rintro ⟨a, mem, entry⟩
    obtain ⟨t, next, rfl, rfl⟩ := actionEntry_eq_deferred.mp entry
    exact ⟨t, next, mem, rfl⟩
  · rintro ⟨t, next, mem, rfl⟩
    exact ⟨_, mem, rfl⟩

variable (tzdata m) in
/-- The targets a call deploys to or schedules are those of its actions. -/
theorem deploy_touches (call : DeployCall π) (st : State π) :
    ((deploy tzdata m call st).2.log.drop st.log.length).filterMap Entry.target? =
      (m.actions tzdata call).map fun a => a.1.name := by
  obtain ⟨last, closes, log⟩ := deploy_log tzdata m call st
  have silent : last.target? = none := by cases last <;> first | rfl | exact closes.elim
  have entry : ∀ a, (actionEntry call st.calls a).target? = some a.1.name := by
    rintro ⟨t, _ | next⟩ <;> rfl
  rw [log, List.append_assoc, List.drop_left, List.filterMap_append, List.filterMap_map]
  simp [entry, silent]

theorem deploy_jobs {id : String} {j : Job π}
    (h : (deploy tzdata m call st).2.jobs.get? id = some j) :
    st.jobs.get? id = some j ∨ ∃ t next, (t, some next) ∈ m.actions tzdata call ∧
      j = call.job st.calls t.name next ∧ id = jobId j.target j.domain := by
  obtain ⟨last, -, after⟩ := deploy_state tzdata m call st
  rw [after] at h
  have start := foldl_act_jobs call st.calls h
  exact start

theorem deploy_jobs_of_ne {id : String} (other : ∀ t next,
      (t, some next) ∈ m.actions tzdata call → id ≠ jobId t.name call.domain) :
    (deploy tzdata m call st).2.jobs.get? id = st.jobs.get? id := by
  obtain ⟨last, -, after⟩ := deploy_state tzdata m call st
  rw [after]
  exact foldl_act_jobs_of_ne call st.calls _ other

theorem jobId_inj_target {target target' domain : String}
    (h : jobId target domain = jobId target' domain) : target = target' := by
  simpa [jobId, ← String.toList_inj] using h

/-- Each target a call defers has its job pending when the call is over. -/
theorem deploy_schedules {t : DeployTarget} {next : Int}
    (mem : (t, some next) ∈ m.actions tzdata call) :
    (deploy tzdata m call st).2.jobs.get? (jobId t.name call.domain) =
      some (call.job st.calls t.name next) := by
  obtain ⟨last, -, after⟩ := deploy_state tzdata m call st
  rw [after]
  refine foldl_act_schedules call st.calls _ (fun t' next' mem' hid => ?_) ⟨t, next, mem, rfl⟩
  have name := jobId_inj_target hid
  obtain rfl : next = next' := Option.some.inj (actions_decision mem mem' name)
  rw [name]

/-- What holds of every reachable state: a job is stored under its own id, for a registered
target, and jobs and hand-overs come from earlier calls. -/
structure State.Sound (m : DeployManager) (st : State π) : Prop where
  keyed : ∀ id j, st.jobs.get? id = some j → id = jobId j.target j.domain
  registered : ∀ id j, st.jobs.get? id = some j → (m.targets.get? j.target).isSome
  numbered : ∀ id j, st.jobs.get? id = some j → j.call < st.calls
  handed : ∀ h, Entry.handed h ∈ st.log → h.call < st.calls

theorem initial_sound : (State.initial : State π).Sound m := by
  constructor <;> simp [State.initial]

/-- The record a firing job leaves. -/
def Job.handOver (j : Job π) (instant : Int) : HandOver π :=
  ⟨j.target, j.domain, j.fullchainPem, j.privkeyPem, instant, j.call⟩

theorem step_fire {id : String} {j : Job π} {instant : Int} (sound : st.Sound m)
    (pending : st.jobs.get? id = some j) (due : j.runDate ≤ instant) :
    step tzdata m st (.fire id instant) =
      ⟨st.jobs.erase id, st.calls, st.log ++ [.fired j, .handed (j.handOver instant)]⟩ := by
  obtain ⟨t, found⟩ := Option.isSome_iff_exists.mp (sound.registered id j pending)
  simp [step, pending, due, deferredDeploy, State.record, found, Job.handOver]

variable (tzdata m) in
/-- A firing either finds no due job, and changes nothing, or runs the one it finds. -/
theorem step_fire_cases (st : State π) (id : String) (instant : Int) :
    step tzdata m st (.fire id instant) = st ∨
      ∃ j, st.jobs.get? id = some j ∧ j.runDate ≤ instant := by
  cases pending : st.jobs.get? id with
  | none => exact Or.inl (by simp [step, pending])
  | some j =>
    by_cases due : j.runDate ≤ instant
    · exact Or.inr ⟨j, rfl, due⟩
    · exact Or.inl (by simp [step, pending, due])

variable (tzdata m) in
/-- A miss changes nothing, or takes the job that it finds. -/
theorem step_miss_cases (st : State π) (id : String) (instant : Int) :
    step tzdata m st (.miss id instant) = st ∨
      ∃ j, st.jobs.get? id = some j ∧ j.runDate + misfireGraceTime < instant ∧
        step tzdata m st (.miss id instant) =
          ⟨st.jobs.erase id, st.calls, st.log ++ [.missed j]⟩ := by
  cases pending : st.jobs.get? id with
  | none => exact Or.inl (by simp [step, pending])
  | some j =>
    by_cases late : j.runDate + misfireGraceTime < instant
    · exact Or.inr ⟨j, rfl, late, by simp [step, pending, late, State.record]⟩
    · exact Or.inl (by simp [step, pending, late])

theorem get?_of_erase {jobs : Dict String (Job π)} {id id' : String} {j : Job π}
    (h : (Dict.erase jobs id).get? id' = some j) : id' ≠ id ∧ jobs.get? id' = some j := by
  by_cases same : id' = id
  · subst same
    simp at h
  · exact ⟨same, by simpa [same] using h⟩

theorem deploy_handed (sound : st.Sound m) {h : HandOver π}
    (mem : Entry.handed h ∈ (deploy tzdata m call st).2.log) : h.call ≤ st.calls := by
  rcases (mem_handed_deploy tzdata m call st h).mp mem with old | ⟨t, -, rfl⟩
  · exact (sound.handed h old).le
  · exact le_refl _

/-- A job may leave the store. -/
theorem State.Sound.erase (sound : st.Sound m) (id : String) {log : List (Entry π)}
    (handed : ∀ h, Entry.handed h ∈ log → h.call < st.calls) :
    State.Sound m ⟨st.jobs.erase id, st.calls, log⟩ :=
  ⟨fun id' j' h => sound.keyed id' j' (get?_of_erase h).2,
    fun id' j' h => sound.registered id' j' (get?_of_erase h).2,
    fun id' j' h => sound.numbered id' j' (get?_of_erase h).2, handed⟩

theorem step_sound (sound : st.Sound m) (event : Event π) :
    (step tzdata m st event).Sound m := by
  cases event with
  | deploy call =>
    have origin : ∀ id j, (step tzdata m st (.deploy call)).jobs.get? id = some j →
        st.jobs.get? id = some j ∨ ∃ t next, (t, some next) ∈ m.actions tzdata call ∧
          j = call.job st.calls t.name next ∧ id = jobId j.target j.domain :=
      fun id j h => deploy_jobs h
    have count : (step tzdata m st (.deploy call)).calls = st.calls + 1 :=
      deploy_calls tzdata m call st
    refine ⟨fun id j h => ?_, fun id j h => ?_, fun id j h => ?_, fun h mem => ?_⟩
    · rcases origin id j h with old | ⟨t, next, mem, rfl, hid⟩
      · exact sound.keyed id j old
      · exact hid
    · rcases origin id j h with old | ⟨t, next, mem, rfl, hid⟩
      · exact sound.registered id j old
      · exact actions_registered mem
    · rw [count]
      rcases origin id j h with old | ⟨t, next, mem, rfl, hid⟩
      · exact (sound.numbered id j old).trans (Nat.lt_succ_self _)
      · exact Nat.lt_succ_self _
    · rw [count]
      exact Nat.lt_succ_of_le (deploy_handed sound mem)
  | fire id instant =>
    rcases step_fire_cases tzdata m st id instant with same | ⟨j, pending, due⟩
    · rw [same]
      exact sound
    · rw [step_fire sound pending due]
      refine sound.erase id fun h mem => ?_
      rcases List.mem_append.mp mem with old | new
      · exact sound.handed h old
      · obtain rfl : h = j.handOver instant := by simpa using new
        exact sound.numbered id j pending
  | miss id instant =>
    rcases step_miss_cases tzdata m st id instant with same | ⟨j, pending, -, after⟩
    · rw [same]
      exact sound
    · rw [after]
      exact sound.erase id fun h mem => sound.handed h (by simpa using mem)

theorem run_sound (es : List (Event π)) :
    (run (step tzdata m) State.initial es).Sound m :=
  run_invariant (I := State.Sound m) (fun _ event sound => step_sound sound event)
    initial_sound es

end AcmeGitWebhook.Targets
