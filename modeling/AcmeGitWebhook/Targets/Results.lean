import AcmeGitWebhook.Targets.Deferral

/-!
# What a deployment answers

A deploy call looks every name up before it does anything, but tests the windows one by one
while it goes along. A window that cannot be read ends the call after the targets before it
have been served: `allOrNothing_iff`. If every window can be read, the call answers for each
target in turn, and what goes wrong at one of them shows in its own result alone:
`onePerTarget`.
-/

namespace AcmeGitWebhook.Targets

open Library

variable {π : Type}

/-- How the calls that a target makes to its own system end: the details of the result, or
the text of the exception. -/
abbrev Attempt := Except String (List (String × String))

/-- `deploy` of the three providers. Those of Ivanti and Exchange catch every exception. -/
def DeployTarget.deploy (t : DeployTarget) (attempt : Attempt) : Except String DeployResult :=
  match attempt with
  | .ok details => .ok ⟨t.name, t.providerType.text, .ok, details, none⟩
  | .error text =>
    match t.providerType with
    | .f5 => .error text
    | .ivanti | .exchange => .ok ⟨t.name, t.providerType.text, .error, [], some text⟩

namespace DeployManager

/-- What the target at each position of the requested list does. -/
def outcome (m : DeployManager) (targetNames : Option (List String)) (attempts : Nat → Attempt)
    (i : Nat) : Except String DeployResult :=
  match m.select targetNames with
  | .error _ => .error ""
  | .ok ts =>
    match ts[i]? with
    | some t => t.deploy (attempts i)
    | none => .error ""

/-- A call for a certificate at an instant, and how what the targets attempt then ends. -/
def callFor (m : DeployManager) (domain : String) (fullchainPem privkeyPem : π)
    (targetNames : Option (List String)) (now : Int) (attempts : Nat → Attempt) : DeployCall π :=
  ⟨domain, fullchainPem, privkeyPem, targetNames, now, m.outcome targetNames attempts⟩

/-- The names that a call is for. -/
def requested (m : DeployManager) (targetNames : Option (List String)) : List String :=
  targetNames.getD (m.targets.map Prod.fst)

/-- The target's window, if it has one, names a known zone and two times of day. -/
def Readable (tzdata : String → Option Zone) (m : DeployManager) (name : String) : Prop :=
  ∀ window, m.window name = some window → ∃ z s e, window.Reads tzdata z s e

/-- Both functions that the loop asks about the target's window return. -/
def Evaluates (tzdata : String → Option Zone) (m : DeployManager) (now : Int) (name : String) :
    Prop :=
  ∀ window, m.window name = some window → isWithinWindow tzdata window now = .ok true ∨
    isWithinWindow tzdata window now = .ok false ∧
      ∃ next, nextWindowStart tzdata window now = .ok next

/-- The target has no window, or is inside it. -/
def isOpen (tzdata : String → Option Zone) (m : DeployManager) (now : Int) (name : String) : Bool :=
  match m.window name with
  | none => true
  | some window =>
    match isWithinWindow tzdata window now with
    | .ok inside => inside
    | .error _ => false

end DeployManager

/-- A call that raises has deployed to no target and scheduled no job. -/
def AllOrNothing (tzdata : String → Option Zone) (m : DeployManager) (call : DeployCall π)
    (st : State π) : Prop :=
  ∀ err, (deploy tzdata m call st).1 = .error err →
    (deploy tzdata m call st).2.jobs = st.jobs ∧
      ((deploy tzdata m call st).2.log.drop st.log.length).filterMap Entry.target? = []

/-- A call answers for each requested target in turn, deploys to those that are open, in
order, and leaves a job with its own arguments for each of the others. -/
structure OnePerTarget (tzdata : String → Option Zone) (m : DeployManager) (call : DeployCall π)
    (st : State π) : Prop where
  answer : ∃ results, (deploy tzdata m call st).1 = .ok results ∧
    results.map (·.target) = m.requested call.targetNames
  called : handOvers (deploy tzdata m call st).2.log = handOvers st.log ++
    ((m.requested call.targetNames).filter (m.isOpen tzdata call.now)).map (call.handOver st.calls)
  pending : ∀ name ∈ m.requested call.targetNames, m.isOpen tzdata call.now name = false →
    ∃ next, (deploy tzdata m call st).2.jobs.get? (jobId name call.domain) =
      some (call.job st.calls name next)

/-- Two calls leave the same jobs and make the same hand-overs, and each result that differs is
one of those named. -/
structure DifferOnlyIn (tzdata : String → Option Zone) (m : DeployManager)
    (call call' : DeployCall π) (st : State π) (differs : Nat → Prop) : Prop where
  jobs : (deploy tzdata m call' st).2.jobs = (deploy tzdata m call st).2.jobs
  called : handOvers (deploy tzdata m call' st).2.log = handOvers (deploy tzdata m call st).2.log
  answer : ∀ results results', (deploy tzdata m call st).1 = .ok results →
    (deploy tzdata m call' st).1 = .ok results' → ∀ i, ¬ differs i → results'[i]? = results[i]?

variable {tzdata : String → Option Zone} {m : DeployManager} {call : DeployCall π} {st : State π}
  {ts : List DeployTarget} {now : Int} {name : String}

@[simp] theorem requested_none : m.requested none = m.targets.map Prod.fst := rfl

@[simp] theorem requested_some (names : List String) : m.requested (some names) = names := rfl

/-! ## The loop -/

theorem deferral_isOk_iff (tzdata : String → Option Zone) (m : DeployManager) (name : String)
    (now : Int) : (∃ decision, m.deferral tzdata name now = .ok decision) ↔
      m.Readable tzdata name := by
  unfold DeployManager.deferral DeployManager.Readable
  cases m.window name with
  | none => simp
  | some window => simpa using deferral_ok_iff now

theorem exists_map_ok {ε α β : Type} {x : Except ε α} {f : α → β} :
    (∃ b, x.map f = .ok b) ↔ ∃ a, x = .ok a := by
  cases x <;> simp [Except.map]

/-- The loop gets to its end exactly if every window on the way can be read. -/
theorem deployEach_ok_iff (tzdata : String → Option Zone) (m : DeployManager) (call : DeployCall π)
    (k i : Nat) (ts : List DeployTarget) (st : State π) :
    (∃ results, (deployEach tzdata m call k i ts st).1 = .ok results) ↔
      ∀ t ∈ ts, m.Readable tzdata t.name := by
  induction ts generalizing i st with
  | nil => simp [deployEach]
  | cons t ts ih =>
    rw [List.forall_mem_cons, ← deferral_isOk_iff tzdata m t.name call.now]
    rcases decision : m.deferral tzdata t.name call.now with err | (_ | next)
    · simp [deployEach, decision]
    · simp [deployEach, decision, exists_map_ok, ih]
    · simp [deployEach, decision, exists_map_ok, ih]

theorem deploy_ok_iff (tzdata : String → Option Zone) (m : DeployManager) (call : DeployCall π)
    (st : State π) : (∃ results, (deploy tzdata m call st).1 = .ok results) ↔
      ∃ ts, m.select call.targetNames = .ok ts ∧ ∀ t ∈ ts, m.Readable tzdata t.name := by
  unfold deploy
  cases selected : m.select call.targetNames with
  | error err => simp
  | ok ts =>
    have loop := deployEach_ok_iff tzdata m call st.calls 0 ts { st with calls := st.calls + 1 }
    rcases after : deployEach tzdata m call st.calls 0 ts { st with calls := st.calls + 1 } with
      ⟨err | results, st'⟩
    · simpa [after] using loop
    · simpa [after] using loop

/-- If every window can be read, the loop handles every target. -/
theorem handled_all (readable : ∀ t ∈ ts, m.Readable tzdata t.name) :
    (m.handled tzdata now ts).map Prod.fst = ts := by
  induction ts with
  | nil => rfl
  | cons t ts ih =>
    rw [List.forall_mem_cons] at readable
    obtain ⟨decision, decided⟩ := (deferral_isOk_iff tzdata m t.name now).mpr readable.1
    simp [DeployManager.handled, decided, ih readable.2]

/-- The loop handles no target if it ends at the first. -/
theorem handled_eq_nil_iff :
    m.handled tzdata now ts = [] ↔ ∀ t, ts.head? = some t → ¬ m.Readable tzdata t.name := by
  cases ts with
  | nil => simp [DeployManager.handled]
  | cons t ts =>
    have decided := deferral_isOk_iff tzdata m t.name now
    cases decision : m.deferral tzdata t.name now with
    | error err => simpa [DeployManager.handled, decision] using decided
    | ok next => simpa [DeployManager.handled, decision] using decided

theorem deploy_jobs_of_no_actions (none : m.actions tzdata call = []) :
    (deploy tzdata m call st).2.jobs = st.jobs := by
  obtain ⟨last, -, after⟩ := deploy_state tzdata m call st
  rw [after, none]
  rfl

/-! ## All or nothing -/

/-- Of the targets selected, the window of the first cannot be read, or all can. -/
theorem allOrNothing_iff (tzdata : String → Option Zone) (m : DeployManager) (call : DeployCall π)
    (st : State π) : AllOrNothing tzdata m call st ↔
      ∀ ts, m.select call.targetNames = .ok ts → (∀ t ∈ ts, m.Readable tzdata t.name) ∨
        ∀ t, ts.head? = some t → ¬ m.Readable tzdata t.name := by
  have answers := deploy_ok_iff tzdata m call st
  have idle : ((deploy tzdata m call st).2.log.drop st.log.length).filterMap Entry.target? = [] ↔
      m.actions tzdata call = [] := by
    rw [deploy_touches, List.map_eq_nil_iff]
  constructor
  · intro all ts selected
    by_cases readable : ∀ t ∈ ts, m.Readable tzdata t.name
    · exact Or.inl readable
    · right
      cases raised : (deploy tzdata m call st).1 with
      | ok results =>
        obtain ⟨ts', selected', readable'⟩ := answers.mp ⟨results, raised⟩
        obtain rfl := Except.ok.inj (selected.symm.trans selected')
        exact absurd readable' readable
      | error err =>
        have none := idle.mp (all err raised).2
        rw [DeployManager.actions, selected] at none
        exact handled_eq_nil_iff.mp none
  · intro condition err raised
    have none : m.actions tzdata call = [] := by
      unfold DeployManager.actions
      cases selected : m.select call.targetNames with
      | error err => rfl
      | ok ts =>
        rcases condition ts selected with readable | first
        · obtain ⟨results, answered⟩ := answers.mpr ⟨ts, selected, readable⟩
          rw [raised] at answered
          cases answered
        · exact handled_eq_nil_iff.mpr first
    exact ⟨deploy_jobs_of_no_actions none, idle.mpr none⟩

/-! ## One result for each target -/

theorem select_requested {targetNames : Option (List String)}
    (selected : m.select targetNames = .ok ts) : ts.map (·.name) = m.requested targetNames := by
  cases targetNames with
  | none =>
    obtain rfl : m.targets.values = ts := Except.ok.inj selected
    rw [requested_none, Dict.values, List.map_map]
    exact List.map_congr_left fun item mem => m.keyed item mem
  | some names =>
    rw [requested_some]
    have pairs := select_names selected
    clear selected
    induction pairs with
    | nil => rfl
    | cons found _ ih => rw [List.map_cons, ih, m.keyed _ (Dict.mem_of_get? found)]

theorem isOpen_eq {decision : Option Int} (decided : m.deferral tzdata name now = .ok decision) :
    m.isOpen tzdata now name = decision.isNone := by
  unfold DeployManager.deferral at decided
  unfold DeployManager.isOpen
  cases hwindow : m.window name with
  | none =>
    rw [hwindow, deferral_none] at decided
    obtain rfl := Except.ok.inj decided
    rfl
  | some window =>
    rw [hwindow] at decided
    cases decision with
    | none => simp [deferral_eq_none_iff.mp decided]
    | some next => simp [(deferral_eq_some_iff.mp decided).1]

theorem handOvers_actions (call : DeployCall π) (k : Nat) (as : List (DeployTarget × Option Int)) :
    handOvers (as.map (actionEntry call k)) =
      ((as.filter (·.2.isNone)).map (·.1.name)).map (call.handOver k) := by
  induction as with
  | nil => rfl
  | cons a as ih =>
    obtain ⟨t, _ | next⟩ := a <;> simpa [handOvers, actionEntry] using ih

/-- The targets deployed to at once are those that are open. -/
theorem handled_open (readable : ∀ t ∈ ts, m.Readable tzdata t.name) :
    ((m.handled tzdata now ts).filter (·.2.isNone)).map (·.1.name) =
      (ts.map (·.name)).filter (m.isOpen tzdata now) := by
  induction ts with
  | nil => rfl
  | cons t ts ih =>
    rw [List.forall_mem_cons] at readable
    obtain ⟨decision, decided⟩ := (deferral_isOk_iff tzdata m t.name now).mpr readable.1
    have rest := ih readable.2
    cases decision <;> simp [DeployManager.handled, decided, isOpen_eq decided, rest]

theorem readable_of_evaluates (h : m.Evaluates tzdata now name) : m.Readable tzdata name := by
  rw [← deferral_isOk_iff tzdata m name now, DeployManager.deferral]
  cases hwindow : m.window name with
  | none => exact ⟨none, rfl⟩
  | some window =>
    rcases h window hwindow with inside | ⟨outside, next, start⟩
    · exact ⟨none, deferral_eq_none_iff.mpr inside⟩
    · exact ⟨some next, deferral_eq_some_iff.mpr ⟨outside, start⟩⟩

theorem select_registered_ok {targetNames : Option (List String)}
    (registered : ∀ name ∈ m.requested targetNames, (m.targets.get? name).isSome) :
    ∃ ts, m.select targetNames = .ok ts := by
  cases targetNames with
  | none => exact ⟨_, rfl⟩
  | some names =>
    rw [requested_some] at registered
    induction names with
    | nil => exact ⟨[], rfl⟩
    | cons n names ih =>
      rw [List.forall_mem_cons] at registered
      obtain ⟨t, found⟩ := Option.isSome_iff_exists.mp registered.1
      obtain ⟨ts, selected⟩ := ih registered.2
      refine ⟨t :: ts, ?_⟩
      simp only [DeployManager.select, List.mapM_cons, bind, Except.bind, pure, Except.pure] at *
      rw [found, selected]

/-- Whatever a built-in target comes to, the result names it. -/
theorem outcomeResult_deploy (t : DeployTarget) (attempt : Attempt) :
    (outcomeResult t (t.deploy attempt)).target = t.name := by
  obtain ⟨name, provider⟩ := t
  cases attempt with
  | ok details => rfl
  | error text => cases provider <;> rfl

theorem actionResult_target {targetNames : Option (List String)} {attempts : Nat → Attempt}
    {domain : String} {f p : π} (selected : m.select targetNames = .ok ts) {i : Nat}
    {a : DeployTarget × Option Int} (at_ : ts[i]? = some a.1) :
    (actionResult (m.callFor domain f p targetNames now attempts) i a).target = a.1.name := by
  obtain ⟨t, _ | next⟩ := a
  · have own : m.outcome targetNames attempts i = t.deploy (attempts i) := by
      rw [DeployManager.outcome, selected]
      simp only at at_ ⊢
      rw [at_]
    simp only [actionResult, DeployManager.callFor, own]
    exact outcomeResult_deploy t (attempts i)
  · rfl

theorem actions_eq_handled (selected : m.select call.targetNames = .ok ts) :
    m.actions tzdata call = m.handled tzdata call.now ts := by
  rw [DeployManager.actions]
  simp only [selected]

/-- The results name the selected targets in turn. -/
theorem deploy_results {targetNames : Option (List String)} {attempts : Nat → Attempt}
    {domain : String} {f p : π} {results : List DeployResult}
    (selected : m.select targetNames = .ok ts) (readable : ∀ t ∈ ts, m.Readable tzdata t.name)
    (answered : (deploy tzdata m (m.callFor domain f p targetNames now attempts) st).1 =
      .ok results) : results.map (·.target) = ts.map (·.name) := by
  set call := m.callFor domain f p targetNames now attempts with hcall
  have all : (m.handled tzdata now ts).map Prod.fst = ts := handled_all readable
  have actions : m.actions tzdata call = m.handled tzdata now ts := actions_eq_handled selected
  have each : ∀ x ∈ (m.handled tzdata now ts).zipIdx,
      (actionResult call x.2 x.1).target = x.1.1.name := by
    intro x mem
    refine actionResult_target selected ?_
    rw [List.mem_zipIdx_iff_getElem?] at mem
    rw [← all, List.getElem?_map, mem, Option.map_some]
  calc results.map (·.target)
      = (m.handled tzdata now ts).zipIdx.map fun x => (actionResult call x.2 x.1).target := by
        rw [deploy_answer answered, actions, List.map_map]
        rfl
    _ = ((m.handled tzdata now ts).zipIdx.map Prod.fst).map fun a => a.1.name := by
        rw [List.map_map]
        exact List.map_congr_left each
    _ = ts.map (·.name) := by
        rw [List.zipIdx_map_fst]
        nth_rewrite 2 [← all]
        rw [List.map_map]
        rfl

/-- The targets that are open are deployed to, in order. -/
theorem deploy_called (selected : m.select call.targetNames = .ok ts)
    (readable : ∀ t ∈ ts, m.Readable tzdata t.name) :
    handOvers (deploy tzdata m call st).2.log = handOvers st.log ++
      ((ts.map (·.name)).filter (m.isOpen tzdata call.now)).map (call.handOver st.calls) := by
  obtain ⟨last, closes, log⟩ := deploy_log tzdata m call st
  have silent : handOvers [last] = [] := by cases last <;> first | rfl | exact closes.elim
  rw [log, handOvers_append, handOvers_append, silent, List.append_nil, handOvers_actions,
    actions_eq_handled selected, handled_open readable]

/-- The others have a job. -/
theorem deploy_pending (selected : m.select call.targetNames = .ok ts)
    (readable : ∀ t ∈ ts, m.Readable tzdata t.name) {t : DeployTarget} (mem : t ∈ ts)
    (closed : m.isOpen tzdata call.now t.name = false) :
    ∃ next, (deploy tzdata m call st).2.jobs.get? (jobId t.name call.domain) =
      some (call.job st.calls t.name next) := by
  have all : (m.handled tzdata call.now ts).map Prod.fst = ts := handled_all readable
  rw [← all, List.mem_map] at mem
  obtain ⟨⟨t', decision⟩, handled, rfl⟩ := mem
  rw [isOpen_eq (mem_handled handled).2] at closed
  cases decision with
  | none => cases closed
  | some next => exact ⟨next, deploy_schedules (by rwa [actions_eq_handled selected])⟩

theorem deploy_onePerTarget {targetNames : Option (List String)} {attempts : Nat → Attempt}
    {domain : String} {f p : π} (selected : m.select targetNames = .ok ts)
    (readable : ∀ t ∈ ts, m.Readable tzdata t.name) :
    OnePerTarget tzdata m (m.callFor domain f p targetNames now attempts) st := by
  have names : ts.map (·.name) =
      m.requested (m.callFor domain f p targetNames now attempts).targetNames :=
    select_requested selected
  refine ⟨?_, ?_, ?_⟩
  · obtain ⟨results, answered⟩ :=
      (deploy_ok_iff tzdata m (m.callFor domain f p targetNames now attempts) st).mpr
        ⟨ts, selected, readable⟩
    exact ⟨results, answered, (deploy_results selected readable answered).trans names⟩
  · rw [← names]
    exact deploy_called selected readable
  · intro name requested closed
    rw [← names, List.mem_map] at requested
    obtain ⟨t, mem, rfl⟩ := requested
    exact deploy_pending selected readable mem closed

theorem outcome_congr (m : DeployManager) (targetNames : Option (List String))
    {attempts attempts' : Nat → Attempt} {i : Nat} (same : attempts i = attempts' i) :
    m.outcome targetNames attempts i = m.outcome targetNames attempts' i := by
  unfold DeployManager.outcome
  rw [same]

theorem deploy_differOnlyIn {targetNames : Option (List String)} {domain : String} {f p : π}
    (selected : m.select targetNames = .ok ts) (readable : ∀ t ∈ ts, m.Readable tzdata t.name)
    (attempts attempts' : Nat → Attempt) :
    DifferOnlyIn tzdata m (m.callFor domain f p targetNames now attempts)
      (m.callFor domain f p targetNames now attempts') st fun i => attempts i ≠ attempts' i := by
  have one : OnePerTarget tzdata m (m.callFor domain f p targetNames now attempts) st :=
    deploy_onePerTarget selected readable
  have one' : OnePerTarget tzdata m (m.callFor domain f p targetNames now attempts') st :=
    deploy_onePerTarget selected readable
  refine ⟨?_, one'.called.trans one.called.symm, ?_⟩
  · obtain ⟨last, -, after⟩ :=
      deploy_state tzdata m (m.callFor domain f p targetNames now attempts) st
    obtain ⟨last', -, after'⟩ :=
      deploy_state tzdata m (m.callFor domain f p targetNames now attempts') st
    rw [after, after']
    rfl
  · intro results results' answered answered' i same
    rw [deploy_answer answered, deploy_answer answered', List.getElem?_map, List.getElem?_map]
    have actions : m.actions tzdata (m.callFor domain f p targetNames now attempts') =
        m.actions tzdata (m.callFor domain f p targetNames now attempts) := rfl
    rw [actions, List.getElem?_zipIdx, Option.map_map, Option.map_map]
    refine Option.map_congr fun a _ => ?_
    obtain ⟨t, _ | next⟩ := a
    · have own := outcome_congr m targetNames (not_not.mp same)
      simp [actionResult, DeployManager.callFor, own]
    · rfl

/-- For windows that can be evaluated, a call of registered targets answers one result for each,
and how the attempt at one ends matters to its own result only. -/
theorem onePerTarget (tzdata : String → Option Zone) (m : DeployManager) (domain : String)
    (fullchainPem privkeyPem : π) (targetNames : Option (List String)) (now : Int)
    (attempts attempts' : Nat → Attempt) (st : State π)
    (registered : ∀ name ∈ m.requested targetNames, (m.targets.get? name).isSome)
    (evaluates : ∀ name ∈ m.requested targetNames, m.Evaluates tzdata now name) :
    OnePerTarget tzdata m
        (m.callFor domain fullchainPem privkeyPem targetNames now attempts) st ∧
      DifferOnlyIn tzdata m (m.callFor domain fullchainPem privkeyPem targetNames now attempts)
        (m.callFor domain fullchainPem privkeyPem targetNames now attempts') st
        fun i => attempts i ≠ attempts' i := by
  obtain ⟨ts, selected⟩ := select_registered_ok registered
  have readable : ∀ t ∈ ts, m.Readable tzdata t.name := by
    intro t mem
    refine readable_of_evaluates (evaluates t.name ?_)
    rw [← select_requested selected]
    exact List.mem_map_of_mem mem
  exact ⟨deploy_onePerTarget selected readable,
    deploy_differOnlyIn selected readable attempts attempts'⟩

/-! ## Windows that can and cannot be read -/

/-- An Exchange without a window, and an F5 with this one. -/
def twoTargets (window : DeployWindow) : DeployManager :=
  .init [⟨"ex", .exchange, none⟩, ⟨"f5", .f5, some window⟩]

/-- Its start is no time of day, which goes unnoticed while its days are not looked at. -/
def misspelt : DeployWindow := ⟨"9am", "18:00", [], "UTC"⟩

theorem twoTargets_evaluates (name : String) (requested : name ∈ ["f5", "ex", "f5"]) :
    (twoTargets ⟨"08:00", "18:00", [4], "UTC"⟩).Evaluates onlyUtc (7 * usPerHour) name := by
  intro window hwindow
  by_cases f5 : name = "f5"
  · subst f5
    obtain rfl : ⟨"08:00", "18:00", [4], "UTC"⟩ = window := Option.some.inj hwindow
    exact Or.inr ⟨by decide, 8 * usPerHour, by decide⟩
  · obtain rfl : name = "ex" := by simpa [f5] using requested
    cases hwindow

theorem onePerTarget_early :
    OnePerTarget onlyUtc (twoTargets ⟨"08:00", "18:00", [4], "UTC"⟩)
        ((twoTargets ⟨"08:00", "18:00", [4], "UTC"⟩).callFor "example.com" "CHAIN" "KEY"
          (some ["f5", "ex", "f5"]) (7 * usPerHour) fun _ => .ok []) .initial ∧
      DifferOnlyIn onlyUtc (twoTargets ⟨"08:00", "18:00", [4], "UTC"⟩)
        ((twoTargets ⟨"08:00", "18:00", [4], "UTC"⟩).callFor "example.com" "CHAIN" "KEY"
          (some ["f5", "ex", "f5"]) (7 * usPerHour) fun _ => .ok [])
        ((twoTargets ⟨"08:00", "18:00", [4], "UTC"⟩).callFor "example.com" "CHAIN" "KEY"
          (some ["f5", "ex", "f5"]) (7 * usPerHour) fun _ => .error "down") .initial
        fun _ => (.ok [] : Attempt) ≠ .error "down" :=
  onePerTarget onlyUtc _ "example.com" "CHAIN" "KEY" (some ["f5", "ex", "f5"]) (7 * usPerHour)
    (fun _ => .ok []) (fun _ => .error "down") .initial (by decide) twoTargets_evaluates

/-- The window is always closed without an error, and a call in which it is looked at raises. -/
theorem raises_without_result :
    (∀ t, isWithinWindow onlyUtc misspelt t = .ok false) ∧
      ¬ OnePerTarget onlyUtc (twoTargets misspelt) ((twoTargets misspelt).callFor "example.com"
        "CHAIN" "KEY" none 0 fun _ => .ok []) .initial := by
  constructor
  · intro t
    simp [isWithinWindow, zoneInfo, onlyUtc, misspelt, bind, Except.bind, pure, Except.pure]
  · intro one
    obtain ⟨results, answered, -⟩ := one.answer
    have raised : (deploy onlyUtc (twoTargets misspelt) ((twoTargets misspelt).callFor "example.com"
        "CHAIN" "KEY" none 0 fun _ => .ok []) .initial).1 = .error (.valueError "") := by decide
    rw [raised] at answered
    cases answered

/-- The Exchange has the certificate by then. -/
theorem raises_halfway : ¬ AllOrNothing onlyUtc (twoTargets misspelt)
    ((twoTargets misspelt).callFor "example.com" "CHAIN" "KEY" none 0 fun _ => .ok [])
    .initial := by
  intro all
  have idle := (all (.valueError "") (by decide)).2
  revert idle
  decide

end AcmeGitWebhook.Targets
