import AcmeGitWebhook.Service.Deployments

/-!
# Where a target's certificates come from

A hand-over or a pending job has its pair from a request that was made since the last restart, and
the request had it from its own body or from the last write to the domain's secret (`run_hands`).
So a target has been through deployments of such pairs, and nothing else (`run_reaches`).
-/

namespace AcmeGitWebhook.Service

open Library Vault

variable {dumps : Json → String} {loads : String → Option Json}
  {x509 : String → Option (String × String)} {lower : String → String} {str : PyError → String}
  {tzdata : String → Option Zone} {app : App} {st : State}

variable (dumps loads x509 lower str tzdata) in
/-- A request of the run, with what happened after it, meant the pair for the domain. -/
def Site.Requests (site : Site) (es after : List Event)
    (domain fullchainPem privkeyPem : String) : Prop :=
  ∃ before req pemRead routingRead now calls,
    es = before ++ .deploy domain req pemRead routingRead now calls :: after ∧
      Meant domain req (site.run dumps loads x509 lower str tzdata before).kv fullchainPem
        privkeyPem

variable (dumps loads x509 lower str tzdata) in
/-- Such a request was made since the last restart. -/
def Site.Asked (site : Site) (es : List Event) (domain fullchainPem privkeyPem : String) : Prop :=
  ∃ after, .restart ∉ after ∧
    site.Requests dumps loads x509 lower str tzdata es after domain fullchainPem privkeyPem

/-- The pairs of hand-overs and pending jobs have the property. -/
structure Carries (asked : String → String → String → Prop) (manager : Targets.State String) :
    Prop where
  handed : ∀ h, Targets.Entry.handed h ∈ manager.log → asked h.domain h.fullchainPem h.privkeyPem
  pending : ∀ id j, manager.jobs.get? id = some j → asked j.domain j.fullchainPem j.privkeyPem

section Carries

variable {asked asked' : String → String → String → Prop} {mgr : Targets.DeployManager}
  {manager : Targets.State String}

theorem Carries.mono (carries : Carries asked manager)
    (weaken : ∀ domain f p, asked domain f p → asked' domain f p) : Carries asked' manager :=
  ⟨fun h mem => weaken _ _ _ (carries.handed h mem),
    fun id j found => weaken _ _ _ (carries.pending id j found)⟩

theorem Carries.deploy (carries : Carries asked manager) (call : Targets.DeployCall String)
    (pair : asked call.domain call.fullchainPem call.privkeyPem) :
    Carries asked (Targets.deploy tzdata mgr call manager).2 := by
  constructor
  · intro h mem
    rcases (Targets.mem_handed_deploy tzdata mgr call manager h).mp mem with old | ⟨t, -, rfl⟩
    · exact carries.handed h old
    · exact pair
  · intro id j found
    rcases Targets.deploy_jobs found with old | ⟨t, next, -, rfl, -⟩
    · exact carries.pending id j old
    · exact pair

theorem Carries.fire (carries : Carries asked manager) (id : String) (instant : Int) :
    Carries asked (Targets.step tzdata mgr manager (.fire id instant)) := by
  simp only [Targets.step]
  cases found : manager.jobs.get? id with
  | none => exact carries
  | some j =>
    dsimp only
    split_ifs with due
    · have pending : ∀ id' j', (manager.jobs.erase id).get? id' = some j' →
          asked j'.domain j'.fullchainPem j'.privkeyPem :=
        fun id' j' still => carries.pending id' j' (Targets.get?_of_erase still).2
      unfold Targets.deferredDeploy
      cases mgr.targets.get? j.target with
      | none => exact ⟨fun h mem => carries.handed h (by simpa [Targets.State.record] using mem),
          pending⟩
      | some t =>
        refine ⟨fun h mem => ?_, pending⟩
        obtain old | rfl : Targets.Entry.handed h ∈ manager.log ∨ h = j.handOver instant := by
          simpa [Targets.State.record, Targets.Job.handOver] using mem
        · exact carries.handed h old
        · exact carries.pending id j found
    · exact carries

theorem Carries.miss (carries : Carries asked manager) (id : String) (instant : Int) :
    Carries asked (Targets.step tzdata mgr manager (.miss id instant)) := by
  rcases Targets.step_miss_cases tzdata mgr manager id instant with same | ⟨j, -, -, after⟩
  · rwa [same]
  · rw [after]
    exact ⟨fun h mem => carries.handed h (by simpa using mem),
      fun id' j' still => carries.pending id' j' (Targets.get?_of_erase still).2⟩

variable (lower str tzdata mgr) in
theorem Carries.step {fl : Fleet.State} (carries : Carries asked fl.manager) (event : Fleet.Event)
    (pair : ∀ call, event = .deploy call →
      asked call.domain call.fullchainPem call.privkeyPem) :
    Carries asked (Fleet.step lower str tzdata mgr fl event).manager := by
  obtain ⟨event', same, refines⟩ := Fleet.step_refines lower str tzdata mgr fl event
  rw [← refines]
  cases event with
  | deploy call =>
    obtain ⟨outcome, rfl⟩ := same
    exact carries.deploy _ (pair call rfl)
  | fire id instant calls =>
    obtain rfl := same
    exact carries.fire id instant
  | miss id instant =>
    obtain rfl := same
    exact carries.miss id instant

end Carries

variable (dumps loads x509 lower str tzdata) in
theorem run_carries (site : Site) (es : List Event) :
    Carries (site.Asked dumps loads x509 lower str tzdata es)
      (site.run dumps loads x509 lower str tzdata es).fleet.manager := by
  refine run_history
    (J := fun es (st : State) =>
      Carries (site.Asked dumps loads x509 lower str tzdata es) st.fleet.manager)
    ⟨fun h mem => ?_, fun id j found => ?_⟩ (fun es event carries => ?_) es
  · cases mem
  · cases found
  change Carries _ (step dumps loads x509 lower str tzdata site.app
    (site.run dumps loads x509 lower str tzdata es) event).fleet.manager
  have mirrored := (run_sound dumps loads x509 lower str tzdata site es).mirrored
  -- what was requested before stays so, unless the event is a restart
  have later : event ≠ .restart → ∀ domain f p,
      site.Asked dumps loads x509 lower str tzdata es domain f p →
        site.Asked dumps loads x509 lower str tzdata (es ++ [event]) domain f p := by
    rintro other domain f p ⟨after, since, before, req, pemRead, routingRead, now, calls, rfl,
      meant⟩
    exact ⟨after ++ [event], by simp [since, Ne.symm other], before, req, pemRead, routingRead,
      now, calls, by simp, meant⟩
  have moves := step_moves dumps loads x509 lower str tzdata mirrored event
  generalize (step dumps loads x509 lower str tzdata site.app
    (site.run dumps loads x509 lower str tzdata es) event).fleet = fl at moves ⊢
  cases moves with
  | still other => exact carries.mono (later other)
  | @asks mgr managed asked asks =>
    cases asks with
    | @deploy domain f p req pemRead routingRead targetNames now calls meant =>
      refine (carries.mono (later (by simp))).step lower str tzdata mgr _ fun call same => ?_
      obtain rfl := Fleet.Event.deploy.inj same
      exact ⟨[], by simp, es, req, pemRead, routingRead, now, calls, rfl, meant⟩
    | fire id instant calls =>
      exact (carries.mono (later (by simp))).step lower str tzdata mgr _ (by simp)
    | miss id instant =>
      exact (carries.mono (later (by simp))).step lower str tzdata mgr _ (by simp)
  | restart same =>
    constructor
    · rintro h (_ | _)
    · rintro id j (_ | _)

/-- Every hand-over that has been made and every job that is pending has the pair that a request
for its domain meant, and that request was made since the last restart. -/
theorem run_hands (dumps : Json → String) (loads : String → Option Json)
    (x509 : String → Option (String × String)) (lower : String → String) (str : PyError → String)
    (tzdata : String → Option Zone) (site : Site) (es : List Event) :
    (∀ h, Targets.Entry.handed h ∈
        (site.run dumps loads x509 lower str tzdata es).fleet.manager.log →
      site.Asked dumps loads x509 lower str tzdata es h.domain h.fullchainPem h.privkeyPem) ∧
    ∀ id j, (site.run dumps loads x509 lower str tzdata es).fleet.manager.jobs.get? id = some j →
      site.Asked dumps loads x509 lower str tzdata es j.domain j.fullchainPem j.privkeyPem := by
  have carries := run_carries dumps loads x509 lower str tzdata site es
  exact ⟨carries.handed, carries.pending⟩

/-! ## What the targets have been through -/

variable (lower str) in
/-- A target after deployments of pairs that were asked for, and after restarts. -/
inductive Reaches (asked : String → String → String → Prop) (start : Fleet.System) :
    Fleet.System → Prop
  | refl : Reaches asked start start
  | deploy {sys : Fleet.System} {domain fullchainPem privkeyPem : String} (calls : Fleet.Calls)
      (reached : Reaches asked start sys) (pair : asked domain fullchainPem privkeyPem) :
      Reaches asked start (sys.deploy lower str domain fullchainPem privkeyPem calls).2
  | restart {sys : Fleet.System} (reached : Reaches asked start sys) :
      Reaches asked start (Service.restart sys)

section Reaches

variable {asked asked' : String → String → String → Prop} {start sys : Fleet.System}

theorem Reaches.mono (reached : Reaches lower str asked start sys)
    (weaken : ∀ domain f p, asked domain f p → asked' domain f p) :
    Reaches lower str asked' start sys := by
  induction reached with
  | refl => exact .refl
  | deploy calls _ pair ih => exact .deploy calls ih (weaken _ _ _ pair)
  | restart _ ih => exact .restart ih

theorem Reaches.replay {history : List (Targets.HandOver String × Fleet.Calls)}
    (reached : Reaches lower str asked start sys)
    (pairs : ∀ h ∈ history, asked h.1.domain h.1.fullchainPem h.1.privkeyPem) :
    Reaches lower str asked start (Fleet.replay lower str history sys) := by
  induction history generalizing sys with
  | nil => exact reached
  | cons h history ih =>
    obtain ⟨first, rest⟩ := List.forall_mem_cons.mp pairs
    exact ih (.deploy h.2 reached first) rest

end Reaches

/-- Unless the process is restarted, the targets go through hand-overs that are logged. -/
theorem Moves.replays {event : Event} {fl : Fleet.State}
    (moves : Moves lower str tzdata app st event fl) (other : event ≠ .restart) :
    ∃ history, Fleet.Replays lower str history st.fleet fl := by
  cases moves with
  | still _ => exact ⟨[], .still st.fleet⟩
  | @asks mgr managed asked asks =>
    exact ⟨_, Fleet.step_replays lower str tzdata mgr st.fleet asked⟩
  | restart same => exact absurd same other

/-- Each target has come to be what it is by deployments of pairs that requests of the run meant,
and by restarts: a hand-over of anything else never happens. -/
theorem run_reaches (dumps : Json → String) (loads : String → Option Json)
    (x509 : String → Option (String × String)) (lower : String → String) (str : PyError → String)
    (tzdata : String → Option Zone) (site : Site) (es : List Event) (name : String)
    (sys : Fleet.System)
    (found : (site.run dumps loads x509 lower str tzdata es).fleet.systems.get? name = some sys) :
    ∃ c ∈ site.targets, c.system.name = name ∧ Reaches lower str
      (fun domain fullchainPem privkeyPem => ∃ after,
        site.Requests dumps loads x509 lower str tzdata es after domain fullchainPem privkeyPem)
      c.system sys := by
  revert name sys
  refine run_history (J := fun es (st : State) => ∀ name sys,
    st.fleet.systems.get? name = some sys → ∃ c ∈ site.targets, c.system.name = name ∧
      Reaches lower str (fun domain f p => ∃ after,
        site.Requests dumps loads x509 lower str tzdata es after domain f p) c.system sys)
    (fun name sys found => ?_) (fun es event explained name sys found => ?_) es
  · obtain ⟨c, mem, same, rfl⟩ := Fleet.initial_configured found
    exact ⟨c, mem, same, .refl⟩
  change (step dumps loads x509 lower str tzdata site.app
    (site.run dumps loads x509 lower str tzdata es) event).fleet.systems.get? name = some sys
    at found
  have mirrored := (run_sound dumps loads x509 lower str tzdata site es).mirrored
  have later : ∀ domain f p, (∃ after,
        site.Requests dumps loads x509 lower str tzdata es after domain f p) →
      ∃ after,
        site.Requests dumps loads x509 lower str tzdata (es ++ [event]) after domain f p := by
    rintro domain f p ⟨after, before, req, pemRead, routingRead, now, calls, rfl, meant⟩
    exact ⟨after ++ [event], before, req, pemRead, routingRead, now, calls, by simp, meant⟩
  by_cases restarts : event = .restart
  · subst restarts
    obtain ⟨old, before, rfl⟩ := get?_restart found
    obtain ⟨c, mem, same, reached⟩ := explained name old before
    exact ⟨c, mem, same, (reached.mono later).restart⟩
  · obtain ⟨history, ⟨new, log, handed⟩, systems⟩ :=
      (step_moves dumps loads x509 lower str tzdata mirrored event).replays restarts
    rw [systems] at found
    obtain ⟨old, before, rfl⟩ := Option.map_eq_some_iff.mp found
    obtain ⟨c, mem, same, reached⟩ := explained name old before
    refine ⟨c, mem, same, (reached.mono later).replay fun h part => ?_⟩
    -- a hand-over of this step is in the log that it leaves
    have carries := run_carries dumps loads x509 lower str tzdata site (es ++ [event])
    have logged : Targets.Entry.handed h.1 ∈
        (site.run dumps loads x509 lower str tzdata (es ++ [event])).fleet.manager.log := by
      have inNew : Targets.Entry.handed h.1 ∈ new := Fleet.mem_handed.mp
        (handed ▸ List.mem_map_of_mem (List.mem_filter.mp part).1)
      rw [Site.run, run_concat]
      exact log ▸ List.mem_append_right _ inNew
    obtain ⟨after, -, requested⟩ := carries.handed h.1 logged
    exact ⟨after, requested⟩

set_option maxRecDepth 4000 in
theorem run_reaches_edge : ∃ c ∈ edgeSite.targets, c.system.name = "edge" ∧ Reaches id (fun _ => "")
    (fun domain fullchainPem privkeyPem => ∃ after,
      edgeSite.Requests exampleDumps exampleLoads (fun _ => none) id (fun _ => "") onlyUtc
        [storeChain "CHAIN", deployAt (9 * usPerHour), .restart] after domain fullchainPem
        privkeyPem)
    c.system (.f5 ⟨"edge", "https://f5.example.com"⟩ ⟨[(F5.fullName "example.com", "CHAIN")],
      [(F5.fullName "example.com", "KEY")], []⟩) :=
  run_reaches exampleDumps exampleLoads (fun _ => none) id (fun _ => "") onlyUtc edgeSite
    [storeChain "CHAIN", deployAt (9 * usPerHour), .restart] "edge" _ rfl

end AcmeGitWebhook.Service
