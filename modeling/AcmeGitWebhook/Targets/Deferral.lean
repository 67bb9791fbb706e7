import AcmeGitWebhook.Targets.Manager
import Mathlib.Data.List.Induction
import Mathlib.Data.List.Pairwise

/-!
# What becomes of a deferred deployment

Two guarantees over whole runs of calls and firings. `neverRollsBack_iff`: no target is
or can be handed an older certificate after a newer one exactly in the runs where no call
deploys at once past a job that still waits for the same target and domain. `nothingLost_iff`:
a caller told `deferred` finds its job pending until it fires, and no two pairs share a job id,
exactly in the runs where no two deferred pairs of target and domain clash.
-/

namespace AcmeGitWebhook.Targets

open Library

variable {π : Type} {tzdata : String → Option Zone} {m : DeployManager} {st : State π}
  {call : DeployCall π}

/-! ## No older certificate after a newer one -/

def handOvers (log : List (Entry π)) : List (HandOver π) :=
  log.filterMap fun
    | .handed h => some h
    | _ => none

@[simp] theorem handOvers_append (log log' : List (Entry π)) :
    handOvers (log ++ log') = handOvers log ++ handOvers log' := List.filterMap_append

/-- For each target and domain, the calls whose certificates were handed over only go up. -/
def NeverRollsBack (log : List (Entry π)) : Prop :=
  (handOvers log).Pairwise fun earlier later =>
    later.target = earlier.target → later.domain = earlier.domain → earlier.call ≤ later.call

instance (log : List (Entry π)) : Decidable (NeverRollsBack log) :=
  inferInstanceAs (Decidable (List.Pairwise _ _))

/-- No job waits for a target and domain that the event deploys to at once. -/
def NoneWaiting (tzdata : String → Option Zone) (m : DeployManager) (st : State π) :
    Event π → Prop
  | .deploy call => ∀ t, (t, none) ∈ m.actions tzdata call → ∀ id j,
      st.jobs.get? id = some j → ¬ (j.target = t.name ∧ j.domain = call.domain)
  | .fire _ _ | .miss _ _ => True

/-- No target has been rolled back so far, and whichever job the scheduler runs next rolls
none back. -/
def Safe (tzdata : String → Option Zone) (m : DeployManager) (st : State π) : Prop :=
  NeverRollsBack st.log ∧ ∀ id instant, NeverRollsBack (step tzdata m st (.fire id instant)).log

/-- What waits for a pair is at least as new as everything the pair has been handed. -/
structure Fresh (m : DeployManager) (st : State π) : Prop where
  sound : st.Sound m
  ordered : NeverRollsBack st.log
  waiting : ∀ id j, st.jobs.get? id = some j → ∀ h ∈ handOvers st.log,
    h.target = j.target → h.domain = j.domain → h.call ≤ j.call

theorem initial_fresh : Fresh m (State.initial : State π) :=
  ⟨initial_sound, .nil, by simp [State.initial]⟩

theorem mem_handOvers {log : List (Entry π)} {h : HandOver π} :
    h ∈ handOvers log ↔ Entry.handed h ∈ log := by
  simp only [handOvers, List.mem_filterMap]
  constructor
  · rintro ⟨entry, mem, found⟩
    cases entry <;> grind
  · exact fun mem => ⟨_, mem, rfl⟩

variable (tzdata m) in
/-- A call hands over last, and all under its own number. -/
theorem deploy_handOvers (call : DeployCall π) (st : State π) :
    ∃ new : List (HandOver π), handOvers (deploy tzdata m call st).2.log =
        handOvers st.log ++ new ∧
      ∀ h, h ∈ new ↔
        ∃ t, (t, none) ∈ m.actions tzdata call ∧ h = call.handOver st.calls t.name := by
  obtain ⟨last, closes, log⟩ := deploy_log tzdata m call st
  refine ⟨handOvers ((m.actions tzdata call).map (actionEntry call st.calls)), ?_, fun h => ?_⟩
  · have silent : handOvers [last] = [] := by cases last <;> grind [Entry.closes, handOvers]
    rw [log, handOvers_append, handOvers_append, silent, List.append_nil]
  · rw [mem_handOvers, List.mem_map]
    constructor
    · rintro ⟨a, mem, entry⟩
      obtain ⟨t, rfl, rfl⟩ := actionEntry_eq_handed.mp entry
      exact ⟨t, mem, rfl⟩
    · rintro ⟨t, mem, rfl⟩
      exact ⟨_, mem, rfl⟩

theorem deploy_fresh (fresh : Fresh m st) (none : NoneWaiting tzdata m st (.deploy call)) :
    Fresh m (step tzdata m st (.deploy call)) := by
  obtain ⟨new, log, mem_new⟩ := deploy_handOvers tzdata m call st
  have old_lt : ∀ h ∈ handOvers st.log, h.call < st.calls := fun h mem =>
    fresh.sound.handed h (mem_handOvers.mp mem)
  refine ⟨step_sound fresh.sound _, ?_, fun id j pending h mem target domain => ?_⟩
  · rw [NeverRollsBack, step, log, List.pairwise_append]
    refine ⟨fresh.ordered, ?_, fun h old h' mem' _ _ => ?_⟩
    · refine List.pairwise_of_forall_mem_list fun h mem h' mem' _ _ => ?_
      obtain ⟨t, -, rfl⟩ := (mem_new h).mp mem
      obtain ⟨t', -, rfl⟩ := (mem_new h').mp mem'
      exact le_refl _
    · obtain ⟨t', -, rfl⟩ := (mem_new h').mp mem'
      exact (old_lt h old).le
  · rw [step, log, List.mem_append] at mem
    rcases deploy_jobs pending with before | ⟨t, next, -, rfl, -⟩
    · rcases mem with old | mem
      · exact fresh.waiting id j before h old target domain
      · obtain ⟨t, now, rfl⟩ := (mem_new h).mp mem
        exact absurd ⟨target.symm, domain.symm⟩ (none t now id j before)
    · rcases mem with old | mem
      · exact (old_lt h old).le
      · obtain ⟨t, -, rfl⟩ := (mem_new h).mp mem
        exact le_refl _

/-- The job for a target that a call deploys to at once stays in the store. -/
theorem deploy_keeps_waiting {t : DeployTarget} {id : String} {j : Job π} (sound : st.Sound m)
    (now : (t, none) ∈ m.actions tzdata call) (pending : st.jobs.get? id = some j)
    (target : j.target = t.name) (domain : j.domain = call.domain) :
    (deploy tzdata m call st).2.jobs.get? id = some j := by
  rw [deploy_jobs_of_ne, pending]
  intro t' next later same
  rw [sound.keyed id j pending, target, domain] at same
  exact absurd (actions_decision now later (jobId_inj_target same)) (by simp)

theorem deploy_fresh_iff (fresh : Fresh m st) : Fresh m (step tzdata m st (.deploy call)) ↔
    NoneWaiting tzdata m st (.deploy call) := by
  refine ⟨?_, deploy_fresh fresh⟩
  rintro after t now id j pending ⟨target, domain⟩
  obtain ⟨new, log, mem_new⟩ := deploy_handOvers tzdata m call st
  have handed : call.handOver st.calls t.name ∈ handOvers (deploy tzdata m call st).2.log := by
    rw [log]
    exact List.mem_append_right _ ((mem_new _).mpr ⟨t, now, rfl⟩)
  have newer : st.calls ≤ j.call := after.waiting id j
    (deploy_keeps_waiting fresh.sound now pending target domain) _ handed target.symm domain.symm
  exact absurd (fresh.sound.numbered id j pending) (by omega)

theorem fire_handOvers {id : String} {j : Job π} {instant : Int} (sound : st.Sound m)
    (pending : st.jobs.get? id = some j) (due : j.runDate ≤ instant) :
    handOvers (step tzdata m st (.fire id instant)).log =
      handOvers st.log ++ [j.handOver instant] := by
  rw [step_fire sound pending due]
  exact handOvers_append _ _

theorem fire_fresh (fresh : Fresh m st) (id : String) (instant : Int) :
    Fresh m (step tzdata m st (.fire id instant)) := by
  rcases step_fire_cases tzdata m st id instant with same | ⟨j, pending, due⟩
  · rw [same]
    exact fresh
  · have log : handOvers (step tzdata m st (.fire id instant)).log = _ :=
      fire_handOvers fresh.sound pending due
    refine ⟨step_sound fresh.sound _, ?_, fun id' j' pending' h mem target domain => ?_⟩
    · rw [NeverRollsBack, log, List.pairwise_append]
      refine ⟨fresh.ordered, List.pairwise_singleton _ _, fun h old h' new target domain => ?_⟩
      obtain rfl := List.mem_singleton.mp new
      exact fresh.waiting id j pending h old target.symm domain.symm
    · rw [step_fire fresh.sound pending due] at pending'
      obtain ⟨ne, pending'⟩ := get?_of_erase pending'
      rw [log, List.mem_append] at mem
      rcases mem with old | new
      · exact fresh.waiting id' j' pending' h old target domain
      · -- two jobs for one pair would be stored under one id
        obtain rfl := List.mem_singleton.mp new
        have hid := fresh.sound.keyed id j pending
        have hid' := fresh.sound.keyed id' j' pending'
        rw [← target, ← domain] at hid'
        exact absurd (hid'.trans hid.symm) ne

theorem miss_fresh (fresh : Fresh m st) (id : String) (instant : Int) :
    Fresh m (step tzdata m st (.miss id instant)) := by
  rcases step_miss_cases tzdata m st id instant with same | ⟨j, -, -, after⟩
  · rw [same]
    exact fresh
  · have silent : handOvers (step tzdata m st (.miss id instant)).log = handOvers st.log := by
      rw [after, handOvers_append]
      exact List.append_nil _
    refine ⟨step_sound fresh.sound _, ?_, fun id' j' pending h mem target domain => ?_⟩
    · rw [NeverRollsBack, silent]
      exact fresh.ordered
    · rw [after] at pending
      rw [silent] at mem
      exact fresh.waiting id' j' (get?_of_erase pending).2 h mem target domain

theorem safe_iff_fresh (sound : st.Sound m) : Safe tzdata m st ↔ Fresh m st := by
  constructor
  · rintro ⟨ordered, next⟩
    refine ⟨sound, ordered, fun id j pending h mem target domain => ?_⟩
    have fired := next id j.runDate
    rw [NeverRollsBack, fire_handOvers sound pending (le_refl _), List.pairwise_append] at fired
    exact fired.2.2 h mem _ (List.mem_singleton_self _) target.symm domain.symm
  · exact fun fresh => ⟨fresh.ordered, fun id instant => (fire_fresh fresh id instant).ordered⟩

theorem neverRollsBack_iff (tzdata : String → Option Zone) (m : DeployManager)
    (es : List (Event π)) : EveryState (step tzdata m) (Safe tzdata m) State.initial es ↔
      EveryStep (step tzdata m) (NoneWaiting tzdata m) State.initial es := by
  have exact_step : ∀ st event, Fresh m st → True →
      (Fresh m (step tzdata m st event) ↔ NoneWaiting (π := π) tzdata m st event) := by
    intro st event fresh _
    cases event with
    | deploy call => exact deploy_fresh_iff fresh
    | fire id instant => exact iff_of_true (fire_fresh fresh id instant) trivial
    | miss id instant => exact iff_of_true (miss_fresh fresh id instant) trivial
  rw [← everyState_iff_everyStep exact_step initial_fresh (everyStep_true _ _)]
  exact forall₂_congr fun pre _ => safe_iff_fresh (run_sound pre)

/-- One target, open from eight to six, and three events: a call an hour early, a call at
eight, and the first call's job a second later. -/
theorem rolls_back : ¬ NeverRollsBack
    (run (step onlyUtc (DeployManager.init [⟨"f5", .f5, some ⟨"08:00", "18:00", [4], "UTC"⟩⟩]))
      State.initial
      [.deploy ⟨"example.com", "OLD", "OLD", none, 7 * usPerHour, fun _ => .error ""⟩,
        .deploy ⟨"example.com", "NEW", "NEW", none, 8 * usPerHour, fun _ => .error ""⟩,
        .fire "deploy-f5-example.com" (8 * usPerHour + 1000000)]).log := by
  decide +kernel

/-! ## No deferred deployment lost -/

/-- What the last entry about a pair says is still to run. -/
def pendingOf (log : List (Entry π)) (target domain : String) : Option (Job π) :=
  log.foldl (fun last entry =>
    match entry with
    | .deferred j => if j.target = target ∧ j.domain = domain then some j else last
    | .handed h => if h.target = target ∧ h.domain = domain then none else last
    | .fired j | .missed j => if j.target = target ∧ j.domain = domain then none else last
    | .answered _ _ | .raised _ _ => last) none

/-- Whatever was last deferred for a pair, and has neither run, nor been overtaken, nor been missed
by the scheduler, is pending under the pair's id. -/
def NothingLost (st : State π) : Prop :=
  ∀ target domain j, pendingOf st.log target domain = some j →
    st.jobs.get? (jobId target domain) = some j

def IdsDistinct (st : State π) : Prop :=
  ∀ j j', Entry.deferred j ∈ st.log → Entry.deferred j' ∈ st.log →
    jobId j.target j.domain = jobId j'.target j'.domain →
    j.target = j'.target ∧ j.domain = j'.domain

/-- The text between two dashes can be read as the end of a target's name or as the start of
a domain. -/
def Clash (target domain target' domain' : String) : Prop :=
  ∃ x, target' = target ++ "-" ++ x ∧ domain = x ++ "-" ++ domain'

/-- No pair the event defers clashes with a pair that was deferred before. -/
def NoClash (tzdata : String → Option Zone) (m : DeployManager) (st : State π) :
    Event π → Prop
  | .deploy call => ∀ t next, (t, some next) ∈ m.actions tzdata call → ∀ j,
      Entry.deferred j ∈ st.log → ¬ Clash t.name call.domain j.target j.domain ∧
        ¬ Clash j.target j.domain t.name call.domain
  | .fire _ _ | .miss _ _ => True

/-- The targets `f5` and `f5-paris`, closed until eight, and a deferral for each under the
one id `deploy-f5-paris-example.com`. -/
theorem deferral_lost : ¬ NothingLost
    (run (step onlyUtc (DeployManager.init
        [⟨"f5", .f5, none⟩, ⟨"f5-paris", .f5, none⟩] (some ⟨"08:00", "18:00", [4], "UTC"⟩)))
      State.initial
      [.deploy ⟨"paris-example.com", "A", "A", some ["f5"], 0, fun _ => .error ""⟩,
        .deploy ⟨"example.com", "B", "B", some ["f5-paris"], 0, fun _ => .error ""⟩]) := by
  intro kept
  have lost := kept "f5" "paris-example.com"
    ⟨"f5", "paris-example.com", "A", "A", 8 * usPerHour, 0⟩ (by decide +kernel)
  revert lost
  decide +kernel

theorem jobId_eq_iff (target domain target' domain' : String) :
    jobId target domain = jobId target' domain' ↔ (target = target' ∧ domain = domain') ∨
      Clash target domain target' domain' ∨ Clash target' domain' target domain := by
  have expand : jobId target domain = jobId target' domain' ↔
      target.toList ++ '-' :: domain.toList = target'.toList ++ '-' :: domain'.toList := by
    simp [jobId, ← String.toList_inj]
  constructor
  · intro h
    rcases List.append_eq_append_iff.mp (expand.mp h) with ⟨x, left, right⟩ | ⟨x, left, right⟩
    · cases x with
      | nil => exact Or.inl (by simpa [← String.toList_inj, eq_comm] using And.intro left right)
      | cons c x =>
        obtain ⟨rfl, tail⟩ := List.cons.inj right
        have tail : domain.toList = x ++ '-' :: domain'.toList := tail
        exact Or.inr (Or.inl ⟨String.ofList x, by simp [← String.toList_inj, left],
          by simp [← String.toList_inj, tail]⟩)
    · cases x with
      | nil => exact Or.inl (by simpa [← String.toList_inj, eq_comm] using And.intro left right)
      | cons c x =>
        obtain ⟨rfl, tail⟩ := List.cons.inj right
        have tail : domain'.toList = x ++ '-' :: domain.toList := tail
        exact Or.inr (Or.inr ⟨String.ofList x, by simp [← String.toList_inj, left],
          by simp [← String.toList_inj, tail]⟩)
  · rintro (⟨rfl, rfl⟩ | ⟨x, rfl, rfl⟩ | ⟨x, rfl, rfl⟩)
    · rfl
    · simp [expand]
    · simp [expand]

theorem pendingOf_append (log : List (Entry π)) (entry : Entry π) (target domain : String) :
    pendingOf (log ++ [entry]) target domain =
      match entry with
      | .deferred j =>
        if j.target = target ∧ j.domain = domain then some j else pendingOf log target domain
      | .handed h =>
        if h.target = target ∧ h.domain = domain then none else pendingOf log target domain
      | .fired j | .missed j =>
        if j.target = target ∧ j.domain = domain then none else pendingOf log target domain
      | .answered _ _ | .raised _ _ => pendingOf log target domain := by
  rw [pendingOf, List.foldl_append]
  rfl

theorem pendingOf_append_some {log : List (Entry π)} {entry : Entry π} {target domain : String}
    {j : Job π} (h : pendingOf (log ++ [entry]) target domain = some j) :
    (entry = .deferred j ∧ j.target = target ∧ j.domain = domain) ∨
      pendingOf log target domain = some j := by
  rw [pendingOf_append] at h
  cases entry with
  | deferred j' =>
    by_cases here : j'.target = target ∧ j'.domain = domain
    · obtain rfl : j' = j := by simpa [here] using h
      exact Or.inl ⟨rfl, here⟩
    · exact Or.inr (by simpa [here] using h)
  | handed h' => exact Or.inr (by grind)
  | fired j' => exact Or.inr (by grind)
  | missed j' => exact Or.inr (by grind)
  | answered k results => exact Or.inr h
  | raised k err => exact Or.inr h

theorem mem_of_pendingOf {log : List (Entry π)} {target domain : String} {j : Job π}
    (h : pendingOf log target domain = some j) :
    Entry.deferred j ∈ log ∧ j.target = target ∧ j.domain = domain := by
  induction log using List.reverseRecOn with
  | nil => simp [pendingOf] at h
  | append_singleton log entry ih =>
    rcases pendingOf_append_some h with ⟨rfl, pair⟩ | before
    · exact ⟨by simp, pair⟩
    · exact (ih before).imp (List.mem_append_left _) id

theorem IdsDistinct.of_subset {st st' : State π} (distinct : IdsDistinct st')
    (sub : st.log ⊆ st'.log) : IdsDistinct st :=
  fun j j' mem mem' => distinct j j' (sub mem) (sub mem')

theorem schedule_nothingLost {j : Job π} (kept : NothingLost st)
    (distinct : IdsDistinct (scheduleDeferred st j)) : NothingLost (scheduleDeferred st j) := by
  intro target domain j' pending
  rw [scheduleDeferred, State.record, pendingOf_append] at pending
  by_cases here : j.target = target ∧ j.domain = domain
  · obtain rfl : j = j' := by simpa [here] using pending
    simp [scheduleDeferred, State.record, here]
  · have before : pendingOf st.log target domain = some j' := by simpa [here] using pending
    obtain ⟨mem, rfl, rfl⟩ := mem_of_pendingOf before
    have other : jobId j'.target j'.domain ≠ jobId j.target j.domain := fun same =>
      here (distinct j j' (by simp [scheduleDeferred, State.record])
        (List.mem_append_left _ mem) same.symm)
    simpa [scheduleDeferred, State.record, other] using kept _ _ j' before

theorem handed_nothingLost (kept : NothingLost st) (h : HandOver π) :
    NothingLost (st.record (.handed h)) := by
  intro target domain j pending
  rw [State.record, pendingOf_append] at pending
  by_cases here : h.target = target ∧ h.domain = domain
  · simp [here] at pending
  · exact kept target domain j (by simpa [here] using pending)

theorem foldl_act_nothingLost {k : Nat} {as : List (DeployTarget × Option Int)}
    (kept : NothingLost st) (distinct : IdsDistinct (as.foldl (act call k) st)) :
    NothingLost (as.foldl (act call k) st) := by
  induction as generalizing st with
  | nil => exact kept
  | cons a as ih =>
    refine ih ?_ distinct
    obtain ⟨t, next⟩ := a
    cases next with
    | none => exact handed_nothingLost kept _
    | some next =>
      refine schedule_nothingLost kept (distinct.of_subset ?_)
      rw [List.foldl_cons, foldl_act_log]
      exact List.subset_append_left _ _

theorem deploy_nothingLost (kept : NothingLost st)
    (distinct : IdsDistinct (step tzdata m st (.deploy call))) :
    NothingLost (step tzdata m st (.deploy call)) := by
  obtain ⟨last, closes, after⟩ := deploy_state tzdata m call st
  have actions : NothingLost ((m.actions tzdata call).foldl (act call st.calls)
      { st with calls := st.calls + 1 }) := by
    refine foldl_act_nothingLost kept (distinct.of_subset ?_)
    rw [step, after]
    exact List.subset_append_left _ _
  intro target domain j pending
  rw [step, after] at pending ⊢
  rw [State.record, pendingOf_append] at pending
  cases last with
  | answered k results => exact actions target domain j pending
  | raised k err => exact actions target domain j pending
  | deferred _ | handed _ | fired _ | missed _ => exact closes.elim

theorem Clash.domain_ne {target domain target' domain' : String}
    (h : Clash target domain target' domain') : domain ≠ domain' := by
  obtain ⟨x, -, rfl⟩ := h
  intro same
  have := congrArg String.length same
  simp [String.length_append] at this

theorem deploy_idsDistinct_iff (distinct : IdsDistinct st) :
    IdsDistinct (step tzdata m st (.deploy call)) ↔ NoClash tzdata m st (.deploy call) := by
  constructor
  · intro after t next mem j old
    have new := (mem_deferred_deploy tzdata m call st _).mpr (Or.inr ⟨t, next, mem, rfl⟩)
    have pair := after _ j new ((mem_deferred_deploy tzdata m call st j).mpr (Or.inl old))
    constructor
    · exact fun clash => clash.domain_ne (pair ((jobId_eq_iff _ _ _ _).mpr
        (Or.inr (Or.inl clash)))).2
    · exact fun clash => clash.domain_ne (pair ((jobId_eq_iff _ _ _ _).mpr
        (Or.inr (Or.inr clash)))).2.symm
  · intro noClash j j' mem mem' same
    rcases (mem_deferred_deploy tzdata m call st j).mp mem with old | ⟨t, next, new, rfl⟩ <;>
      rcases (mem_deferred_deploy tzdata m call st j').mp mem' with old' | ⟨t', next', new', rfl⟩
    · exact distinct j j' old old' same
    · have apart := noClash t' next' new' j old
      rcases (jobId_eq_iff _ _ _ _).mp same with pair | clash | clash
      · exact pair
      · exact absurd clash apart.2
      · exact absurd clash apart.1
    · have apart := noClash t next new j' old'
      rcases (jobId_eq_iff _ _ _ _).mp same with pair | clash | clash
      · exact pair
      · exact absurd clash apart.1
      · exact absurd clash apart.2
    · exact ⟨jobId_inj_target same, rfl⟩

theorem fire_idsDistinct (distinct : IdsDistinct st) (sound : st.Sound m) (id : String)
    (instant : Int) : IdsDistinct (step tzdata m st (.fire id instant)) := by
  rcases step_fire_cases tzdata m st id instant with same | ⟨j, pending, due⟩
  · rw [same]
    exact distinct
  · rw [step_fire sound pending due]
    exact fun j j' mem mem' => distinct j j' (by simpa using mem) (by simpa using mem')

theorem pendingOf_fire (log : List (Entry π)) (j : Job π) (instant : Int)
    (target domain : String) :
    pendingOf (log ++ [.fired j, .handed (j.handOver instant)]) target domain =
      if j.target = target ∧ j.domain = domain then none else pendingOf log target domain := by
  rw [List.append_cons, pendingOf_append, pendingOf_append]
  by_cases here : j.target = target ∧ j.domain = domain <;> simp [Job.handOver, here]

theorem miss_idsDistinct (distinct : IdsDistinct st) (id : String) (instant : Int) :
    IdsDistinct (step tzdata m st (.miss id instant)) := by
  rcases step_miss_cases tzdata m st id instant with same | ⟨j, -, -, after⟩
  · rw [same]
    exact distinct
  · rw [after]
    exact fun j j' mem mem' => distinct j j' (by simpa using mem) (by simpa using mem')

/-- A job that is taken out of the store, and logged as what leaves nothing of its pair to run,
loses no other. -/
theorem erase_nothingLost (kept : NothingLost st) {id : String} {j : Job π}
    (pending : st.jobs.get? id = some j) {entries : List (Entry π)}
    (settles : ∀ target domain, pendingOf (st.log ++ entries) target domain =
      if j.target = target ∧ j.domain = domain then none else pendingOf st.log target domain) :
    NothingLost (⟨st.jobs.erase id, st.calls, st.log ++ entries⟩ : State π) := by
  intro target domain j' still
  rw [settles] at still
  by_cases here : j.target = target ∧ j.domain = domain
  · simp [here] at still
  · have before : pendingOf st.log target domain = some j' := by simpa [here] using still
    have other : jobId target domain ≠ id := by
      rintro rfl
      obtain rfl : j = j' := Option.some.inj (pending.symm.trans (kept target domain j' before))
      exact here (mem_of_pendingOf before).2
    simpa [other] using kept target domain j' before

theorem fire_nothingLost (kept : NothingLost st) (sound : st.Sound m) (id : String)
    (instant : Int) : NothingLost (step tzdata m st (.fire id instant)) := by
  rcases step_fire_cases tzdata m st id instant with same | ⟨j, pending, due⟩
  · rw [same]
    exact kept
  · rw [step_fire sound pending due]
    exact erase_nothingLost kept pending (pendingOf_fire st.log j instant)

theorem miss_nothingLost (kept : NothingLost st) (id : String) (instant : Int) :
    NothingLost (step tzdata m st (.miss id instant)) := by
  rcases step_miss_cases tzdata m st id instant with same | ⟨j, pending, -, after⟩
  · rw [same]
    exact kept
  · rw [after]
    exact erase_nothingLost kept pending fun target domain => pendingOf_append _ _ _ _

theorem nothingLost_iff (tzdata : String → Option Zone) (m : DeployManager)
    (es : List (Event π)) :
    EveryState (step tzdata m) (fun st => NothingLost st ∧ IdsDistinct st) State.initial es ↔
      EveryStep (step tzdata m) (NoClash tzdata m) State.initial es := by
  have exact_step : ∀ (st : State π) event, (st.Sound m ∧ NothingLost st ∧ IdsDistinct st) → True →
      (((step tzdata m st event).Sound m ∧ NothingLost (step tzdata m st event) ∧
        IdsDistinct (step tzdata m st event)) ↔ NoClash tzdata m st event) := by
    rintro st event ⟨sound, kept, distinct⟩ -
    cases event with
    | deploy call =>
      rw [← deploy_idsDistinct_iff distinct]
      exact ⟨fun after => after.2.2,
        fun distinct => ⟨step_sound sound _, deploy_nothingLost kept distinct, distinct⟩⟩
    | fire id instant =>
      exact iff_of_true ⟨step_sound sound _, fire_nothingLost kept sound id instant,
        fire_idsDistinct distinct sound id instant⟩ trivial
    | miss id instant =>
      exact iff_of_true ⟨step_sound sound _, miss_nothingLost kept id instant,
        miss_idsDistinct distinct id instant⟩ trivial
  rw [← everyState_iff_everyStep exact_step ⟨initial_sound,
    by simp [NothingLost, pendingOf, State.initial], by simp [IdsDistinct, State.initial]⟩
    (everyStep_true _ _)]
  exact forall₂_congr fun pre _ => (and_iff_right (run_sound pre)).symm

end AcmeGitWebhook.Targets
