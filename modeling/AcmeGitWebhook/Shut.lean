import AcmeGitWebhook.Openings

/-!
# Windows that never open

Nothing checks a deploy window when the configuration is loaded. A window whose start is its end,
or whose days are no weekdays, is read without an error and never opens (`opens_iff`). The two
users of windows make different things of it: a deployment is put off once and then carried out,
a renewal is put off for good (`shut_apart`).
-/

namespace AcmeGitWebhook

open Library

/-- The window is well formed, and at no instant open. -/
structure Shut (tzdata : String → Option Zone) (window : DeployWindow) : Prop where
  reads : ∃ z s e, window.Reads tzdata z s e
  never : ¬ Opens tzdata window

variable {tzdata : String → Option Zone} {window : DeployWindow} {z : Zone} {s e now : Int}

/-- Long after the last change of the offset, an opening is reached as it is shown. -/
theorem opens_of_reads (read : window.Reads tzdata z s e) (distinct : s ≠ e) {d : Int}
    (listed : d ∈ window.days) (low : 1 ≤ d) (high : d ≤ 7) : Opens tzdata window := by
  obtain ⟨start, offset, settled⟩ := z.eventually_fixed
  set first := (LocalTime.mk (start + offset + usPerDay) false).atTime 0 s with first_eq
  obtain ⟨k, -, allowed, -⟩ := exists_allowed window.days listed low high first
  have bounds := read.bounds
  have time : (first.addDays k).wall % usPerDay = s * usPerMinute := by
    simp only [first_eq, LocalTime.atTime, LocalTime.addDays_wall, usPerDay, usPerMinute]
    omega
  have late : start ≤ (first.addDays k).wall - offset := by
    simp only [first_eq, LocalTime.atTime, LocalTime.day, LocalTime.addDays_wall, usPerDay,
      usPerMinute]
    omega
  refine ⟨(first.addDays k).wall - offset, ?_⟩
  rw [isWithinWindow_eq read, settled _ late, Int.sub_add_cancel]
  exact congrArg _ (wallWithin_opening distinct ⟨time, allowed⟩)

/-- Which windows open at all, in any zone. -/
theorem opens_iff (tzdata : String → Option Zone) (window : DeployWindow) :
    Opens tzdata window ↔ ∃ z s e, window.Reads tzdata z s e ∧ s ≠ e ∧
      ∃ d ∈ window.days, 1 ≤ d ∧ d ≤ 7 := by
  refine ⟨Opens.reads, ?_⟩
  rintro ⟨z, s, e, read, distinct, d, listed, low, high⟩
  exact opens_of_reads read distinct listed low high

theorem Shut.outside (shut : Shut tzdata window) (t : Int) :
    isWithinWindow tzdata window t = .ok false := by
  obtain ⟨z, s, e, read⟩ := shut.reads
  have here := isWithinWindow_eq read t
  cases within : wallWithin window.days s e (z.fromUtc t) with
  | false => rwa [within] at here
  | true => exact absurd ⟨t, by rwa [within] at here⟩ shut.never

/-- Whoever asks a window that never opens is put off. -/
theorem Shut.deferral (shut : Shut tzdata window) (now : Int) :
    ∃ next, deferral tzdata (some window) now = .ok (some next) := by
  obtain ⟨decision, decided⟩ := (deferral_ok_iff now).mpr shut.reads
  cases decision with
  | none => exact absurd ⟨now, deferral_eq_none_iff.mp decided⟩ shut.never
  | some next => exact ⟨next, decided⟩

/-! ## Deployments -/

namespace Targets

variable {π : Type} {m : DeployManager} {st : State π} {name : String}

/-- Each hand-over to the target is of a job that the scheduler has run, and each such job has
been handed over, at an instant outside the window. -/
structure HandedLate (tzdata : String → Option Zone) (window : DeployWindow) (name : String)
    (log : List (Entry π)) : Prop where
  late : ∀ h, Entry.handed h ∈ log → h.target = name →
    isWithinWindow tzdata window h.instant = .ok false ∧
      ∃ j, Entry.fired j ∈ log ∧ h = j.handOver h.instant
  all : ∀ j, Entry.fired j ∈ log → j.target = name →
    ∃ instant, j.runDate ≤ instant ∧ Entry.handed (j.handOver instant) ∈ log

theorem deploy_handedLate (shut : Shut tzdata window) (own : m.window name = some window)
    (h : HandedLate tzdata window name st.log) (call : DeployCall π) :
    HandedLate tzdata window name (deploy tzdata m call st).2.log := by
  have fired (j : Job π) : Entry.fired j ∈ (deploy tzdata m call st).2.log ↔
      Entry.fired j ∈ st.log := by
    rw [mem_log_deploy id]
    refine or_iff_left ?_
    rintro ⟨⟨t, _ | next⟩, -, entry⟩ <;> cases entry
  refine ⟨fun g mem target => ?_, fun j ran target => ?_⟩
  · rcases (mem_handed_deploy tzdata m call st g).mp mem with old | ⟨t, now, rfl⟩
    · obtain ⟨outside, j, ran, same⟩ := h.late g old target
      exact ⟨outside, j, (fired j).mpr ran, same⟩
    · obtain ⟨next, deferred⟩ := shut.deferral call.now
      have decided : deferral tzdata (m.window t.name) call.now = .ok none := mem_actions now
      rw [show t.name = name from target, own, deferred] at decided
      cases decided
  · obtain ⟨instant, due, handed⟩ := h.all j ((fired j).mp ran) target
    exact ⟨instant, due, (mem_handed_deploy tzdata m call st _).mpr (.inl handed)⟩

theorem fire_handedLate (shut : Shut tzdata window) (sound : st.Sound m)
    (h : HandedLate tzdata window name st.log) (id : String) (instant : Int) :
    HandedLate tzdata window name (step tzdata m st (.fire id instant)).log := by
  rcases step_fire_cases tzdata m st id instant with same | ⟨j, pending, due⟩
  · rwa [same]
  · rw [step_fire sound pending due]
    refine ⟨fun g mem target => ?_, fun j' ran target => ?_⟩
    · rcases List.mem_append.mp mem with old | new
      · obtain ⟨outside, j', ran, same⟩ := h.late g old target
        exact ⟨outside, j', List.mem_append_left _ ran, same⟩
      · obtain rfl : g = j.handOver instant := by simpa using new
        exact ⟨shut.outside instant, j, by simp, rfl⟩
    · rcases List.mem_append.mp ran with old | new
      · obtain ⟨instant', due', handed⟩ := h.all j' old target
        exact ⟨instant', due', List.mem_append_left _ handed⟩
      · obtain rfl : j' = j := by simpa using new
        exact ⟨instant, due, by simp⟩

theorem miss_handedLate (h : HandedLate tzdata window name st.log) (id : String) (instant : Int) :
    HandedLate tzdata window name (step tzdata m st (.miss id instant)).log := by
  rcases step_miss_cases tzdata m st id instant with same | ⟨j, -, -, after⟩
  · rwa [same]
  · have handed (g : HandOver π) : Entry.handed g ∈ st.log ++ [.missed j] ↔
        Entry.handed g ∈ st.log := by simp
    have fired (j' : Job π) : Entry.fired j' ∈ st.log ++ [.missed j] ↔
        Entry.fired j' ∈ st.log := by simp
    rw [after]
    exact ⟨by simpa only [handed, fired] using h.late, by simpa only [handed, fired] using h.all⟩

theorem run_handedLate (shut : Shut tzdata window) (own : m.window name = some window)
    (calls : List (Event π)) :
    HandedLate tzdata window name (run (step tzdata m) State.initial calls).log := by
  have start : (State.initial : State π).Sound m ∧
      HandedLate tzdata window name (State.initial : State π).log :=
    ⟨initial_sound, by simp [State.initial], by simp [State.initial]⟩
  refine (run_invariant (I := fun st : State π =>
    st.Sound m ∧ HandedLate tzdata window name st.log) ?_ start calls).2
  rintro st event ⟨sound, late⟩
  refine ⟨step_sound sound event, ?_⟩
  cases event with
  | deploy call => exact deploy_handedLate shut own late call
  | fire id instant => exact fire_handedLate shut sound late id instant
  | miss id instant => exact miss_handedLate late id instant

end Targets

/-! ## Renewals -/

namespace Monitor

variable {fromisoformat : String → Option IsoTime} {mon : CertMonitor} {st : State}
  {domain : String}

/-- No command runs, and there is one to run for the jobs, which wait under their own ids. -/
structure Stalled (mon : CertMonitor) (st : State) : Prop where
  still : st.running = []
  keyed : ∀ id j, st.jobs.get? id = some j → id = renewId j.domain
  configured : ∀ id j, st.jobs.get? id = some j → mon.command.isSome

theorem step_stalled (shut : Shut tzdata window) (own : mon.window = some window)
    (h : Stalled mon st) (event : Event) :
    Stalled mon (step fromisoformat tzdata mon st event) := by
  refine ⟨?_, step_keyed h.keyed event, step_configured h.configured event⟩
  rw [step_running]
  split
  · cases event <;> simp [stillRunning, h.still]
  · next domain now tried =>
    obtain ⟨next, deferred⟩ := shut.deferral now
    simp only [renewRunning, own, deferred, h.still]

/-- The event is not one at which the scheduler misses a job of the domain. -/
def SparesJobs (domain : String) (st : State) (event : Event) : Prop :=
  ∀ j : RenewJob, j.domain = domain → missed st event ≠ some j

variable (fromisoformat) in
/-- A job that is not missed leaves the scheduler only for a renewal of its domain. -/
theorem remaining_or_attempt (h : Stalled mon st) (event : Event) {next : Int}
    (reached : missed st event ≠ some ⟨domain, next⟩)
    (waiting : st.jobs.get? (renewId domain) = some ⟨domain, next⟩) :
    (remaining st event).get? (renewId domain) = some ⟨domain, next⟩ ∨
      ∃ now, attempt fromisoformat mon st event = some (domain, now) := by
  cases event with
  | fire id now launch =>
    by_cases same : id = renewId domain
    · subst same
      by_cases due : next ≤ now
      · obtain ⟨command, hcommand⟩ := Option.isSome_iff_exists.mp (h.configured _ _ waiting)
        exact .inr ⟨now, by simp [attempt, hcommand, waiting, due, h.still]⟩
      · exact .inl (by simp [remaining, waiting, due])
    · exact .inl ((remaining_of_ne (Ne.symm same) st now launch).1.trans waiting)
  | miss id now =>
    refine .inl ?_
    by_cases same : id = renewId domain
    · subst same
      have late : ¬ next + misfireGraceTime < now := by simpa [missed, waiting] using reached
      simp [remaining, waiting, late]
    · exact (remaining_of_ne (Ne.symm same) st now (.ok ())).2.trans waiting
  | beginCheck _ | visit _ _ _ _ | finish _ _ _ | renew _ _ _ => exact .inl waiting

/-- A job that is run is put off again, under its own id. -/
theorem step_waits (shut : Shut tzdata window) (own : mon.window = some window)
    (h : Stalled mon st) (event : Event) (reached : SparesJobs domain st event) {next : Int}
    (waiting : st.jobs.get? (renewId domain) = some ⟨domain, next⟩) :
    ∃ next', (step fromisoformat tzdata mon st event).jobs.get? (renewId domain) =
      some ⟨domain, next'⟩ := by
  cases tried : attempt fromisoformat mon st event with
  | none =>
    rcases remaining_or_attempt fromisoformat h event (reached _ rfl) waiting with kept | ran
    · exact ⟨next, by rw [step_jobs, tried]; exact kept⟩
    · obtain ⟨now, ran⟩ := ran
      cases tried.symm.trans ran
  | some attempted =>
    obtain ⟨domain', now⟩ := attempted
    obtain ⟨next', deferred⟩ := shut.deferral now
    by_cases same : domain' = domain
    · subst same
      exact ⟨next', step_schedules tried (by rw [own, deferred])⟩
    · have other : renewId domain ≠ renewId domain' := fun eq => same (renewId_inj eq).symm
      rcases remaining_or_attempt fromisoformat h event (reached _ rfl) waiting with kept | ran
      · refine ⟨next, ?_⟩
        rw [step_jobs, tried]
        simpa [renewJobs, own, deferred, other] using kept
      · obtain ⟨now', ran⟩ := ran
        exact absurd (Prod.mk.inj (Option.some.inj (tried.symm.trans ran))).1 same

/-- No command is running in any state of the run, and each domain whose renewal was attempted is
waiting at its end, unless the scheduler has missed a job of it since. -/
structure NeverRenews (fromisoformat : String → Option IsoTime) (tzdata : String → Option Zone)
    (mon : CertMonitor) (events : List Event) : Prop where
  still : EveryState (step fromisoformat tzdata mon) (fun st => st.running = []) State.initial
    events
  waits : ∀ before event later domain now, events = before ++ event :: later →
    attempt fromisoformat mon (run (step fromisoformat tzdata mon) State.initial before) event =
      some (domain, now) →
    EveryStep (step fromisoformat tzdata mon) (SparesJobs domain)
      (run (step fromisoformat tzdata mon) State.initial (before ++ [event])) later →
    ∃ next, (run (step fromisoformat tzdata mon) State.initial events).jobs.get?
      (renewId domain) = some ⟨domain, next⟩

theorem initial_stalled : Stalled mon State.initial := by
  constructor <;> simp [State.initial]

theorem run_neverRenews (shut : Shut tzdata window) (own : mon.window = some window)
    (events : List Event) : NeverRenews fromisoformat tzdata mon events := by
  have stalled (es : List Event) :
      Stalled mon (run (step fromisoformat tzdata mon) State.initial es) :=
    run_invariant (I := Stalled mon) (fun _ event h => step_stalled shut own h event)
      initial_stalled es
  refine ⟨fun es _ => (stalled es).still, ?_⟩
  rintro before event later domain now rfl tried reached
  obtain ⟨next, deferred⟩ := shut.deferral now
  have scheduled : (step fromisoformat tzdata mon
      (run (step fromisoformat tzdata mon) State.initial before) event).jobs.get?
        (renewId domain) = some ⟨domain, next⟩ := step_schedules tried (by rw [own, deferred])
  rw [run_concat] at reached
  rw [run_append, run_cons]
  refine (EveryStep.invariant (I := fun st => Stalled mon st ∧
    ∃ next, st.jobs.get? (renewId domain) = some ⟨domain, next⟩) ?_
    ⟨step_stalled shut own (stalled before) event, next, scheduled⟩ reached).last.2
  rintro st event ⟨h, next, waiting⟩ spares
  exact ⟨step_stalled shut own h event, step_waits shut own h event spares waiting⟩

end Monitor

/-- A target and the monitor with one window that never opens: every deployment to the target is
handed over late and outside the window, and no renewal is ever started. -/
theorem shut_apart {π : Type} (tzdata : String → Option Zone)
    (fromisoformat : String → Option IsoTime) (window : DeployWindow) (shut : Shut tzdata window)
    (m : Targets.DeployManager) (name : String) (own : m.window name = some window)
    (mon : Monitor.CertMonitor) (own' : mon.window = some window)
    (calls : List (Targets.Event π)) (events : List Monitor.Event) :
    Targets.HandedLate tzdata window name
        (run (Targets.step tzdata m) Targets.State.initial calls).log ∧
      Monitor.NeverRenews fromisoformat tzdata mon events :=
  ⟨Targets.run_handedLate shut own calls, Monitor.run_neverRenews shut own' events⟩

/-! ## A window for no day -/

/-- In business hours of the weekday 0, which is no weekday. -/
def noDay : DeployWindow := ⟨"08:00", "18:00", [0], "UTC"⟩

theorem noDay_shut : Shut onlyUtc noDay := by
  have read : noDay.Reads onlyUtc (.fixed 0) 480 1080 :=
    ⟨rfl, ⟨8, 0, (by decide : readTime "08:00" = .ok (8, 0)), by decide⟩,
      ⟨18, 0, (by decide : readTime "18:00" = .ok (18, 0)), by decide⟩⟩
  refine ⟨⟨_, _, _, read⟩, fun opens => ?_⟩
  obtain ⟨z, s, e, -, -, d, listed, low, -⟩ := opens.reads
  obtain rfl : d = 0 := by simpa [noDay] using listed
  omega

def noDayManager : Targets.DeployManager := .init [⟨"f5", .f5, some noDay⟩]

def noDayMonitor : Monitor.CertMonitor :=
  ⟨some { renewCommand := some "certbot renew", deployWindow := some noDay }, true⟩

/-- Eight in the morning, a fortnight later. -/
def noDayRunDate : Int := 14 * usPerDay + 8 * usPerHour

example : deferral onlyUtc (some noDay) 0 = .ok (some noDayRunDate) := by decide +kernel

/-- A deployment is put off by a fortnight and then fired; a renewal is put off twice, and that of
another domain is missed. -/
theorem shut_apart_noDay :
    Targets.HandedLate onlyUtc noDay "f5" (run (Targets.step onlyUtc noDayManager)
        Targets.State.initial
        [.deploy ⟨"example.com", (), (), none, 0, fun _ => .error ""⟩,
          .fire "deploy-f5-example.com" (noDayRunDate + 500000)]).log ∧
      Monitor.NeverRenews (fun _ => none) onlyUtc noDayMonitor
        [.renew "example.com" 0 (.ok ()), .renew "example.org" 0 (.ok ()),
          .fire "renew-example.com" noDayRunDate (.ok ()),
          .miss "renew-example.org" (noDayRunDate + 2000000)] :=
  shut_apart onlyUtc (fun _ => none) noDay noDay_shut noDayManager "f5" (by decide) noDayMonitor
    (by decide) _ _

end AcmeGitWebhook
