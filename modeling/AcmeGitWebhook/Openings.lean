import AcmeGitWebhook.Monitor.CertMonitor
import AcmeGitWebhook.Targets.Manager

/-!
# Deferred work and the window it waits for

A deferral resolves the next opening on the wall clock to an instant. `Honoured` says that
this instant reads back as a wall time inside the window, which a zone that never changes
its offset always grants (`honoured_fixed`) and an opening in a daylight-saving gap need
not. `insideWindows_iff` shows that this is all there is: when jobs fire exactly at their
run dates, every deployment falls inside its target's window and no renewal is deferred
twice, exactly in the runs whose deferrals are all honoured.
-/

namespace AcmeGitWebhook

open Library

/-- The window is open at some instant. -/
def Opens (tzdata : String → Option Zone) (window : DeployWindow) : Prop :=
  ∃ t, isWithinWindow tzdata window t = .ok true

/-- The next opening after `now`, resolved to an instant, is inside the window. -/
def Honoured (tzdata : String → Option Zone) (window : DeployWindow) (now : Int) : Prop :=
  ∀ z s e, window.Reads tzdata z s e →
    ∀ o, NextOpening window.days s (z.fromUtc now).wall o →
      wallWithin window.days s e (z.fromUtc (z.toUtc ⟨o, openingFold (z.fromUtc now) o⟩)) = true

variable {tzdata : String → Option Zone} {window : DeployWindow} {z : Zone} {s e now next : Int}

theorem DeployWindow.Reads.unique {z' : Zone} {s' e' : Int} (h : window.Reads tzdata z s e)
    (h' : window.Reads tzdata z' s' e') : z' = z ∧ s' = s ∧ e' = e := by
  obtain ⟨zone, ⟨sh, sm, hs, rfl, -⟩, ⟨eh, em, he, rfl, -⟩⟩ := h
  obtain ⟨zone', ⟨sh', sm', hs', rfl, -⟩, ⟨eh', em', he', rfl, -⟩⟩ := h'
  obtain rfl : z = z' := by simpa [zone] using zone'
  obtain ⟨rfl, rfl⟩ : sh = sh' ∧ sm = sm' := by simpa [hs] using hs'
  obtain ⟨rfl, rfl⟩ : eh = eh' ∧ em = em' := by simpa [he] using he'
  exact ⟨rfl, rfl, rfl⟩

theorem Opens.reads (opens : Opens tzdata window) : ∃ z s e, window.Reads tzdata z s e ∧
    s ≠ e ∧ ∃ d ∈ window.days, 1 ≤ d ∧ d ≤ 7 := by
  obtain ⟨t, open_⟩ := opens
  obtain ⟨z, s, e, read, within⟩ := reads_of_isWithinWindow open_
  exact ⟨z, s, e, read, opens_of_wallWithin within⟩

/-- The window test of a window that opens returns. -/
theorem Opens.deferral (opens : Opens tzdata window) (now : Int) :
    ∃ decision, deferral tzdata (some window) now = .ok decision := by
  obtain ⟨z, s, e, read, -⟩ := opens.reads
  exact (deferral_ok_iff now).mpr ⟨z, s, e, read⟩

theorem honoured_iff (opens : Opens tzdata window)
    (deferred : deferral tzdata (some window) now = .ok (some next)) :
    isWithinWindow tzdata window next = .ok true ↔ Honoured tzdata window now := by
  obtain ⟨z, s, e, read, distinct, d, hd, low, high⟩ := opens.reads
  obtain ⟨outside, start⟩ := deferral_eq_some_iff.mp deferred
  obtain ⟨o, first, resolved⟩ := nextWindowStart_eq read hd low high outside
  obtain rfl : next = _ := Except.ok.inj (start.symm.trans resolved)
  rw [isWithinWindow_eq read, Except.ok.injEq]
  constructor
  · intro within z' s' e' read' o' first'
    obtain ⟨rfl, rfl, rfl⟩ := read.unique read'
    rw [first'.unique first]
    exact within
  · exact fun honoured => honoured z s e read o first

/-- An opening that the clock shows when it is reached is honoured. -/
theorem honoured_of_shown (opens : Opens tzdata window) (read : window.Reads tzdata z s e)
    (shown : ∀ l : LocalTime, (z.fromUtc (z.toUtc l)).wall = l.wall) :
    Honoured tzdata window now := by
  obtain ⟨z', s', e', read', distinct, -⟩ := opens.reads
  obtain ⟨rfl, rfl, rfl⟩ := read.unique read'
  intro z s e read' o first
  obtain ⟨rfl, rfl, rfl⟩ := read.unique read'
  have wall := shown ⟨o, openingFold (z.fromUtc now) o⟩
  generalize z.fromUtc (z.toUtc ⟨o, openingFold (z.fromUtc now) o⟩) = l at wall ⊢
  obtain ⟨w, fold⟩ := l
  obtain rfl : w = o := wall
  exact wallWithin_opening distinct first.1

theorem honoured_fixed {offset : Int} (opens : Opens tzdata window)
    (zone : tzdata window.timezone = some (.fixed offset)) : Honoured tzdata window now := by
  obtain ⟨z, s, e, read, -⟩ := opens.reads
  obtain rfl : z = .fixed offset := by simpa [zone, eq_comm] using read.zone
  exact honoured_of_shown opens read (Zone.fixed_fromUtc_toUtc offset)

/-! ## Deployments -/

namespace Targets

variable {π : Type} {m : DeployManager} {st : State π} {call : DeployCall π}

/-- Every hand-over so far happened inside its target's window. -/
def InsideWindow (tzdata : String → Option Zone) (m : DeployManager) (log : List (Entry π)) :
    Prop :=
  ∀ h, Entry.handed h ∈ log → ∀ window, m.window h.target = some window →
    isWithinWindow tzdata window h.instant = .ok true

/-- So does that of each pending job that fires at its run date. -/
def StaysInside (tzdata : String → Option Zone) (m : DeployManager) (st : State π) : Prop :=
  InsideWindow tzdata m st.log ∧ ∀ id j, st.jobs.get? id = some j →
    InsideWindow tzdata m (step tzdata m st (.fire id j.runDate)).log

/-- A job that fires, fires exactly at its run date. -/
def Punctual (st : State π) : Event π → Prop
  | .deploy _ | .miss _ _ => True
  | .fire id instant => ∀ j, st.jobs.get? id = some j → instant = j.runDate

/-- Whatever the event defers is honoured by its target's window. -/
def DefersHonoured (tzdata : String → Option Zone) (m : DeployManager) (_ : State π) :
    Event π → Prop
  | .deploy call => ∀ t next, (t, some next) ∈ m.actions tzdata call →
      ∀ window, m.window t.name = some window → Honoured tzdata window call.now
  | .fire _ _ | .miss _ _ => True

/-- The invariant: hand-overs are inside their windows, and so are the run dates. -/
structure OnTime (tzdata : String → Option Zone) (m : DeployManager) (st : State π) : Prop where
  sound : st.Sound m
  inside : InsideWindow tzdata m st.log
  pending : ∀ id j, st.jobs.get? id = some j → ∀ window, m.window j.target = some window →
    isWithinWindow tzdata window j.runDate = .ok true

theorem staysInside_iff_onTime (sound : st.Sound m) :
    StaysInside tzdata m st ↔ OnTime tzdata m st := by
  constructor
  · rintro ⟨inside, next⟩
    refine ⟨sound, inside, fun id j pending => ?_⟩
    have fired := next id j pending
    rw [step_fire sound pending (le_refl _)] at fired
    exact fired (j.handOver j.runDate) (by simp)
  · intro onTime
    refine ⟨onTime.inside, fun id j pending h mem => ?_⟩
    rw [step_fire sound pending (le_refl _)] at mem
    rcases List.mem_append.mp mem with old | new
    · exact onTime.inside h old
    · obtain rfl : h = j.handOver j.runDate := by simpa using new
      exact onTime.pending id j pending

theorem fire_onTime (onTime : OnTime tzdata m st) {id : String} {instant : Int}
    (punctual : Punctual st (.fire id instant)) :
    OnTime tzdata m (step tzdata m st (.fire id instant)) := by
  rcases step_fire_cases tzdata m st id instant with same | ⟨j, pending, due⟩
  · rw [same]
    exact onTime
  · obtain rfl := punctual j pending
    refine ⟨step_sound onTime.sound _,
      ((staysInside_iff_onTime onTime.sound).mpr onTime).2 id j pending, fun id' j' pending' => ?_⟩
    rw [step_fire onTime.sound pending due] at pending'
    exact onTime.pending id' j' (get?_of_erase pending').2

theorem miss_onTime (onTime : OnTime tzdata m st) (id : String) (instant : Int) :
    OnTime tzdata m (step tzdata m st (.miss id instant)) := by
  rcases step_miss_cases tzdata m st id instant with same | ⟨j, -, -, after⟩
  · rw [same]
    exact onTime
  · refine ⟨step_sound onTime.sound _, ?_, fun id' j' pending => ?_⟩
    · rw [after]
      exact fun h mem => onTime.inside h (by simpa using mem)
    · rw [after] at pending
      exact onTime.pending id' j' (get?_of_erase pending).2

theorem deploy_onTime_iff (opens : ∀ name window, m.window name = some window → Opens tzdata window)
    (onTime : OnTime tzdata m st) : OnTime tzdata m (step tzdata m st (.deploy call)) ↔
      DefersHonoured tzdata m st (.deploy call) := by
  have decided : ∀ t next, (t, some next) ∈ m.actions tzdata call → ∀ window,
      m.window t.name = some window →
      (isWithinWindow tzdata window next = .ok true ↔ Honoured tzdata window call.now) := by
    intro t next mem window hwindow
    have decision : deferral tzdata (m.window t.name) call.now = .ok (some next) := mem_actions mem
    exact honoured_iff (opens t.name window hwindow) (by rwa [← hwindow])
  constructor
  · intro after t next mem window hwindow
    exact (decided t next mem window hwindow).mp
      (after.pending _ _ (deploy_schedules mem) window hwindow)
  · intro honoured
    refine ⟨step_sound onTime.sound _, fun h mem window hwindow => ?_,
      fun id j pending window hwindow => ?_⟩
    · rcases (mem_handed_deploy tzdata m call st h).mp mem with old | ⟨t, now, rfl⟩
      · exact onTime.inside h old window hwindow
      · have decision : deferral tzdata (m.window t.name) call.now = .ok none := mem_actions now
        rw [show m.window t.name = some window from hwindow] at decision
        exact deferral_eq_none_iff.mp decision
    · rcases deploy_jobs pending with old | ⟨t, next, mem, rfl, -⟩
      · exact onTime.pending id j old window hwindow
      · exact (decided t next mem window hwindow).mpr (honoured t next mem window hwindow)

theorem staysInside_iff (opens : ∀ name window, m.window name = some window → Opens tzdata window)
    (es : List (Event π)) (punctual : EveryStep (step tzdata m) Punctual State.initial es) :
    EveryState (step tzdata m) (StaysInside tzdata m) State.initial es ↔
      EveryStep (step tzdata m) (DefersHonoured tzdata m) State.initial es := by
  have exact_step : ∀ st event, OnTime tzdata m st → Punctual st event →
      (OnTime tzdata m (step tzdata m st event) ↔ DefersHonoured (π := π) tzdata m st event) := by
    intro st event onTime punctual
    cases event with
    | deploy call => exact deploy_onTime_iff opens onTime
    | fire id instant => exact iff_of_true (fire_onTime onTime punctual) trivial
    | miss id instant => exact iff_of_true (miss_onTime onTime id instant) trivial
  have start : OnTime tzdata m (State.initial : State π) :=
    ⟨initial_sound, by simp [InsideWindow, State.initial], by simp [State.initial]⟩
  rw [← everyState_iff_everyStep exact_step start punctual]
  exact forall₂_congr fun pre _ => staysInside_iff_onTime (run_sound pre)

end Targets

/-! ## Renewals -/

namespace Monitor

variable {fromisoformat : String → Option IsoTime} {mon : CertMonitor} {st : State}

def deferrals (log : List Entry) : Nat :=
  log.countP fun
    | .deferred _ => true
    | _ => false

/-- No pending renewal is deferred again when the scheduler runs it at its run date. -/
def NotDeferredAgain (tzdata : String → Option Zone) (mon : CertMonitor) (st : State) : Prop :=
  ∀ id j, st.jobs.get? id = some j → ∀ launch,
    deferrals (fireJob tzdata mon id j j.runDate launch st).log = deferrals st.log

/-- A renewal that the event attempts outside the window is honoured by it. -/
def DefersHonoured (fromisoformat : String → Option IsoTime) (tzdata : String → Option Zone)
    (mon : CertMonitor) (st : State) (event : Event) : Prop :=
  ∀ domain now, attempt fromisoformat mon st event = some (domain, now) →
    ∀ window, mon.window = some window → isWithinWindow tzdata window now = .ok false →
      Honoured tzdata window now

/-- The invariant: there is a command to run, and the run dates are inside the window. -/
structure OnTime (tzdata : String → Option Zone) (mon : CertMonitor) (st : State) : Prop where
  configured : ∀ id j, st.jobs.get? id = some j → mon.command.isSome
  pending : ∀ id j, st.jobs.get? id = some j → ∀ window, mon.window = some window →
    isWithinWindow tzdata window j.runDate = .ok true

theorem step_configured (configured : ∀ id j, st.jobs.get? id = some j → mon.command.isSome)
    (event : Event) (id : String) (j : RenewJob)
    (pending : (step fromisoformat tzdata mon st event).jobs.get? id = some j) :
    mon.command.isSome := by
  rcases step_pending pending with old | ⟨now, tried, -⟩
  · exact configured id j old
  · exact attempt_command tried

theorem fire_deferrals_iff {id : String} {j : RenewJob} {launch : Except PyError Unit}
    {command : String} (hcommand : mon.command = some command) :
    deferrals (fireJob tzdata mon id j j.runDate launch st).log =
      deferrals st.log ↔ ∀ next, deferral tzdata mon.window j.runDate ≠ .ok (some next) := by
  simp only [fireJob, runRenew_eq hcommand]
  rcases deferral tzdata mon.window j.runDate with err | (_ | next)
  · simp [settle, State.record, deferrals, List.countP_append]
  · cases launch <;> simp [settle, State.record, deferrals, List.countP_append]
  · simp [settle, deferRenew, State.record, deferrals, List.countP_append]

theorem notDeferredAgain_iff_onTime
    (opens : ∀ window, mon.window = some window → Opens tzdata window)
    (configured : ∀ id j, st.jobs.get? id = some j → mon.command.isSome) :
    NotDeferredAgain tzdata mon st ↔ OnTime tzdata mon st := by
  have inside : ∀ id j, st.jobs.get? id = some j → ∀ launch,
      (deferrals (fireJob tzdata mon id j j.runDate launch st).log =
        deferrals st.log ↔ ∀ window, mon.window = some window →
          isWithinWindow tzdata window j.runDate = .ok true) := by
    intro id j pending launch
    obtain ⟨command, hcommand⟩ := Option.isSome_iff_exists.mp (configured id j pending)
    rw [fire_deferrals_iff hcommand]
    cases hwindow : mon.window with
    | none => simp
    | some window =>
      obtain ⟨decision, decided⟩ := (opens window hwindow).deferral j.runDate
      rw [decided]
      cases decision with
      | none => simp [deferral_eq_none_iff.mp decided]
      | some next => simp [(deferral_eq_some_iff.mp decided).1]
  constructor
  · intro once
    exact ⟨configured, fun id j pending => (inside id j pending (.ok ())).mp (once id j pending _)⟩
  · intro onTime id j pending launch
    exact (inside id j pending launch).mpr (onTime.pending id j pending)

theorem step_onTime_iff (opens : ∀ window, mon.window = some window → Opens tzdata window)
    (onTime : OnTime tzdata mon st) (event : Event) :
    OnTime tzdata mon (step fromisoformat tzdata mon st event) ↔
      DefersHonoured fromisoformat tzdata mon st event := by
  constructor
  · intro after domain now tried window hwindow outside
    obtain ⟨decision, decided⟩ := (opens window hwindow).deferral now
    cases decision with
    | none => simp [deferral_eq_none_iff.mp decided] at outside
    | some next =>
      have scheduled := step_schedules tried (by rw [hwindow, decided])
      exact (honoured_iff (opens window hwindow) decided).mp
        (after.pending _ _ scheduled window hwindow)
  · intro honoured
    refine ⟨step_configured onTime.configured event, fun id j pending window hwindow => ?_⟩
    rcases step_pending pending with old | ⟨now, tried, decided⟩
    · exact onTime.pending id j old window hwindow
    · rw [hwindow] at decided
      have outside := (deferral_eq_some_iff.mp decided).1
      exact (honoured_iff (opens window hwindow) decided).mpr
        (honoured j.domain now tried window hwindow outside)

theorem notDeferredAgain_iff (opens : ∀ window, mon.window = some window → Opens tzdata window)
    (es : List Event) :
    EveryState (step fromisoformat tzdata mon) (NotDeferredAgain tzdata mon)
        State.initial es ↔
      EveryStep (step fromisoformat tzdata mon) (DefersHonoured fromisoformat tzdata mon)
        State.initial es := by
  have start : OnTime tzdata mon State.initial := by
    constructor <;> simp [State.initial]
  have exact_step : ∀ st event, OnTime tzdata mon st → True →
      (OnTime tzdata mon (step fromisoformat tzdata mon st event) ↔
        DefersHonoured fromisoformat tzdata mon st event) :=
    fun _ event onTime _ => step_onTime_iff opens onTime event
  rw [← everyState_iff_everyStep exact_step start (everyStep_true _ _)]
  refine forall₂_congr fun pre _ => notDeferredAgain_iff_onTime opens ?_
  exact run_invariant (I := fun st : State => ∀ id j, st.jobs.get? id = some j → mon.command.isSome)
    (fun _ event configured => step_configured configured event) (by simp [State.initial]) pre

end Monitor

/-- Deployments and renewals together: given that every window opens and that jobs fire
exactly at their run dates, all keep to their windows exactly when every deferral is honoured. -/
theorem insideWindows_iff {π : Type} (tzdata : String → Option Zone)
    (fromisoformat : String → Option IsoTime) (m : Targets.DeployManager)
    (mon : Monitor.CertMonitor)
    (opens : ∀ name window, m.window name = some window → Opens tzdata window)
    (monOpens : ∀ window, mon.window = some window → Opens tzdata window)
    (calls : List (Targets.Event π)) (events : List Monitor.Event)
    (punctual : EveryStep (Targets.step tzdata m) Targets.Punctual .initial calls) :
    (EveryState (Targets.step tzdata m) (Targets.StaysInside tzdata m) .initial calls ↔
      EveryStep (Targets.step tzdata m) (Targets.DefersHonoured tzdata m) .initial calls) ∧
    (EveryState (Monitor.step fromisoformat tzdata mon)
        (Monitor.NotDeferredAgain tzdata mon) .initial events ↔
      EveryStep (Monitor.step fromisoformat tzdata mon)
        (Monitor.DefersHonoured fromisoformat tzdata mon) .initial events) :=
  ⟨Targets.staysInside_iff opens calls punctual, Monitor.notDeferredAgain_iff monOpens events⟩

/-- Paris around the change to summer time on 29 March 2026, at one in the morning UTC. -/
def parisSpring (key : String) : Option Zone :=
  if key = "Europe/Paris" then
    some ⟨usPerHour, [(1774746000000000, 2 * usPerHour)], List.pairwise_singleton _ _⟩
  else none

def gapWindow : DeployWindow := ⟨"02:00", "03:00", [7], "Europe/Paris"⟩

def gapManager : Targets.DeployManager := .init [⟨"f5", .f5, some gapWindow⟩]

def gapMonitor : Monitor.CertMonitor :=
  ⟨some { renewCommand := some "renew {domain}", deployWindow := some gapWindow }, true⟩

/-- A call at half past midnight in Paris, and its job at the date it was given. -/
def gapCalls : List (Targets.Event String) :=
  [.deploy ⟨"example.com", "A", "A", none, 1774740600000000, fun _ => .error ""⟩,
    .fire "deploy-f5-example.com" 1774746000000000]

/-- A renewal at half past midnight, its job at the date it was given, and the job that this
one has become at its own, a week later. -/
def gapRenewals : List Monitor.Event :=
  [.renew "example.com" 1774740600000000 (.ok ()),
    .fire "renew-example.com" 1774746000000000 (.ok ()),
    .fire "renew-example.com" (1774746000000000 + 7 * usPerDay - usPerHour) (.ok ())]

theorem gapWindow_opens : Opens parisSpring gapWindow :=
  ⟨1774746000000000 - 7 * usPerDay, by decide +kernel⟩

theorem gapManager_opens (name : String) (window : DeployWindow)
    (h : gapManager.window name = some window) : Opens parisSpring window := by
  by_cases named : name = "f5"
  · subst named
    obtain rfl : gapWindow = window := Option.some.inj h
    exact gapWindow_opens
  · have absent : gapManager.window name = none := by
      simp [gapManager, Targets.DeployManager.window, Targets.DeployManager.init,
        Targets.DeployManager.register, Targets.buildTarget, Dict.set, Dict.get?, Ne.symm named]
    simp [absent] at h

theorem gapCalls_punctual : EveryStep (Targets.step parisSpring gapManager) Targets.Punctual
    .initial gapCalls := by
  simp only [gapCalls, everyStep_cons, everyStep_nil, and_true]
  refine ⟨trivial, fun j pending => ?_⟩
  have job : (Targets.step parisSpring gapManager .initial gapCalls[0]).jobs.get?
      "deploy-f5-example.com" =
        some ⟨"f5", "example.com", "A", "A", 1774746000000000, 0⟩ := by decide +kernel
  obtain rfl := Option.some.inj (job.symm.trans pending)
  rfl

theorem insideWindows_iff_gap :
    (EveryState (Targets.step parisSpring gapManager) (Targets.StaysInside parisSpring gapManager)
        .initial gapCalls ↔
      EveryStep (Targets.step parisSpring gapManager)
        (Targets.DefersHonoured parisSpring gapManager) .initial gapCalls) ∧
    (EveryState (Monitor.step (fun _ => none) parisSpring gapMonitor)
        (Monitor.NotDeferredAgain parisSpring gapMonitor) .initial gapRenewals ↔
      EveryStep (Monitor.step (fun _ => none) parisSpring gapMonitor)
        (Monitor.DefersHonoured (fun _ => none) parisSpring gapMonitor) .initial gapRenewals) :=
  insideWindows_iff parisSpring (fun _ => none) gapManager gapMonitor gapManager_opens
    (fun _ h => Option.some.inj h ▸ gapWindow_opens) gapCalls gapRenewals gapCalls_punctual

/-- The job runs as the clock jumps from two to three, when the window has closed. -/
theorem deploys_outside : ¬ Targets.InsideWindow parisSpring gapManager
    (run (Targets.step parisSpring gapManager) .initial gapCalls).log := by
  intro inside
  have closed := inside ⟨"f5", "example.com", "A", "A", 1774746000000000, 0⟩ (by decide +kernel)
    gapWindow (by decide +kernel)
  revert closed
  decide +kernel

end AcmeGitWebhook
