import AcmeGitWebhook.Library.WallClock
import AcmeGitWebhook.Python

/-!
# Deploy windows

`DeployWindow`, `is_within_window` and `next_window_start` of `app/config.py`. The
IANA database behind `ZoneInfo` is the parameter `tzdata`. Instants are
microseconds; the years 1 to 9999 to which `datetime` is limited are not modelled.

`Reads` says that the window's strings are well formed. For such a window the two
functions are computed on the wall clock: `isWithinWindow_eq` and
`nextWindowStart_eq` are what later modules use instead of their bodies.
-/

namespace AcmeGitWebhook

open Library

/-- Start and end are `HH:MM` strings that nothing validates when the file is loaded. -/
structure DeployWindow where
  start : String
  end_ : String
  days : List Int := [1, 2, 3, 4, 5, 6, 7]
  timezone : String := "UTC"
  deriving DecidableEq, Repr

/-- `h, m = map(int, text.split(":"))`. -/
def readTime (text : String) : Except PyError (Int × Int) :=
  match text.toList.splitOn ':' with
  | [h, m] =>
    match Python.int h, Python.int m with
    | some h, some m => .ok (h, m)
    | _, _ => .error (.valueError "")
  | _ => .error (.valueError "")

/-- `datetime.replace(hour=h, minute=m)` of the day's midnight. -/
def replaceTime (l : LocalTime) (time : Int × Int) : Except PyError LocalTime :=
  if 0 ≤ time.1 ∧ time.1 < 24 ∧ 0 ≤ time.2 ∧ time.2 < 60 then .ok (l.atTime time.1 time.2)
  else .error (.valueError "")

variable (tzdata : String → Option Zone)

/-- `ZoneInfo(key)`. -/
def zoneInfo (key : String) : Except PyError Zone :=
  match tzdata key with
  | some z => .ok z
  | none => .error (.zoneInfoNotFoundError key)

def windowStartEnd (window : DeployWindow) (dt : Int) :
    Except PyError (LocalTime × LocalTime) := do
  let tz ← zoneInfo tzdata window.timezone
  let loc := tz.fromUtc dt
  let startTime ← readTime window.start
  let endTime ← readTime window.end_
  let winStart ← replaceTime loc startTime
  let winEnd ← replaceTime loc endTime
  return (winStart, winEnd)

/-- Comparisons are between local times of one zone object, which `datetime` makes on the
wall clock alone. -/
def isWithinWindow (window : DeployWindow) (dt : Int) : Except PyError Bool := do
  let tz ← zoneInfo tzdata window.timezone
  let loc := tz.fromUtc dt
  if loc.isoweekday ∉ window.days then
    return false
  else
    let (winStart, winEnd) ← windowStartEnd tzdata window dt
    let (startH, startM) ← readTime window.start
    let (endH, endM) ← readTime window.end_
    let wraps := decide (startH > endH) || (decide (startH = endH) && decide (startM > endM))
    if wraps then
      return decide (loc.wall ≥ winStart.wall) || decide (loc.wall < winEnd.wall)
    else
      return decide (winStart.wall ≤ loc.wall) && decide (loc.wall < winEnd.wall)

def nextWindowStart (window : DeployWindow) (dt : Int) : Except PyError Int := do
  if ← isWithinWindow tzdata window dt then
    return dt
  else
    let tz ← zoneInfo tzdata window.timezone
    let loc := tz.fromUtc dt
    let (winStart, _) ← windowStartEnd tzdata window dt
    let localMins := loc.hour * 60 + loc.minute
    let startMins := winStart.hour * 60 + winStart.minute
    let (endH, endM) ← readTime window.end_
    let endMins := endH * 60 + endM
    let wraps := decide (startMins > endMins)
    let candidate :=
      if wraps || decide (localMins < startMins) then winStart else winStart.addDays 1
    return tz.toUtc (firstAllowed window.days 14 candidate)

/-- The `misfire_grace_time` of the schedulers, left at its default of a second: a job that is
reached later than this after its run date is dropped without being run. -/
def misfireGraceTime : Int := 1000000

/-- The window test that deployments and renewals share: `none` to go ahead, or the instant
to defer to. -/
def deferral (window : Option DeployWindow) (now : Int) : Except PyError (Option Int) :=
  match window with
  | none => .ok none
  | some window => do
    if ← isWithinWindow tzdata window now then
      return none
    else
      return some (← nextWindowStart tzdata window now)

/-- A database that knows UTC alone. -/
def onlyUtc (key : String) : Option Zone := if key = "UTC" then some (.fixed 0) else none

/-! ## Well-formed windows -/

/-- The window names a known zone, and its start and end are minutes `s` and `e` of a day. -/
structure DeployWindow.Reads (window : DeployWindow) (z : Zone) (s e : Int) : Prop where
  zone : tzdata window.timezone = some z
  start : ∃ h m, readTime window.start = .ok (h, m) ∧ s = h * 60 + m ∧
    0 ≤ h ∧ h < 24 ∧ 0 ≤ m ∧ m < 60
  end_ : ∃ h m, readTime window.end_ = .ok (h, m) ∧ e = h * 60 + m ∧
    0 ≤ h ∧ h < 24 ∧ 0 ≤ m ∧ m < 60

/-- The window as a set of wall times: on a listed weekday, from the start up to the end,
or, when the end is the earlier one, from the start on and up to the end. -/
def wallWithin (days : List Int) (s e : Int) (l : LocalTime) : Bool :=
  decide (l.isoweekday ∈ days) &&
    if e < s then decide (s ≤ l.minuteOfDay) || decide (l.minuteOfDay < e)
    else decide (s ≤ l.minuteOfDay) && decide (l.minuteOfDay < e)

variable {tzdata} {window : DeployWindow} {z : Zone} {s e : Int}

theorem DeployWindow.Reads.bounds (h : window.Reads tzdata z s e) :
    (0 ≤ s ∧ s < 1440) ∧ 0 ≤ e ∧ e < 1440 := by
  obtain ⟨_, ⟨_, _, _, rfl, _⟩, ⟨_, _, _, rfl, _⟩⟩ := h
  omega

theorem windowStartEnd_eq (h : window.Reads tzdata z s e) (dt : Int) :
    windowStartEnd tzdata window dt =
      .ok ((z.fromUtc dt).atTime 0 s, (z.fromUtc dt).atTime 0 e) := by
  obtain ⟨zone, ⟨sh, sm, hs, rfl, s1, s2, s3, s4⟩, ⟨eh, em, he, rfl, e1, e2, e3, e4⟩⟩ := h
  simp [windowStartEnd, zoneInfo, zone, hs, he, replaceTime, s1, s2, s3, s4, e1, e2, e3, e4,
    LocalTime.atTime, bind, Except.bind, pure, Except.pure]

theorem isWithinWindow_eq (h : window.Reads tzdata z s e) (dt : Int) :
    isWithinWindow tzdata window dt = .ok (wallWithin window.days s e (z.fromUtc dt)) := by
  have both := windowStartEnd_eq h dt
  obtain ⟨zone, ⟨sh, sm, hs, rfl, s1, s2, s3, s4⟩, ⟨eh, em, he, rfl, e1, e2, e3, e4⟩⟩ := h
  have start : ((z.fromUtc dt).atTime 0 (sh * 60 + sm)).wall ≤ (z.fromUtc dt).wall ↔
      sh * 60 + sm ≤ (z.fromUtc dt).minuteOfDay := by
    have := LocalTime.lt_atTime_iff (z.fromUtc dt) 0 (sh * 60 + sm)
    omega
  have close : (z.fromUtc dt).wall < ((z.fromUtc dt).atTime 0 (eh * 60 + em)).wall ↔
      (z.fromUtc dt).minuteOfDay < eh * 60 + em := by
    have := LocalTime.lt_atTime_iff (z.fromUtc dt) 0 (eh * 60 + em)
    omega
  have wraps : (decide (sh > eh) || (decide (sh = eh) && decide (sm > em))) =
      decide (eh * 60 + em < sh * 60 + sm) := by
    rw [Bool.eq_iff_iff]
    simp only [Bool.or_eq_true, Bool.and_eq_true, decide_eq_true_eq]
    omega
  simp only [isWithinWindow, zoneInfo, zone, both, hs, he, bind, Except.bind, pure, Except.pure,
    wraps, start, close, wallWithin]
  by_cases listed : (z.fromUtc dt).isoweekday ∈ window.days
  · by_cases late : eh * 60 + em < sh * 60 + sm <;> simp [listed, late]
  · simp [listed]

theorem reads_of_windowStartEnd {dt : Int} {both : LocalTime × LocalTime}
    (h : windowStartEnd tzdata window dt = .ok both) : ∃ z s e, window.Reads tzdata z s e := by
  simp only [windowStartEnd, zoneInfo, replaceTime, bind, Except.bind] at h
  cases zone : tzdata window.timezone with
  | none => simp [zone] at h
  | some z =>
    cases hs : readTime window.start with
    | error err => simp [zone, hs] at h
    | ok start =>
      cases he : readTime window.end_ with
      | error err => simp [zone, hs, he] at h
      | ok close =>
        by_cases inS : 0 ≤ start.1 ∧ start.1 < 24 ∧ 0 ≤ start.2 ∧ start.2 < 60
        · by_cases inE : 0 ≤ close.1 ∧ close.1 < 24 ∧ 0 ≤ close.2 ∧ close.2 < 60
          · exact ⟨z, _, _, zone, ⟨_, _, hs, rfl, inS⟩, ⟨_, _, he, rfl, inE⟩⟩
          · simp [zone, hs, he, inS, inE] at h
        · simp [zone, hs, he, inS] at h

/-- A window that evaluates to open at some instant is well formed and is open on the wall
clock then. -/
theorem reads_of_isWithinWindow {dt : Int} (h : isWithinWindow tzdata window dt = .ok true) :
    ∃ z s e, window.Reads tzdata z s e ∧ wallWithin window.days s e (z.fromUtc dt) = true := by
  have read : ∃ z s e, window.Reads tzdata z s e := by
    cases both : windowStartEnd tzdata window dt with
    | ok both' => exact reads_of_windowStartEnd both
    | error err =>
      -- an unlisted weekday answers `false`, and on a listed one the error comes through
      simp only [isWithinWindow, both, bind, Except.bind] at h
      cases zone : zoneInfo tzdata window.timezone with
      | error err' => simp [zone] at h
      | ok z => by_cases listed : (z.fromUtc dt).isoweekday ∈ window.days <;>
          simp [zone, listed, pure, Except.pure] at h
  obtain ⟨z, s, e, read⟩ := read
  rw [isWithinWindow_eq read] at h
  exact ⟨z, s, e, read, by simpa using h⟩

/-- Such a window has distinct start and end, and a weekday that exists. -/
theorem opens_of_wallWithin {l : LocalTime} (h : wallWithin window.days s e l = true) :
    s ≠ e ∧ ∃ d ∈ window.days, 1 ≤ d ∧ d ≤ 7 := by
  simp only [wallWithin, Bool.and_eq_true, decide_eq_true_eq] at h
  refine ⟨?_, l.isoweekday, h.1, ?_⟩
  · rintro rfl
    have := h.2
    simp at this
    omega
  · simp only [LocalTime.isoweekday]
    omega

/-- Every opening on the wall clock is inside the window. -/
theorem wallWithin_opening {o : Int} {fold : Bool} (distinct : s ≠ e)
    (h : IsOpening window.days s o) : wallWithin window.days s e ⟨o, fold⟩ = true := by
  have time : (LocalTime.mk o fold).minuteOfDay = s := by
    have := h.1
    simp only [LocalTime.minuteOfDay, usPerDay, usPerMinute] at this ⊢
    omega
  have listed : (LocalTime.mk o fold).isoweekday ∈ window.days := h.2
  simp only [wallWithin, listed, time]
  by_cases late : e < s
  · simp [late]
  · have : s < e := by omega
    simp [late, this]

/-- The start time of today, or of tomorrow when today's has passed, from which
`next_window_start` searches. -/
theorem search_nextOpening {days : List Int} {d : Int} {l c : LocalTime} (hd : d ∈ days)
    (low : 1 ≤ d) (high : d ≤ 7) (bounds : 0 ≤ s ∧ s < 1440)
    (closed : wallWithin days s e l = false)
    (candidate : (c = l.atTime 0 s ∧ (e < s ∨ l.minuteOfDay < s)) ∨
      (c = (l.atTime 0 s).addDays 1 ∧ ¬ e < s ∧ ¬ l.minuteOfDay < s)) :
    ∃ o, NextOpening days s l.wall o ∧ firstAllowed days 14 c = ⟨o, openingFold l o⟩ := by
  have ahead := LocalTime.lt_atTime_iff l 0 s
  have time : (l.atTime 0 s).wall % usPerDay = s * usPerMinute := by
    simp only [LocalTime.atTime, usPerDay, usPerMinute]
    omega
  have sameDay : (l.atTime 0 s).day = l.day := LocalTime.atTime_day l (by omega) (by omega)
  have near : (l.atTime 0 s).wall - usPerDay ≤ l.wall ∧
      l.wall < (l.atTime 0 s).wall + usPerDay := by
    simp only [LocalTime.atTime, LocalTime.day, usPerDay, usPerMinute]
    omega
  rcases candidate with ⟨rfl, wraps⟩ | ⟨rfl, late, past⟩
  · refine firstAllowed_nextOpening hd low high time (fun listed => ?_) near sameDay.ge ?_
    · -- on a listed day a closed window that wraps has not reached its start yet
      have today : l.isoweekday ∈ days := by
        simpa only [LocalTime.isoweekday, sameDay] using listed
      simp only [wallWithin, today, decide_true, Bool.true_and] at closed
      rw [ahead]
      rcases wraps with wraps | early
      · simp only [wraps, if_true, Bool.or_eq_false_iff, decide_eq_false_iff_not] at closed
        omega
      · omega
    · have : (l.atTime 0 s).wall / usPerDay = l.day := sameDay
      simp [openingFold, this]
  · have passed : (l.atTime 0 s).wall ≤ l.wall := by omega
    refine firstAllowed_nextOpening hd low high ?_ (fun _ => ?_) ?_ ?_ ?_
    · simp only [LocalTime.addDays_wall, usPerDay] at time ⊢
      omega
    · rw [LocalTime.addDays_wall]
      omega
    · rw [LocalTime.addDays_wall]
      simp only [usPerDay] at near passed ⊢
      omega
    · rw [LocalTime.addDays_day, sameDay]
      omega
    · have tomorrow : ((l.atTime 0 s).addDays 1).day ≠ l.day := by
        rw [LocalTime.addDays_day, sameDay]
        omega
      have : ((l.atTime 0 s).addDays 1).wall / usPerDay ≠ l.day := tomorrow
      rw [openingFold, decide_eq_false this, Bool.and_false]
      rfl

/-- Outside its window, `next_window_start` resolves the next opening on the wall clock. -/
theorem nextWindowStart_eq (h : window.Reads tzdata z s e) {d : Int} (hd : d ∈ window.days)
    (low : 1 ≤ d) (high : d ≤ 7) {dt : Int}
    (outside : isWithinWindow tzdata window dt = .ok false) :
    ∃ o, NextOpening window.days s (z.fromUtc dt).wall o ∧
      nextWindowStart tzdata window dt = .ok (z.toUtc ⟨o, openingFold (z.fromUtc dt) o⟩) := by
  have bounds := h.bounds
  have both := windowStartEnd_eq h dt
  rw [isWithinWindow_eq h] at outside
  have closed : wallWithin window.days s e (z.fromUtc dt) = false := by simpa using outside
  obtain ⟨eh, em, he, he', _⟩ := h.end_
  set l := z.fromUtc dt with hl
  have startMins : (l.atTime 0 s).hour * 60 + (l.atTime 0 s).minute = s := by
    rw [LocalTime.hour_minute, LocalTime.atTime_minuteOfDay] <;> omega
  simp only [nextWindowStart, isWithinWindow_eq h, ← hl, closed, zoneInfo, h.zone, both, he, bind,
    Except.bind, pure, Except.pure, startMins, LocalTime.hour_minute, ← he', Bool.false_eq_true,
    if_false]
  obtain ⟨o, next, found⟩ := search_nextOpening (e := e) hd low high bounds.1 closed
    (c := if (decide (s > e) || decide (l.minuteOfDay < s)) = true then l.atTime 0 s
      else (l.atTime 0 s).addDays 1) (by split_ifs with hc <;> grind)
  exact ⟨o, next, by rw [found]⟩

/-! ## The window test -/

@[simp] theorem deferral_none (now : Int) : deferral tzdata none now = .ok none := rfl

theorem reads_of_nextWindowStart {dt r : Int}
    (outside : isWithinWindow tzdata window dt = .ok false)
    (h : nextWindowStart tzdata window dt = .ok r) : ∃ z s e, window.Reads tzdata z s e := by
  cases both : windowStartEnd tzdata window dt with
  | ok both' => exact reads_of_windowStartEnd both
  | error err =>
    simp only [nextWindowStart, outside, both, bind, Except.bind] at h
    cases zone : zoneInfo tzdata window.timezone <;> simp [zone] at h

theorem deferral_eq_none_iff {now : Int} :
    deferral tzdata (some window) now = .ok none ↔ isWithinWindow tzdata window now = .ok true := by
  simp only [deferral, bind, Except.bind, pure, Except.pure]
  cases within : isWithinWindow tzdata window now with
  | error err => simp
  | ok inside =>
    cases inside <;> cases nextWindowStart tzdata window now <;> simp

theorem deferral_eq_some_iff {now next : Int} :
    deferral tzdata (some window) now = .ok (some next) ↔
      isWithinWindow tzdata window now = .ok false ∧
        nextWindowStart tzdata window now = .ok next := by
  simp only [deferral, bind, Except.bind, pure, Except.pure]
  cases within : isWithinWindow tzdata window now with
  | error err => simp
  | ok inside =>
    cases inside <;> cases nextWindowStart tzdata window now <;> simp

/-- The test raises exactly when the window's strings are not well formed. -/
theorem deferral_ok_iff (now : Int) :
    (∃ decision, deferral tzdata (some window) now = .ok decision) ↔
      ∃ z s e, window.Reads tzdata z s e := by
  constructor
  · rintro ⟨decision, h⟩
    cases decision with
    | none =>
      obtain ⟨z, s, e, read, -⟩ := reads_of_isWithinWindow (deferral_eq_none_iff.mp h)
      exact ⟨z, s, e, read⟩
    | some next =>
      obtain ⟨outside, h⟩ := deferral_eq_some_iff.mp h
      exact reads_of_nextWindowStart outside h
  · rintro ⟨z, s, e, read⟩
    obtain ⟨eh, em, he, -⟩ := read.end_
    simp [deferral, nextWindowStart, isWithinWindow_eq read, zoneInfo, read.zone,
      windowStartEnd_eq read, he, bind, Except.bind, pure, Except.pure]
    split_ifs <;> simp

end AcmeGitWebhook
