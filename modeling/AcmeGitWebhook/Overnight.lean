import AcmeGitWebhook.Config

/-!
# Overnight windows

A window that ends before it starts runs past midnight. `is_within_window` asks for the
weekday of the instant itself, so the hours after midnight are judged by the day they fall
on, and not by the day on which the window opened: `belongsToDay_iff`. `next_window_start`
looks for an opening alone, and passes over hours that are open without one:
`earliest_iff`. Both are about zones that never change their offset.
-/

namespace AcmeGitWebhook

open Library

/-- `c` is the first wall time after `o` that reads `minutes` past midnight. -/
def ClosesAt (minutes o c : Int) : Prop :=
  c % usPerDay = minutes * usPerMinute ∧ o < c ∧
    ∀ c', c' % usPerDay = minutes * usPerMinute → o < c' → c ≤ c'

/-- At the wall time `w` the window is open: it opened on a listed weekday and has not
reached its end since. -/
def OpenSince (days : List Int) (s e w : Int) : Prop :=
  ∃ o c, IsOpening days s o ∧ ClosesAt e o c ∧ o ≤ w ∧ w < c

/-- `r` is the first instant from `dt` on at which the window is open. -/
def Earliest (tzdata : String → Option Zone) (window : DeployWindow) (dt r : Int) : Prop :=
  dt ≤ r ∧ isWithinWindow tzdata window r = .ok true ∧
    ∀ t, dt ≤ t → t < r → isWithinWindow tzdata window t = .ok false

variable {tzdata : String → Option Zone} {window : DeployWindow} {days : List Int}
  {s e w o : Int} {l : LocalTime}

theorem isOpening_atTime (l : LocalTime) (bounds : 0 ≤ s ∧ s < 1440) :
    IsOpening days s (l.atTime 0 s).wall ↔ l.isoweekday ∈ days := by
  have time : (l.atTime 0 s).wall % usPerDay = s * usPerMinute := by
    simp only [LocalTime.atTime, usPerDay, usPerMinute]
    omega
  have weekday : (LocalTime.mk (l.atTime 0 s).wall false).isoweekday = l.isoweekday := by
    have day := LocalTime.atTime_day l (h := 0) (m := s) (by omega) (by omega)
    simp only [LocalTime.isoweekday, LocalTime.day] at day ⊢
    rw [day]
  rw [IsOpening, weekday]
  exact and_iff_right time

/-- The window closes on the day it opened, or the next one if its end is the earlier time. -/
theorem closesAt_iff {c : Int} (opening : o % usPerDay = s * usPerMinute)
    (bounds' : 0 ≤ e ∧ e < 1440) (distinct : s ≠ e) :
    ClosesAt e o c ↔
      c = o + (if e < s then e - s + 1440 else e - s) * usPerMinute := by
  simp only [ClosesAt, usPerDay, usPerMinute] at opening ⊢
  constructor
  · rintro ⟨time, after, first⟩
    have here := first (o + (if e < s then e - s + 1440 else e - s) * 60000000)
      (by split_ifs <;> omega) (by split_ifs <;> omega)
    split_ifs at here ⊢ <;> omega
  · rintro rfl
    refine ⟨by split_ifs <;> omega, by split_ifs <;> omega, fun c' time after => ?_⟩
    split_ifs <;> omega

/-- The hours from the start on belong to the day itself, those before an earlier end to the
day before. -/
theorem openSince_iff (days : List Int) (l : LocalTime) (bounds : 0 ≤ s ∧ s < 1440)
    (bounds' : 0 ≤ e ∧ e < 1440) (distinct : s ≠ e) : OpenSince days s e l.wall ↔
      (l.isoweekday ∈ days ∧ s ≤ l.minuteOfDay ∧ (e < s ∨ l.minuteOfDay < e)) ∨
      ((l.addDays (-1)).isoweekday ∈ days ∧ e < s ∧ l.minuteOfDay < e) := by
  constructor
  · rintro ⟨o, c, ⟨time, listed⟩, closes, since, until_⟩
    obtain rfl := (closesAt_iff time bounds' distinct).mp closes
    by_cases today : o / usPerDay = l.day
    · refine Or.inl ⟨?_, ?_⟩
      · simpa only [LocalTime.isoweekday, LocalTime.day, today] using listed
      · simp only [LocalTime.day, LocalTime.minuteOfDay, usPerDay, usPerMinute] at *
        split_ifs at until_ <;> omega
    · have yesterday : o / usPerDay = (l.addDays (-1)).day ∧ e < s ∧ l.minuteOfDay < e := by
        simp only [LocalTime.day, LocalTime.minuteOfDay, LocalTime.addDays, usPerDay,
          usPerMinute] at *
        split_ifs at until_ <;> omega
      refine Or.inr ⟨?_, yesterday.2⟩
      simpa only [LocalTime.isoweekday, LocalTime.day, yesterday.1] using listed
  · rintro (⟨listed, started, late⟩ | ⟨listed, wraps, early⟩)
    · have opening := (isOpening_atTime l bounds).mpr listed
      refine ⟨_, _, opening, (closesAt_iff opening.1 bounds' distinct).mpr rfl, ?_, ?_⟩ <;>
        simp only [LocalTime.atTime, LocalTime.day, LocalTime.minuteOfDay, usPerDay,
          usPerMinute] at *
      · omega
      · split_ifs <;> omega
    · have opening := (isOpening_atTime (l.addDays (-1)) bounds).mpr listed
      refine ⟨_, _, opening, (closesAt_iff opening.1 bounds' distinct).mpr rfl, ?_, ?_⟩ <;>
        simp only [LocalTime.atTime, LocalTime.day, LocalTime.addDays, LocalTime.minuteOfDay,
          usPerDay, usPerMinute] at *
      · omega
      · split_ifs
        omega

theorem wallWithin_iff (l : LocalTime) : wallWithin days s e l = true ↔
    l.isoweekday ∈ days ∧ (s ≤ l.minuteOfDay ∧ (e < s ∨ l.minuteOfDay < e) ∨
      e < s ∧ l.minuteOfDay < e) := by
  by_cases wraps : e < s <;> simp [wallWithin, wraps]

/-! ## The day a window belongs to -/

/-- The test agrees with the openings unless the instant is in the hours past midnight and
just one of its day and the day before is listed. -/
theorem belongsToDay_iff (tzdata : String → Option Zone) (window : DeployWindow) (offset : Int)
    (read : window.Reads tzdata (.fixed offset) s e) (distinct : s ≠ e) (t : Int) :
    (isWithinWindow tzdata window t = .ok true ↔ OpenSince window.days s e (t + offset)) ↔
      s < e ∨ e ≤ ((Zone.fixed offset).fromUtc t).minuteOfDay ∨
        (((Zone.fixed offset).fromUtc t).isoweekday ∈ window.days ↔
          (((Zone.fixed offset).fromUtc t).addDays (-1)).isoweekday ∈ window.days) := by
  obtain ⟨bounds, bounds'⟩ := read.bounds
  have opened := openSince_iff window.days ((Zone.fixed offset).fromUtc t) bounds bounds' distinct
  rw [isWithinWindow_eq read, Except.ok.injEq, wallWithin_iff]
  rw [Zone.fixed_fromUtc] at opened ⊢
  rw [opened]
  generalize (LocalTime.mk (t + offset) false).minuteOfDay = m
  generalize ((LocalTime.mk (t + offset) false).isoweekday ∈ window.days) = today
  generalize (((LocalTime.mk (t + offset) false).addDays (-1)).isoweekday ∈ window.days) = before
  by_cases wraps : e < s
  · by_cases early : m < e
    · have late : ¬ s ≤ m := by omega
      simp [wraps, early, late, Int.not_lt.mpr wraps.le, Int.not_le.mpr early]
    · simp [early, Int.not_lt.mp early]
  · have ahead : s < e := by omega
    simp [wraps, ahead]

/-! ## The next opening -/

/-- Up to the next opening after `w`, a clock past its day's start on a listed day was past it
at `w` already. -/
theorem atTime_le_of_started (next : NextOpening days s w o) (bounds : 0 ≤ s ∧ s < 1440)
    (before : l.wall < o) (listed : l.isoweekday ∈ days) (started : s ≤ l.minuteOfDay) :
    (l.atTime 0 s).wall ≤ w := by
  by_contra ahead
  have first := next.2.2 _ ((isOpening_atTime l bounds).mpr listed) (by omega)
  have := LocalTime.lt_atTime_iff l 0 s
  omega

/-- The next opening ends the wait, unless the window runs past midnight and the clock shows
a day that is not listed. -/
theorem closed_until_opening {now : LocalTime} (next : NextOpening days s now.wall o)
    (bounds : 0 ≤ s ∧ s < 1440) (closed : wallWithin days s e now = false)
    (asked : ¬ e < s ∨ e = 0 ∨ now.isoweekday ∈ days) (since : now.wall ≤ l.wall)
    (before : l.wall < o) : wallWithin days s e l = false := by
  rw [← Bool.not_eq_true, wallWithin_iff] at closed ⊢
  rintro ⟨listed, hours⟩
  have sameDay : now.day = l.day → now.isoweekday ∈ days ∧ now.minuteOfDay ≤ l.minuteOfDay := by
    intro same
    refine ⟨by rwa [LocalTime.isoweekday, same], ?_⟩
    simp only [LocalTime.day, LocalTime.minuteOfDay, usPerDay, usPerMinute] at same ⊢
    omega
  by_cases started : s ≤ l.minuteOfDay
  · have opened := atTime_le_of_started next bounds before listed started
    have same : now.day = l.day ∧ s ≤ now.minuteOfDay := by
      simp only [LocalTime.atTime, LocalTime.day, LocalTime.minuteOfDay, usPerDay,
        usPerMinute] at *
      omega
    obtain ⟨listed', earlier⟩ := sameDay same.1
    exact closed ⟨listed', Or.inl ⟨same.2, by omega⟩⟩
  · have wraps : e < s ∧ l.minuteOfDay < e := by omega
    by_cases same : now.day = l.day
    · obtain ⟨listed', earlier⟩ := sameDay same
      exact closed ⟨listed', Or.inr ⟨wraps.1, by omega⟩⟩
    · have positive : 0 ≤ l.minuteOfDay := by
        simp only [LocalTime.minuteOfDay, usPerDay, usPerMinute]
        omega
      have listed' : now.isoweekday ∈ days := by
        rcases asked with inDay | atMidnight | listed'
        · exact absurd wraps.1 inDay
        · omega
        · exact listed'
      -- the window has yet to open today, before the next day begins
      have waiting : now.minuteOfDay < s := by
        by_contra started'
        exact closed ⟨listed', Or.inl ⟨by omega, Or.inl wraps.1⟩⟩
      have ahead := (LocalTime.lt_atTime_iff now 0 s).mpr (by omega)
      have first := next.2.2 _ ((isOpening_atTime now bounds).mpr listed') ahead
      simp only [LocalTime.atTime, LocalTime.day, LocalTime.minuteOfDay, usPerDay,
        usPerMinute] at *
      omega

/-- Past midnight into a listed day, the window is open before its next opening. -/
theorem open_before_opening {now : LocalTime} (next : NextOpening days s now.wall o)
    (wraps : e < s) (late : 0 < e) (unlisted : now.isoweekday ∉ days) :
    ∃ l : LocalTime, l.fold = false ∧ now.wall ≤ l.wall ∧ l.wall < o ∧
      wallWithin days s e l = true := by
  obtain ⟨⟨time, listed⟩, after, -⟩ := next
  have another : now.day ≠ o / usPerDay := by
    intro same
    rw [LocalTime.isoweekday, same] at unlisted
    exact unlisted listed
  refine ⟨⟨o / usPerDay * usPerDay, false⟩, rfl, ?_, ?_, (wallWithin_iff _).mpr ⟨?_, ?_⟩⟩
  · simp only [LocalTime.day, usPerDay] at *
    omega
  · simp only [usPerDay, usPerMinute] at *
    omega
  · have day : o / usPerDay * usPerDay / usPerDay = o / usPerDay := by
      simp only [usPerDay]
      omega
    simpa only [LocalTime.isoweekday, LocalTime.day, day] using listed
  · refine Or.inr ⟨wraps, ?_⟩
    simp only [LocalTime.minuteOfDay, usPerDay, usPerMinute]
    omega

/-- From a closed instant, the next opening is the first open instant unless the window runs past
midnight and the clock shows a day that is not listed. -/
theorem earliest_opening_iff {offset dt : Int} (read : window.Reads tzdata (.fixed offset) s e)
    (distinct : s ≠ e) (next : NextOpening window.days s (dt + offset) o)
    (closed : wallWithin window.days s e ⟨dt + offset, false⟩ = false) :
    Earliest tzdata window dt (o - offset) ↔
      ¬ e < s ∨ e = 0 ∨ (LocalTime.mk (dt + offset) false).isoweekday ∈ window.days := by
  obtain ⟨bounds, bounds'⟩ := read.bounds
  have at_ : ∀ t, isWithinWindow tzdata window t =
      .ok (wallWithin window.days s e ⟨t + offset, false⟩) := fun t => isWithinWindow_eq read t
  constructor
  · rintro ⟨-, -, first⟩
    by_contra none
    obtain ⟨wraps, late, unlisted⟩ : e < s ∧ e ≠ 0 ∧
        (LocalTime.mk (dt + offset) false).isoweekday ∉ window.days := by
      simpa only [not_or, not_not] using none
    obtain ⟨⟨w, _⟩, rfl, from_, before, opened⟩ :=
      open_before_opening next wraps (by omega) unlisted
    have closed' := first (w - offset) (by simp only at from_; omega)
      (by simp only at before; omega)
    rw [at_, Int.sub_add_cancel, opened] at closed'
    cases closed'
  · intro asked
    refine ⟨?_, ?_, ?_⟩
    · have := next.2.1
      omega
    · rw [at_, Int.sub_add_cancel, wallWithin_opening distinct next.1]
    · intro t from_ before
      rw [at_, closed_until_opening next bounds closed asked]
      · simp only
        omega
      · simp only
        omega

/-- A window that opens again is first open at the instant the search finds, unless it runs
past midnight and the search starts on a day that is not listed. -/
theorem earliest_iff (tzdata : String → Option Zone) (window : DeployWindow) (offset : Int)
    (read : window.Reads tzdata (.fixed offset) s e) (dt : Int)
    (opens : ∃ t, dt ≤ t ∧ isWithinWindow tzdata window t = .ok true) :
    (∃ r, nextWindowStart tzdata window dt = .ok r ∧ Earliest tzdata window dt r) ↔
      ¬ e < s ∨ e = 0 ∨ ((Zone.fixed offset).fromUtc dt).isoweekday ∈ window.days := by
  obtain ⟨t₁, -, open₁⟩ := opens
  rw [isWithinWindow_eq read, Except.ok.injEq] at open₁
  obtain ⟨distinct, d, hd, low, high⟩ := opens_of_wallWithin open₁
  cases inside : wallWithin window.days s e ((Zone.fixed offset).fromUtc dt) with
  | true =>
    have now : isWithinWindow tzdata window dt = .ok true := by rw [isWithinWindow_eq read, inside]
    refine iff_of_true ⟨dt, ?_, le_refl _, now, fun t from_ before => absurd from_ (by omega)⟩ ?_
    · simp [nextWindowStart, now, bind, Except.bind, pure, Except.pure]
    · exact Or.inr (Or.inr ((wallWithin_iff _).mp inside).1)
  | false =>
    have outside : isWithinWindow tzdata window dt = .ok false := by
      rw [isWithinWindow_eq read, inside]
    obtain ⟨o, next, found⟩ := nextWindowStart_eq read hd low high outside
    rw [Zone.fixed_toUtc] at found
    rw [Zone.fixed_fromUtc] at inside next ⊢
    rw [← earliest_opening_iff read distinct next inside]
    constructor
    · rintro ⟨r, eq, earliest⟩
      obtain rfl : o - offset = r := Except.ok.inj (found.symm.trans eq)
      exact earliest
    · exact fun earliest => ⟨_, found, earliest⟩

/-! ## Two windows that open one evening a week -/

/-- From ten in the evening to six in the morning. -/
def overnight (days : List Int) : DeployWindow := ⟨"22:00", "06:00", days, "UTC"⟩

theorem overnight_reads (days : List Int) :
    (overnight days).Reads onlyUtc (.fixed 0) 1320 360 :=
  ⟨rfl, ⟨22, 0, (by decide : readTime "22:00" = .ok (22, 0)), by decide⟩,
    ⟨6, 0, (by decide : readTime "06:00" = .ok (6, 0)), by decide⟩⟩

theorem belongsToDay_iff_overnight :
    (isWithinWindow onlyUtc (overnight [5]) (2 * usPerDay) = .ok true ↔
        OpenSince [5] 1320 360 (2 * usPerDay + 0)) ↔
      (1320 : Int) < 360 ∨ 360 ≤ ((Zone.fixed 0).fromUtc (2 * usPerDay)).minuteOfDay ∨
        (((Zone.fixed 0).fromUtc (2 * usPerDay)).isoweekday ∈ [5] ↔
          (((Zone.fixed 0).fromUtc (2 * usPerDay)).addDays (-1)).isoweekday ∈ [5]) :=
  belongsToDay_iff onlyUtc (overnight [5]) 0 (overnight_reads [5]) (by decide) (2 * usPerDay)

/-- Three in the morning of Saturday, 3 January 1970, in a window that opens on Fridays. -/
theorem closed_past_midnight : ¬ (isWithinWindow onlyUtc (overnight [5])
    (2 * usPerDay + 3 * usPerHour) = .ok true ↔
      OpenSince [5] 1320 360 (2 * usPerDay + 3 * usPerHour)) := by
  intro agrees
  have opened : OpenSince [5] 1320 360 (2 * usPerDay + 3 * usPerHour) :=
    ⟨usPerDay + 22 * usPerHour, 2 * usPerDay + 6 * usPerHour, ⟨by decide, by decide⟩,
      (closesAt_iff (s := 1320) (by decide) (by decide) (by decide)).mpr (by decide), by decide,
      by decide⟩
  exact absurd (agrees.mpr opened) (by decide)

/-- Asked at noon on Monday, when the window is shut, the search finds ten in the evening. -/
theorem earliest_iff_overnight :
    (∃ r, nextWindowStart onlyUtc (overnight [1]) (4 * usPerDay + 12 * usPerHour) = .ok r ∧
        Earliest onlyUtc (overnight [1]) (4 * usPerDay + 12 * usPerHour) r) ↔
      ¬ (360 : Int) < 1320 ∨ (360 : Int) = 0 ∨
        ((Zone.fixed 0).fromUtc (4 * usPerDay + 12 * usPerHour)).isoweekday ∈ [1] :=
  earliest_iff onlyUtc (overnight [1]) 0 (overnight_reads [1]) (4 * usPerDay + 12 * usPerHour)
    ⟨4 * usPerDay + 22 * usPerHour, by decide, by decide⟩

/-- Asked at eleven in the evening of Sunday, 4 January 1970, the search finds Monday evening,
but the window is open from midnight on. -/
theorem misses_midnight :
    isWithinWindow onlyUtc (overnight [1]) (4 * usPerDay) = .ok true ∧
      ¬ ∃ r, nextWindowStart onlyUtc (overnight [1]) (3 * usPerDay + 23 * usPerHour) = .ok r ∧
        Earliest onlyUtc (overnight [1]) (3 * usPerDay + 23 * usPerHour) r := by
  refine ⟨by decide, ?_⟩
  rintro ⟨r, found, -, -, closed⟩
  have monday : nextWindowStart onlyUtc (overnight [1]) (3 * usPerDay + 23 * usPerHour) =
      .ok (4 * usPerDay + 22 * usPerHour) := by decide
  obtain rfl := Except.ok.inj (monday.symm.trans found)
  exact absurd (closed (4 * usPerDay) (by decide) (by decide)) (by decide)

end AcmeGitWebhook
