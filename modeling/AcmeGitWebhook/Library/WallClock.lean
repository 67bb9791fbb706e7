import Mathlib.Data.List.Basic
import Mathlib.Data.List.TakeWhile
import Mathlib.Tactic.Linarith

/-!
# Instants, wall clocks and time zones

An instant is a number of microseconds since 1970-01-01T00:00 UTC, and a wall
time the same number read off a local clock. A zone is the list of its offset
changes, which inside the years a `datetime` can hold is finite. Conversions
follow PEP 495 as `zoneinfo` computes it: a wall time that the clock shows twice
is told apart by `fold`, and one that the clock skips is read with the offset
before the gap when `fold` is 0 and the offset after it when `fold` is 1.

`NextOpening` is the abstract notion the deferral logic is measured against: the
first wall time after a given one that has a given time of day on one of a set of
weekdays. `firstAllowed` is the day-by-day search for it.
-/

namespace AcmeGitWebhook.Library

abbrev usPerMinute : Int := 60000000
abbrev usPerHour : Int := 3600000000
abbrev usPerDay : Int := 86400000000

/-! ## Wall times -/

/-- A naive local time with the `fold` bit of its second showing. -/
structure LocalTime where
  wall : Int
  fold : Bool
  deriving DecidableEq, Repr

namespace LocalTime

def day (l : LocalTime) : Int := l.wall / usPerDay
def hour (l : LocalTime) : Int := l.wall % usPerDay / usPerHour
def minute (l : LocalTime) : Int := l.wall % usPerHour / usPerMinute

/-- Monday is 1 and Sunday 7; day 0 of the epoch was a Thursday. -/
def isoweekday (l : LocalTime) : Int := (l.day + 3) % 7 + 1

/-- The given time of the same day, to the minute. `datetime.replace` keeps the fold. -/
def atTime (l : LocalTime) (h m : Int) : LocalTime :=
  { l with wall := l.day * usPerDay + (h * 60 + m) * usPerMinute }

/-- Adding whole days moves the wall time and, as `datetime` addition does, drops the fold. -/
def addDays (l : LocalTime) (n : Int) : LocalTime := ⟨l.wall + n * usPerDay, false⟩

def minuteOfDay (l : LocalTime) : Int := l.wall % usPerDay / usPerMinute

theorem hour_minute (l : LocalTime) : l.hour * 60 + l.minute = l.minuteOfDay := by
  simp only [hour, minute, minuteOfDay, usPerDay, usPerHour, usPerMinute]
  omega

@[simp] theorem atTime_fold (l : LocalTime) (h m : Int) : (l.atTime h m).fold = l.fold := rfl

theorem atTime_day (l : LocalTime) {h m : Int} (low : 0 ≤ h * 60 + m)
    (high : h * 60 + m < 1440) : (l.atTime h m).day = l.day := by
  simp only [atTime, day, usPerDay, usPerMinute]
  omega

theorem atTime_minuteOfDay (l : LocalTime) {h m : Int} (low : 0 ≤ h * 60 + m)
    (high : h * 60 + m < 1440) : (l.atTime h m).minuteOfDay = h * 60 + m := by
  simp only [atTime, day, minuteOfDay, usPerDay, usPerMinute]
  omega

/-- Before its start a day's clock reads fewer minutes than the start, and only then. -/
theorem lt_atTime_iff (l : LocalTime) (h m : Int) :
    l.wall < (l.atTime h m).wall ↔ l.minuteOfDay < h * 60 + m := by
  simp only [atTime, day, minuteOfDay, usPerDay, usPerMinute]
  omega

@[simp] theorem addDays_wall (l : LocalTime) (n : Int) :
    (l.addDays n).wall = l.wall + n * usPerDay := rfl

@[simp] theorem addDays_day (l : LocalTime) (n : Int) : (l.addDays n).day = l.day + n := by
  simp only [addDays, day, usPerDay]
  omega

theorem addDays_addDays (l : LocalTime) (n k : Int) :
    (l.addDays n).addDays k = l.addDays (n + k) := by
  simp only [addDays, usPerDay, LocalTime.mk.injEq, and_true]
  omega

end LocalTime

/-! ## Zones -/

/-- From `instant` on, local time is `after` ahead of UTC instead of `before`. -/
structure Transition where
  instant : Int
  before : Int
  after : Int
  deriving DecidableEq, Repr

/-- The wall time from which the new offset counts when a wall time is resolved. -/
def Transition.wall (c : Transition) (fold : Bool) : Int :=
  c.instant + if fold then min c.before c.after else max c.before c.after

/-- A zone: its first offset, and each instant at which another offset takes over. -/
structure Zone where
  initial : Int
  changes : List (Int × Int)
  sorted : changes.Pairwise (fun c d => c.1 < d.1)

namespace Zone

/-- The changes with the offset each one replaces. -/
def expand : Int → List (Int × Int) → List Transition
  | _, [] => []
  | offset, (instant, next) :: cs => ⟨instant, offset, next⟩ :: expand next cs

def transitions (z : Zone) : List Transition := expand z.initial z.changes

/-- `tz.fromutc`: the offset of the last change at or before the instant, with the fold
set while the clock runs through wall times it has already shown. -/
def fromUtc (z : Zone) (t : Int) : LocalTime :=
  match (z.transitions.takeWhile (fun c => c.instant ≤ t)).getLast? with
  | none => ⟨t + z.initial, false⟩
  | some c => ⟨t + c.after, decide (t - c.instant < c.before - c.after)⟩

/-- `astimezone(UTC)` of a local time: `utcoffset` finds the last change whose wall time
for this fold has been reached. -/
def toUtc (z : Zone) (l : LocalTime) : Int :=
  match (z.transitions.takeWhile (fun c => c.wall l.fold ≤ l.wall)).getLast? with
  | none => l.wall - z.initial
  | some c => l.wall - c.after

/-- A zone that never changes its offset. -/
def fixed (offset : Int) : Zone := ⟨offset, [], .nil⟩

@[simp] theorem fixed_fromUtc (offset t : Int) : (fixed offset).fromUtc t = ⟨t + offset, false⟩ :=
  rfl

@[simp] theorem fixed_toUtc (offset : Int) (l : LocalTime) :
    (fixed offset).toUtc l = l.wall - offset := rfl

/-- From some instant on a zone keeps its last offset. -/
theorem eventually_fixed (z : Zone) :
    ∃ start offset, ∀ t, start ≤ t → z.fromUtc t = ⟨t + offset, false⟩ := by
  have bound (cs : List Transition) :
      ∃ start, ∀ c ∈ cs, c.instant ≤ start ∧ c.instant + (c.before - c.after) ≤ start := by
    induction cs with
    | nil => exact ⟨0, by simp⟩
    | cons c cs ih =>
      obtain ⟨start, past⟩ := ih
      refine ⟨max start (max c.instant (c.instant + (c.before - c.after))), ?_⟩
      intro c' mem
      rcases List.mem_cons.mp mem with rfl | mem
      · omega
      · have := past c' mem
        omega
  obtain ⟨start, past⟩ := bound z.transitions
  have all (t : Int) (late : start ≤ t) :
      z.transitions.takeWhile (fun c => c.instant ≤ t) = z.transitions := by
    rw [List.takeWhile_eq_self_iff]
    intro c mem
    exact decide_eq_true ((past c mem).1.trans late)
  cases last : z.transitions.getLast? with
  | none =>
    refine ⟨start, z.initial, fun t late => ?_⟩
    rw [fromUtc, all t late, last]
  | some c =>
    refine ⟨start, c.after, fun t late => ?_⟩
    have passed := (past c (List.mem_of_getLast? last)).2
    have unfolded : ¬ t - c.instant < c.before - c.after := by omega
    rw [fromUtc, all t late, last]
    simp [unfolded]

/-- In a fixed zone every wall time is shown, and exactly at the instant it resolves to. -/
theorem fixed_fromUtc_toUtc (offset : Int) (l : LocalTime) :
    ((fixed offset).fromUtc ((fixed offset).toUtc l)).wall = l.wall := by
  simp

end Zone

/-- Year, month and day of a day counted from 1970-01-01, by 400-year eras from 1 March. -/
def civil (day : Int) : Int × Int × Int :=
  let era := (day + 719468) / 146097
  let doe := (day + 719468) % 146097
  let yoe := (doe - doe / 1460 + doe / 36524 - doe / 146096) / 365
  let doy := doe - (365 * yoe + yoe / 4 - yoe / 100)
  let mp := (5 * doy + 2) / 153
  let month := if mp < 10 then mp + 3 else mp - 9
  (yoe + era * 400 + if month ≤ 2 then 1 else 0, month, doy - (153 * mp + 2) / 5 + 1)

def padded (width : Nat) (n : Int) : String :=
  let text := toString n
  String.ofList (List.replicate (width - text.length) '0') ++ text

/-- `isoformat()` of an instant as a UTC `datetime`. -/
def isoformat (t : Int) : String :=
  let l : LocalTime := ⟨t, false⟩
  let (year, month, dom) := civil l.day
  let us := t % usPerMinute
  padded 4 year ++ "-" ++ padded 2 month ++ "-" ++ padded 2 dom ++ "T" ++ padded 2 l.hour ++ ":" ++
    padded 2 l.minute ++ ":" ++ padded 2 (us / 1000000) ++
    (if us % 1000000 = 0 then "" else "." ++ padded 6 (us % 1000000)) ++ "+00:00"

/-! ## The next opening -/

/-- `o` is an opening: it reads `minutes` past midnight exactly, on one of the weekdays. -/
def IsOpening (days : List Int) (minutes : Int) (o : Int) : Prop :=
  o % usPerDay = minutes * usPerMinute ∧ (LocalTime.mk o false).isoweekday ∈ days

/-- `o` is the first opening after the wall time `w`. -/
def NextOpening (days : List Int) (minutes : Int) (w o : Int) : Prop :=
  IsOpening days minutes o ∧ w < o ∧ ∀ o', IsOpening days minutes o' → w < o' → o ≤ o'

/-- The search `for _ in range(n)`: the first of `n` consecutive days whose weekday is
listed, or the day after them. -/
def firstAllowed (days : List Int) : Nat → LocalTime → LocalTime
  | 0, l => l
  | n + 1, l => if l.isoweekday ∈ days then l else firstAllowed days n (l.addDays 1)

/-- The search stops at the least number of days ahead whose weekday is listed. -/
theorem firstAllowed_eq (days : List Int) {n k : Nat} {l : LocalTime} (hk : k < n)
    (hit : (l.addDays k).isoweekday ∈ days)
    (miss : ∀ j : Nat, j < k → (l.addDays j).isoweekday ∉ days) :
    firstAllowed days n l = if k = 0 then l else l.addDays k := by
  induction k generalizing n l with
  | zero =>
    obtain ⟨n, rfl⟩ := Nat.exists_eq_add_of_lt hk
    have here : l.isoweekday ∈ days := by simpa [LocalTime.isoweekday] using hit
    simp [firstAllowed, here]
  | succ k ih =>
    obtain ⟨n, rfl⟩ : ∃ n', n = n' + 1 := ⟨n - 1, by omega⟩
    have here : l.isoweekday ∉ days := by
      simpa [LocalTime.isoweekday] using miss 0 (by omega)
    have shift : ∀ j : Nat, (l.addDays 1).addDays j = l.addDays ((j + 1 : Nat) : Int) := by
      intro j
      rw [LocalTime.addDays_addDays]
      congr 1
      push_cast
      omega
    rw [firstAllowed, if_neg here, ih (by omega) (by rw [shift]; exact hit)
      (fun j hj => by rw [shift]; exact miss (j + 1) (by omega))]
    by_cases hk0 : k = 0
    · subst hk0
      simp
    · rw [if_neg hk0, if_neg (by omega), shift]

/-- A listed weekday comes round within seven days of any day. -/
theorem exists_allowed (days : List Int) {d : Int} (hd : d ∈ days) (low : 1 ≤ d) (high : d ≤ 7)
    (l : LocalTime) : ∃ k : Nat, k < 7 ∧ (l.addDays k).isoweekday ∈ days ∧
      ∀ j : Nat, j < k → (l.addDays j).isoweekday ∉ days := by
  have some_day : ∃ k : Nat, k < 7 ∧ (l.addDays k).isoweekday ∈ days := by
    refine ⟨((d - l.isoweekday) % 7).toNat, by omega, ?_⟩
    have weekday : (l.addDays ((d - l.isoweekday) % 7).toNat).isoweekday = d := by
      simp only [LocalTime.isoweekday, LocalTime.addDays_day]
      omega
    rw [weekday]
    exact hd
  classical
  obtain ⟨bound, hit⟩ := Nat.find_spec some_day
  refine ⟨Nat.find some_day, bound, hit, fun j hj hmem => ?_⟩
  exact Nat.find_min some_day hj ⟨hj.trans bound, hmem⟩

theorem NextOpening.unique {days : List Int} {minutes w o o' : Int}
    (h : NextOpening days minutes w o) (h' : NextOpening days minutes w o') : o = o' :=
  le_antisymm (h.2.2 o' h'.1 h'.2.1) (h'.2.2 o h.1 h.2.1)

/-- The fold a search from the day of `l` gives its result `o`: only the day of `l` itself
keeps the fold of `l`. -/
def openingFold (l : LocalTime) (o : Int) : Bool := l.fold && decide (o / usPerDay = l.day)

/-- A search that starts from the start time of today or tomorrow, today only while that is
still ahead or today is not listed, finds the next opening. -/
theorem firstAllowed_nextOpening {days : List Int} {minutes d : Int} {l c : LocalTime}
    (hd : d ∈ days) (low : 1 ≤ d) (high : d ≤ 7)
    (time : c.wall % usPerDay = minutes * usPerMinute)
    (ahead : c.isoweekday ∈ days → l.wall < c.wall)
    (near : c.wall - usPerDay ≤ l.wall ∧ l.wall < c.wall + usPerDay)
    (today : l.day ≤ c.day) (fold : c.fold = openingFold l c.wall) :
    ∃ o, NextOpening days minutes l.wall o ∧ firstAllowed days 14 c = ⟨o, openingFold l o⟩ := by
  obtain ⟨k, bound, hit, miss⟩ := exists_allowed days hd low high c
  have found := firstAllowed_eq days (show k < 14 by omega) hit miss
  refine ⟨c.wall + k * usPerDay, ⟨⟨?_, ?_⟩, ?_, ?_⟩, ?_⟩
  · simp only [usPerDay] at time ⊢
    omega
  · simpa [LocalTime.isoweekday, LocalTime.day, LocalTime.addDays] using hit
  · by_cases hk : k = 0
    · have here : c.isoweekday ∈ days := by
        simpa [hk, LocalTime.isoweekday] using hit
      have := ahead here
      simp only [usPerDay]
      omega
    · simp only [usPerDay] at near ⊢
      omega
  · intro o' opening after
    by_contra earlier
    -- an earlier opening lies a whole number of days from the candidate
    obtain ⟨j, hj⟩ : ∃ j : Int, o' = c.wall + j * usPerDay := by
      refine ⟨(o' - c.wall) / usPerDay, ?_⟩
      have := opening.1
      simp only [usPerDay] at time this ⊢
      omega
    subst hj
    have notPast : 0 ≤ j := by
      simp only [usPerDay] at near after
      omega
    obtain ⟨i, rfl⟩ := Int.eq_ofNat_of_zero_le notPast
    have fewer : i < k := by
      simp only [usPerDay] at earlier
      omega
    refine miss i fewer ?_
    simpa [LocalTime.isoweekday, LocalTime.day, LocalTime.addDays] using opening.2
  · rw [found]
    by_cases hk : k = 0
    · subst hk
      cases c
      grind
    · have later : (c.wall + k * usPerDay) / usPerDay ≠ l.day := by
        simp only [LocalTime.day, usPerDay] at today ⊢
        omega
      simp [hk, LocalTime.addDays, openingFold, later]

end AcmeGitWebhook.Library
