import AcmeGitWebhook.Monitor.Check
import Mathlib.Data.List.TakeWhile

/-!
# Whether the metrics show the cached status

The gauges outlive the checks that set them, and nothing removes a series. So what a check
leaves is what it sets itself over what was there: `checkAll_sets` says which certificates
it gets to set, and `metrics_match` in which runs of checks the metrics agree with
`get_status` all along.
-/

namespace AcmeGitWebhook.Monitor

open Library

/-- Some series of the metrics is labelled with the domain. -/
def Metrics.Shows (m : Metrics) (domain : String) : Prop :=
  (m.expiryDaysLeft.get? domain).isSome ∨ (m.expiryTimestamp.get? domain).isSome ∨
    (m.notBeforeTimestamp.get? domain).isSome ∨
    (∃ label, (m.info.get? (domain, label)).isSome) ∨
    (∃ status, (m.lastRenewalTimestamp.get? (domain, status)).isSome) ∨
    (m.renewalCount.get? domain).isSome

/-- What the gauge of the days left has to show. -/
def CertStatus.gauge (c : CertStatus) : Int := c.daysLeft.getD (-1)

/-- The metrics agree with the cached status. -/
structure CheckState.Matches (st : CheckState) : Prop where
  daysLeft : ∀ c ∈ st.latestStatus, st.metrics.expiryDaysLeft.get? c.domain = some c.gauge
  tracked : ∀ domain, st.metrics.Shows domain → ∃ c ∈ st.latestStatus, c.domain = domain
  info : ∀ c ∈ st.latestStatus, ∃ label, ∀ label',
    (st.metrics.info.get? (c.domain, label')).isSome ↔ label' = label
  total : ∀ status, (st.metrics.total.get? status).getD 0 =
    st.latestStatus.countP fun c => kind c.daysLeft = status

variable (s : Setting) (env : Surroundings)

/-- The certificates whose days left a check gets to set: it stops before one whose renewal
fails and after one whose start date does. -/
def shown (renewing : List String) : List CertStatus → List CertStatus
  | [] => []
  | c :: certs =>
    if renewalFails s env renewing c.toCert then []
    else if dateFails s c.toCert then [c]
    else c :: shown renewing certs

/-- The certificates whose `cert_info` a check gets to set. -/
def labelled (renewing : List String) (certs : List CertStatus) : List CertStatus :=
  certs.takeWhile fun c => fine s env renewing c.toCert

/-- The listing of a check and what it meets outside. -/
structure CheckRun where
  listing : Except PyError (List Listed)
  env : Surroundings

def checkStep (st : CheckState) (r : CheckRun) : CheckState := (runCheck s r.env r.listing st).2

/-- No certificate ends the check. -/
def Through (st : CheckState) (r : CheckRun) : Prop :=
  ∀ c ∈ loadCertsFromVault s r.listing, fine s r.env st.monitor.renewing c.toCert = true

instance (st : CheckState) (r : CheckRun) : Decidable (Through s st r) :=
  inferInstanceAs (Decidable (∀ c ∈ loadCertsFromVault s r.listing, _))

/-- The status after a check: the certificates it has loaded if it gets through them, or else
still the old one. -/
def nextStatus (st : CheckState) (r : CheckRun) : List CertStatus :=
  if Through s st r then loadCertsFromVault s r.listing else st.latestStatus

/-- The certificates that a check sets metrics for have days left other than 0 and agree with
the status it leaves, and no series is left of a domain or a label that is not of it. -/
structure Steady (st : CheckState) (r : CheckRun) : Prop where
  nonzero : ∀ c ∈ shown s r.env st.monitor.renewing (loadCertsFromVault s r.listing),
    c.daysLeft ≠ some 0
  agree : ∀ c ∈ shown s r.env st.monitor.renewing (loadCertsFromVault s r.listing),
    ∀ c' ∈ nextStatus s st r, c'.domain = c.domain → c'.gauge = c.gauge
  listed : ∀ c ∈ shown s r.env st.monitor.renewing (loadCertsFromVault s r.listing),
    ∃ c' ∈ nextStatus s st r, c'.domain = c.domain
  kept : ∀ domain, st.metrics.Shows domain → ∃ c ∈ nextStatus s st r, c.domain = domain
  label : ∀ c ∈ labelled s r.env st.monitor.renewing (loadCertsFromVault s r.listing),
    ∀ label, (st.metrics.info.get? (c.domain, label)).isSome → label = c.label s
  labels : ∀ c ∈ labelled s r.env st.monitor.renewing (loadCertsFromVault s r.listing),
    ∀ c' ∈ labelled s r.env st.monitor.renewing (loadCertsFromVault s r.listing),
      c'.domain = c.domain → c'.label s = c.label s

variable {s env} {st : CheckState}

/-! ## The counts by status -/

theorem kind_mem (daysLeft : Option Int) : kind daysLeft ∈ kinds := by
  unfold kind
  split
  · decide
  · split_ifs <;> decide

theorem countP_kind_eq_zero {status : String} (unknown : status ∉ kinds) (certs : List CertStatus) :
    (certs.countP fun c => kind c.daysLeft = status) = 0 := by
  refine List.countP_eq_zero.mpr fun c _ => ?_
  simp only [decide_eq_true_eq]
  rintro rfl
  exact unknown (kind_mem _)

theorem set_kinds (count : String → Nat) {status : String} (h : status ∈ kinds) (n : Nat) :
    Dict.set (kinds.map fun status => (status, count status)) status n =
      kinds.map fun status' => (status', if status' = status then n else count status') := by
  simp only [kinds, List.mem_cons, List.not_mem_nil, or_false] at h
  rcases h with rfl | rfl | rfl | rfl <;> simp [kinds, Dict.set]

theorem get?_kinds (count : String → Nat) {status : String} (h : status ∈ kinds) :
    Dict.get? (kinds.map fun status => (status, count status)) status = some (count status) := by
  simp only [kinds, List.mem_cons, List.not_mem_nil, or_false] at h
  rcases h with rfl | rfl | rfl | rfl <;> simp [kinds, Dict.get?]

theorem foldl_statuses (certs : List CertStatus) (count : String → Nat) :
    certs.foldl (fun counts c =>
        Dict.set counts (kind c.daysLeft) ((Dict.get? counts (kind c.daysLeft)).getD 0 + 1))
        (kinds.map fun status => (status, count status)) =
      kinds.map fun status =>
        (status, count status + certs.countP fun c => kind c.daysLeft = status) := by
  induction certs generalizing count with
  | nil => simp
  | cons c certs ih =>
    rw [List.foldl_cons, set_kinds count (kind_mem _), get?_kinds count (kind_mem _), ih]
    refine List.map_congr_left fun status _ => ?_
    simp only [List.countP_cons, decide_eq_true_eq, Option.getD_some, Prod.mk.injEq, true_and]
    split_ifs <;> grind

theorem statuses_eq (certs : List CertStatus) : statuses certs =
    kinds.map fun status => (status, certs.countP fun c => kind c.daysLeft = status) := by
  simpa [statuses] using foldl_statuses certs fun _ => 0

/-- Afterwards each of the four gauges has its count, and any other is as it was. -/
theorem publishTotals_get? (certs : List CertStatus) (m : Metrics) (status : String) :
    (publishTotals certs m).total.get? status =
      if status ∈ kinds then some (certs.countP fun c => kind c.daysLeft = status)
      else m.total.get? status := by
  simp only [publishTotals, statuses_eq]
  split_ifs with known
  · refine Dict.get?_foldl_set _ ?_ ⟨(status, _), List.mem_map_of_mem known, rfl⟩
    rintro _ mem rfl
    obtain ⟨status', -, rfl⟩ := List.mem_map.mp mem
    rfl
  · refine Dict.get?_foldl_set_of_ne _ ?_
    rintro _ mem rfl
    obtain ⟨status', known', rfl⟩ := List.mem_map.mp mem
    exact known known'

/-! ## What a check sets -/

/-- Between two states exactly the days left of `certs` and the `cert_info` of `certs'` were
set, in this order, and no other domain got a series. -/
structure Sets (s : Setting) (certs certs' : List CertStatus) (before after : CheckState) :
    Prop where
  status : after.latestStatus = before.latestStatus
  daysLeft : after.metrics.expiryDaysLeft = certs.foldl
    (fun gauges c => gauges.set c.domain (daysOrMinusOne c.daysLeft)) before.metrics.expiryDaysLeft
  info : after.metrics.info = certs'.foldl
    (fun gauges c => gauges.set (c.domain, c.label s) 1) before.metrics.info
  total : after.metrics.total = before.metrics.total
  shows : ∀ domain, after.metrics.Shows domain ↔
    before.metrics.Shows domain ∨ ∃ c ∈ certs, c.domain = domain

theorem Sets.refl (st : CheckState) : Sets s [] [] st st :=
  ⟨rfl, rfl, rfl, rfl, by simp⟩

theorem Sets.trans {certs₁ certs₂ certs₁' certs₂' : List CertStatus}
    {before middle after : CheckState}
    (h : Sets s certs₁ certs₁' before middle) (h' : Sets s certs₂ certs₂' middle after) :
    Sets s (certs₁ ++ certs₂) (certs₁' ++ certs₂') before after where
  status := h'.status.trans h.status
  daysLeft := by rw [h'.daysLeft, h.daysLeft, List.foldl_append]
  info := by rw [h'.info, h.info, List.foldl_append]
  total := h'.total.trans h.total
  shows domain := by
    rw [h'.shows, h.shows]
    simp only [List.mem_append, or_and_right, exists_or, or_assoc]

theorem publishRenewal_gauges (domain : String) (now : Int) (outcome : Outcome) (m : Metrics) :
    (publishRenewal domain now outcome m).expiryDaysLeft = m.expiryDaysLeft ∧
      (publishRenewal domain now outcome m).info = m.info ∧
      (publishRenewal domain now outcome m).total = m.total := by
  cases outcome <;> exact ⟨rfl, rfl, rfl⟩

theorem publish_gauges (s : Setting) (c : CertStatus) (m : Metrics) :
    (publish s c m).2.expiryDaysLeft = m.expiryDaysLeft.set c.domain (daysOrMinusOne c.daysLeft) ∧
      (publish s c m).2.info =
        (if dateFails s c.toCert then m.info else m.info.set (c.domain, c.label s) 1) ∧
      (publish s c m).2.total = m.total := by
  unfold publish dateFails
  cases notBeforeTimestamp s c.metadata <;> exact ⟨rfl, rfl, rfl⟩

theorem publishRenewal_shows (domain : String) (now : Int) (outcome : Outcome) (m : Metrics)
    (domain' : String) : (publishRenewal domain now outcome m).Shows domain' ∨ domain' = domain ↔
      m.Shows domain' ∨ domain' = domain := by
  unfold Metrics.Shows publishRenewal
  cases outcome <;> simp only [Dict.isSome_set] <;> grind

theorem publish_shows (c : CertStatus) (m : Metrics) (domain : String) :
    (publish s c m).2.Shows domain ↔ m.Shows domain ∨ domain = c.domain := by
  unfold Metrics.Shows publish
  cases notBeforeTimestamp s c.metadata with
  | error err =>
    simp only [Dict.isSome_set]
    grind
  | ok notBefore =>
    cases notBefore with
    | none =>
      simp only [Dict.isSome_set]
      grind
    | some time =>
      simp only [Dict.isSome_set]
      grind

/-- A renewal leaves the gauges alone that say what a certificate is like, and sets nothing if
it fails. -/
theorem renewOne_metrics (s : Setting) (env : Surroundings) (c : Cert) (st : CheckState) :
    (renewOne s env c st).2.latestStatus = st.latestStatus ∧
      ((renewOne s env c st).2.metrics = st.metrics ∨
        renewalFails s env st.monitor.renewing c = false ∧ (renewOne s env c st).2.metrics =
          publishRenewal c.domain (env.now c.domain) (env.outcome c.domain) st.metrics) := by
  obtain ⟨noted, -, cases_⟩ := renewOne_cases s env c st
  by_cases attempt : attempts s st.monitor.renewing c = true
  · rw [if_pos attempt] at cases_
    refine ⟨cases_.2.status, ?_⟩
    cases ended : (renewalResult s env c.domain).isOk with
    | false => exact Or.inl (cases_.2.failed ended)
    | true =>
      exact cases_.2.metrics.imp_right fun published => ⟨by simp [renewalFails, ended], published⟩
  · rw [if_neg attempt] at cases_
    rw [cases_]
    exact ⟨rfl, Or.inl rfl⟩

/-- The certificates that the loop body sets the days left of, and the `cert_info`. -/
theorem checkOne_sets (s : Setting) (env : Surroundings) (c : CertStatus) (st : CheckState) :
    Sets s (if renewalFails s env st.monitor.renewing c.toCert then [] else [c])
      (if fine s env st.monitor.renewing c.toCert then [c] else []) st (checkOne s env c st).2 := by
  obtain ⟨status, metrics⟩ := renewOne_metrics s env c.toCert st
  have ok := renewOne_isOk s env c.toCert st
  rw [checkOne_eq]
  rcases step : renewOne s env c.toCert st with ⟨_ | _, between⟩
  · rw [step] at status metrics ok
    have failed : renewalFails s env st.monitor.renewing c.toCert = true := by
      simpa [Except.isOk, Except.toBool] using ok
    have same : between.metrics = st.metrics := metrics.resolve_right (by simp [failed])
    simp only [failed, fine, Bool.not_true, Bool.false_and, if_true, Bool.false_eq_true, if_false]
    exact ⟨status, congrArg _ same, congrArg _ same, congrArg _ same, by simp [same]⟩
  · rw [step] at status metrics ok
    have passed : renewalFails s env st.monitor.renewing c.toCert = false := by
      simpa [Except.isOk, Except.toBool] using ok
    obtain ⟨daysLeft, info, total⟩ : between.metrics.expiryDaysLeft = st.metrics.expiryDaysLeft ∧
        between.metrics.info = st.metrics.info ∧ between.metrics.total = st.metrics.total := by
      rcases metrics with same | ⟨-, published⟩
      · rw [show between.metrics = st.metrics from same]
        exact ⟨rfl, rfl, rfl⟩
      · rw [show between.metrics = _ from published]
        exact publishRenewal_gauges _ _ _ _
    have shows (domain : String) : between.metrics.Shows domain ∨ domain = c.domain ↔
        st.metrics.Shows domain ∨ domain = c.domain := by
      rcases metrics with same | ⟨-, published⟩
      · rw [show between.metrics = st.metrics from same]
      · rw [show between.metrics = _ from published]
        exact publishRenewal_shows _ _ _ _ _
    obtain ⟨daysLeft', info', total'⟩ := publish_gauges s c between.metrics
    refine ⟨status, ?_, ?_, total'.trans total, fun domain => ?_⟩
    · simp [passed, daysLeft', daysLeft]
    · cases failed : dateFails s c.toCert <;> simp [fine, passed, failed, info', info]
    · have published := publish_shows (s := s) c between.metrics domain
      simp only [passed, Bool.false_eq_true, if_false, List.mem_singleton, exists_eq_left]
      rw [published, shows, eq_comm]

theorem shown_step {c : CertStatus} {after : CheckState}
    (step : checkOne s env c st = (.ok (), after)) (certs : List CertStatus) :
    shown s env after.monitor.renewing certs = shown s env st.monitor.renewing certs := by
  induction certs with
  | nil => rfl
  | cons c' certs ih => simp only [shown, renewalFails_step step, ih]

/-- The certificates that the whole loop sets them of. -/
theorem checkAll_sets (s : Setting) (env : Surroundings) (certs : List CertStatus)
    (st : CheckState) : Sets s (shown s env st.monitor.renewing certs)
      (labelled s env st.monitor.renewing certs) st (checkAll s env certs st).2 := by
  induction certs generalizing st with
  | nil => exact Sets.refl st
  | cons c certs ih =>
    have first := checkOne_sets s env c st
    have ok := checkOne_isOk s env c st
    rcases step : checkOne s env c st with ⟨_ | _, after⟩
    · rw [step] at first ok
      have stops : fine s env st.monitor.renewing c.toCert = false := ok.symm
      have certs_eq : shown s env st.monitor.renewing (c :: certs) =
          if renewalFails s env st.monitor.renewing c.toCert then [] else [c] := by
        rw [shown]
        split_ifs with failed date
        · rfl
        · rfl
        · simp [fine, failed, date] at stops
      rw [certs_eq]
      simpa [labelled, stops, checkAll, step] using first
    · rw [step] at first ok
      have goes : fine s env st.monitor.renewing c.toCert = true := ok.symm
      obtain ⟨renewal, date⟩ := Bool.and_eq_true_iff.mp goes
      rw [Bool.not_eq_true'] at renewal date
      have rest := ih after
      have labelled_eq : labelled s env after.monitor.renewing certs =
          labelled s env st.monitor.renewing certs := by
        simp only [labelled, fine, renewalFails_step step]
      rw [shown_step step, labelled_eq] at rest
      simpa [shown, labelled, goes, renewal, date, checkAll, step] using first.trans rest

theorem shown_of_fine {renewing : List String} {certs : List CertStatus}
    (all : ∀ c ∈ certs, fine s env renewing c.toCert = true) :
    shown s env renewing certs = certs := by
  induction certs with
  | nil => rfl
  | cons c certs ih =>
    obtain ⟨renewal, date⟩ := Bool.and_eq_true_iff.mp (all c List.mem_cons_self)
    rw [Bool.not_eq_true'] at renewal date
    simp [shown, renewal, date, ih fun c mem => all c (List.mem_cons_of_mem _ mem)]

theorem labelled_of_fine {renewing : List String} {certs : List CertStatus}
    (all : ∀ c ∈ certs, fine s env renewing c.toCert = true) :
    labelled s env renewing certs = certs :=
  List.takeWhile_eq_self_iff.mpr all

/-- What a check sets, and the status and the counts it leaves. -/
theorem checkStep_sets (s : Setting) (st : CheckState) (r : CheckRun) : ∃ after,
    Sets s (shown s r.env st.monitor.renewing (loadCertsFromVault s r.listing))
      (labelled s r.env st.monitor.renewing (loadCertsFromVault s r.listing)) st after ∧
    (checkStep s st r).latestStatus = nextStatus s st r ∧
    (checkStep s st r).metrics = if Through s st r then
      publishTotals (loadCertsFromVault s r.listing) after.metrics else after.metrics := by
  have sets := checkAll_sets s r.env (loadCertsFromVault s r.listing) st
  have ok := checkAll_isOk s r.env (loadCertsFromVault s r.listing) st
  refine ⟨_, sets, ?_⟩
  simp only [checkStep, runCheck, nextStatus]
  rcases loop : checkAll s r.env (loadCertsFromVault s r.listing) st with ⟨_ | _, after⟩
  · rw [loop] at ok sets
    have stopped : ¬ Through s st r := by
      intro through
      rw [List.all_eq_true.mpr through] at ok
      simp [Except.isOk, Except.toBool] at ok
    simp only [if_neg stopped]
    exact ⟨sets.status, trivial⟩
  · rw [loop] at ok
    have through : Through s st r := List.all_eq_true.mp ok.symm
    simp only [if_pos through]
    exact ⟨trivial, trivial⟩

/-- The first check has set every label that there is after it. -/
theorem info_of_initial {r : CheckRun} {domain label : String}
    (found : ((checkStep s .initial r).metrics.info.get? (domain, label)).isSome) :
    ∃ c ∈ labelled s r.env [] (loadCertsFromVault s r.listing),
      c.domain = domain ∧ c.label s = label := by
  obtain ⟨after, sets, -, metrics⟩ := checkStep_sets s .initial r
  have info : (checkStep s .initial r).metrics.info = after.metrics.info := by
    rw [metrics]
    split_ifs <;> rfl
  rw [info, sets.info, Dict.isSome_foldl_set] at found
  obtain old | ⟨c, mem, named⟩ := found
  · simp [CheckState.initial, Metrics.initial] at old
  · exact ⟨c, mem, by simpa using named⟩

theorem daysOrMinusOne_eq {daysLeft : Option Int} (nonzero : daysLeft ≠ some 0) :
    daysOrMinusOne daysLeft = daysLeft.getD (-1) := by
  cases daysLeft with
  | none => rfl
  | some days =>
    have : days ≠ 0 := fun zero => nonzero (by rw [zero])
    unfold daysOrMinusOne
    split <;> simp_all

theorem daysOrMinusOne_ne_zero (daysLeft : Option Int) : daysOrMinusOne daysLeft ≠ 0 := by
  unfold daysOrMinusOne
  split <;> simp_all

/-- A series is of the new status, or is an old one that a check which did not get through has
left alone. -/
theorem mem_shown_or {r : CheckRun} {c : CertStatus} (mem : c ∈ nextStatus s st r) :
    (∃ c' ∈ shown s r.env st.monitor.renewing (loadCertsFromVault s r.listing),
      c'.domain = c.domain) ∨ c ∈ st.latestStatus := by
  by_cases through : Through s st r
  · rw [nextStatus, if_pos through] at mem
    exact Or.inl ⟨c, by rwa [shown_of_fine through], rfl⟩
  · rw [nextStatus, if_neg through] at mem
    exact Or.inr mem

/-- What a check has set, or left alone, is the days left of the status it leaves. -/
theorem Steady.get?_daysLeft {r : CheckRun} {after : CheckState} (steady : Steady s st r)
    (before : st.Matches)
    (sets : Sets s (shown s r.env st.monitor.renewing (loadCertsFromVault s r.listing))
      (labelled s r.env st.monitor.renewing (loadCertsFromVault s r.listing)) st after)
    {c : CertStatus} (mem : c ∈ nextStatus s st r) :
    after.metrics.expiryDaysLeft.get? c.domain = some c.gauge := by
  rw [sets.daysLeft]
  by_cases set : ∃ c' ∈ shown s r.env st.monitor.renewing (loadCertsFromVault s r.listing),
      c'.domain = c.domain
  · refine Dict.get?_foldl_set _ (fun c' mem' same => ?_) set
    rw [daysOrMinusOne_eq (steady.nonzero c' mem')]
    exact (steady.agree c' mem' c mem same.symm).symm
  · rw [Dict.get?_foldl_set_of_ne _ fun c' mem' same => set ⟨c', mem', same⟩]
    exact before.daysLeft c ((mem_shown_or mem).resolve_left set)

/-- A certificate that a check has set no label for is of the old status. -/
theorem mem_latestStatus_of_unlabelled {r : CheckRun} {c : CertStatus}
    (mem : c ∈ nextStatus s st r)
    (unset : ¬ ∃ c' ∈ labelled s r.env st.monitor.renewing (loadCertsFromVault s r.listing),
      c'.domain = c.domain) : c ∈ st.latestStatus := by
  by_cases through : Through s st r
  · rw [nextStatus, if_pos through] at mem
    exact absurd ⟨c, by rwa [labelled_of_fine through], rfl⟩ unset
  · rwa [nextStatus, if_neg through] at mem

theorem Steady.get?_info {r : CheckRun} {after : CheckState} (steady : Steady s st r)
    (before : st.Matches)
    (sets : Sets s (shown s r.env st.monitor.renewing (loadCertsFromVault s r.listing))
      (labelled s r.env st.monitor.renewing (loadCertsFromVault s r.listing)) st after)
    {c : CertStatus} (mem : c ∈ nextStatus s st r) :
    ∃ label, ∀ label', (after.metrics.info.get? (c.domain, label')).isSome ↔ label' = label := by
  simp only [sets.info, Dict.isSome_foldl_set, Prod.mk.injEq]
  by_cases set : ∃ c' ∈ labelled s r.env st.monitor.renewing (loadCertsFromVault s r.listing),
      c'.domain = c.domain
  · obtain ⟨c', mem', same⟩ := set
    refine ⟨c'.label s, fun label => ⟨?_, ?_⟩⟩
    · rintro (old | ⟨c'', mem'', same', rfl⟩)
      · exact steady.label c' mem' label (same ▸ old)
      · exact steady.labels c' mem' c'' mem'' (same'.trans same.symm)
    · rintro rfl
      exact Or.inr ⟨c', mem', same, rfl⟩
  · obtain ⟨label, only⟩ := before.info c (mem_latestStatus_of_unlabelled mem set)
    refine ⟨label, fun label' => ?_⟩
    rw [← only label']
    refine or_iff_left ?_
    rintro ⟨c', mem', same, -⟩
    exact set ⟨c', mem', same⟩

theorem Steady.matches {r : CheckRun} (steady : Steady s st r) (before : st.Matches) :
    (checkStep s st r).Matches := by
  obtain ⟨after, sets, status, metrics⟩ := checkStep_sets s st r
  have daysLeft : (checkStep s st r).metrics.expiryDaysLeft = after.metrics.expiryDaysLeft := by
    rw [metrics]
    split_ifs <;> rfl
  have info : (checkStep s st r).metrics.info = after.metrics.info := by
    rw [metrics]
    split_ifs <;> rfl
  have shows (domain : String) : (checkStep s st r).metrics.Shows domain ↔
      after.metrics.Shows domain := by
    rw [metrics]
    split_ifs <;> rfl
  constructor
  · intro c mem
    rw [daysLeft]
    exact steady.get?_daysLeft before sets (status ▸ mem)
  · intro domain shown_
    rw [shows, sets.shows] at shown_
    rw [status]
    rcases shown_ with kept | ⟨c, mem, rfl⟩
    · exact steady.kept domain kept
    · exact steady.listed c mem
  · intro c mem
    simp only [info]
    exact steady.get?_info before sets (status ▸ mem)
  · intro count
    rw [status, metrics, nextStatus]
    split_ifs with through
    · rw [publishTotals_get?]
      split_ifs with known
      · rfl
      · rw [sets.total, before.total, countP_kind_eq_zero known, countP_kind_eq_zero known]
    · rw [sets.total, before.total]

/-- For a check that gets through its certificates the condition is exact. -/
theorem matches_iff_of_through {r : CheckRun} (before : st.Matches) (through : Through s st r) :
    (checkStep s st r).Matches ↔ Steady s st r := by
  refine ⟨fun match_ => ?_, fun steady => steady.matches before⟩
  obtain ⟨after, sets, status, metrics⟩ := checkStep_sets s st r
  rw [if_pos through] at metrics
  rw [shown_of_fine through, labelled_of_fine through] at sets
  have next : nextStatus s st r = loadCertsFromVault s r.listing := if_pos through
  obtain ⟨daysLeft, tracked, info, -⟩ := match_
  rw [status, next, metrics] at daysLeft info
  rw [status, metrics] at tracked
  have labels : ∀ c ∈ loadCertsFromVault s r.listing, ∀ label,
      (after.metrics.info.get? (c.domain, label)).isSome → label = c.label s := by
    intro c mem label present
    obtain ⟨only, unique⟩ := info c mem
    have own : (after.metrics.info.get? (c.domain, c.label s)).isSome := by
      rw [sets.info, Dict.isSome_foldl_set]
      exact Or.inr ⟨c, mem, rfl⟩
    rw [(unique _).mp present, (unique _).mp own]
  constructor
  · rw [shown_of_fine through]
    intro c mem zero
    obtain ⟨c', -, -, found⟩ : ∃ c' ∈ loadCertsFromVault s r.listing, c'.domain = c.domain ∧
        after.metrics.expiryDaysLeft.get? c.domain = some (daysOrMinusOne c'.daysLeft) := by
      rw [sets.daysLeft]
      exact Dict.exists_get?_foldl_set _ ⟨c, mem, rfl⟩
    have same : daysOrMinusOne c'.daysLeft = c.gauge :=
      Option.some.inj (found.symm.trans (daysLeft c mem))
    rw [CertStatus.gauge, zero] at same
    exact daysOrMinusOne_ne_zero _ same
  · rw [shown_of_fine through, next]
    intro c mem c' mem' same
    have found := daysLeft c' mem'
    rw [same] at found
    exact Option.some.inj (found.symm.trans (daysLeft c mem))
  · rw [shown_of_fine through, next]
    exact fun c mem => ⟨c, mem, rfl⟩
  · exact fun domain old => tracked domain ((sets.shows domain).mpr (Or.inl old))
  · rw [labelled_of_fine through]
    intro c mem label old
    refine labels c mem label ?_
    rw [sets.info, Dict.isSome_foldl_set]
    exact Or.inl old
  · rw [labelled_of_fine through]
    intro c mem c' mem' same
    refine labels c mem (c'.label s) ?_
    rw [sets.info, Dict.isSome_foldl_set]
    exact Or.inr ⟨c', mem', by rw [same]⟩

theorem initial_matches : CheckState.initial.Matches where
  daysLeft := by simp [CheckState.initial]
  tracked := by simp [CheckState.initial, Metrics.Shows, Metrics.initial]
  info := by simp [CheckState.initial]
  total := by simp [CheckState.initial, Metrics.initial]

/-- In runs of checks that get through, the metrics agree with the status all along exactly
when every check meets the condition. -/
theorem metrics_match_iff (s : Setting) {runs : List CheckRun}
    (through : EveryStep (checkStep s) (Through s) .initial runs) :
    EveryState (checkStep s) CheckState.Matches .initial runs ↔
      EveryStep (checkStep s) (Steady s) .initial runs :=
  everyState_iff_everyStep (fun _ _ before allowed => matches_iff_of_through before allowed)
    initial_matches through

theorem metrics_match (s : Setting) {runs : List CheckRun}
    (steady : EveryStep (checkStep s) (Steady s) .initial runs) :
    EveryState (checkStep s) CheckState.Matches .initial runs :=
  EveryStep.invariant (fun _ _ before steady => steady.matches before) initial_matches steady

/-- A check of certificates that were stored at one instant. -/
def storedCheck (domains : List String) (now : Int) : CheckRun where
  listing := .ok (domains.map fun domain => secretOf domain now
    [("stored_at", .string (isoformat 0)), ("expiry", .string "1970-03-01T00:00:00+00:00")])
  env := calm

def firstDay : CheckRun := storedCheck ["example.com", "mail.example.com"] 0

/-- There is a third certificate on the next day. -/
def secondDay : CheckRun :=
  storedCheck ["example.com", "www.example.com", "mail.example.com"] usPerDay

theorem firstDay_steady : Steady exampleSetting .initial firstDay := by
  refine ⟨by decide +kernel, by decide +kernel, by decide +kernel, ?_, ?_, by decide +kernel⟩
  · intro domain shown_
    simp [CheckState.initial, Metrics.Shows, Metrics.initial] at shown_
  · intro c _ label old
    simp [CheckState.initial, Metrics.initial] at old

theorem metrics_match_twoDays : EveryState (checkStep exampleSetting) CheckState.Matches .initial
    [firstDay, secondDay] := by
  refine metrics_match exampleSetting ((everyStep_cons _ _ _).mpr
    ⟨firstDay_steady, (everyStep_cons _ _ _).mpr ⟨?_, everyStep_nil _⟩⟩)
  refine ⟨by decide +kernel, by decide +kernel, by decide +kernel, fun domain old => ?_,
    fun c mem label old => ?_, by decide +kernel⟩
  · have still : ∀ c ∈ (checkStep exampleSetting .initial firstDay).latestStatus,
        ∃ c' ∈ nextStatus exampleSetting (checkStep exampleSetting .initial firstDay) secondDay,
          c'.domain = c.domain := by
      decide +kernel
    obtain ⟨c, mem, rfl⟩ := (firstDay_steady.matches initial_matches).tracked domain old
    exact still c mem
  · have same : ∀ c ∈ labelled exampleSetting calm [] (loadCertsFromVault exampleSetting
        firstDay.listing), ∀ c' ∈ labelled exampleSetting calm
          (checkStep exampleSetting .initial firstDay).monitor.renewing
          (loadCertsFromVault exampleSetting secondDay.listing),
        c.label exampleSetting = c'.label exampleSetting := by
      decide +kernel
    obtain ⟨c', mem', -, rfl⟩ := info_of_initial old
    exact same c' mem' c mem

/-- The certificate of `goodSecret`, read in its last minutes. -/
def lastDay : Listed := secretOf "example.com" (59 * usPerDay - 1)
  [("expiry", .string "1970-03-01T00:00:00+00:00")]

/-- A certificate with 0 days left is shown as one whose days are unknown. -/
theorem zero_days_unknown : ¬ EveryState (checkStep exampleSetting) CheckState.Matches .initial
    [⟨.ok [lastDay], calm⟩] := by
  intro all
  have shown_ := all.last.daysLeft
  revert shown_
  decide +kernel

end AcmeGitWebhook.Monitor
