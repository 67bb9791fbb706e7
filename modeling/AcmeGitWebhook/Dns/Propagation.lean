import AcmeGitWebhook.Dns.Nameservers
import AcmeGitWebhook.Library.Polling

/-!
# The wait for propagation

`check_propagation` as a polling loop: whether it comes to an end with a result, and what that
result says about the rounds it has made.

## Main results

* `probesReturn_iff`: for which calls of the two endpoints the wait returns.
* `propagationFaithful`: the result for a positive interval, round by round.
-/

namespace AcmeGitWebhook.Dns

open Challenge Library

variable (specialName : String → Option DnsName) (resolve : Resolver)

/-- The loop of `check_propagation`; round `k` is over the queries from `k` times the number of
nameservers on. -/
def polling (qname : Option DnsName) (expected : String) (nameservers : List String)
    (timeout pollInterval : Int) : Polling PyError (List String × List String) where
  round k := probeRound resolve (k * nameservers.length) qname expected nameservers
  conclusive seen := seen.2.isEmpty
  timeout := timeout
  interval := pollInterval
  refusal := .valueError ""

section

variable (qname : Option DnsName) (expected : String) (nameservers : List String)
  (timeout pollInterval : Int)

@[simp] theorem polling_round (k : Nat) :
    (polling resolve qname expected nameservers timeout pollInterval).round k =
      probeRound resolve (k * nameservers.length) qname expected nameservers := rfl

@[simp] theorem polling_conclusive (seen : List String × List String) :
    (polling resolve qname expected nameservers timeout pollInterval).conclusive seen =
      seen.2.isEmpty := rfl

@[simp] theorem polling_timeout :
    (polling resolve qname expected nameservers timeout pollInterval).timeout = timeout := rfl

@[simp] theorem polling_interval :
    (polling resolve qname expected nameservers timeout pollInterval).interval =
      pollInterval := rfl

@[simp] theorem polling_refusal :
    (polling resolve qname expected nameservers timeout pollInterval).refusal =
      .valueError "" := rfl

end

/-! ## What is promised -/

/-- A probe that returns, after any number of rounds. -/
def Returns (probe : Nat → Option (Except PyError Propagation)) : Prop :=
  ∃ rounds result, probe rounds = some (.ok result)

section Rounds

variable (qname : Option DnsName) (expected : String) (nameservers : List String)

/-- In round `k` every nameserver returns the expected token. -/
def AllMatch (k : Nat) : Prop :=
  ∀ i ns, nameservers[i]? = some ns →
    checkSingleNs resolve (k * nameservers.length + i) qname expected ns = .ok true

/-- In round `k` the check of some nameserver raises. -/
def Raises (k : Nat) : Prop :=
  ∃ i ns err, nameservers[i]? = some ns ∧
    checkSingleNs resolve (k * nameservers.length + i) qname expected ns = .error err

/-- No time is given; or a round in which all match is due, no check having raised before, and it
is the first one or the interval is not negative; or the interval is positive and no check of a
round that is due raises. -/
inductive ResultComes (timeout pollInterval : Int) : Prop
  | late : timeout ≤ 0 → ResultComes timeout pollInterval
  | found (k : Nat) : AllMatch resolve qname expected nameservers k →
      (∀ j < k, ¬ Raises resolve qname expected nameservers j) → (k = 0 ∨ 0 ≤ pollInterval) →
      k * pollInterval < timeout → ResultComes timeout pollInterval
  | tired : 0 < pollInterval →
      (∀ k : Nat, k * pollInterval < timeout → ¬ Raises resolve qname expected nameservers k) →
      ResultComes timeout pollInterval

end Rounds

/-- The sub-list of nameservers with that outcome, by position. -/
def withOutcome (outcome : Nat → Bool) (nameservers : List String) (wanted : Bool) :
    List String :=
  (nameservers.zipIdx.filter fun entry => outcome entry.2 == wanted).map Prod.fst

/-- The split of the nameservers that `k` rounds leave behind. -/
def split (outcome : Nat → Nat → Bool) (nameservers : List String) : Nat → List String × List String
  | 0 => ([], nameservers)
  | k + 1 =>
    (withOutcome (outcome k) nameservers true, withOutcome (outcome k) nameservers false)

/-- Every position has matched in round `k`, which is due before the timeout. -/
def Propagated (outcome : Nat → Nat → Bool) (nameservers : List String)
    (timeout pollInterval : Int) (k : Nat) : Prop :=
  k * pollInterval < timeout ∧ ∀ i < nameservers.length, outcome k i = true

/-- The probe makes exactly so many rounds and then returns that result. -/
def ReturnsAfter (probe : Nat → Option (Except PyError Propagation)) (made : Nat)
    (result : Propagation) : Prop :=
  ∀ rounds, probe rounds = if made ≤ rounds then some (.ok result) else none

/-- The result is that of the rounds, whose outcomes are given by round and position. -/
structure Faithful (domain validation : String) (nameservers : List String)
    (timeout pollInterval : Int) (outcome : Nat → Nat → Bool) : Prop where
  succeeds_iff : (∃ rounds result, checkPropagation specialName resolve domain validation
      nameservers timeout pollInterval rounds = some (.ok result) ∧ result.pending = []) ↔
    ∃ k, Propagated outcome nameservers timeout pollInterval k
  first : ∀ k, Propagated outcome nameservers timeout pollInterval k →
    (∀ j < k, ¬ Propagated outcome nameservers timeout pollInterval j) →
      ReturnsAfter (checkPropagation specialName resolve domain validation nameservers timeout
        pollInterval) (k + 1) ⟨nameservers, [], k * pollInterval⟩
  timesOut : (¬ ∃ k, Propagated outcome nameservers timeout pollInterval k) →
    ReturnsAfter (checkPropagation specialName resolve domain validation nameservers timeout
        pollInterval) ⌈(timeout : ℚ) / pollInterval⌉₊
      ⟨(split outcome nameservers ⌈(timeout : ℚ) / pollInterval⌉₊).1,
        (split outcome nameservers ⌈(timeout : ℚ) / pollInterval⌉₊).2, timeout⟩

variable {specialName resolve} {qname : Option DnsName} {expected : String}
  {nameservers : List String} {timeout pollInterval : Int}

/-! ## One round -/

/-- The outcomes of a round, when none of its checks raises, are those of the list's positions.
The induction carries the position the rest of the list starts at. -/
theorem probeRound_from (outcome : Nat → Bool) (start query : Nat)
    (checks : ∀ i ns, nameservers[i]? = some ns →
      checkSingleNs resolve (query + i) qname expected ns = .ok (outcome (start + i))) :
    probeRound resolve query qname expected nameservers =
      .ok (((nameservers.zipIdx start).filter fun entry => outcome entry.2 == true).map Prod.fst,
        ((nameservers.zipIdx start).filter fun entry => outcome entry.2 == false).map
          Prod.fst) := by
  induction nameservers generalizing start query with
  | nil => rfl
  | cons first nameservers ih =>
    have here : checkSingleNs resolve query qname expected first = .ok (outcome start) :=
      checks 0 first rfl
    have rest := ih (start + 1) (query + 1) fun i ns at_i => by
      have shifted := checks (i + 1) ns at_i
      rwa [← Nat.add_assoc, ← Nat.add_assoc, Nat.add_right_comm, Nat.add_right_comm start]
        at shifted
    simp only [probeRound, here, rest, List.zipIdx_cons, bind, Except.bind, pure, Except.pure]
    cases hit : outcome start <;> simp [hit]

theorem probeRound_ok (outcome : Nat → Bool) (query : Nat)
    (checks : ∀ i ns, nameservers[i]? = some ns →
      checkSingleNs resolve (query + i) qname expected ns = .ok (outcome i)) :
    probeRound resolve query qname expected nameservers =
      .ok (withOutcome outcome nameservers true, withOutcome outcome nameservers false) :=
  probeRound_from outcome 0 query fun i ns at_i => by rw [Nat.zero_add]; exact checks i ns at_i

/-- A round raises when one of its checks does. -/
theorem probeRound_error {i query : Nat} {ns : String} {err : PyError}
    (at_i : nameservers[i]? = some ns)
    (raises : checkSingleNs resolve (query + i) qname expected ns = .error err) :
    ∃ err, probeRound resolve query qname expected nameservers = .error err := by
  induction nameservers generalizing i query with
  | nil => simp at at_i
  | cons first nameservers ih =>
    simp only [probeRound, bind, Except.bind, pure, Except.pure]
    cases here : checkSingleNs resolve query qname expected first with
    | error err => exact ⟨err, rfl⟩
    | ok hit =>
      cases i with
      | zero =>
        obtain rfl : first = ns := by simpa using at_i
        simp [here] at raises
      | succ i =>
        rw [← Nat.add_assoc, Nat.add_right_comm] at raises
        obtain ⟨err, rest⟩ := ih (by simpa using at_i) raises
        exact ⟨err, by rw [rest]⟩

theorem withOutcome_false_eq_nil_iff (outcome : Nat → Bool) :
    withOutcome outcome nameservers false = [] ↔ ∀ i < nameservers.length, outcome i = true := by
  simp only [withOutcome, List.map_eq_nil_iff, List.filter_eq_nil_iff, Prod.forall]
  constructor
  · intro kept i lt
    simpa using kept nameservers[i] i (List.mk_mem_zipIdx_iff_getElem?.mpr (by simp [lt]))
  · intro all ns i mem
    simp [all i (List.snd_lt_of_mem_zipIdx mem)]

theorem withOutcome_true_eq_self {outcome : Nat → Bool}
    (all : ∀ i < nameservers.length, outcome i = true) :
    withOutcome outcome nameservers true = nameservers := by
  have kept : ∀ entry ∈ nameservers.zipIdx, (outcome entry.2 == true) = true := by
    intro entry mem
    simp [all entry.2 (List.snd_lt_of_mem_zipIdx mem)]
  rw [withOutcome, List.filter_eq_self.mpr kept, List.zipIdx_map_fst]

/-! ## The loop -/

theorem poll_eq_run (rounds k : Nat) (elapsed : Int) (seen : List String × List String) :
    poll resolve qname expected nameservers timeout pollInterval rounds
        (k * nameservers.length) elapsed seen =
      ((polling resolve qname expected nameservers timeout pollInterval).run rounds k elapsed
        seen).map (Except.map fun ending => ⟨ending.1.1, ending.1.2, ending.2⟩) := by
  induction rounds generalizing k elapsed seen with
  | zero =>
    rw [poll, Polling.run, polling_timeout]
    by_cases early : elapsed < timeout <;> simp [early, Except.map]
  | succ rounds ih =>
    have next : k * nameservers.length + nameservers.length = (k + 1) * nameservers.length := by
      rw [Nat.add_mul, Nat.one_mul]
    rw [poll, Polling.run, polling_timeout, polling_round]
    by_cases early : elapsed < timeout
    · rw [if_pos early, if_pos early]
      cases probeRound resolve (k * nameservers.length) qname expected nameservers with
      | error err => rfl
      | ok result =>
        obtain ⟨matched, pending⟩ := result
        cases pending with
        | nil => rfl
        | cons first pending =>
          by_cases negative : pollInterval < 0
          · simp [negative, Except.map]
          · simp [negative, next, ih]
    · rw [if_neg early, if_neg early]
      rfl

theorem checkPropagation_eq_run (domain validation : String) (rounds : Nat) :
    checkPropagation specialName resolve domain validation nameservers timeout pollInterval
        rounds =
      ((polling resolve (queriedName specialName domain) validation nameservers timeout
        pollInterval).run rounds 0 0 ([], nameservers)).map
          (Except.map fun ending => ⟨ending.1.1, ending.1.2, ending.2⟩) := by
  have whole : poll resolve (queriedName specialName domain) validation nameservers timeout
      pollInterval rounds (0 * nameservers.length) 0 ([], nameservers) = _ :=
    poll_eq_run rounds 0 0 ([], nameservers)
  rwa [Nat.zero_mul] at whole

/-! ## Whether a result comes -/

/-- Without an exception each check of the round has its outcome. -/
theorem exists_outcome {k : Nat} (quiet : ¬ Raises resolve qname expected nameservers k) :
    ∃ outcome : Nat → Bool, ∀ i ns, nameservers[i]? = some ns →
      checkSingleNs resolve (k * nameservers.length + i) qname expected ns = .ok (outcome i) := by
  classical
  refine ⟨fun i => decide (∃ ns, nameservers[i]? = some ns ∧
    checkSingleNs resolve (k * nameservers.length + i) qname expected ns = .ok true), ?_⟩
  intro i ns at_i
  cases check : checkSingleNs resolve (k * nameservers.length + i) qname expected ns with
  | error err => exact absurd ⟨i, ns, err, at_i, check⟩ quiet
  | ok hit => cases hit <;> simp [at_i, check]

theorem fails_iff (k : Nat) :
    (polling resolve qname expected nameservers timeout pollInterval).Fails k ↔
      Raises resolve qname expected nameservers k := by
  rw [Polling.Fails, polling_round]
  constructor
  · rintro ⟨err, failed⟩
    by_contra quiet
    obtain ⟨outcome, checks⟩ := exists_outcome quiet
    simp [probeRound_ok outcome _ checks] at failed
  · rintro ⟨i, ns, err, at_i, raises⟩
    exact probeRound_error at_i raises

theorem conclusive_iff (k : Nat) :
    (polling resolve qname expected nameservers timeout pollInterval).Conclusive k ↔
      AllMatch resolve qname expected nameservers k := by
  by_cases raises : Raises resolve qname expected nameservers k
  · refine iff_of_false (fun conclusive => conclusive.not_fails ((fails_iff k).mpr raises)) ?_
    intro all
    obtain ⟨i, ns, err, at_i, raises⟩ := raises
    simp [all i ns at_i] at raises
  · obtain ⟨outcome, checks⟩ := exists_outcome raises
    have settled : (polling resolve qname expected nameservers timeout pollInterval).Conclusive k ↔
        ∀ i < nameservers.length, outcome i = true := by
      rw [← withOutcome_false_eq_nil_iff, Polling.Conclusive, polling_round,
        probeRound_ok outcome _ checks]
      simp
    rw [settled]
    constructor
    · intro all i ns at_i
      rw [checks i ns at_i, all i (List.getElem?_eq_some_iff.mp at_i).1]
    · intro all i lt
      have at_i : nameservers[i]? = some nameservers[i] := by simp [lt]
      simpa [checks i _ at_i] using all i _ at_i

theorem ends_iff :
    (polling resolve qname expected nameservers timeout pollInterval).Ends ↔
      ResultComes resolve qname expected nameservers timeout pollInterval := by
  constructor
  · intro ends
    cases ends with
    | late le => exact .late le
    | found k conclusive clean reached due =>
      exact .found k ((conclusive_iff k).mp conclusive)
        (fun j lt raises => clean j lt ((fails_iff j).mpr raises)) reached due
    | tired positive clean =>
      exact .tired positive fun k due raises => clean k due ((fails_iff k).mpr raises)
  · intro comes
    cases comes with
    | late le => exact .late le
    | found k all clean reached due =>
      exact .found k ((conclusive_iff k).mpr all)
        (fun j lt fails => clean j lt ((fails_iff j).mp fails)) reached due
    | tired positive clean =>
      exact .tired positive fun k due fails => clean k due ((fails_iff k).mp fails)

theorem checkPropagation_returns_iff (domain validation : String) :
    Returns (checkPropagation specialName resolve domain validation nameservers timeout
        pollInterval) ↔
      ResultComes resolve (queriedName specialName domain) validation nameservers timeout
        pollInterval := by
  rw [← ends_iff, ← Polling.run_ok_iff ([], nameservers)]
  simp only [Returns, checkPropagation_eq_run]
  constructor
  · rintro ⟨rounds, result, h⟩
    cases made : (polling resolve (queriedName specialName domain) validation nameservers timeout
      pollInterval).run rounds 0 0 ([], nameservers) with
    | none => simp [made] at h
    | some ending =>
      cases ending with
      | error err => simp [made, Except.map] at h
      | ok reported => exact ⟨rounds, reported, made⟩
  · rintro ⟨rounds, reported, made⟩
    exact ⟨rounds, _, by rw [made]; rfl⟩

theorem authProbe_returns_iff (dnsCfg : Option DnsConfig) (req : AcmeRequest) :
    (∀ rounds, authProbe specialName resolve dnsCfg req rounds ≠ none →
        ∃ rounds result, authProbe specialName resolve dnsCfg req rounds =
          some (some (.ok result))) ↔
      ∀ cfg ∈ dnsCfg.filter (·.waitForPropagation), ∀ validation ∈ req.validation,
        ResultComes resolve (queriedName specialName req.domain) validation
          (authNameservers cfg) cfg.timeout cfg.pollInterval := by
  cases waits : dnsCfg.filter (·.waitForPropagation) with
  | none => simp [authProbe, waits]
  | some cfg =>
    cases given : req.validation with
    | none => simp [authProbe, waits, given]
    | some validation =>
      have returns : Returns (checkPropagation specialName resolve req.domain validation
          (authNameservers cfg) cfg.timeout cfg.pollInterval) ↔ _ :=
        checkPropagation_returns_iff req.domain validation
      simpa [authProbe, waits, given, Returns] using returns

/-- Either endpoint's wait returns under the condition on its own list and times. -/
theorem probesReturn_iff (specialName : String → Option DnsName) (resolve : Resolver)
    (dnsCfg : Option DnsConfig) (authReq : AcmeRequest) (req : PropagationRequest) :
    (Returns (waitProbe specialName resolve dnsCfg req) ↔
      ResultComes resolve (queriedName specialName req.domain) req.validation
        (waitNameservers dnsCfg req)
        (req.timeout.getD ((dnsCfg.map (·.timeout)).getD 120))
        (req.pollInterval.getD ((dnsCfg.map (·.pollInterval)).getD 5))) ∧
    ((∀ rounds, authProbe specialName resolve dnsCfg authReq rounds ≠ none →
        ∃ rounds result, authProbe specialName resolve dnsCfg authReq rounds =
          some (some (.ok result))) ↔
      ∀ cfg ∈ dnsCfg.filter (·.waitForPropagation), ∀ validation ∈ authReq.validation,
        ResultComes resolve (queriedName specialName authReq.domain) validation
          (authNameservers cfg) cfg.timeout cfg.pollInterval) :=
  ⟨checkPropagation_returns_iff req.domain req.validation, authProbe_returns_iff dnsCfg authReq⟩

def restlessRequest : PropagationRequest :=
  { loopbackRequest with
    nameservers := some ["8.8.8.8"], timeout := some 10, pollInterval := some 0 }

/-- With an interval of zero the time stands still. -/
theorem never_returns : ¬ Returns (waitProbe (fun _ => none) ⟨fun _ => true, fun _ _ _ => none⟩
    none restlessRequest) := by
  have asked : waitNameservers none restlessRequest = ["8.8.8.8"] := by decide +kernel
  rw [show waitProbe (fun _ => none) _ none restlessRequest = checkPropagation (fun _ => none) _
    restlessRequest.domain restlessRequest.validation (waitNameservers none restlessRequest) 10 0
    from rfl, checkPropagation_returns_iff, asked]
  intro comes
  cases comes with
  | late le => exact absurd le (by decide)
  | found k all clean reached due =>
    have matched := all 0 "8.8.8.8" rfl
    simp [checkSingleNs] at matched
  | tired positive clean => exact absurd positive (by decide)

/-! ## What the result says -/

section Outcomes

variable {outcome : Nat → Nat → Bool}

/-- What each check of the call returns, by round and position. -/
def Outcomes (resolve : Resolver) (qname : Option DnsName) (expected : String)
    (nameservers : List String) (outcome : Nat → Nat → Bool) : Prop :=
  ∀ k i ns, nameservers[i]? = some ns →
    checkSingleNs resolve (k * nameservers.length + i) qname expected ns = .ok (outcome k i)

theorem Outcomes.round (outcomes : Outcomes resolve qname expected nameservers outcome) (k : Nat) :
    (polling resolve qname expected nameservers timeout pollInterval).round k =
      .ok (split outcome nameservers (k + 1)) := by
  rw [polling_round]
  exact probeRound_ok (outcome k) _ (outcomes k)

theorem Outcomes.inconclusive_iff (outcomes : Outcomes resolve qname expected nameservers outcome)
    (k : Nat) :
    (polling resolve qname expected nameservers timeout pollInterval).Inconclusive k ↔
      ¬ ∀ i < nameservers.length, outcome k i = true := by
  rw [← withOutcome_false_eq_nil_iff, Polling.Inconclusive, outcomes.round]
  simp [split]

theorem Outcomes.lastResult (outcomes : Outcomes resolve qname expected nameservers outcome)
    (k : Nat) :
    (polling resolve qname expected nameservers timeout pollInterval).lastResult
      ([], nameservers) k = split outcome nameservers k := by
  cases k with
  | zero => rfl
  | succ k => rw [Polling.lastResult, outcomes.round]; rfl

/-- The first round in which all match ends the wait. -/
theorem returnsAfter_first {domain validation : String} (positive : 0 < pollInterval)
    (outcomes : Outcomes resolve (queriedName specialName domain) validation nameservers outcome)
    {k : Nat} (hit : Propagated outcome nameservers timeout pollInterval k)
    (earliest : ∀ j < k, ¬ Propagated outcome nameservers timeout pollInterval j) :
    ReturnsAfter (checkPropagation specialName resolve domain validation nameservers timeout
      pollInterval) (k + 1) ⟨nameservers, [], k * pollInterval⟩ := by
  obtain ⟨due, all⟩ := hit
  set loop := polling resolve (queriedName specialName domain) validation nameservers timeout
    pollInterval with loop_eq
  have due : loop.Due k := due
  have goes : ∀ j < k, loop.Inconclusive j := by
    intro j lt
    rw [loop_eq, outcomes.inconclusive_iff]
    exact fun all => earliest j lt ⟨due.mono positive.le lt.le, all⟩
  have round : loop.round k = .ok (nameservers, []) := by
    rw [loop_eq, outcomes.round, split, withOutcome_true_eq_self all,
      (withOutcome_false_eq_nil_iff _).mpr all]
  intro rounds
  rw [checkPropagation_eq_run, ← loop_eq, Polling.run_conclusive positive.le
    (fun j => due.mono positive.le) goes round rfl]
  split_ifs <;> rfl

/-- Without such a round all rounds that are due are made. -/
theorem returnsAfter_timeout {domain validation : String} (positive : 0 < pollInterval)
    (outcomes : Outcomes resolve (queriedName specialName domain) validation nameservers outcome)
    (never : ¬ ∃ k, Propagated outcome nameservers timeout pollInterval k) :
    ReturnsAfter (checkPropagation specialName resolve domain validation nameservers timeout
        pollInterval) ⌈(timeout : ℚ) / pollInterval⌉₊
      ⟨(split outcome nameservers ⌈(timeout : ℚ) / pollInterval⌉₊).1,
        (split outcome nameservers ⌈(timeout : ℚ) / pollInterval⌉₊).2, timeout⟩ := by
  set loop := polling resolve (queriedName specialName domain) validation nameservers timeout
    pollInterval with loop_eq
  have goes : ∀ j, loop.Due j → loop.Inconclusive j := by
    intro j due
    rw [loop_eq, outcomes.inconclusive_iff]
    exact fun all => never ⟨j, due, all⟩
  intro rounds
  rw [checkPropagation_eq_run, ← loop_eq, Polling.run_timeout positive goes, loop_eq,
    outcomes.lastResult, polling_timeout, polling_interval]
  split_ifs <;> rfl

/-- A round leaves somebody pending unless all have matched. -/
theorem split_pending_ne_nil (nonempty : nameservers ≠ []) {k : Nat}
    (some_pending : ∀ j < k, ¬ ∀ i < nameservers.length, outcome j i = true) :
    (split outcome nameservers k).2 ≠ [] := by
  cases k with
  | zero => exact nonempty
  | succ k =>
    rw [split, Ne, withOutcome_false_eq_nil_iff]
    exact some_pending k (Nat.lt_succ_self k)

end Outcomes

theorem propagationFaithful (specialName : String → Option DnsName) (resolve : Resolver)
    (domain validation : String) (nameservers : List String) (timeout pollInterval : Int)
    (outcome : Nat → Nat → Bool) (nonempty : nameservers ≠ []) (positive : 0 < pollInterval)
    (outcomes : Outcomes resolve (queriedName specialName domain) validation nameservers
      outcome) :
    Faithful specialName resolve domain validation nameservers timeout pollInterval outcome := by
  have timesOut (never : ¬ ∃ k, Propagated outcome nameservers timeout pollInterval k) :=
    returnsAfter_timeout positive outcomes never
  refine ⟨?_, fun k => returnsAfter_first positive outcomes, timesOut⟩
  constructor
  · rintro ⟨rounds, result, h, none_pending⟩
    by_contra never
    rw [timesOut never rounds] at h
    split_ifs at h
    obtain rfl := Except.ok.inj (Option.some.inj h)
    refine split_pending_ne_nil nonempty (fun j lt all => never ⟨j, ?_, all⟩) none_pending
    exact (Polling.due_iff_lt_ceil (p := polling resolve (queriedName specialName domain)
      validation nameservers timeout pollInterval) positive j).mpr lt
  · intro hit
    classical
    have earliest := fun j => Nat.find_min (m := j) hit
    refine ⟨Nat.find hit + 1, ⟨nameservers, [], Nat.find hit * pollInterval⟩, ?_, rfl⟩
    rw [returnsAfter_first positive outcomes (Nat.find_spec hit) earliest, if_pos le_rfl]

/-- Two entries of one silent server: four rounds, then both are pending. -/
theorem propagationFaithful_silent :
    Faithful (fun _ => none) ⟨fun _ => true, fun _ _ _ => none⟩ "_acme-challenge.example.org"
      "token" ["8.8.8.8", "8.8.8.8"] 10 3 (fun _ _ => false) :=
  propagationFaithful _ _ _ _ _ _ _ _ (by simp) (by decide)
    (fun k i ns _ => by simp [checkSingleNs])

end AcmeGitWebhook.Dns
