import AcmeGitWebhook.Challenge.Request
import AcmeGitWebhook.Dns.Probe
import AcmeGitWebhook.Library.IpAddress

/-!
# Which nameservers are probed

`validate_nameserver` of `app/dns_probe.py`, and the two places of `app/main.py` that pass a list
of nameservers to `check_propagation`: the end of `acme_auth`, after the lock, and
`acme_wait_for_propagation`. The first falls back on its own two resolvers; the second on the
configured list as it is (`probesPublic_iff`).
-/

namespace AcmeGitWebhook.Dns

open Challenge Library

structure DnsConfig where
  nameservers : List String := ["8.8.8.8", "1.1.1.1"]
  timeout : Int := 120
  pollInterval : Int := 5
  waitForPropagation : Bool := false

/-- A request that passed validation. -/
structure PropagationRequest where
  domain : String
  validation : String
  nameservers : Option (List String) := none
  timeout : Option Int := none
  pollInterval : Option Int := none
  accepted : acmeDomainPattern domain = true
  sized : 1 ≤ validation.length ∧ validation.length ≤ 255

def validateNameserver (ip : String) : Bool :=
  match IpAddress.parse ip with
  | none => false
  | some addr => !(addr.isPrivate || addr.isLoopback || addr.isMulticast || addr.isUnspecified)

inductive PropagationStatus where
  | propagated | timeout
  deriving DecidableEq, Repr

def Propagation.status (result : Propagation) : PropagationStatus :=
  if result.pending.isEmpty then .propagated else .timeout

/-! ## The two endpoints -/

def authNameservers (dnsCfg : DnsConfig) : List String :=
  let nameservers := dnsCfg.nameservers.filter validateNameserver
  if nameservers.isEmpty then ["8.8.8.8", "1.1.1.1"] else nameservers

def defaultNs (dnsCfg : Option DnsConfig) : List String :=
  match dnsCfg with
  | some dnsCfg => dnsCfg.nameservers
  | none => ["8.8.8.8", "1.1.1.1"]

/-- `req.nameservers or default_ns`: an empty list is no list. -/
def requestedNs (dnsCfg : Option DnsConfig) (req : PropagationRequest) : List String :=
  (req.nameservers.filter (!·.isEmpty)).getD (defaultNs dnsCfg)

def waitNameservers (dnsCfg : Option DnsConfig) (req : PropagationRequest) : List String :=
  let nameservers := (requestedNs dnsCfg req).filter validateNameserver
  if nameservers.isEmpty then defaultNs dnsCfg else nameservers

variable (specialName : String → Option DnsName) (resolve : Resolver)

/-- The probe at the end of `acme_auth`; `none` when there is none to wait for. -/
def authProbe (dnsCfg : Option DnsConfig) (req : AcmeRequest) (rounds : Nat) :
    Option (Option (Except PyError Propagation)) :=
  match dnsCfg.filter (·.waitForPropagation), req.validation with
  | some dnsCfg, some validation =>
    some (checkPropagation specialName resolve req.domain validation (authNameservers dnsCfg)
      dnsCfg.timeout dnsCfg.pollInterval rounds)
  | _, _ => none

def waitProbe (dnsCfg : Option DnsConfig) (req : PropagationRequest) (rounds : Nat) :
    Option (Except PyError Propagation) :=
  let timeout := req.timeout.getD ((dnsCfg.map (·.timeout)).getD 120)
  let pollInterval := req.pollInterval.getD ((dnsCfg.map (·.pollInterval)).getD 5)
  checkPropagation specialName resolve req.domain req.validation (waitNameservers dnsCfg req)
    timeout pollInterval rounds

/-! ## What is promised of them -/

/-- The list has a nameserver, and only public ones. -/
def Public (nameservers : List String) : Prop :=
  nameservers ≠ [] ∧ ∀ ns ∈ nameservers, validateNameserver ns = true

/-- Some public nameserver returned the expected token. -/
def Seen (domain validation : String) : Prop :=
  ∃ ns query, validateNameserver ns = true ∧
    checkSingleNs resolve query (queriedName specialName domain) validation ns = .ok true

/-- Both endpoints probe public nameservers only, and never none; so neither answers
'propagated' unless one of them has returned the token. -/
structure ProbesPublic (dnsCfg : Option DnsConfig) (authReq : AcmeRequest)
    (req : PropagationRequest) : Prop where
  auth : ∀ cfg ∈ dnsCfg, Public (authNameservers cfg)
  wait : Public (waitNameservers dnsCfg req)
  authSeen : ∀ rounds result, authProbe specialName resolve dnsCfg authReq rounds =
    some (some (.ok result)) → result.status = .propagated →
      ∃ validation ∈ authReq.validation, Seen specialName resolve authReq.domain validation
  waitSeen : ∀ rounds result, waitProbe specialName resolve dnsCfg req rounds =
    some (.ok result) → result.status = .propagated →
      Seen specialName resolve req.domain req.validation

/-- One of the nameservers the request leads to is public, or all of the default ones are, of
which there is at least one. -/
def FallbackPublic (dnsCfg : Option DnsConfig) (req : PropagationRequest) : Prop :=
  (∃ ns ∈ requestedNs dnsCfg req, validateNameserver ns = true) ∨ Public (defaultNs dnsCfg)

variable {specialName resolve} {nameservers : List String}

theorem public_resolvers : Public ["8.8.8.8", "1.1.1.1"] := by
  refine ⟨by simp, ?_⟩
  decide +kernel

/-- A filtered list with a fallback is public when something is left or the fallback is. -/
theorem public_filter_iff (fallback : List String) :
    Public (if (nameservers.filter validateNameserver).isEmpty then fallback
        else nameservers.filter validateNameserver) ↔
      (∃ ns ∈ nameservers, validateNameserver ns = true) ∨ Public fallback := by
  by_cases left : ∃ ns ∈ nameservers, validateNameserver ns = true
  · obtain ⟨ns, mem, valid⟩ := left
    have kept : ns ∈ nameservers.filter validateNameserver := List.mem_filter.mpr ⟨mem, valid⟩
    have nonempty : nameservers.filter validateNameserver ≠ [] := List.ne_nil_of_mem kept
    rw [if_neg (by simpa using nonempty)]
    refine iff_of_true ⟨nonempty, fun ns mem => (List.mem_filter.mp mem).2⟩ ?_
    exact Or.inl ⟨ns, mem, valid⟩
  · have empty : nameservers.filter validateNameserver = [] := by
      simpa [List.filter_eq_nil_iff] using left
    rw [if_pos (by simp [empty])]
    exact (or_iff_right left).symm

theorem authNameservers_public (cfg : DnsConfig) : Public (authNameservers cfg) :=
  (public_filter_iff _).mpr (Or.inr public_resolvers)

theorem waitNameservers_public_iff (dnsCfg : Option DnsConfig) (req : PropagationRequest) :
    Public (waitNameservers dnsCfg req) ↔ FallbackPublic dnsCfg req :=
  public_filter_iff _

/-! ## What a finished probe has seen -/

variable {qname : Option DnsName} {expected : String}

/-- A round leaves a nameserver pending or has got the token from it. -/
theorem probeRound_seen {query : Nat} {matched pending : List String}
    (h : probeRound resolve query qname expected nameservers = .ok (matched, pending)) :
    ∀ ns ∈ nameservers,
      ns ∈ pending ∨ ∃ query, checkSingleNs resolve query qname expected ns = .ok true := by
  induction nameservers generalizing query matched pending with
  | nil => simp
  | cons first nameservers ih =>
    simp only [probeRound, bind, Except.bind, pure, Except.pure] at h
    cases here : checkSingleNs resolve query qname expected first with
    | error err => simp [here] at h
    | ok hit =>
      cases rest : probeRound resolve (query + 1) qname expected nameservers with
      | error err => simp [here, rest] at h
      | ok both =>
        obtain ⟨matched', pending'⟩ := both
        have ih := ih rest
        cases hit <;> simp only [here, rest, Except.ok.injEq] at h
        · obtain ⟨rfl, rfl⟩ : matched' = matched ∧ first :: pending' = pending := by simpa using h
          refine List.forall_mem_cons.mpr ⟨Or.inl List.mem_cons_self, fun ns mem => ?_⟩
          exact (ih ns mem).imp_left (List.mem_cons_of_mem first)
        · obtain ⟨rfl, rfl⟩ : first :: matched' = matched ∧ pending' = pending := by simpa using h
          exact List.forall_mem_cons.mpr ⟨Or.inr ⟨query, here⟩, ih⟩

/-- The loop ends with nothing pending only after every nameserver has matched, unless nothing
was pending at the start. -/
theorem poll_seen {timeout pollInterval : Int} {rounds query : Nat} {elapsed : Int}
    {matched pending : List String} {result : Propagation} (waiting : pending ≠ [])
    (h : poll resolve qname expected nameservers timeout pollInterval rounds query elapsed
      (matched, pending) = some (.ok result)) (propagated : result.pending = []) :
    ∀ ns ∈ nameservers, ∃ query, checkSingleNs resolve query qname expected ns = .ok true := by
  induction rounds generalizing query elapsed matched pending with
  | zero =>
    rw [poll] at h
    split_ifs at h
    obtain rfl : (⟨matched, pending, timeout⟩ : Propagation) = result := by simpa using h
    exact absurd propagated waiting
  | succ rounds ih =>
    rw [poll] at h
    by_cases early : elapsed < timeout
    · rw [if_pos early] at h
      split at h
      · simp at h
      · rename_i found
        exact fun ns mem => (probeRound_seen found ns mem).resolve_left (by simp)
      · rename_i left found
        split_ifs at h
        · simp at h
        · exact ih left h
    · rw [if_neg early] at h
      obtain rfl : (⟨matched, pending, timeout⟩ : Propagation) = result := by simpa using h
      exact absurd propagated waiting

theorem checkPropagation_seen {domain validation : String} {timeout pollInterval : Int}
    {rounds : Nat} {result : Propagation} (valid : Public nameservers)
    (h : checkPropagation specialName resolve domain validation nameservers timeout pollInterval
      rounds = some (.ok result)) (propagated : result.status = .propagated) :
    Seen specialName resolve domain validation := by
  obtain ⟨nonempty, all⟩ := valid
  have done : result.pending = [] := by simpa [Propagation.status] using propagated
  obtain ⟨ns, mem⟩ := List.exists_mem_of_ne_nil _ nonempty
  obtain ⟨query, matched⟩ := poll_seen nonempty h done ns mem
  exact ⟨ns, query, all ns mem, matched⟩

theorem probesPublic_iff (specialName : String → Option DnsName) (resolve : Resolver)
    (dnsCfg : Option DnsConfig) (authReq : AcmeRequest) (req : PropagationRequest) :
    ProbesPublic specialName resolve dnsCfg authReq req ↔ FallbackPublic dnsCfg req := by
  rw [← waitNameservers_public_iff]
  constructor
  · exact ProbesPublic.wait
  · intro wait
    refine ⟨fun cfg _ => authNameservers_public cfg, wait, fun rounds result probe done => ?_,
      fun rounds result probe done => checkPropagation_seen wait probe done⟩
    simp only [authProbe] at probe
    split at probe
    · rename_i cfg validation _ given
      refine ⟨validation, given, ?_⟩
      exact checkPropagation_seen (authNameservers_public cfg) (Option.some.inj probe) done
    · simp at probe

def tokenRequest : AcmeRequest :=
  ⟨"_acme-challenge.example.org", some "answer", by decide, by decide⟩

def loopbackRequest : PropagationRequest :=
  ⟨"_acme-challenge.example.org", "token", some ["127.0.0.1"], none, none, by decide, by decide⟩

/-- A configured private resolver is asked in place of a private one that was requested. -/
theorem probes_private : ¬ ProbesPublic (fun _ => none) ⟨fun _ => true, fun _ _ _ => none⟩
    (some { nameservers := ["10.0.0.53"] }) tokenRequest loopbackRequest := by
  intro probes
  have asked := probes.wait.2 "10.0.0.53" (by decide +kernel)
  revert asked
  decide +kernel

end AcmeGitWebhook.Dns
