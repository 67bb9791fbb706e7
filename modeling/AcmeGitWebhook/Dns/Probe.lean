import AcmeGitWebhook.Library.DnsName
import AcmeGitWebhook.Python

/-!
# The propagation probe

`_check_single_ns` and `check_propagation` of `app/dns_probe.py`. What the nameservers answer is
the parameter `resolve`, which may change from one query to the next; the queries of one call are
numbered in the order in which they are made.
-/

namespace AcmeGitWebhook.Dns

open Library

/-- dnspython's stub resolver pointed at one nameserver: which texts it takes for a nameserver
at all, and the character strings of each TXT record of an answer; `none` is any
`DNSException`. -/
structure Resolver where
  accepts : String → Bool
  answer : Nat → DnsName → String → Option (List (List (List UInt8)))

/-- The result of `check_propagation`. -/
structure Propagation where
  matched : List String
  pending : List String
  elapsed : Int
  deriving DecidableEq, Repr

/-- `bytes.decode()`. -/
def decode (bytes : List UInt8) : Except PyError String :=
  match String.fromUTF8? ⟨bytes.toArray⟩ with
  | some text => .ok text
  | none => .error (.library "UnicodeDecodeError")

/-- Only a text's own bytes are decoded to it. -/
theorem decode_eq_ok_iff {bytes : List UInt8} {text : String} :
    decode bytes = .ok text ↔ bytes = Python.encode text := by
  have array : (⟨bytes.toArray⟩ : ByteArray) = bytes.toByteArray := by
    ext1
    simp
  have encoded : text.toByteArray = (Python.encode text).toByteArray := by
    rw [← String.utf8Encode_toList]
    rfl
  have read : String.fromUTF8? bytes.toByteArray = some text ↔ bytes = Python.encode text := by
    rw [← List.toByteArray_inj, ← encoded]
    unfold String.fromUTF8?
    split_ifs with valid
    · rw [Option.some_inj, ← String.toByteArray_inj]
      rfl
    · simp only [false_iff]
      rintro eq
      exact valid (eq ▸ text.isValidUTF8)
  unfold decode
  rw [array, ← read]
  cases String.fromUTF8? bytes.toByteArray <;> simp

/-- Whether one of the records has the expected value. -/
def anyMatches (expected : String) : List (List (List UInt8)) → Except PyError Bool
  | [] => .ok false
  | strings :: records => do
    let value ← decode strings.flatten
    if value = expected then return true else anyMatches expected records

variable (specialName : String → Option DnsName) (resolve : Resolver)

/-- The name that is asked for; the domain has its challenge prefix already. -/
def queriedName (domain : String) : Option DnsName := DnsName.fromText specialName (domain ++ ".")

/-- A name that cannot be read is a `DNSException` like any other. -/
def checkSingleNs (query : Nat) (qname : Option DnsName) (expected nameserver : String) :
    Except PyError Bool :=
  if resolve.accepts nameserver then
    match qname.bind fun name => resolve.answer query name nameserver with
    | none => .ok false
    | some records => anyMatches expected records
  else .error (.valueError "")

/-- One round over all nameservers: those that match and those that do not, in order. -/
def probeRound (query : Nat) (qname : Option DnsName) (expected : String) :
    List String → Except PyError (List String × List String)
  | [] => .ok ([], [])
  | ns :: nameservers => do
    let hit ← checkSingleNs resolve query qname expected ns
    let (matched, pending) ← probeRound (query + 1) qname expected nameservers
    return if hit then (ns :: matched, pending) else (matched, ns :: pending)

/-- The polling loop; `none` when it needs more than so many rounds. -/
def poll (qname : Option DnsName) (expected : String) (nameservers : List String)
    (timeout pollInterval : Int) :
    Nat → Nat → Int → List String × List String → Option (Except PyError Propagation)
  | 0, _, elapsed, (matched, pending) =>
    if elapsed < timeout then none else some (.ok ⟨matched, pending, timeout⟩)
  | rounds + 1, query, elapsed, (matched, pending) =>
    if elapsed < timeout then
      match probeRound resolve query qname expected nameservers with
      | .error err => some (.error err)
      | .ok (matched, []) => some (.ok ⟨matched, [], elapsed⟩)
      | .ok (matched, pending) =>
        -- `time.sleep` refuses a negative length
        if pollInterval < 0 then some (.error (.valueError ""))
        else poll qname expected nameservers timeout pollInterval rounds
          (query + nameservers.length) (elapsed + pollInterval) (matched, pending)
    else some (.ok ⟨matched, pending, timeout⟩)

def checkPropagation (domain validation : String) (nameservers : List String)
    (timeout pollInterval : Int) (rounds : Nat) : Option (Except PyError Propagation) :=
  poll resolve (queriedName specialName domain) validation nameservers timeout pollInterval rounds
    0 0 ([], nameservers)

variable {specialName resolve} {resolve' : Resolver} {qname : Option DnsName}

/-- Two resolvers that accept the same nameservers and answer alike for the queried name. -/
def SameFor (resolve' resolve : Resolver) (qname : Option DnsName) : Prop :=
  resolve'.accepts = resolve.accepts ∧
    ∀ query, ∀ name ∈ qname, ∀ ns, resolve'.answer query name ns = resolve.answer query name ns

/-- Only answers for the queried name are looked at. -/
theorem checkSingleNs_congr (same : SameFor resolve' resolve qname) (query : Nat)
    (expected ns : String) :
    checkSingleNs resolve' query qname expected ns =
      checkSingleNs resolve query qname expected ns := by
  obtain ⟨accepts, answer⟩ := same
  cases qname with
  | none => simp only [checkSingleNs, accepts, Option.bind_none]
  | some name => simp only [checkSingleNs, accepts, Option.bind_some, answer query name rfl ns]

theorem probeRound_congr (same : SameFor resolve' resolve qname) (query : Nat) (expected : String)
    (nameservers : List String) :
    probeRound resolve' query qname expected nameservers =
      probeRound resolve query qname expected nameservers := by
  induction nameservers generalizing query with
  | nil => rfl
  | cons ns nameservers ih => simp only [probeRound, checkSingleNs_congr same, ih]

/-- The probe learns nothing about any other name than the queried one. -/
theorem checkPropagation_congr {domain : String}
    (same : SameFor resolve' resolve (queriedName specialName domain))
    (validation : String) (nameservers : List String) (timeout pollInterval : Int) (rounds : Nat) :
    checkPropagation specialName resolve' domain validation nameservers timeout pollInterval
        rounds =
      checkPropagation specialName resolve domain validation nameservers timeout pollInterval
        rounds := by
  unfold checkPropagation
  generalize (0 : Nat) = query, (0 : Int) = elapsed, ([], nameservers) = seen
  induction rounds generalizing query elapsed seen with
  | zero => rfl
  | succ rounds ih => simp only [poll, probeRound_congr same, ih]

end AcmeGitWebhook.Dns
