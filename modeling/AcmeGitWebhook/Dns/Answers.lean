import AcmeGitWebhook.Dns.Propagation
import AcmeGitWebhook.Library.Search

/-!
# What one nameserver's answer does to the probe

`_check_single_ns` of `app/dns_probe.py` for whatever a nameserver may answer. A record is decoded
before it is compared, so one that is not UTF-8 ends the check, unless a record with the expected
value comes first (`withstands_iff`); and it ends the round for every other nameserver
(`raises_iff`).
-/

namespace AcmeGitWebhook.Dns

open Library

/-- The character strings of each TXT record of an answer; `none` is any DNS error. -/
abbrev TxtAnswer := Option (List (List (List UInt8)))

def answerOf (resolve : Resolver) (query : Nat) (qname : Option DnsName) (nameserver : String) :
    TxtAnswer :=
  qname.bind fun name => resolve.answer query name nameserver

/-- The joined bytes of the record are those of the expected value. -/
def Shows (expected : String) (strings : List (List UInt8)) : Prop :=
  strings.flatten = Python.encode expected

/-- The joined bytes of the record are UTF-8. -/
def Readable (strings : List (List UInt8)) : Prop :=
  ∃ text, strings.flatten = Python.encode text

/-- Whichever nameserver gives this answer, to whichever query: the check returns, and says
whether some record of the answer has the expected value. -/
def Withstands (expected : String) (answer : TxtAnswer) : Prop :=
  ∀ (resolve : Resolver) (query : Nat) (qname : Option DnsName) (nameserver : String),
    resolve.accepts nameserver = true → answerOf resolve query qname nameserver = answer →
      ∃ hit, checkSingleNs resolve query qname expected nameserver = .ok hit ∧
        (hit = true ↔ ∃ records ∈ answer, ∃ strings ∈ records, Shows expected strings)

/-- Every record that no record with the expected value precedes is UTF-8. -/
def ReadableInTime (expected : String) (answer : TxtAnswer) : Prop :=
  ∀ records ∈ answer, ∀ strings, Reached (Shows expected) records strings → Readable strings

/-- One turn of the loop over the records. -/
def testRecord (expected : String) (strings : List (List UInt8)) : Except PyError Bool := do
  let value ← decode strings.flatten
  return value = expected

variable {resolve : Resolver} {qname : Option DnsName} {expected ns : String} {query : Nat}
  {nameservers : List String} {k : Nat} {strings : List (List UInt8)} {answer : TxtAnswer}

theorem anyMatches_eq_anyM (records : List (List (List UInt8))) :
    anyMatches expected records = records.anyM (testRecord expected) := by
  induction records with
  | nil => rfl
  | cons strings records ih =>
    rw [List.anyM_cons, ← ih, anyMatches, testRecord]
    cases decode strings.flatten with
    | error err => rfl
    | ok value =>
      by_cases same : value = expected <;> simp [bind, Except.bind, pure, Except.pure, same]

theorem testRecord_tells : TellsWanted (testRecord expected) (Shows expected) := by
  intro strings found tested
  cases decoded : decode strings.flatten with
  | error err => simp [testRecord, decoded, bind, Except.bind] at tested
  | ok value =>
    obtain rfl : decide (value = expected) = found := by
      simpa [testRecord, decoded, bind, Except.bind, pure, Except.pure] using tested
    rw [decide_eq_true_iff, Shows, ← decode_eq_ok_iff, decoded, Except.ok.injEq]

theorem testRecord_ok_iff :
    (∃ found, testRecord expected strings = .ok found) ↔ Readable strings := by
  simp only [Readable, ← decode_eq_ok_iff]
  cases decoded : decode strings.flatten <;>
    simp [testRecord, decoded, bind, Except.bind, pure, Except.pure]

/-- The check of a nameserver that is one searches its answer. -/
theorem checkSingleNs_eq (accepted : resolve.accepts ns = true) :
    checkSingleNs resolve query qname expected ns =
      ((answerOf resolve query qname ns).getD []).anyM (testRecord expected) := by
  rw [checkSingleNs, if_pos accepted, ← answerOf]
  cases answerOf resolve query qname ns with
  | none => rfl
  | some records => exact anyMatches_eq_anyM records

theorem readableInTime_iff : ReadableInTime expected answer ↔
    ∀ strings, Reached (Shows expected) (answer.getD []) strings → Readable strings := by
  cases answer <;> simp [ReadableInTime]

/-- The check returns just when the answer is readable in time. -/
theorem checkSingleNs_ok_iff (accepted : resolve.accepts ns = true) :
    (∃ hit, checkSingleNs resolve query qname expected ns = .ok hit) ↔
      ReadableInTime expected (answerOf resolve query qname ns) := by
  rw [checkSingleNs_eq accepted, anyM_ok_iff testRecord_tells, readableInTime_iff]
  simp only [testRecord_ok_iff]

/-- A resolver that answers every query alike. -/
def constantly (answer : TxtAnswer) : Resolver := ⟨fun _ => true, fun _ _ _ => answer⟩

theorem withstands_iff (expected : String) (answer : TxtAnswer) :
    Withstands expected answer ↔ ReadableInTime expected answer := by
  constructor
  · intro withstands
    obtain ⟨hit, checked, -⟩ := withstands (constantly answer) 0 (some []) "8.8.8.8" rfl rfl
    exact (checkSingleNs_ok_iff rfl).mp ⟨hit, checked⟩
  · rintro readable resolve query qname ns accepted rfl
    obtain ⟨hit, checked⟩ := (checkSingleNs_ok_iff accepted).mpr readable
    refine ⟨hit, checked, ?_⟩
    rw [checkSingleNs_eq accepted] at checked
    rw [anyM_found_iff testRecord_tells checked]
    cases answerOf resolve query qname ns <;> simp

/-- A record that is not UTF-8 keeps the one after it from being seen. -/
theorem aborts_probe : ¬ Withstands "token" (some [[[0xff]], [Python.encode "token"]]) := by
  intro withstands
  obtain ⟨hit, checked, -⟩ := withstands (constantly (some [[[0xff]], [Python.encode "token"]])) 0
    (some ["_acme-challenge", "example", "com"]) "8.8.8.8" rfl rfl
  revert checked
  cases hit <;> decide +kernel

/-- The answer of one nameserver ends the round for all of them. -/
theorem raises_iff (accepted : ∀ ns ∈ nameservers, resolve.accepts ns = true) :
    Raises resolve qname expected nameservers k ↔ ∃ i ns, nameservers[i]? = some ns ∧
      ¬ ReadableInTime expected (answerOf resolve (k * nameservers.length + i) qname ns) := by
  have here : ∀ i ns, nameservers[i]? = some ns →
      ((∃ err, checkSingleNs resolve (k * nameservers.length + i) qname expected ns =
          .error err) ↔
        ¬ ReadableInTime expected (answerOf resolve (k * nameservers.length + i) qname ns)) := by
    intro i ns at_i
    rw [← checkSingleNs_ok_iff (accepted ns (List.mem_of_getElem? at_i))]
    cases checkSingleNs resolve (k * nameservers.length + i) qname expected ns <;> simp
  constructor
  · rintro ⟨i, ns, err, at_i, raised⟩
    exact ⟨i, ns, at_i, (here i ns at_i).mp ⟨err, raised⟩⟩
  · rintro ⟨i, ns, at_i, unreadable⟩
    obtain ⟨err, raised⟩ := (here i ns at_i).mpr unreadable
    exact ⟨i, ns, err, at_i, raised⟩

end AcmeGitWebhook.Dns
