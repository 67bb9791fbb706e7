import AcmeGitWebhook.Challenge.Section
import AcmeGitWebhook.Dns.Names

/-!
# What a cleanup answers with the nsupdate backend

`acme_auth` and `acme_cleanup` of `app/main.py` against a server of RFC 2136, which applies an
update it answers with code 0 and no other; an update whose answer is lost may have been
applied. `promises_iff` says when the answer of a cleanup tells what the server held. Since
dnspython takes no keyring of the module, a cleanup answers nothing about the server
(`cleanup_promises`).
-/

namespace AcmeGitWebhook.Dns

open Challenge Library

/-- The TXT records of the server's zones, by owner. -/
abbrev Server := DnsName → List (List (List UInt8))

def Server.apply (server : Server) : Change → Server
  | .replace owner _ value => Function.update server owner [value]
  | .delete owner => Function.update server owner []

/-- How the exchange of an update ends: with a response code, or with an error, the update
having been applied or not. -/
inductive Exchange where
  | answered (rcode : Nat)
  | lost (err : PyError) (applied : Bool)
  deriving DecidableEq, Repr

def Exchange.reply : Exchange → Except PyError Nat
  | .answered rcode => .ok rcode
  | .lost err _ => .error err

def Exchange.applied : Exchange → Bool
  | .answered rcode => rcode = 0
  | .lost _ applied => applied

variable (lib : Dnspython) (readText : String → Except PyError String) (cfg : DnsUpdateConfig)
  (exchange : Exchange)

/-- What is left on the server by the exchange of an update, if one was made. -/
def exchanged (update : Except PyError Update) (server : Server) : Server :=
  match update with
  | .ok update => if exchange.applied then server.apply update.change else server
  | .error _ => server

/-- `_remove_txt_record_wrapper`. -/
def removeWrapper (domain : String) : Except PyError (Option String) := do
  let success ← removeTxtRecord lib readText cfg (fun _ _ _ => exchange.reply) domain
  return if success then some "nsupdate" else none

/-- `acme_cleanup` between its lock and its release. -/
def cleanup (req : AcmeRequest) (server : Server) : Except PyError Answer × Server :=
  let answer : Except PyError Answer := do
    match ← removeWrapper lib readText cfg exchange req.domain with
    | some file => return .ok req.domain file
    | none => return .skipped req.domain "No TXT record found to remove"
  (answer, exchanged exchange (removeUpdate lib readText cfg req.domain) server)

def Server.Holds (server : Server) (owner : DnsName) : Prop := server owner ≠ []

/-- 'ok' stands for a record that was there and is gone, 'skipped' for one that was not there;
`owner` is the name that `acme_auth` writes. -/
structure Promises (req : AcmeRequest) (server : Server) : Prop where
  ok : ∀ owner domain file, fqdn lib req.domain = .ok owner →
    (cleanup lib readText cfg exchange req server).1 = .ok (.ok domain file) →
    server.Holds owner ∧ ¬ (cleanup lib readText cfg exchange req server).2.Holds owner
  skipped : ∀ owner domain detail, fqdn lib req.domain = .ok owner →
    (cleanup lib readText cfg exchange req server).1 = .ok (.skipped domain detail) →
    ¬ server.Holds owner

variable {lib readText cfg exchange} {server : Server}

theorem removeUpdate_change {domain : String} {update : Update} {owner : DnsName}
    (h : removeUpdate lib readText cfg domain = .ok update)
    (read : fqdn lib domain = .ok owner) : update.change = .delete owner := by
  obtain ⟨make, opened, h⟩ := Zones.bind_ok h
  obtain ⟨owner', read', h⟩ := Zones.bind_ok h
  obtain rfl : owner = owner' := Except.ok.inj (read.symm.trans read')
  rw [← Except.ok.inj h, newUpdate_change opened]

/-- The answer of a cleanup whose update could be made tells whether its exchange ended with
code 0. -/
theorem cleanup_answer {req : AcmeRequest} {update : Update}
    (made : removeUpdate lib readText cfg req.domain = .ok update) :
    (cleanup lib readText cfg exchange req server).1 =
      if exchange = .answered 0 then .ok (.ok req.domain "nsupdate")
      else .ok (.skipped req.domain "No TXT record found to remove") := by
  simp only [cleanup, removeWrapper, removeTxtRecord, made, send, bind, Except.bind, pure,
    Except.pure]
  cases exchange with
  | lost err applied => simp [Exchange.reply]
  | answered rcode =>
    by_cases done : rcode = 0
    · simp [Exchange.reply, done]
    · simp [Exchange.reply, done, throw, throwThe, MonadExceptOf.throw]

theorem cleanup_error {req : AcmeRequest} {err : PyError}
    (unmade : removeUpdate lib readText cfg req.domain = .error err) :
    (cleanup lib readText cfg exchange req server).1 = .error err := by
  simp only [cleanup, removeWrapper, removeTxtRecord, unmade, bind, Except.bind]

/-- The answer is right exactly when no update can be made, or the exchange ends with code 0
for a record that was there, or otherwise for one that was not. -/
theorem promises_iff (lib : Dnspython) (readText : String → Except PyError String)
    (cfg : DnsUpdateConfig) (exchange : Exchange) (req : AcmeRequest) (server : Server) :
    Promises lib readText cfg exchange req server ↔
      (Updatable lib readText cfg req.domain → ∀ owner, fqdn lib req.domain = .ok owner →
        (exchange = .answered 0 ↔ server.Holds owner)) := by
  cases made : removeUpdate lib readText cfg req.domain with
  | error err =>
    have unmade : ¬ Updatable lib readText cfg req.domain := fun updatable => by
      obtain ⟨update, made', -⟩ := removeUpdate_eq updatable
      simp [made] at made'
    refine iff_of_true ⟨?_, ?_⟩ fun updatable => absurd updatable unmade
    · intro owner domain file _ answer
      simp [cleanup_error made] at answer
    · intro owner domain detail _ answer
      simp [cleanup_error made] at answer
  | ok update =>
    rw [forall_prop_of_true (removeUpdate_updatable made)]
    have answer : (cleanup lib readText cfg exchange req server).1 =
        if exchange = .answered 0 then .ok (.ok req.domain "nsupdate")
        else .ok (.skipped req.domain "No TXT record found to remove") := cleanup_answer made
    constructor
    · intro promises owner read
      constructor
      · intro accepted
        rw [if_pos accepted] at answer
        exact (promises.ok owner _ _ read answer).1
      · intro held
        by_contra refused
        rw [if_neg refused] at answer
        exact promises.skipped owner _ _ read answer held
    · intro agree
      constructor
      · intro owner domain file read answered
        by_cases accepted : exchange = .answered 0
        · refine ⟨(agree owner read).mp accepted, ?_⟩
          simp [cleanup, exchanged, made, accepted, Exchange.applied, removeUpdate_change made read,
            Server.apply, Server.Holds]
        · rw [answer, if_neg accepted] at answered
          simp at answered
      · intro owner domain detail read answered held
        rw [answer, if_pos ((agree owner read).mpr held)] at answered
        simp at answered

/-- A cleanup never gets to its answer, so none promises anything of the server, which it leaves as
it is. -/
theorem cleanup_promises (keys : SignsWithKeys lib) (readText : String → Except PyError String)
    (cfg : DnsUpdateConfig) (exchange : Exchange) (req : AcmeRequest) (server : Server) :
    Promises lib readText cfg exchange req server ∧
      (∃ err, (cleanup lib readText cfg exchange req server).1 = .error err) ∧
      (cleanup lib readText cfg exchange req server).2 = server := by
  have unmade : ¬ Updatable lib readText cfg req.domain := keys.not_updatable req.domain
  refine ⟨(promises_iff lib readText cfg exchange req server).mpr fun updatable =>
    absurd updatable unmade, ?_⟩
  cases made : removeUpdate lib readText cfg req.domain with
  | ok update => exact absurd (removeUpdate_updatable made) unmade
  | error err => exact ⟨⟨err, cleanup_error made⟩, by simp [cleanup, made, exchanged]⟩

/-- A server that has the record, and would remove it. -/
theorem cleanup_promises_example :
    Promises exampleDnspython (fun _ => .error .osError) { keySecret := some "c2VjcmV0" }
      (.answered 0) exampleRequest (fun _ => [[Python.encode "token"]]) ∧
    (∃ err, (cleanup exampleDnspython (fun _ => .error .osError)
      { keySecret := some "c2VjcmV0" } (.answered 0) exampleRequest
      (fun _ => [[Python.encode "token"]])).1 = .error err) ∧
    (cleanup exampleDnspython (fun _ => .error .osError) { keySecret := some "c2VjcmV0" }
      (.answered 0) exampleRequest (fun _ => [[Python.encode "token"]])).2 =
        fun _ => [[Python.encode "token"]] :=
  cleanup_promises exampleDnspython_signs _ _ _ _ _

end AcmeGitWebhook.Dns
