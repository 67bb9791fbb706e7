import AcmeGitWebhook.Challenge.Section
import AcmeGitWebhook.Dns.Probe
import AcmeGitWebhook.Dns.Update

/-!
# The name of the record

Both backends and the probe make a name of the requested domain, which starts with the
challenge prefix. The git backend and the probe make the same; the nsupdate backend puts the
prefix in front once more, and makes no update that has the other's name (`not_oneName`).
-/

namespace AcmeGitWebhook.Dns

open Library Challenge

variable {β : Type} (site : Zones.Site β) (lib : Dnspython)
  (readText : String → Except PyError String) (cfg : DnsUpdateConfig)

/-- One name is edited by the git backend, probed, and the owner in the updates that the nsupdate
backend makes of the request. -/
def OneName (req : AcmeRequest) : Prop :=
  ∃ n, Zones.acmeName site req.domain = .ok n ∧
    queriedName lib.specialName req.domain = some n ∧
    (∃ update, addUpdate lib readText cfg req.domain (req.validation.getD "") = .ok update ∧
      update.change.owner = n) ∧
    ∃ update, removeUpdate lib readText cfg req.domain = .ok update ∧ update.change.owner = n

/-- An update for the domain can be made: there is a secret, the zone's and the key's names are
read, dnspython takes the key, and the owner's name is not too long. -/
structure Updatable (domain : String) : Prop where
  opens : ∃ text zone key, secret readText cfg = .ok text ∧ text ≠ "" ∧
    name lib ((cfg.zone.filter (· ≠ "")).getD (normalizeZone domain)) = .ok zone ∧
    keyName lib cfg = .ok key ∧
    lib.newUpdate zone (buildKeyring cfg.keyName text cfg.keyAlgorithm) key cfg.keyAlgorithm =
      .ok ()
  owner : ∃ owner, fqdn lib domain = .ok owner

variable {site lib readText cfg}

theorem name_eq_ok_iff {text : String} {n : DnsName} :
    name lib text = .ok n ↔ DnsName.fromText lib.specialName text = some n := by
  unfold name
  cases DnsName.fromText lib.specialName text <;> simp

theorem plain_dotted (req : AcmeRequest) :
    DnsName.plain (req.domain ++ ".").toList = true := by
  have text := req.plain
  simp only [DnsName.plain, String.toList_append, List.all_append, Bool.and_eq_true] at text ⊢
  exact ⟨text, by decide⟩

/-- An accepted domain is read alike everywhere. -/
theorem acmeName_eq (req : AcmeRequest) :
    Zones.acmeName site req.domain = name lib (req.domain ++ ".") := by
  have same : DnsName.fromText site.specialName (req.domain ++ ".") =
      DnsName.fromText lib.specialName (req.domain ++ ".") := by
    simp only [DnsName.fromText, plain_dotted, if_true]
  cases read : DnsName.fromText lib.specialName (req.domain ++ ".") <;>
    simp [Zones.acmeName, Zones.fromText, name, same, read]

theorem probe_eq (req : AcmeRequest) :
    queriedName lib.specialName req.domain = (Zones.acmeName site req.domain).toOption := by
  have edited : Zones.acmeName site req.domain = name lib (req.domain ++ ".") := acmeName_eq req
  rw [edited, queriedName, name]
  cases DnsName.fromText lib.specialName (req.domain ++ ".") <;> rfl

/-- The nsupdate backend puts the prefix in front of a domain that has it already. -/
theorem fqdn_eq (site : Zones.Site β) {req : AcmeRequest} {owner : DnsName}
    (h : fqdn lib req.domain = .ok owner) :
    ∃ n, Zones.acmeName site req.domain = .ok n ∧ owner = "_acme-challenge" :: n := by
  have split : "_acme-challenge." ++ req.domain ++ "." =
      "_acme-challenge" ++ "." ++ (req.domain ++ ".") := by
    rw [String.append_assoc]
    rfl
  have text : DnsName.plain ("_acme-challenge".toList ++ '.' :: (req.domain ++ ".").toList) := by
    have rest := plain_dotted req
    simp only [DnsName.plain, List.all_append, List.all_cons, Bool.and_eq_true] at rest ⊢
    exact ⟨by decide, by decide, rest⟩
  have named : (req.domain ++ ".").toList ∉ [['@'], ['.']] := by
    obtain ⟨c, cs, chars⟩ := List.exists_cons_of_ne_nil req.nonempty
    simp [String.toList_append, chars]
  have lower : String.ofList ("_acme-challenge".toList.map Char.toLower) = "_acme-challenge" := by
    decide
  rw [fqdn, name_eq_ok_iff, split] at h
  obtain ⟨n, read, rfl⟩ := DnsName.fromText_cons text (by decide) (by decide) named h
  rw [lower]
  exact ⟨n, (acmeName_eq req).trans (name_eq_ok_iff.mpr read), rfl⟩

/-- An update can be opened exactly when all it is made of is there. -/
theorem newUpdate_ok_iff {domain : String} :
    (∃ make, newUpdate lib readText cfg domain = .ok make) ↔
      ∃ text zone key, secret readText cfg = .ok text ∧ text ≠ "" ∧
        name lib ((cfg.zone.filter (· ≠ "")).getD (normalizeZone domain)) = .ok zone ∧
        keyName lib cfg = .ok key ∧
        lib.newUpdate zone (buildKeyring cfg.keyName text cfg.keyAlgorithm) key
          cfg.keyAlgorithm = .ok () := by
  constructor
  · rintro ⟨make, h⟩
    obtain ⟨text, found, h⟩ := Zones.bind_ok h
    split at h
    · cases h
    · next nonempty =>
      obtain ⟨zone, zoned, h⟩ := Zones.bind_ok h
      obtain ⟨key, keyed, h⟩ := Zones.bind_ok h
      obtain ⟨⟨⟩, taken, -⟩ := Zones.bind_ok h
      exact ⟨text, zone, key, found, nonempty, zoned, keyed, taken⟩
  · rintro ⟨text, zone, key, found, nonempty, zoned, keyed, taken⟩
    rw [newUpdate, found]
    simp only [nonempty, zoned, keyed, taken, bind, Except.bind, if_false]
    exact ⟨_, rfl⟩

theorem removeUpdate_updatable {domain : String} {update : Update}
    (h : removeUpdate lib readText cfg domain = .ok update) :
    Updatable lib readText cfg domain := by
  obtain ⟨make, opened, h⟩ := Zones.bind_ok h
  obtain ⟨owner, read, -⟩ := Zones.bind_ok h
  exact ⟨newUpdate_ok_iff.mp ⟨make, opened⟩, owner, read⟩

/-- A made update changes what it was made for. -/
theorem newUpdate_change {domain : String} {make : Change → Update}
    (h : newUpdate lib readText cfg domain = .ok make) (change : Change) :
    (make change).change = change := by
  obtain ⟨secret, -, h⟩ := Zones.bind_ok h
  split at h
  · cases h
  · obtain ⟨zone, -, h⟩ := Zones.bind_ok h
    obtain ⟨keyName, -, h⟩ := Zones.bind_ok h
    obtain ⟨-, -, h⟩ := Zones.bind_ok h
    rw [← Except.ok.inj h]

theorem removeUpdate_eq {domain : String} (h : Updatable lib readText cfg domain) :
    ∃ update, removeUpdate lib readText cfg domain = .ok update ∧
      fqdn lib domain = .ok update.change.owner := by
  obtain ⟨opens, owner, read⟩ := h
  obtain ⟨make, opened⟩ := newUpdate_ok_iff.mpr opens
  refine ⟨make (.delete owner), ?_, ?_⟩
  · rw [removeUpdate, opened]
    simp only [read, bind, Except.bind, pure, Except.pure]
  · rw [newUpdate_change opened, read]
    rfl

/-- dnspython signs with no entry of the module's keyring, so there is no update at all. -/
theorem SignsWithKeys.not_updatable (keys : SignsWithKeys lib) (domain : String) :
    ¬ Updatable lib readText cfg domain := by
  rintro ⟨⟨text, zone, key, -, -, -, -, accepted⟩, -⟩
  exact keys.refuses zone cfg.keyName text key cfg.keyAlgorithm accepted

/-- The backends never agree on a name: the owner that the nsupdate backend writes an update for
has the challenge prefix twice, whether or not dnspython makes the update. -/
theorem not_oneName (site : Zones.Site β) (lib : Dnspython)
    (readText : String → Except PyError String) (cfg : DnsUpdateConfig) (req : AcmeRequest) :
    ¬ OneName site lib readText cfg req ∧
      ∀ owner, fqdn lib req.domain = .ok owner →
        ∃ n, Zones.acmeName site req.domain = .ok n ∧
          queriedName lib.specialName req.domain = some n ∧ owner = "_acme-challenge" :: n := by
  have doubled : ∀ owner, fqdn lib req.domain = .ok owner →
      ∃ n, Zones.acmeName site req.domain = .ok n ∧
        queriedName lib.specialName req.domain = some n ∧ owner = "_acme-challenge" :: n := by
    intro owner read
    obtain ⟨n, edited, longer⟩ := fqdn_eq site read
    have probed : queriedName lib.specialName req.domain =
        (Zones.acmeName site req.domain).toOption := probe_eq req
    exact ⟨n, edited, by rw [probed, edited]; rfl, longer⟩
  refine ⟨?_, doubled⟩
  rintro ⟨n, edited, -, -, update, made, owner⟩
  obtain ⟨update', made', read⟩ := removeUpdate_eq (removeUpdate_updatable made)
  obtain rfl := Except.ok.inj (made.symm.trans made')
  obtain ⟨n', edited', -, longer⟩ := doubled _ read
  obtain rfl := Except.ok.inj (edited.symm.trans edited')
  rw [owner] at longer
  exact absurd (congrArg List.length longer) (by simp)

/-- For a challenge of example.com: the owner of the updates, and what comes of them. -/
theorem prefix_twice :
    ¬ OneName exampleSite exampleDnspython (fun _ => .error .osError)
      { keySecret := some "c2VjcmV0" } exampleRequest ∧
    Zones.acmeName exampleSite exampleRequest.domain = .ok ["_acme-challenge", "example", "com"] ∧
    fqdn exampleDnspython exampleRequest.domain =
      .ok ["_acme-challenge", "_acme-challenge", "example", "com"] ∧
    removeUpdate exampleDnspython (fun _ => .error .osError) { keySecret := some "c2VjcmV0" }
      exampleRequest.domain = .error (.keyError "acme-key.") := by
  have unmade : removeUpdate exampleDnspython (fun _ => .error .osError)
      { keySecret := some "c2VjcmV0" } exampleRequest.domain = .error (.keyError "acme-key.") := by
    decide +kernel
  refine ⟨?_, by decide +kernel, by decide +kernel, unmade⟩
  rintro ⟨n, -, -, -, update, made, -⟩
  rw [unmade] at made
  cases made

end AcmeGitWebhook.Dns
