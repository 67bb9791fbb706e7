import AcmeGitWebhook.Targets.F5

/-!
# What an F5 `ok` means

A deployment that answers `ok` has uploaded the pair and has updated what it found. `switched_iff`
says when that is every profile of the device that the domain's search selects.
-/

namespace AcmeGitWebhook.F5

open Library

variable (lower : String → String)

/-- The profiles on the device that the domain's search selects, by the name they are listed
under. -/
def matching (domain : String) (dev : Device) : List String :=
  (dev.profiles.values.filter (Profile.isFor lower domain)).map (·.name)

/-- The profile refers to both objects of the domain. -/
def Profile.Refers (domain : String) (p : Profile) : Prop :=
  p.cert = some (fullName domain) ∧ p.key = some (fullName domain)

/-- The uploaded pair is on the device, every profile that matched the domain refers to it, and
these are the profiles that are reported. -/
structure Switched (domain fullchainPem privkeyPem : String) (dev dev' : Device)
    (result : Deployed) : Prop where
  cert : dev'.certs.get? (fullName domain) = some fullchainPem
  key : dev'.keys.get? (fullName domain) = some privkeyPem
  profiles : ∀ path p, dev.profiles.get? path = some p → p.isFor lower domain = true →
    ∃ p', dev'.profiles.get? path = some p' ∧ p'.Refers domain
  reported : result.updatedProfiles = matching lower domain dev

/-- The profiles are listed, unless there is nothing to find; and each one that is selected is
where the name of a selected profile leads to, or refers to the pair already. -/
structure Reached (domain : String) (listing : Except PyError Unit) (dev : Device) : Prop where
  listed : listing = .ok () ∨ matching lower domain dev = []
  addressed : ∀ path p, dev.profiles.get? path = some p → p.isFor lower domain = true →
    path ∈ (matching lower domain dev).map profilePath ∨ p.Refers domain

variable {lower} {cfg : F5TargetConfig} {domain fullchainPem privkeyPem name certName
  keyName : String} {calls : Calls} {outcome : Outcome} {put : Nat → Outcome} {dev dev' : Device}
  {effect : Device → Device} {result : Deployed}

theorem Outcome.call_ok (h : outcome.call effect dev = (.ok (), dev')) : dev' = effect dev := by
  cases outcome with
  | done => exact (Prod.mk.inj h).2.symm
  | rejected err => cases (Prod.mk.inj h).1
  | late err => cases (Prod.mk.inj h).1

/-- An update that succeeds has found a profile and writes its two references. -/
theorem updateProfileCert_ok (h : updateProfileCert name certName keyName outcome dev =
    (.ok (), dev')) :
    ∃ p, dev.profiles.get? (profilePath name) = some p ∧
      dev' = dev.put (profilePath name) ⟨p.name, some certName, some keyName⟩ := by
  unfold updateProfileCert at h
  split at h
  · cases (Prod.mk.inj h).1
  · next p found => exact ⟨p, found, Outcome.call_ok h⟩

/-- Updates that all succeed rewrite the references of the profiles they address, and nothing
else on the device. -/
theorem updateProfiles_ok {names : List String}
    (h : updateProfiles certName keyName put names dev = (.ok (), dev')) (path : String) :
    dev'.profiles.get? path =
      if path ∈ names.map profilePath then
        (dev.profiles.get? path).map fun p => ⟨p.name, some certName, some keyName⟩
      else dev.profiles.get? path := by
  induction names generalizing put dev with
  | nil =>
    obtain rfl := (Prod.mk.inj h).2
    rfl
  | cons name names ih =>
    rw [updateProfiles] at h
    split at h
    · cases (Prod.mk.inj h).1
    · next after updated =>
      obtain ⟨p, found, rfl⟩ := updateProfileCert_ok updated
      rw [ih h]
      by_cases here : path = profilePath name
      · subst here
        simp [Device.put, found]
      · simp [Device.put, here]

/-- A deployment that answers `ok` has uploaded both objects, has updated the profiles it found,
and reports these. -/
theorem deploy_ok (h : deploy lower cfg domain fullchainPem privkeyPem calls dev =
    (.ok result, dev')) :
    updateProfiles (fullName domain) (fullName domain) calls.put
        (findSslProfilesForDomain lower domain calls.listing dev)
        ⟨dev.certs.set (fullName domain) fullchainPem, dev.keys.set (fullName domain) privkeyPem,
          dev.profiles⟩ = (.ok (), dev') ∧
      result.updatedProfiles = findSslProfilesForDomain lower domain calls.listing dev := by
  unfold deploy at h
  split at h
  · cases (Prod.mk.inj h).1
  next dev₁ cert =>
  split at h
  · cases (Prod.mk.inj h).1
  next dev₂ key =>
  obtain rfl := Outcome.call_ok cert
  obtain rfl := Outcome.call_ok key
  have listed : findSslProfilesForDomain lower domain calls.listing
      ⟨dev.certs.set (fullName domain) fullchainPem, dev.keys.set (fullName domain) privkeyPem,
        dev.profiles⟩ = findSslProfilesForDomain lower domain calls.listing dev :=
    findSslProfilesForDomain_congr rfl
  dsimp only at h
  rw [listed] at h
  split at h
  · cases (Prod.mk.inj h).1
  next dev₃ updated =>
  obtain ⟨answer, rfl⟩ := Prod.mk.inj h
  exact ⟨updated, by rw [← Except.ok.inj answer]⟩

theorem found_eq_matching_iff {listing : Except PyError Unit} :
    findSslProfilesForDomain lower domain listing dev = matching lower domain dev ↔
      listing = .ok () ∨ matching lower domain dev = [] := by
  cases listing with
  | error err =>
    rw [findSslProfilesForDomain, or_iff_right (by simp)]
    exact eq_comm
  | ok => simp [findSslProfilesForDomain, matching]

/-- A profile refers to the pair after the updates if one of them is made at its path, or if it
did before. -/
theorem refers_iff {paths : List String} {path : String} {p : Profile}
    (rewritten : ∀ path, dev'.profiles.get? path =
      if path ∈ paths then
        (dev.profiles.get? path).map fun p =>
          ⟨p.name, some (fullName domain), some (fullName domain)⟩
      else dev.profiles.get? path)
    (found : dev.profiles.get? path = some p) :
    (∃ p', dev'.profiles.get? path = some p' ∧ p'.Refers domain) ↔
      path ∈ paths ∨ p.Refers domain := by
  rw [rewritten, found]
  by_cases hit : path ∈ paths
  · simp [hit, Profile.Refers]
  · simp [hit]

theorem switched_iff (lower : String → String) (cfg : F5TargetConfig)
    (domain fullchainPem privkeyPem : String) (calls : Calls) (dev dev' : Device)
    (result : Deployed)
    (h : deploy lower cfg domain fullchainPem privkeyPem calls dev = (.ok result, dev')) :
    Switched lower domain fullchainPem privkeyPem dev dev' result ↔
      Reached lower domain calls.listing dev := by
  obtain ⟨updated, reported⟩ := deploy_ok h
  have profiles := updateProfiles_ok updated
  obtain ⟨certs, keys⟩ := updateProfiles_objects (fullName domain) (fullName domain) calls.put
    (findSslProfilesForDomain lower domain calls.listing dev)
    ⟨dev.certs.set (fullName domain) fullchainPem, dev.keys.set (fullName domain) privkeyPem,
      dev.profiles⟩
  rw [updated] at certs keys
  dsimp only at certs keys profiles
  constructor
  · intro switched
    have names := reported.symm.trans switched.reported
    rw [names] at profiles
    exact ⟨found_eq_matching_iff.mp names, fun path p found selected =>
      (refers_iff profiles found).mp (switched.profiles path p found selected)⟩
  · rintro ⟨listed, addressed⟩
    have names := found_eq_matching_iff.mpr listed
    rw [names] at profiles reported
    exact ⟨by simp [certs], by simp [keys], fun path p found selected =>
      (refers_iff profiles found).mpr (addressed path p found selected), reported⟩

def renewedProfile : Device :=
  ⟨[], [], [("Common/www", ⟨"www", some "/Common/www.example.com.2024", some "/Common/www"⟩)]⟩

theorem switched_iff_renewed :
    Switched asciiLower "www.example.com" "CERT" "KEY" renewedProfile
        (deploy asciiLower ⟨"f5", ""⟩ "www.example.com" "CERT" "KEY" {} renewedProfile).2
        ⟨"f5", "", "/Common/www.example.com", "/Common/www.example.com", ["www"]⟩ ↔
      Reached asciiLower "www.example.com" (.ok ()) renewedProfile :=
  switched_iff asciiLower ⟨"f5", ""⟩ _ _ _ {} _ _ _ (by decide +kernel)

/-- The list of profiles cannot be read: `ok`, and the profile has its old certificate. -/
theorem ok_without_switch :
    (deploy asciiLower ⟨"f5", ""⟩ "www.example.com" "CERT" "KEY" { listing := .error .osError }
        renewedProfile).1 =
      .ok ⟨"f5", "", "/Common/www.example.com", "/Common/www.example.com", []⟩ ∧
    ¬ Switched asciiLower "www.example.com" "CERT" "KEY" renewedProfile
        (deploy asciiLower ⟨"f5", ""⟩ "www.example.com" "CERT" "KEY"
          { listing := .error .osError } renewedProfile).2
        ⟨"f5", "", "/Common/www.example.com", "/Common/www.example.com", []⟩ := by
  refine ⟨by decide +kernel, fun switched => ?_⟩
  have reported := switched.reported
  revert reported
  decide +kernel

end AcmeGitWebhook.F5
