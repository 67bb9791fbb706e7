import AcmeGitWebhook.Library.Dict
import AcmeGitWebhook.Python
import Mathlib.Data.List.TakeWhile

/-!
# The F5 target

`F5Target.deploy` of `app/targets/f5.py` against the device it talks to. A POST creates or
replaces an object, a GET lists every profile, and a PUT sets the two references of the
profile it addresses; how each call ends is given with the call. `preserves_iff` says when a
deployment leaves alone what another domain's has put in place.

Lowering the case of a text is a parameter: nothing here depends on how it is done.
-/

namespace AcmeGitWebhook.F5

open Library

/-- A client-ssl profile: the name it is listed under and the objects it refers to. -/
structure Profile where
  name : String
  cert : Option String
  key : Option String
  deriving DecidableEq, Repr

/-- A Big-IP: the contents of its certificates and keys by name, and its profiles by
resource path, in the order they are listed in. -/
structure Device where
  certs : Dict String String
  keys : Dict String String
  profiles : Dict String Profile
  deriving DecidableEq, Repr

/-- How a call that changes the device ends: it takes effect, is rejected, or raises after it
took effect. -/
inductive Outcome where
  | done
  | rejected (err : PyError)
  | late (err : PyError)

/-- How the calls of a deployment end, the updates of the profiles in turn. -/
structure Calls where
  cert : Outcome := .done
  key : Outcome := .done
  listing : Except PyError Unit := .ok ()
  put : Nat → Outcome := fun _ => .done

/-- The fields of the configuration that end up in a result. -/
structure F5TargetConfig where
  name : String
  addr : String

/-- A `DeployResult` with status `ok` and provider `f5`. -/
structure Deployed where
  target : String
  host : String
  certName : String
  keyName : String
  updatedProfiles : List String
  deriving DecidableEq, Repr

def Device.put (path : String) (p : Profile) (dev : Device) : Device :=
  { dev with profiles := dev.profiles.set path p }

def Outcome.call (outcome : Outcome) (effect : Device → Device) (dev : Device) :
    Except PyError Unit × Device :=
  match outcome with
  | .done => (.ok (), effect dev)
  | .rejected err => (.error err, dev)
  | .late err => (.error err, effect dev)

def sanitizeName (domain : String) : String := Python.replace '*' "wildcard" domain

/-- The name both objects of a domain are uploaded under. -/
def fullName (domain : String) : String := "/Common/" ++ sanitizeName domain

def uploadCert (name fullchainPem : String) (outcome : Outcome) (dev : Device) :
    Except PyError Unit × Device :=
  outcome.call (fun dev => { dev with certs := dev.certs.set name fullchainPem }) dev

def uploadKey (name privkeyPem : String) (outcome : Outcome) (dev : Device) :
    Except PyError Unit × Device :=
  outcome.call (fun dev => { dev with keys := dev.keys.set name privkeyPem }) dev

variable (lower : String → String)

/-- The profile's certificate reference contains the domain in one of its two spellings, or
is the text `none`. -/
def Profile.isFor (domain : String) (p : Profile) : Bool :=
  let certRef := lower (p.cert.getD "")
  Python.contains certRef (lower domain) || Python.contains certRef (lower (sanitizeName domain)) ||
    certRef = "none"

def findSslProfilesForDomain (domain : String) (listing : Except PyError Unit) (dev : Device) :
    List String :=
  match listing with
  | .error _ => []
  | .ok () => (dev.profiles.values.filter (Profile.isFor lower domain)).map (·.name)

/-- What `_update_profile_cert` addresses: always the partition `Common`. -/
def profilePath (name : String) : String := "Common/" ++ Python.replace '/' "~" name

def updateProfileCert (name certName keyName : String) (outcome : Outcome) (dev : Device) :
    Except PyError Unit × Device :=
  match dev.profiles.get? (profilePath name) with
  | none => (.error (.library "HTTPStatusError"), dev)
  | some p =>
    outcome.call (Device.put (profilePath name) ⟨p.name, some certName, some keyName⟩) dev

/-- The loop over the profiles; an exception ends it. -/
def updateProfiles (certName keyName : String) :
    (Nat → Outcome) → List String → Device → Except PyError Unit × Device
  | _, [], dev => (.ok (), dev)
  | put, name :: names, dev =>
    match updateProfileCert name certName keyName (put 0) dev with
    | (.error err, dev) => (.error err, dev)
    | (.ok (), dev) => updateProfiles certName keyName (fun i => put (i + 1)) names dev

def deploy (cfg : F5TargetConfig) (domain fullchainPem privkeyPem : String) (calls : Calls)
    (dev : Device) : Except PyError Deployed × Device :=
  match uploadCert (fullName domain) fullchainPem calls.cert dev with
  | (.error err, dev) => (.error err, dev)
  | (.ok (), dev) =>
    match uploadKey (fullName domain) privkeyPem calls.key dev with
    | (.error err, dev) => (.error err, dev)
    | (.ok (), dev) =>
      let profiles := findSslProfilesForDomain lower domain calls.listing dev
      match updateProfiles (fullName domain) (fullName domain) calls.put profiles dev with
      | (.error err, dev) => (.error err, dev)
      | (.ok (), dev) =>
        (.ok ⟨cfg.name, cfg.addr, fullName domain, fullName domain, profiles⟩, dev)

/-! ## What a deployment leaves alone -/

/-- The profile refers to one of the objects that the domain's deployment uploads. -/
def Profile.Bound (domain : String) (p : Profile) : Prop :=
  p.cert = some (fullName domain) ∨ p.key = some (fullName domain)

/-- The domain's objects and the profiles bound to them are as they were. -/
structure Preserves (domain : String) (dev dev' : Device) : Prop where
  cert : dev'.certs.get? (fullName domain) = dev.certs.get? (fullName domain)
  key : dev'.keys.get? (fullName domain) = dev.keys.get? (fullName domain)
  profiles : ∀ path p, dev.profiles.get? path = some p → p.Bound domain →
    dev'.profiles.get? path = some p

/-- The profiles that updates under these names address, up to the first that is missing. -/
def addressed (names : List String) (dev : Device) : List String :=
  (names.map profilePath).takeWhile fun path => (dev.profiles.get? path).isSome

/-- The second domain has objects of its own, and none of the profiles that its deployment
addresses is bound to the first's. -/
structure Apart (domain domain' : String) (dev : Device) : Prop where
  names : fullName domain ≠ fullName domain'
  profiles : ∀ path ∈ addressed (findSslProfilesForDomain lower domain' (.ok ()) dev) dev,
    ∀ p, dev.profiles.get? path = some p → ¬ p.Bound domain

variable {lower} {cfg : F5TargetConfig} {domain domain' fullchainPem privkeyPem name certName
  keyName : String} {calls : Calls} {outcome : Outcome} {put : Nat → Outcome} {dev : Device}

/-- However a call ends, its effect took place or nothing did. -/
theorem Outcome.call_cases (outcome : Outcome) (effect : Device → Device) (dev : Device) :
    (outcome.call effect dev).2 = dev ∨ (outcome.call effect dev).2 = effect dev := by
  cases outcome with
  | done => exact Or.inr rfl
  | rejected err => exact Or.inl rfl
  | late err => exact Or.inr rfl

/-- An update changes at most the references of the one profile it addresses. -/
theorem updateProfileCert_cases (name certName keyName : String) (outcome : Outcome)
    (dev : Device) :
    (updateProfileCert name certName keyName outcome dev).2 = dev ∨
      ∃ p, dev.profiles.get? (profilePath name) = some p ∧
        (updateProfileCert name certName keyName outcome dev).2 =
          dev.put (profilePath name) ⟨p.name, some certName, some keyName⟩ := by
  unfold updateProfileCert
  cases found : dev.profiles.get? (profilePath name) with
  | none => exact Or.inl rfl
  | some p =>
    exact (outcome.call_cases _ dev).imp_right fun changed => ⟨p, rfl, changed⟩

theorem updateProfileCert_isSome (path : String) :
    ((updateProfileCert name certName keyName outcome dev).2.profiles.get? path).isSome =
      (dev.profiles.get? path).isSome := by
  rcases updateProfileCert_cases name certName keyName outcome dev with same | ⟨p, found, put⟩
  · rw [same]
  · by_cases here : path = profilePath name
    · simp [put, Device.put, here, found]
    · simp [put, Device.put, here]

theorem updateProfiles_objects (certName keyName : String) (put : Nat → Outcome)
    (names : List String) (dev : Device) :
    (updateProfiles certName keyName put names dev).2.certs = dev.certs ∧
      (updateProfiles certName keyName put names dev).2.keys = dev.keys := by
  induction names generalizing put dev with
  | nil => exact ⟨rfl, rfl⟩
  | cons name names ih =>
    have one : (updateProfileCert name certName keyName (put 0) dev).2.certs = dev.certs ∧
        (updateProfileCert name certName keyName (put 0) dev).2.keys = dev.keys := by
      rcases updateProfileCert_cases name certName keyName (put 0) dev with same | ⟨p, -, changed⟩
      · rw [same]; exact ⟨rfl, rfl⟩
      · rw [changed]; exact ⟨rfl, rfl⟩
    rcases step : updateProfileCert name certName keyName (put 0) dev with ⟨_ | _, after⟩
    · simpa [updateProfiles, step] using one
    · rw [step] at one
      obtain ⟨certs, keys⟩ := ih (fun i => put (i + 1)) after
      simp only [updateProfiles, step]
      exact ⟨certs.trans one.1, keys.trans one.2⟩

theorem addressed_cons {name : String} {names : List String} {dev : Device} :
    addressed (name :: names) dev =
      if (dev.profiles.get? (profilePath name)).isSome then
        profilePath name :: addressed names dev
      else [] := by
  simp only [addressed, List.map_cons, List.takeWhile_cons]

/-- An update addresses a profile without adding or removing one. -/
theorem addressed_updateProfileCert (name certName keyName : String) (outcome : Outcome)
    (dev : Device) (names : List String) :
    addressed names (updateProfileCert name certName keyName outcome dev).2 =
      addressed names dev := by
  simp only [addressed, updateProfileCert_isSome]

theorem updateProfileCert_get?_of_ne {path : String} (certName keyName : String)
    (outcome : Outcome) (dev : Device) (other : path ≠ profilePath name) :
    (updateProfileCert name certName keyName outcome dev).2.profiles.get? path =
      dev.profiles.get? path := by
  rcases updateProfileCert_cases name certName keyName outcome dev with same | ⟨p, -, changed⟩
  · rw [same]
  · simp [changed, Device.put, other]

/-- Profiles that are not addressed stay as they are, however the updates end. -/
theorem updateProfiles_frame {path : String} (put : Nat → Outcome) (names : List String)
    (dev : Device) (clear : path ∉ addressed names dev) :
    (updateProfiles certName keyName put names dev).2.profiles.get? path =
      dev.profiles.get? path := by
  induction names generalizing put dev with
  | nil => rfl
  | cons name names ih =>
    cases found : dev.profiles.get? (profilePath name) with
    | none => simp [updateProfiles, updateProfileCert, found]
    | some p =>
      simp only [addressed_cons, found, Option.isSome_some, if_true, List.mem_cons,
        not_or] at clear
      have here := updateProfileCert_get?_of_ne certName keyName (put 0) dev clear.1
      rcases step : updateProfileCert name certName keyName (put 0) dev with ⟨_ | _, after⟩
      · simpa [updateProfiles, step] using here
      · have rest : path ∉ addressed names after := by
          have same := addressed_updateProfileCert name certName keyName (put 0) dev names
          rw [step] at same
          exact same ▸ clear.2
        simp only [updateProfiles, step, ih _ after rest]
        simpa [step] using here

/-- When every call takes effect, each profile addressed gets the new references. -/
theorem updateProfiles_done {path : String} (certName keyName : String) (names : List String)
    (dev : Device) (hit : path ∈ addressed names dev) :
    ∃ p, (updateProfiles certName keyName (fun _ => .done) names dev).2.profiles.get? path =
      some p ∧ p.cert = some certName ∧ p.key = some keyName := by
  induction names generalizing dev with
  | nil => simp [addressed] at hit
  | cons name names ih =>
    cases found : dev.profiles.get? (profilePath name) with
    | none => simp [addressed_cons, found] at hit
    | some p =>
      obtain ⟨after, written, step⟩ : ∃ after : Device,
          after = dev.put (profilePath name) ⟨p.name, some certName, some keyName⟩ ∧
            updateProfileCert name certName keyName .done dev = (.ok (), after) :=
        ⟨_, rfl, by simp [updateProfileCert, found, Outcome.call]⟩
      have same : addressed names after = addressed names dev := by
        simpa [step] using addressed_updateProfileCert name certName keyName .done dev names
      simp only [updateProfiles, step]
      by_cases again : path ∈ addressed names after
      · exact ih after again
      · obtain rfl : path = profilePath name := by
          simp only [addressed_cons, found, Option.isSome_some, if_true, List.mem_cons] at hit
          exact hit.resolve_right (same ▸ again)
        rw [updateProfiles_frame _ names _ again, written]
        exact ⟨⟨p.name, some certName, some keyName⟩, by simp [Device.put], rfl, rfl⟩

/-- The devices differ at most in the two objects of this name. -/
structure SameBut (name : String) (dev dev' : Device) : Prop where
  certs : ∀ other, other ≠ name → dev'.certs.get? other = dev.certs.get? other
  keys : ∀ other, other ≠ name → dev'.keys.get? other = dev.keys.get? other
  profiles : dev'.profiles = dev.profiles

theorem SameBut.trans {dev' dev'' : Device} (h : SameBut name dev dev')
    (h' : SameBut name dev' dev'') : SameBut name dev dev'' where
  certs other ne := (h'.certs other ne).trans (h.certs other ne)
  keys other ne := (h'.keys other ne).trans (h.keys other ne)
  profiles := h'.profiles.trans h.profiles

theorem uploadCert_sameBut (name fullchainPem : String) (outcome : Outcome) (dev : Device) :
    SameBut name dev (uploadCert name fullchainPem outcome dev).2 := by
  rcases outcome.call_cases (fun dev => { dev with certs := dev.certs.set name fullchainPem }) dev
    with same | changed
  · rw [uploadCert, same]; exact ⟨fun _ _ => rfl, fun _ _ => rfl, rfl⟩
  · rw [uploadCert, changed]; exact ⟨fun _ ne => by simp [ne], fun _ _ => rfl, rfl⟩

theorem uploadKey_sameBut (name privkeyPem : String) (outcome : Outcome) (dev : Device) :
    SameBut name dev (uploadKey name privkeyPem outcome dev).2 := by
  rcases outcome.call_cases (fun dev => { dev with keys := dev.keys.set name privkeyPem }) dev
    with same | changed
  · rw [uploadKey, same]; exact ⟨fun _ _ => rfl, fun _ _ => rfl, rfl⟩
  · rw [uploadKey, changed]; exact ⟨fun _ _ => rfl, fun _ ne => by simp [ne], rfl⟩

theorem findSslProfilesForDomain_congr {listing : Except PyError Unit} {dev' : Device}
    (same : dev'.profiles = dev.profiles) :
    findSslProfilesForDomain lower domain listing dev' =
      findSslProfilesForDomain lower domain listing dev := by
  cases listing with
  | error err => rfl
  | ok => simp only [findSslProfilesForDomain, same]

/-- A deployment uploads at most the domain's two objects, and then it is over or goes on to
update the profiles it has found. -/
theorem deploy_cases (lower : String → String) (cfg : F5TargetConfig)
    (domain fullchainPem privkeyPem : String) (calls : Calls) (dev : Device) :
    ∃ uploaded, SameBut (fullName domain) dev uploaded ∧
      ((deploy lower cfg domain fullchainPem privkeyPem calls dev).2 = uploaded ∨
        (deploy lower cfg domain fullchainPem privkeyPem calls dev).2 =
          (updateProfiles (fullName domain) (fullName domain) calls.put
            (findSslProfilesForDomain lower domain calls.listing dev) uploaded).2) := by
  have certSame := uploadCert_sameBut (fullName domain) fullchainPem calls.cert dev
  unfold deploy
  rcases cert : uploadCert (fullName domain) fullchainPem calls.cert dev with ⟨_ | _, dev₁⟩
  all_goals rw [cert] at certSame
  · exact ⟨dev₁, certSame, Or.inl rfl⟩
  · have keySame := uploadKey_sameBut (fullName domain) privkeyPem calls.key dev₁
    rcases key : uploadKey (fullName domain) privkeyPem calls.key dev₁ with ⟨_ | _, dev₂⟩
    all_goals rw [key] at keySame
    · exact ⟨dev₂, certSame.trans keySame, Or.inl (by simp only [key])⟩
    · have same := certSame.trans keySame
      refine ⟨dev₂, same, Or.inr ?_⟩
      simp only [key, findSslProfilesForDomain_congr same.profiles]
      split
      · rename_i ended
        rw [ended]
      · rename_i ended
        rw [ended]

/-- Domains that are apart do not meet, whatever is deployed and however the calls end. -/
theorem Apart.preserves (apart : Apart lower domain domain' dev) :
    Preserves domain dev (deploy lower cfg domain' fullchainPem privkeyPem calls dev).2 := by
  obtain ⟨uploaded, same, ended | updated⟩ :=
    deploy_cases lower cfg domain' fullchainPem privkeyPem calls dev
  · rw [ended]
    exact ⟨same.certs _ apart.names, same.keys _ apart.names,
      fun path p found _ => same.profiles ▸ found⟩
  · obtain ⟨certs, keys⟩ := updateProfiles_objects (fullName domain') (fullName domain') calls.put
      (findSslProfilesForDomain lower domain' calls.listing dev) uploaded
    rw [updated]
    refine ⟨by rw [certs, same.certs _ apart.names], by rw [keys, same.keys _ apart.names], ?_⟩
    intro path p found bound
    rw [updateProfiles_frame, same.profiles, found]
    intro hit
    cases listing : calls.listing with
    | error err => simp [listing, findSslProfilesForDomain, addressed] at hit
    | ok =>
      rw [listing] at hit
      have hit' : path ∈ addressed (findSslProfilesForDomain lower domain' (.ok ()) dev) dev := by
        simpa only [addressed, same.profiles] using hit
      exact apart.profiles path hit' p found bound

/-- A deployment whose calls all take effect. -/
theorem deploy_done : (deploy lower cfg domain fullchainPem privkeyPem {} dev).2 =
    (updateProfiles (fullName domain) (fullName domain) (fun _ => .done)
      (findSslProfilesForDomain lower domain (.ok ()) dev)
      { dev with
        certs := dev.certs.set (fullName domain) fullchainPem
        keys := dev.keys.set (fullName domain) privkeyPem }).2 := by
  simp only [deploy, uploadCert, uploadKey, Outcome.call]
  split
  · rename_i ended
    exact (congrArg Prod.snd ended).symm
  · rename_i ended
    exact (congrArg Prod.snd ended).symm

/-- A deployment whose second upload is rejected has replaced the certificate all the same. -/
theorem deploy_keyRejected {err : PyError} :
    (deploy lower cfg domain fullchainPem privkeyPem { key := .rejected err } dev).2 =
      { dev with certs := dev.certs.set (fullName domain) fullchainPem } := rfl

/-- Where the domains meet, some deployment of the second shows it. -/
theorem Apart.of_preserves (preserves : ∀ fullchainPem privkeyPem calls,
      Preserves domain dev (deploy lower cfg domain' fullchainPem privkeyPem calls dev).2) :
    Apart lower domain domain' dev := by
  have names : fullName domain ≠ fullName domain' := by
    intro same
    have kept (text : String) : some text = dev.certs.get? (fullName domain) := by
      simpa [deploy_keyRejected, ← same] using
        (preserves text "" { key := .rejected .osError }).cert
    exact absurd ((kept "old").trans (kept "new").symm) (by decide)
  refine ⟨names, fun path hit p found bound => ?_⟩
  obtain ⟨p', written, cert, key⟩ := updateProfiles_done (fullName domain') (fullName domain') _
    { dev with
      certs := dev.certs.set (fullName domain') ""
      keys := dev.keys.set (fullName domain') "" } hit
  have kept := (preserves "" "" {}).profiles path p found bound
  rw [deploy_done] at kept
  obtain rfl : p' = p := Option.some.inj (written.symm.trans kept)
  rcases bound with cert' | key'
  · exact names (Option.some.inj (cert'.symm.trans cert))
  · exact names (Option.some.inj (key'.symm.trans key))

/-- Where each profile is the one that its name addresses, the search of the second domain
must not select a profile of the first's. -/
theorem apart_iff_of_common (common : ∀ p ∈ dev.profiles.values,
      dev.profiles.get? (profilePath p.name) = some p) :
    Apart lower domain domain' dev ↔ fullName domain ≠ fullName domain' ∧
      ∀ p ∈ dev.profiles.values, p.isFor lower domain' = true → ¬ p.Bound domain := by
  have mem_find (name : String) : name ∈ findSslProfilesForDomain lower domain' (.ok ()) dev ↔
      ∃ p ∈ dev.profiles.values, p.isFor lower domain' = true ∧ p.name = name := by
    simp [findSslProfilesForDomain, and_assoc]
  have all : addressed (findSslProfilesForDomain lower domain' (.ok ()) dev) dev =
      (findSslProfilesForDomain lower domain' (.ok ()) dev).map profilePath := by
    refine List.takeWhile_eq_self_iff.mpr fun path hit => ?_
    obtain ⟨name, found, rfl⟩ := List.mem_map.mp hit
    obtain ⟨p, listed, -, rfl⟩ := (mem_find name).mp found
    simp [common p listed]
  constructor
  · intro apart
    refine ⟨apart.names, fun p listed selected => ?_⟩
    refine apart.profiles (profilePath p.name) ?_ p (common p listed)
    exact all ▸ List.mem_map_of_mem ((mem_find p.name).mpr ⟨p, listed, selected, rfl⟩)
  · rintro ⟨names, clear⟩
    refine ⟨names, fun path hit p found => ?_⟩
    obtain ⟨name, selects, rfl⟩ := List.mem_map.mp (all ▸ hit)
    obtain ⟨q, listed, selected, rfl⟩ := (mem_find name).mp selects
    obtain rfl : q = p := Option.some.inj ((common q listed).symm.trans found)
    exact clear q listed selected

theorem leavesAlone_iff (lower : String → String) (cfg : F5TargetConfig) (dev : Device)
    (domain domain' fullchainPem privkeyPem : String) (calls : Calls) :
    (∀ fullchainPem' privkeyPem' calls',
      Preserves domain (deploy lower cfg domain fullchainPem privkeyPem calls dev).2
        (deploy lower cfg domain' fullchainPem' privkeyPem' calls'
          (deploy lower cfg domain fullchainPem privkeyPem calls dev).2).2) ↔
      Apart lower domain domain' (deploy lower cfg domain fullchainPem privkeyPem calls dev).2 :=
  ⟨Apart.of_preserves, fun apart _ _ _ => apart.preserves⟩

/-- What the route `/deploy/{domain}` takes for a domain. -/
def Accepted (domain : String) : Prop := domain ≠ "" ∧ '/' ∉ domain.toList

instance (domain : String) : Decidable (Accepted domain) := inferInstanceAs (Decidable (_ ∧ _))

def asciiLower (text : String) : String := String.ofList (text.toList.map Char.toLower)

def oneProfile : Device :=
  ⟨[], [],
    [("Common/www", ⟨"www", some "/Common/www.example.com", some "/Common/www.example.com"⟩)]⟩

/-- The profile of `www.example.com` gets the certificate of `example.com`. -/
theorem takes_profile_over : Accepted "www.example.com" ∧ Accepted "example.com" ∧
    asciiLower "www.example.com" ≠ asciiLower "example.com" ∧
      ¬ Preserves "www.example.com"
        (deploy asciiLower ⟨"f5", ""⟩ "www.example.com" "CERT" "KEY" {} oneProfile).2
        (deploy asciiLower ⟨"f5", ""⟩ "example.com" "CERT2" "KEY2" {}
          (deploy asciiLower ⟨"f5", ""⟩ "www.example.com" "CERT" "KEY" {} oneProfile).2).2 := by
  refine ⟨by decide, by decide, by decide, fun preserves => ?_⟩
  have kept := preserves.profiles "Common/www"
    ⟨"www", some "/Common/www.example.com", some "/Common/www.example.com"⟩ (by decide +kernel)
    (Or.inl (by decide))
  revert kept
  decide +kernel

end AcmeGitWebhook.F5
