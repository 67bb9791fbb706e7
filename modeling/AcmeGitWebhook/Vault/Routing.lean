import AcmeGitWebhook.Vault.Endpoints

/-!
# Per-domain routing

A deployment without target names looks the domain's targets up in Vault, and deploys to
every registered target when the lookup finds nothing for whatever reason. For a domain
that has a list, `keepsToList_iff` says when no target outside it is touched all the same.
-/

namespace AcmeGitWebhook.Vault

open Library

variable {loads : String → Option Json} {tzdata : String → Option Zone} {app : App}
  {cfg : VaultConfig} {kv : Kv} {st : State} {domain : String} {req : DeployRequest}
  {pemRead routingRead : ReadOutcome} {now : Int} {L : List String}
  {outcome : Nat → Except String Targets.DeployResult}

/-- The domain's metadata can be read as an object with this list of targets. -/
def HoldsTargets (loads : String → Option Json) (cfg : VaultConfig) (kv : Kv) (domain : String)
    (L : List String) : Prop :=
  ∃ data fields, kv.secrets.get? (secretPath cfg domain) = some data ∧
    metadataOf loads data = .ok (.object fields) ∧
    Dict.get? fields "targets" = some (.array (L.map .string))

/-- The targets that a deployment deploys to or schedules. -/
def touched (before after : State) : List String :=
  (after.manager.log.drop before.manager.log.length).filterMap Targets.Entry.target?

/-- Every target the deployment touches is in the list. -/
def KeepsToList (loads : String → Option Json) (tzdata : String → Option Zone) (app : App)
    (domain : String) (req : DeployRequest) (pemRead routingRead : ReadOutcome) (now : Int)
    (outcome : Nat → Except String Targets.DeployResult) (st : State) (L : List String) : Prop :=
  ∀ name ∈ touched st
    (deployCertToTargets loads tzdata app domain req pemRead routingRead now outcome st).2, name ∈ L

/-- The request fails before anything is deployed: there are no targets, or the certificate
has to be read from Vault and is not. -/
def Refused (app : App) (req : DeployRequest) (pemRead : ReadOutcome) (st : State) : Prop :=
  app.manager = none ∨ ((req.fullchainPem = none ∨ req.privkeyPem = none) ∧
    (st.kv.client = false ∨ ∃ err, pemRead = .raises err))

/-- The routing lookup has a client and gets its answer. -/
def LookupWorks (routingRead : ReadOutcome) (st : State) : Prop :=
  st.kv.client = true ∧ routingRead = .done

theorem namesOf_strings (L : List String) : namesOf (.array (L.map .string)) = .ok L := by
  induction L with
  | nil => rfl
  | cons name L ih =>
    simp only [namesOf, List.map_cons, List.mapM_cons, bind, Except.bind, pure, Except.pure] at ih ⊢
    rw [ih]

theorem storedTargets_of_works (handler : app.handler = some cfg)
    (holds : HoldsTargets loads cfg kv domain L) (client : kv.client = true) :
    (storedTargets loads app domain .done kv).1 = some (.array (L.map .string)) := by
  obtain ⟨data, fields, present, metadata, targets⟩ := holds
  simp [storedTargets_fst, handler, client, readSecret, present, Except.bind, metadata,
    targetsField, targets]

/-- Every other way the lookup can go ends in no routing at all. -/
theorem storedTargets_of_fails (fails : ¬ (kv.client = true ∧ routingRead = .done)) :
    (storedTargets loads app domain routingRead kv).1 = none := by
  rw [storedTargets_fst]
  cases app.handler with
  | none => rfl
  | some cfg =>
    cases client : kv.client with
    | false => rfl
    | true =>
      cases routingRead with
      | done => exact absurd ⟨client, rfl⟩ fails
      | raises err => rfl
      | unreadable =>
        cases present : kv.secrets.get? (secretPath cfg domain) with
        | none => simp [readSecret, present, Except.bind, targetsField]
        | some data => simp [readSecret, present, Except.bind, metadataOf, targetsField]

theorem pemsFor_ok_iff (handler : app.handler = some cfg)
    (holds : HoldsTargets loads cfg kv domain L) :
    (∃ pair, (pemsFor app domain req pemRead kv).1 = .ok pair) ↔
      ¬ ((req.fullchainPem = none ∨ req.privkeyPem = none) ∧
        (kv.client = false ∨ ∃ err, pemRead = .raises err)) := by
  obtain ⟨data, -, present, -⟩ := holds
  cases hf : req.fullchainPem with
  | some f =>
    cases hp : req.privkeyPem with
    | some p => simp [pemsFor, hf, hp]
    | none =>
      cases client : kv.client <;> cases pemRead <;>
        simp [pemsFor, hf, hp, handler, readPems_fst, client, readSecret, present]
  | none =>
    cases client : kv.client <;> cases pemRead <;>
      simp [pemsFor, hf, handler, readPems_fst, client, readSecret, present]

/-- A call by name touches the named targets only. -/
theorem actions_of_names {mgr : Targets.DeployManager} {f p : Json}
    {a : Targets.DeployTarget × Option Int}
    (h : a ∈ mgr.actions tzdata ⟨domain, f, p, some L, now, outcome⟩) : a.1.name ∈ L := by
  unfold Targets.DeployManager.actions at h
  split at h
  · simp at h
  · rename_i ts selected
    obtain ⟨name, mem, found⟩ := Targets.mem_select selected (Targets.mem_handled h).1
    rw [mgr.keyed _ (Dict.mem_of_get? found)]
    exact mem

/-- What a request that gets as far as the manager touches. -/
theorem touched_eq {mgr : Targets.DeployManager} {pair : Json × Json}
    {targetNames : Option (List String)} (managed : app.manager = some mgr)
    (found : (pemsFor app domain req pemRead st.kv).1 = .ok pair)
    (routed : (targetNamesFor loads app domain req routingRead st.kv).1 = .ok targetNames) :
    touched st (deployCertToTargets loads tzdata app domain req pemRead routingRead now
      outcome st).2 = (mgr.actions tzdata
        ⟨domain, pair.1, pair.2, targetNames, now, outcome⟩).map fun a => a.1.name := by
  rw [← Targets.deploy_touches tzdata mgr _ st.manager, touched, deploy_manager, managed, found,
    routed]

theorem touched_of_refused (refused : app.manager = none ∨
      ¬ ∃ pair, (pemsFor app domain req pemRead st.kv).1 = .ok pair) :
    touched st (deployCertToTargets loads tzdata app domain req pemRead routingRead now
      outcome st).2 = [] := by
  rw [touched, deploy_manager]
  cases managed : app.manager with
  | none => simp
  | some mgr =>
    rcases found : (pemsFor app domain req pemRead st.kv).1 with failure | pair
    · simp
    · simp [managed, found] at refused

/-- For a domain with a list of targets, a request without names keeps to the list exactly
when it is refused, when its lookup works, or when every target that deploying to all of
them would reach is listed anyway. -/
theorem keepsToList_iff (tzdata : String → Option Zone) (domain : String) (req : DeployRequest)
    (pemRead routingRead : ReadOutcome) (now : Int)
    (outcome : Nat → Except String Targets.DeployResult) (st : State) (L : List String)
    (handler : app.handler = some cfg) (holds : HoldsTargets loads cfg st.kv domain L)
    (unnamed : req.targetNames = none) :
    KeepsToList loads tzdata app domain req pemRead routingRead now outcome st L ↔
      Refused app req pemRead st ∨ LookupWorks routingRead st ∨
        ∀ mgr, app.manager = some mgr → ∀ a ∈ mgr.handled tzdata now mgr.targets.values,
          a.1.name ∈ L := by
  have refused_iff : Refused app req pemRead st ↔ app.manager = none ∨
      ¬ ∃ pair, (pemsFor app domain req pemRead st.kv).1 = .ok pair := by
    rw [pemsFor_ok_iff handler holds, not_not]
    rfl
  by_cases refused : Refused app req pemRead st
  · refine iff_of_true ?_ (Or.inl refused)
    rw [KeepsToList, touched_of_refused (refused_iff.mp refused)]
    simp
  · have reached := refused
    rw [refused_iff, not_or, not_not] at reached
    obtain ⟨managed, pair, found⟩ := reached
    obtain ⟨mgr, managed⟩ := Option.ne_none_iff_exists'.mp managed
    rw [or_iff_right refused]
    by_cases works : LookupWorks routingRead st
    · have routed : (targetNamesFor loads app domain req routingRead st.kv).1 = .ok (some L) := by
        obtain ⟨client, rfl⟩ := works
        simp [targetNamesFor_fst, unnamed, storedTargets_of_works handler holds client,
          namesOf_strings, Except.map]
      refine iff_of_true ?_ (Or.inl works)
      rw [KeepsToList, touched_eq managed found routed, List.forall_mem_map]
      exact fun a reached => actions_of_names reached
    · have routed : (targetNamesFor loads app domain req routingRead st.kv).1 = .ok none := by
        simp [targetNamesFor_fst, unnamed, storedTargets_of_fails works]
      rw [or_iff_right works, KeepsToList, touched_eq managed found routed, List.forall_mem_map]
      simp [Targets.DeployManager.actions, Targets.DeployManager.select, managed]

/-- Two targets, and `example.com` routed to the first of them. -/
def routedApp : App := ⟨some {}, some (.init [⟨"f5", .f5, none⟩, ⟨"ex", .exchange, none⟩])⟩

def routedState (client : Bool) : State :=
  ⟨⟨[(("secret", "certs/example.com"),
    [("metadata", .string (exampleStored ++ ",\n  \"targets\": [\n    \"f5\"\n  ]\n\x7d"))])],
    client, [], 0⟩, .initial⟩

set_option maxRecDepth 3000 in
theorem routedState_holds (client : Bool) :
    HoldsTargets exampleLoads {} (routedState client).kv "example.com" ["f5"] :=
  ⟨_, _, rfl, rfl, rfl⟩

theorem keepsToList_example : KeepsToList exampleLoads onlyUtc routedApp "example.com"
    ⟨none, some "CHAIN", some "KEY"⟩ .done .done 0 (fun _ => .error "") (routedState true) ["f5"] :=
  (keepsToList_iff onlyUtc "example.com" ⟨none, some "CHAIN", some "KEY"⟩ .done .done 0
    (fun _ => .error "") (routedState true) ["f5"] rfl (routedState_holds true) rfl).mpr
    (Or.inr (Or.inl ⟨rfl, rfl⟩))

/-- The same request right after a restart: there is no client yet, and both targets get the
certificate. -/
theorem deploys_to_all : ¬ KeepsToList exampleLoads onlyUtc routedApp "example.com"
    ⟨none, some "CHAIN", some "KEY"⟩ .done .done 0 (fun _ => .error "") (routedState false)
    ["f5"] := by
  intro keeps
  have outside : "ex" ∈ touched (routedState false) (deployCertToTargets exampleLoads onlyUtc
    routedApp "example.com" ⟨none, some "CHAIN", some "KEY"⟩ .done .done 0 (fun _ => .error "")
    (routedState false)).2 := by decide
  simpa using keeps "ex" outside

end AcmeGitWebhook.Vault
