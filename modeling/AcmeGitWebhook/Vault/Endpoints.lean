import AcmeGitWebhook.Library.Run
import AcmeGitWebhook.Targets.Manager
import AcmeGitWebhook.Vault.Handler

/-!
# The certificate endpoints

`acme_deploy`, `patch_cert_targets` and `deploy_cert_to_targets` of `app/main.py`: they share
one secret per domain, and the last one hands its certificate to the deploy manager. A request
is taken as a whole, with the outcome of each Vault access it makes.
-/

namespace AcmeGitWebhook.Vault

open Library

structure CertDeployRequest where
  domain : String
  certPem : String
  chainPem : Option String := none
  fullchainPem : String
  privkeyPem : String

structure DeployRequest where
  targetNames : Option (List String) := none
  fullchainPem : Option String := none
  privkeyPem : Option String := none

/-- The parts that are fixed at start-up. -/
structure App where
  vault : Option VaultConfig
  manager : Option Targets.DeployManager

/-- `vault_handler`, which exists unless Vault is skipped. -/
def App.handler (app : App) : Option VaultConfig := app.vault.filter (!·.skip)

/-- An `HTTPException`, or an exception that the endpoint lets through. -/
inductive Failure where
  | http (status : Nat) (detail : String)
  | raised (err : PyError)
  deriving DecidableEq, Repr

inductive Answer where
  | skipped (domain detail : String)
  | stored (domain vaultPath : String)
  | routed (domain : String)
  | deployed (domain : String) (results : List Targets.DeployResult)
  deriving DecidableEq, Repr

structure State where
  kv : Kv
  manager : Targets.State Json

def State.initial : State := ⟨⟨[], false, [], 0⟩, .initial⟩

variable (dumps : Json → String) (loads : String → Option Json)
  (x509 : String → Option (String × String)) (tzdata : String → Option Zone) (app : App)

def acmeDeploy (req : CertDeployRequest) (now : Int) (auth : Except PyError Unit)
    (write : WriteOutcome) (st : State) : Except Failure Answer × State :=
  match app.handler with
  | none => (.ok (.skipped req.domain "Vault not configured or skip=true"), st)
  | some cfg =>
    let (result, kv) := storeCert dumps x509 cfg req.domain req.certPem req.chainPem
      req.fullchainPem req.privkeyPem now auth write st.kv
    match result with
    | .ok vaultPath => (.ok (.stored req.domain vaultPath), { st with kv := kv })
    | .error _ => (.error (.http 502 "Vault operation failed"), { st with kv := kv })

def patchCertTargets (domain : String) (targets : List String) (now : Int)
    (auth : Except PyError Unit) (read : ReadOutcome) (write : WriteOutcome) (st : State) :
    Except Failure Answer × State :=
  match app.handler with
  | none => (.error (.http 502 "Vault handler not available"), st)
  | some cfg =>
    let unknown := app.manager.bind fun mgr =>
      targets.find? fun name => (mgr.targets.get? name).isNone
    match unknown with
    | some name => (.error (.http 422 ("Unknown target: " ++ name)), st)
    | none =>
      let (result, kv) := updateCertTargets dumps loads cfg domain targets now auth read write st.kv
      match result with
      | .ok () => (.ok (.routed domain), { st with kv := kv })
      | .error err => (.error (.raised err), { st with kv := kv })

/-- `str(e)` for the errors whose text reaches an answer. -/
def errorText : PyError → String
  | .valueError message | .fileNotFoundError message | .runtimeError message
  | .library message => message
  | _ => ""

/-- The certificate and key that the endpoint reads from Vault; a missing field counts as
an empty one. -/
def readPems (cfg : VaultConfig) (domain : String) (read : ReadOutcome) (kv : Kv) :
    Except Failure (Json × Json) × Kv :=
  let failed (text : String) := Failure.http 502 ("Failed to read certificate from Vault: " ++ text)
  if kv.client then
    match readSecretVersion cfg domain read kv with
    | (.ok data, kv) => (.ok ((data.get? "fullchain.pem").getD (.string ""),
        (data.get? "privkey.pem").getD (.string "")), kv)
    | (.error err, kv) => (.error (failed (errorText err)), kv)
  else (.error (failed "502: Vault client not initialized"), kv)

/-- The pair that is deployed: the request's own when it has both parts. -/
def pemsFor (domain : String) (req : DeployRequest) (read : ReadOutcome) (kv : Kv) :
    Except Failure (Json × Json) × Kv :=
  match req.fullchainPem, req.privkeyPem with
  | some fullchainPem, some privkeyPem => (.ok (.string fullchainPem, .string privkeyPem), kv)
  | _, _ =>
    match app.handler with
    | none => (.error (.http 502 "Vault handler not available, provide PEMs explicitly"), kv)
    | some cfg => readPems cfg domain read kv

/-- The `targets` of the metadata, if they are there. -/
def targetsField (metadata : Except PyError Json) : Option Json :=
  match metadata with
  | .ok (.object fields) =>
    match Dict.get? fields "targets" with
    | some .null | none => none
    | some targets => some targets
  | _ => none

/-- The routing lookup: whatever goes wrong, it finds nothing. -/
def storedTargets (domain : String) (read : ReadOutcome) (kv : Kv) : Option Json × Kv :=
  match app.handler with
  | none => (none, kv)
  | some cfg =>
    if kv.client then
      let (found, kv) := readSecretVersion cfg domain read kv
      (targetsField (found.bind (metadataOf loads)), kv)
    else (none, kv)

/-- The names that iterating over the stored value gives; only strings can be looked up. -/
def namesOf : Json → Except PyError (List String)
  | .array items => items.mapM fun
      | .string name => .ok name
      | .array _ | .object _ => .error .typeError
      | _ => .error (.keyError "")
  | .object fields => .ok (fields.map Prod.fst)
  | .string text => .ok (text.toList.map String.singleton)
  | _ => .error .typeError

def targetNamesFor (domain : String) (req : DeployRequest) (read : ReadOutcome) (kv : Kv) :
    Except PyError (Option (List String)) × Kv :=
  match req.targetNames with
  | some names => (.ok (some names), kv)
  | none =>
    match storedTargets loads app domain read kv with
    | (none, kv) => (.ok none, kv)
    | (some targets, kv) => ((namesOf targets).map some, kv)

def deployCertToTargets (domain : String) (req : DeployRequest) (pemRead routingRead : ReadOutcome)
    (now : Int) (outcome : Nat → Except String Targets.DeployResult) (st : State) :
    Except Failure Answer × State :=
  match app.manager with
  | none => (.error (.http 400 "No deployment targets configured"), st)
  | some mgr =>
    match pemsFor app domain req pemRead st.kv with
    | (.error failure, kv) => (.error failure, { st with kv := kv })
    | (.ok (fullchainPem, privkeyPem), kv) =>
      match targetNamesFor loads app domain req routingRead
          (kv.record (.handed domain fullchainPem privkeyPem)) with
      | (.error err, kv) => (.error (.raised err), { st with kv := kv })
      | (.ok targetNames, kv) =>
        match Targets.deploy tzdata mgr
            ⟨domain, fullchainPem, privkeyPem, targetNames, now, outcome⟩ st.manager with
        | (.ok results, manager) => (.ok (.deployed domain results), ⟨kv, manager⟩)
        | (.error err, manager) => (.error (.raised err), ⟨kv, manager⟩)

/-! ## The system -/

/-- `login` stands for every other operation that leaves the handler with a client, and
`restart` for a new process, which starts without one. -/
inductive Event where
  | store (req : CertDeployRequest) (now : Int) (auth : Except PyError Unit) (write : WriteOutcome)
  | route (domain : String) (targets : List String) (now : Int) (auth : Except PyError Unit)
      (read : ReadOutcome) (write : WriteOutcome)
  | deploy (domain : String) (req : DeployRequest) (pemRead routingRead : ReadOutcome) (now : Int)
      (outcome : Nat → Except String Targets.DeployResult)
  | login
  | restart

def step (st : State) : Event → State
  | .store req now auth write => (acmeDeploy dumps x509 app req now auth write st).2
  | .route domain targets now auth read write =>
    (patchCertTargets dumps loads app domain targets now auth read write st).2
  | .deploy domain req pemRead routingRead now outcome =>
    (deployCertToTargets loads tzdata app domain req pemRead routingRead now outcome st).2
  | .login => { st with kv := { st.kv with client := true } }
  | .restart => ⟨{ st.kv with client := false }, .initial⟩

/-! ## What a deployment asks for -/

variable {loads tzdata app} {domain : String} {req : DeployRequest}
  {read pemRead routingRead : ReadOutcome} {kv : Kv}

theorem readPems_fst {cfg : VaultConfig} : (readPems cfg domain read kv).1 =
    if kv.client then
      match readSecret cfg domain read kv with
      | .ok data => .ok ((data.get? "fullchain.pem").getD (.string ""),
          (data.get? "privkey.pem").getD (.string ""))
      | .error err =>
        .error (.http 502 ("Failed to read certificate from Vault: " ++ errorText err))
    else .error (.http 502 ("Failed to read certificate from Vault: " ++
      "502: Vault client not initialized")) := by
  unfold readPems readSecretVersion
  split_ifs
  · cases readSecret cfg domain read kv <;> rfl
  · rfl

theorem storedTargets_fst : (storedTargets loads app domain read kv).1 =
    match app.handler with
    | none => none
    | some cfg => if kv.client then
        targetsField ((readSecret cfg domain read kv).bind (metadataOf loads)) else none := by
  unfold storedTargets
  cases app.handler with
  | none => rfl
  | some cfg => cases kv.client <;> rfl

theorem targetNamesFor_fst : (targetNamesFor loads app domain req read kv).1 =
    match req.targetNames, (storedTargets loads app domain read kv).1 with
    | some names, _ => .ok (some names)
    | none, none => .ok none
    | none, some targets => (namesOf targets).map some := by
  unfold targetNamesFor
  rcases storedTargets loads app domain read kv with ⟨_ | _, _⟩ <;>
    cases req.targetNames <;> rfl

theorem readPems_snd {cfg : VaultConfig} :
    (readPems cfg domain read kv).2 = if kv.client then kv.access else kv := by
  unfold readPems readSecretVersion
  split_ifs
  · cases readSecret cfg domain read kv <;> rfl
  · rfl

/-- The certificate is read unless the request has one, or there is no client to read it with. -/
theorem pemsFor_snd : (pemsFor app domain req read kv).2 =
    if app.handler.isSome ∧ kv.client = true ∧ (req.fullchainPem.isNone ∨ req.privkeyPem.isNone)
    then kv.access else kv := by
  unfold pemsFor
  cases hf : req.fullchainPem <;> cases hp : req.privkeyPem <;> cases hh : app.handler <;>
    simp [readPems_snd]

/-- The routing is read unless the request names its targets. -/
theorem targetNamesFor_snd : (targetNamesFor loads app domain req read kv).2 =
    if app.handler.isSome ∧ kv.client = true ∧ req.targetNames.isNone
    then kv.access else kv := by
  unfold targetNamesFor storedTargets
  cases hn : req.targetNames with
  | some names => simp
  | none =>
    cases hh : app.handler with
    | none => simp
    | some cfg =>
      cases hc : kv.client with
      | false => simp
      | true =>
        simp only [if_true, readSecretVersion]
        cases targetsField ((readSecret cfg domain read kv).bind (metadataOf loads)) <;> simp

/-- The engine has been asked, and nothing else has happened. -/
structure Kv.Unwritten (before after : Kv) : Prop where
  secrets : after.secrets = before.secrets
  client : after.client = before.client
  log : after.log = before.log

theorem Kv.Unwritten.trans {kv kv' kv'' : Kv} (h : kv.Unwritten kv') (h' : kv'.Unwritten kv'') :
    kv.Unwritten kv'' :=
  ⟨h'.secrets.trans h.secrets, h'.client.trans h.client, h'.log.trans h.log⟩

theorem Kv.Unwritten.record {kv kv' : Kv} (h : kv.Unwritten kv') (entry : Entry) :
    (kv.record entry).Unwritten (kv'.record entry) :=
  ⟨h.secrets, h.client, congrArg (· ++ [entry]) h.log⟩

theorem pemsFor_unwritten : Kv.Unwritten kv (pemsFor app domain req read kv).2 := by
  rw [pemsFor_snd]
  split_ifs <;> exact ⟨rfl, rfl, rfl⟩

theorem targetNamesFor_unwritten :
    Kv.Unwritten kv (targetNamesFor loads app domain req read kv).2 := by
  rw [targetNamesFor_snd]
  split_ifs <;> exact ⟨rfl, rfl, rfl⟩

/-- The targets do not depend on what else was asked for or recorded. -/
theorem targetNamesFor_congr {kv' : Kv} (secrets : kv'.secrets = kv.secrets)
    (client : kv'.client = kv.client) : (targetNamesFor loads app domain req read kv').1 =
      (targetNamesFor loads app domain req read kv).1 := by
  have same (cfg : VaultConfig) :
      readSecret cfg domain read kv' = readSecret cfg domain read kv := by
    simp only [readSecret, secrets]
  simp only [targetNamesFor_fst, storedTargets_fst, client, same]

/-- A deployment logs the pair it finds, if it gets that far, and writes nothing. -/
theorem deploy_kv (loads : String → Option Json) (tzdata : String → Option Zone) (app : App)
    (domain : String) (req : DeployRequest) (pemRead routingRead : ReadOutcome) (now : Int)
    (outcome : Nat → Except String Targets.DeployResult) (st : State) :
    Kv.Unwritten
      (match app.manager, (pemsFor app domain req pemRead st.kv).1 with
        | some _, .ok (fullchainPem, privkeyPem) =>
          st.kv.record (.handed domain fullchainPem privkeyPem)
        | _, _ => st.kv)
      (deployCertToTargets loads tzdata app domain req pemRead routingRead now outcome
        st).2.kv := by
  unfold deployCertToTargets
  cases app.manager with
  | none => exact ⟨rfl, rfl, rfl⟩
  | some mgr =>
    have asked : Kv.Unwritten st.kv (pemsFor app domain req pemRead st.kv).2 := pemsFor_unwritten
    generalize pemsFor app domain req pemRead st.kv = pems at asked ⊢
    obtain ⟨failure | ⟨fullchainPem, privkeyPem⟩, kv⟩ := pems
    · exact asked
    · have routed : Kv.Unwritten (kv.record (.handed domain fullchainPem privkeyPem))
          (targetNamesFor loads app domain req routingRead
            (kv.record (.handed domain fullchainPem privkeyPem))).2 := targetNamesFor_unwritten
      have both := (asked.record (.handed domain fullchainPem privkeyPem)).trans routed
      dsimp only
      generalize targetNamesFor loads app domain req routingRead
        (kv.record (.handed domain fullchainPem privkeyPem)) = names at both ⊢
      obtain ⟨err | targetNames, kv⟩ := names
      · exact both
      · dsimp only
        split <;> exact both

/-- A deployment that finds a pair and its targets is the manager's. -/
theorem deploy_manager (loads : String → Option Json) (tzdata : String → Option Zone) (app : App)
    (domain : String) (req : DeployRequest) (pemRead routingRead : ReadOutcome) (now : Int)
    (outcome : Nat → Except String Targets.DeployResult) (st : State) :
    (deployCertToTargets loads tzdata app domain req pemRead routingRead now outcome
        st).2.manager =
      match app.manager, (pemsFor app domain req pemRead st.kv).1,
        (targetNamesFor loads app domain req routingRead st.kv).1 with
      | some mgr, .ok (fullchainPem, privkeyPem), .ok targetNames =>
        (Targets.deploy tzdata mgr ⟨domain, fullchainPem, privkeyPem, targetNames, now, outcome⟩
          st.manager).2
      | _, _, _ => st.manager := by
  unfold deployCertToTargets
  cases app.manager with
  | none => rfl
  | some mgr =>
    have asked : Kv.Unwritten st.kv (pemsFor app domain req pemRead st.kv).2 := pemsFor_unwritten
    generalize pemsFor app domain req pemRead st.kv = pems at asked ⊢
    obtain ⟨failure | ⟨fullchainPem, privkeyPem⟩, kv⟩ := pems
    · rfl
    · have same : (targetNamesFor loads app domain req routingRead
          (kv.record (.handed domain fullchainPem privkeyPem))).1 =
          (targetNamesFor loads app domain req routingRead st.kv).1 :=
        targetNamesFor_congr asked.secrets asked.client
      rw [← same]
      dsimp only
      generalize targetNamesFor loads app domain req routingRead
        (kv.record (.handed domain fullchainPem privkeyPem)) = names
      obtain ⟨err | targetNames, kv⟩ := names
      · rfl
      · dsimp only
        split <;> (rename_i after; rw [after])

/-! ## A worked example of the metadata -/

def exampleStored : String :=
  "\x7b\n  \"domain\": \"example.com\",\n  \"issuer\": \"Let's Encrypt\",\n" ++
    "  \"stored_at\": \"1970-01-01T00:00:00+00:00\",\n  \"not_before\": \"unknown\",\n" ++
    "  \"expiry\": \"unknown\""

/-- `json.dumps` on the metadata of `example.com`, stored in 1970 and routed to `f5`. -/
def exampleDumps : Json → String
  | .object fields =>
    if (Dict.get? fields "targets").isSome then
      exampleStored ++ ",\n  \"targets\": [\n    \"f5\"\n  ]\n\x7d"
    else exampleStored ++ "\n\x7d"
  | _ => "null"

/-- `json.loads` on the same texts. -/
def exampleLoads (text : String) : Option Json :=
  match certMetadata (fun _ => none) "example.com" "CERT" 0 with
  | .object fields =>
    if text = exampleDumps (.object fields) then some (.object fields)
    else some (.object (fields ++ [("targets", .array [.string "f5"])]))
  | _ => none

end AcmeGitWebhook.Vault
