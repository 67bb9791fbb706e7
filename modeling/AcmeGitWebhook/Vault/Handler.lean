import AcmeGitWebhook.Library.Dict
import AcmeGitWebhook.Library.WallClock
import AcmeGitWebhook.Python

/-!
# The Vault handler

`store_cert` and `update_cert_targets` of `app/vault_handler.py` over the KV engine they
write to. Of KV v2 only this is used: a write replaces the secret's data by the dictionary
it is given, and a read returns the data of the last write. How an access ends is given with
it; a write that raises may or may not have taken effect. The engine counts the accesses made,
so that each function says itself how often it asks. `json.dumps`, `json.loads` and the two
dates of a certificate are parameters.
-/

namespace AcmeGitWebhook.Vault

open Library

structure VaultConfig where
  kvMount : String := "secret"
  certsPath : String := "certs"
  skip : Bool := false
  deriving DecidableEq, Repr

abbrev Secret := Dict String Json

/-- How a read ends; an unreadable one returns a metadata field that is not an object. -/
inductive ReadOutcome where
  | done
  | raises (err : PyError)
  | unreadable
  deriving DecidableEq, Repr

/-- How a write ends: it takes effect, is lost, or raises after it took effect. -/
inductive WriteOutcome where
  | done
  | lost (err : PyError)
  | late (err : PyError)
  deriving DecidableEq, Repr

/-- What was written to a domain's secret, and what a deployment was given. -/
inductive Entry where
  | stored (domain fullchainPem privkeyPem : String)
  | routed (domain : String) (targets : List String)
  | handed (domain : String) (fullchainPem privkeyPem : Json)

/-- The secrets by mount and path, whether the handler has a client, the record, and how many
reads and writes were asked for. -/
structure Kv where
  secrets : Dict (String × String) Secret
  client : Bool
  log : List Entry
  accesses : Nat

def Kv.record (kv : Kv) (entry : Entry) : Kv := { kv with log := kv.log ++ [entry] }

def Kv.access (kv : Kv) : Kv := { kv with accesses := kv.accesses + 1 }

variable (dumps : Json → String) (loads : String → Option Json)
  (x509 : String → Option (String × String)) (cfg : VaultConfig)

def secretPath (domain : String) : String × String :=
  (cfg.kvMount, cfg.certsPath ++ "/" ++ domain)

/-- What `read_secret_version` and the two `get`s that follow it come to. -/
def readSecret (domain : String) (outcome : ReadOutcome) (kv : Kv) : Except PyError Secret :=
  match outcome, kv.secrets.get? (secretPath cfg domain) with
  | .raises err, _ => .error err
  | _, none => .error (.library "InvalidPath")
  | .done, some data => .ok data
  | .unreadable, some data => .ok (Dict.set data "metadata" (.array []))

def readSecretVersion (domain : String) (outcome : ReadOutcome) (kv : Kv) :
    Except PyError Secret × Kv :=
  (readSecret cfg domain outcome kv, kv.access)

/-- `create_or_update_secret`; the entry notes a write that took effect. -/
def writeSecret (domain : String) (data : Secret) (outcome : WriteOutcome) (entry : Entry)
    (kv : Kv) : Except PyError Unit × Kv :=
  let kv := kv.access
  let written :=
    ({ kv with secrets := kv.secrets.set (secretPath cfg domain) data } : Kv).record entry
  match outcome with
  | .done => (.ok (), written)
  | .lost err => (.error err, kv)
  | .late err => (.error err, written)

/-- `auth` is how the login ends that `_ensure_authenticated` makes, or finds unnecessary. -/
def ensureAuthenticated (auth : Except PyError Unit) (kv : Kv) : Except PyError Unit × Kv :=
  match auth with
  | .ok () => (.ok (), { kv with client := true })
  | .error err => (.error err, kv)

def certMetadata (domain certPem : String) (now : Int) : Json :=
  .object [("domain", .string domain), ("issuer", .string "Let's Encrypt"),
    ("stored_at", .string (isoformat now)),
    ("not_before", .string (((x509 certPem).map Prod.fst).getD "unknown")),
    ("expiry", .string (((x509 certPem).map Prod.snd).getD "unknown"))]

/-- All five fields go under one path. -/
def certSecret (domain certPem : String) (chainPem : Option String)
    (fullchainPem privkeyPem : String) (now : Int) : Secret :=
  [("cert.pem", .string certPem), ("chain.pem", .string (chainPem.getD "")),
    ("fullchain.pem", .string fullchainPem), ("privkey.pem", .string privkeyPem),
    ("metadata", .string (dumps (certMetadata x509 domain certPem now)))]

def storeCert (domain certPem : String) (chainPem : Option String)
    (fullchainPem privkeyPem : String) (now : Int) (auth : Except PyError Unit)
    (write : WriteOutcome) (kv : Kv) : Except PyError String × Kv :=
  match ensureAuthenticated auth kv with
  | (.error err, kv) => (.error err, kv)
  | (.ok (), kv) =>
    let data := certSecret dumps x509 domain certPem chainPem fullchainPem privkeyPem now
    match writeSecret cfg domain data write (.stored domain fullchainPem privkeyPem) kv with
    | (.error err, kv) => (.error err, kv)
    | (.ok (), kv) => (.ok (cfg.kvMount ++ "/" ++ cfg.certsPath ++ "/" ++ domain), kv)

/-- The metadata of a secret: JSON text is parsed, anything else is taken as it is. -/
def metadataOf (data : Secret) : Except PyError Json :=
  match (data.get? "metadata").getD (.string "{}") with
  | .string raw =>
    match loads raw with
    | some metadata => .ok metadata
    | none => .error (.valueError "")
  | metadata => .ok metadata

/-- `metadata["targets"] = targets`. -/
def setTargets (targets : List String) : Json → Except PyError Json
  | .object fields => .ok (.object (Dict.set fields "targets" (.array (targets.map .string))))
  | _ => .error .typeError

def updateCertTargets (domain : String) (targets : List String) (now : Int)
    (auth : Except PyError Unit) (read : ReadOutcome) (write : WriteOutcome) (kv : Kv) :
    Except PyError Unit × Kv :=
  match ensureAuthenticated auth kv with
  | (.error err, kv) => (.error err, kv)
  | (.ok (), kv) =>
    let (found, kv) := readSecretVersion cfg domain read kv
    let metadata :=
      match found.bind (metadataOf loads) with
      | .ok metadata => metadata
      | .error _ =>
        .object [("domain", .string domain), ("stored_at", .string (isoformat now))]
    match setTargets targets metadata with
    | .error err => (.error err, kv)
    | .ok metadata =>
      writeSecret cfg domain [("metadata", .string (dumps metadata))] write
        (.routed domain targets) kv

/-- The metadata that `update_cert_targets` goes on with after its read. -/
def foundMetadata (domain : String) (now : Int) (read : ReadOutcome) (kv : Kv) : Json :=
  match (readSecret cfg domain read kv).bind (metadataOf loads) with
  | .ok metadata => metadata
  | .error _ => .object [("domain", .string domain), ("stored_at", .string (isoformat now))]

variable {dumps loads cfg} {domain : String} {targets : List String} {now : Int}
  {read : ReadOutcome} {write : WriteOutcome} {kv : Kv}

@[simp]
theorem Kv.access_secrets (kv : Kv) : kv.access.secrets = kv.secrets := rfl

@[simp]
theorem Kv.access_client (kv : Kv) : kv.access.client = kv.client := rfl

@[simp]
theorem Kv.access_log (kv : Kv) : kv.access.log = kv.log := rfl

@[simp]
theorem Kv.access_accesses (kv : Kv) : kv.access.accesses = kv.accesses + 1 := rfl

theorem updateCertTargets_eq : updateCertTargets dumps loads cfg domain targets now (.ok ()) read
    write kv = match setTargets targets (foundMetadata loads cfg domain now read kv) with
      | .error err => (.error err, ({ kv with client := true } : Kv).access)
      | .ok metadata => writeSecret cfg domain [("metadata", .string (dumps metadata))] write
          (.routed domain targets) ({ kv with client := true } : Kv).access := by
  have same : readSecret cfg domain read { kv with client := true } =
      readSecret cfg domain read kv := rfl
  simp only [updateCertTargets, ensureAuthenticated, readSecretVersion, same, foundMetadata]

end AcmeGitWebhook.Vault
