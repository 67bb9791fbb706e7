import AcmeGitWebhook.Vault.Races

/-!
# What a change of routing leaves of a secret

`update_cert_targets` writes a secret that holds metadata and nothing else, made of what it
has read or, when reading failed in any way, of two fields of its own. `keepsCertificate_iff`
says when a certificate and its metadata outlive the change, and `untouched_iff` when a change
that could not read the secret leaves it as it was.
-/

namespace AcmeGitWebhook.Vault

open Library

/-- The fields that `store_cert` writes beside the metadata. -/
def pemFields : List String := ["cert.pem", "chain.pem", "fullchain.pem", "privkey.pem"]

/-- The secret reads as before, with these targets in place of those in its metadata. -/
def KeepsCertificate (loads : String → Option Json) (data : Secret) (fields : Dict String Json)
    (targets : List String) (after : Option Secret) : Prop :=
  ∃ data' fields', after = some data' ∧ (∀ pem ∈ pemFields, data'.get? pem = data.get? pem) ∧
    metadataOf loads data' = .ok (.object fields') ∧
    Dict.get? fields' "targets" = some (.array (targets.map .string)) ∧
    ∀ key, key ≠ "targets" → Dict.get? fields' key = Dict.get? fields key

variable {dumps : Json → String} {loads : String → Option Json} {cfg : VaultConfig}
  {domain : String} {call : UpdateCall} {auth : Except PyError Unit} {read : ReadOutcome}
  {write : WriteOutcome} {kv : Kv} {data : Secret} {fields : Dict String Json} {err : PyError}

/-- Metadata stored as the text of an object reads as that object. -/
theorem metadataOf_text {metadata : Json}
    (field : data.get? "metadata" = some (.string (dumps metadata)))
    (text : loads (dumps metadata) = some metadata) : metadataOf loads data = .ok metadata := by
  simp [metadataOf, field, text]

theorem foundMetadata_done (stored : secretIn cfg domain kv = some data)
    (object : metadataOf loads data = .ok (.object fields)) :
    foundMetadata loads cfg domain call.now .done kv = .object fields := by
  have present : kv.secrets.get? (secretPath cfg domain) = some data := stored
  simp [foundMetadata, readSecret, present, Except.bind, object]

theorem foundMetadata_failed
    (failed : (readSecret cfg domain read kv).bind (metadataOf loads) = .error err) :
    foundMetadata loads cfg domain call.now read kv = .object (freshFields domain call) := by
  rw [foundMetadata, failed]
  rfl

/-- An update that goes on from an object writes it with the new targets, and no more. -/
theorem update_of_found {fields : Dict String Json}
    (found : foundMetadata loads cfg domain call.now read kv = .object fields) :
    updateCertTargets dumps loads cfg domain call.targets call.now (.ok ()) read write kv =
      writeSecret cfg domain [("metadata", .string (dumps (.object (withTargets fields call))))]
        write (.routed domain call.targets) ({ kv with client := true } : Kv).access := by
  rw [updateCertTargets_eq, found]
  rfl

theorem secretIn_writeSecret (entry : Entry) :
    secretIn cfg domain (writeSecret cfg domain data write entry kv).2 =
      match write with
      | .lost _ => secretIn cfg domain kv
      | .done | .late _ => some data := by
  cases write <;> simp [writeSecret, secretIn, Kv.record]

/-- A change of routing succeeds by logging in, finding an object and writing it. -/
theorem update_succeeds
    (h : (updateCertTargets dumps loads cfg domain call.targets call.now auth read write kv).1 =
      .ok ()) : auth = .ok () ∧ write = .done ∧
        ∃ fields, foundMetadata loads cfg domain call.now read kv = .object fields := by
  cases auth with
  | error err => simp [updateCertTargets, ensureAuthenticated] at h
  | ok =>
    rw [updateCertTargets_eq] at h
    cases found : foundMetadata loads cfg domain call.now read kv with
    | object fields =>
      rw [found] at h
      cases write with
      | done => exact ⟨rfl, rfl, fields, rfl⟩
      | lost err | late err => simp [setTargets, writeSecret] at h
    | null | bool _ | number _ | string _ | array _ => simp [found, setTargets] at h

/-! ## The certificate -/

/-- What an update writes has the old metadata if it went on from the same, but never a
certificate. -/
theorem keepsCertificate_written {fields' : Dict String Json}
    (text : loads (dumps (.object (withTargets fields' call))) =
      some (.object (withTargets fields' call))) :
    KeepsCertificate loads data fields call.targets
        (some [("metadata", .string (dumps (.object (withTargets fields' call))))]) ↔
      (∀ pem ∈ pemFields, data.get? pem = none) ∧
        ∀ key, key ≠ "targets" → Dict.get? fields key = Dict.get? fields' key := by
  have absent : ∀ pem ∈ pemFields, Dict.get? [("metadata",
      Json.string (dumps (.object (withTargets fields' call))))] pem = none := by
    simp [pemFields, Dict.get?]
  have metadata : metadataOf loads [("metadata",
      .string (dumps (.object (withTargets fields' call))))] =
        .ok (.object (withTargets fields' call)) := metadataOf_text rfl text
  have others : ∀ key, key ≠ "targets" →
      Dict.get? (withTargets fields' call) key = Dict.get? fields' key :=
    fun key other => Dict.get?_set_of_ne _ _ other
  constructor
  · rintro ⟨data', fields'', written, pems, object, -, same⟩
    obtain rfl := Option.some.inj written
    obtain rfl : withTargets fields' call = fields'' := by
      simpa [metadata] using object
    exact ⟨fun pem mem => by rw [← pems pem mem, absent pem mem],
      fun key other => by rw [← same key other, others key other]⟩
  · rintro ⟨none, same⟩
    refine ⟨_, _, rfl, fun pem mem => ?_, metadata, Dict.get?_set_self .., fun key other => ?_⟩
    · rw [absent pem mem, none pem mem]
    · rw [others key other, same key other]

/-- A successful change of routing keeps the certificate exactly if there is none to keep and
the metadata could be read, or is what the update makes up. -/
theorem keepsCertificate_iff (dumps : Json → String) (loads : String → Option Json)
    (cfg : VaultConfig) (domain : String) (call : UpdateCall) (auth : Except PyError Unit)
    (read : ReadOutcome) (write : WriteOutcome) (kv : Kv)
    (stored : secretIn cfg domain kv = some data)
    (object : metadataOf loads data = .ok (.object fields))
    (succeeds : (updateCertTargets dumps loads cfg domain call.targets call.now auth read write
      kv).1 = .ok ())
    (text : ∀ metadata, setTargets call.targets (foundMetadata loads cfg domain call.now read kv) =
      .ok metadata → loads (dumps metadata) = some metadata) :
    KeepsCertificate loads data fields call.targets (secretIn cfg domain (updateCertTargets dumps
        loads cfg domain call.targets call.now auth read write kv).2) ↔
      (∀ pem ∈ pemFields, data.get? pem = none) ∧
        (read = .done ∨ ∀ key, key ≠ "targets" →
          Dict.get? fields key = Dict.get? (freshFields domain call) key) := by
  obtain ⟨rfl, rfl, fields', found⟩ := update_succeeds succeeds
  rw [update_of_found found, secretIn_writeSecret,
    keepsCertificate_written (text _ (by rw [found]; rfl))]
  refine and_congr_right fun _ => ?_
  cases read with
  | done =>
    obtain rfl : fields = fields' := by
      simpa [foundMetadata_done stored object] using found
    simp
  | raises err =>
    obtain rfl : freshFields domain call = fields' := by
      have failed : (readSecret cfg domain (.raises err) kv).bind (metadataOf loads) =
          .error err := rfl
      simpa [foundMetadata_failed failed] using found
    simp
  | unreadable =>
    have present : kv.secrets.get? (secretPath cfg domain) = some data := stored
    simp [foundMetadata, readSecret, present, Except.bind, metadataOf] at found

/-! ## A read that fails -/

/-- A secret that exists and could not be read stays as it was exactly if nothing is written,
or it is what is written. -/
theorem untouched_iff (dumps : Json → String) (loads : String → Option Json) (cfg : VaultConfig)
    (domain : String) (call : UpdateCall) (auth : Except PyError Unit) (read : ReadOutcome)
    (write : WriteOutcome) (kv : Kv) (stored : secretIn cfg domain kv = some data)
    (failed : (readSecret cfg domain read kv).bind (metadataOf loads) = .error err) :
    secretIn cfg domain (updateCertTargets dumps loads cfg domain call.targets call.now auth read
        write kv).2 = some data ↔
      (∃ err, auth = .error err) ∨ (∃ err, write = .lost err) ∨
        data = [("metadata",
          .string (dumps (.object (withTargets (freshFields domain call) call))))] := by
  cases auth with
  | error err => exact iff_of_true stored (Or.inl ⟨err, rfl⟩)
  | ok =>
    rw [update_of_found (foundMetadata_failed failed), secretIn_writeSecret]
    cases write with
    | done | late err => simp [eq_comm]
    | lost err => exact iff_of_true stored (Or.inr (Or.inl ⟨err, rfl⟩))

/-! ## A certificate that is lost -/

/-- The certificate of `raceStore` in its place. -/
def storedSecret : Secret :=
  certSecret textDumps (fun _ => none) "example.com" "CERT" none "CERT" "KEY" 0

/-- The secret of a domain that has been routed before it got a certificate. -/
def routedSecret : Secret := [("metadata", .string (textDumps freshJson))]

def holding (data : Secret) : Kv := ⟨[(("secret", "certs/example.com"), data)], true, [], 0⟩

def routeCall : UpdateCall := ⟨["f5"], 0⟩

/-- `example.com` is routed to `f5` over this secret. -/
def routeOver (data : Secret) (read : ReadOutcome) (write : WriteOutcome) :
    Except PyError Unit × Kv :=
  updateCertTargets textDumps raceLoads {} "example.com" routeCall.targets
    routeCall.now (.ok ()) read write (holding data)

theorem found_routed :
    foundMetadata raceLoads {} "example.com" routeCall.now .done (holding routedSecret) =
      freshJson :=
  foundMetadata_done rfl (metadataOf_text rfl (raceLoads_written _ (.routed _ 0 (.fresh 0))))

theorem keepsCertificate_iff_routed :
    KeepsCertificate raceLoads routedSecret (withTargets (freshFields "example.com"
        routeCall) routeCall) ["f5"]
        (secretIn {} "example.com" (routeOver routedSecret .done .done).2) ↔
      (∀ pem ∈ pemFields, routedSecret.get? pem = none) ∧
        (ReadOutcome.done = .done ∨ ∀ key, key ≠ "targets" →
          Dict.get? (withTargets (freshFields "example.com" routeCall) routeCall) key =
            Dict.get? (freshFields "example.com" routeCall) key) := by
  refine keepsCertificate_iff textDumps raceLoads {} "example.com" routeCall (.ok ()) .done
    .done (holding routedSecret) rfl
    (metadataOf_text rfl (raceLoads_written _ (.routed _ 0 (.fresh 0)))) ?_ ?_
  · rw [update_of_found found_routed]
    rfl
  · intro metadata again
    obtain rfl : freshJson = metadata := by
      rw [found_routed] at again
      exact Except.ok.inj again
    exact raceLoads_written _ (.routed _ 0 (.fresh 0))

/-- Routing a domain that has a certificate leaves no trace of the key. -/
theorem loses_certificate : (routeOver storedSecret .done .done).1 = .ok () ∧
    ¬ KeepsCertificate raceLoads storedSecret (certFields (fun _ => none) "example.com" raceStore)
      ["f5"] (secretIn {} "example.com" (routeOver storedSecret .done .done).2) := by
  have found : foundMetadata raceLoads {} "example.com" routeCall.now .done
      (holding storedSecret) = storedJson :=
    foundMetadata_done rfl (metadataOf_text rfl (raceLoads_written _ .stored))
  rw [routeOver, update_of_found found, secretIn_writeSecret]
  refine ⟨rfl, ?_⟩
  rintro ⟨data', fields', written, pems, -⟩
  obtain rfl := Option.some.inj written
  have key := pems "privkey.pem" (by decide)
  simp [storedSecret, certSecret, Dict.get?] at key

theorem untouched_iff_denied :
    secretIn {} "example.com" (routeOver storedSecret (.raises (.library "Forbidden"))
        (.lost (.library "Forbidden"))).2 = some storedSecret ↔
      (∃ err : PyError, Except.ok () = .error err) ∨
        (∃ err, WriteOutcome.lost (.library "Forbidden") = .lost err) ∨
        storedSecret = [("metadata", .string (textDumps (.object
          (withTargets (freshFields "example.com" routeCall) routeCall))))] :=
  untouched_iff textDumps raceLoads {} "example.com" routeCall (.ok ())
    (.raises (.library "Forbidden")) (.lost (.library "Forbidden")) (holding storedSecret) rfl rfl

/-- Vault does not answer the read, and then takes the write. -/
theorem overwritten_unread :
    secretIn {} "example.com" (routeOver storedSecret (.raises (.library "ConnectionError"))
      .done).2 ≠ some storedSecret := by
  have failed : (readSecret {} "example.com" (.raises (.library "ConnectionError"))
      (holding storedSecret)).bind (metadataOf raceLoads) = .error (.library "ConnectionError") :=
    rfl
  rw [routeOver, update_of_found (foundMetadata_failed failed), secretIn_writeSecret]
  simp [storedSecret, certSecret]

end AcmeGitWebhook.Vault
