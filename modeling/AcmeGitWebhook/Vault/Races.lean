import AcmeGitWebhook.Library.ReadModifyWrite
import AcmeGitWebhook.Vault.Handler

/-!
# Concurrent writers of one secret

One `store_cert` and any number of `update_cert_targets` on a domain, whose reads and writes
of the secret interleave. An update writes back what it made of the metadata that it has
read, whatever was stored in between. `serialisable_iff` says when the secret they leave is
that of some sequential order of the calls.
-/

namespace AcmeGitWebhook.Vault

open Library ReadModifyWrite

structure StoreCall where
  certPem : String
  chainPem : Option String := none
  fullchainPem : String
  privkeyPem : String
  now : Int

structure UpdateCall where
  targets : List String
  now : Int

variable (dumps : Json → String) (loads : String → Option Json)
  (x509 : String → Option (String × String)) (cfg : VaultConfig) (domain : String)
  (store : StoreCall) {n : Nat} (updates : Fin n → UpdateCall)

def storeCall (kv : Kv) : Kv :=
  (storeCert dumps x509 cfg domain store.certPem store.chainPem store.fullchainPem
    store.privkeyPem store.now (.ok ()) .done kv).2

def updateCall (call : UpdateCall) (kv : Kv) : Kv :=
  (updateCertTargets dumps loads cfg domain call.targets call.now (.ok ()) .done .done kv).2

/-- `update_cert_targets` up to its read: the metadata that it goes on with. -/
def updateRead (call : UpdateCall) (kv : Kv) : Json :=
  foundMetadata loads cfg domain call.now .done kv

/-- The rest of it, with the metadata that it has. -/
def updateWrite (call : UpdateCall) (metadata : Json) (kv : Kv) : Kv :=
  match setTargets call.targets metadata with
  | .error _ => kv
  | .ok metadata =>
    (writeSecret cfg domain [("metadata", .string (dumps metadata))] .done
      (.routed domain call.targets) kv).2

/-- The engine, and the metadata that each update has read. -/
structure KvRace (n : Nat) where
  kv : Kv
  found : Fin n → Option Json

def access (r : KvRace n) : Access (Fin n) → KvRace n
  | .store => { r with kv := storeCall dumps x509 cfg domain store r.kv }
  | .read i =>
    ⟨({ r.kv with client := true } : Kv).access,
      Function.update r.found i (some (updateRead loads cfg domain (updates i) r.kv))⟩
  | .write i =>
    match r.found i with
    | some metadata => { r with kv := updateWrite dumps cfg domain (updates i) metadata r.kv }
    | none => r

def oneByOne (order : List (Option (Fin n))) (kv : Kv) : Kv :=
  order.foldl (fun kv call => match call with
    | none => storeCall dumps x509 cfg domain store kv
    | some i => updateCall dumps loads cfg domain (updates i) kv) kv

def secretIn (kv : Kv) : Option Secret := kv.secrets.get? (secretPath cfg domain)

/-- The secret that the interleaved calls leave is that of a sequential order. -/
def Serialisable (il : Interleaving (Fin n)) (kv : Kv) : Prop :=
  ∃ order, IsOrder order ∧
    secretIn cfg domain (oneByOne dumps loads x509 cfg domain store updates order kv) =
      secretIn cfg domain (run (access dumps loads x509 cfg domain store updates)
        ⟨kv, fun _ => none⟩ il.accesses).kv

/-! ## The metadata -/

/-- The metadata that is read from a secret. -/
def storedMetadata (secret : Option Secret) : Except PyError Json :=
  match secret with
  | none => .error (.library "InvalidPath")
  | some data => metadataOf loads data

/-- The fields that `store_cert` puts into its metadata. -/
def certFields : Dict String Json :=
  [("domain", .string domain), ("issuer", .string "Let's Encrypt"),
    ("stored_at", .string (isoformat store.now)),
    ("not_before", .string (((x509 store.certPem).map Prod.fst).getD "unknown")),
    ("expiry", .string (((x509 store.certPem).map Prod.snd).getD "unknown"))]

/-- The fields that an update starts with when it can read none. -/
def freshFields (call : UpdateCall) : Dict String Json :=
  [("domain", .string domain), ("stored_at", .string (isoformat call.now))]

def withTargets (fields : Dict String Json) (call : UpdateCall) : Dict String Json :=
  Dict.set fields "targets" (.array (call.targets.map .string))

/-- The fields that the metadata can have got from before the updates. -/
inductive Base (start : Option Secret) : Dict String Json → Prop where
  | store : Base start (certFields x509 domain store)
  | fresh (i : Fin n) : Base start (freshFields domain (updates i))
  | start (fields : Dict String Json) :
    storedMetadata loads start = .ok (.object fields) → Base start fields

/-- The metadata that the calls write. -/
inductive Written (start : Option Secret) : Json → Prop where
  | stored : Written start (.object (certFields x509 domain store))
  | routed (fields : Dict String Json) (i : Fin n) :
    Base loads x509 domain store updates start fields →
    Written start (.object (withTargets fields (updates i)))

/-- The stored metadata is a JSON value without fields, on which every update gives up. -/
def Unroutable (start : Option Secret) : Prop :=
  ∃ metadata, storedMetadata loads start = .ok metadata ∧ ∀ fields, metadata ≠ .object fields

/-- The stored metadata is that of the certificate to be stored, but for the targets. -/
def SameMetadata (start : Option Secret) : Prop :=
  ∃ fields, storedMetadata loads start = .ok (.object fields) ∧
    Dict.set fields "targets" .null = Dict.set (certFields x509 domain store) "targets" .null

/-! ## The calls as reads and writes of one value -/

/-- What the calls do to the secret. -/
def vaultCalls : Calls (Option Secret) Json (Fin n) where
  store := some (certSecret dumps x509 domain store.certPem store.chainPem store.fullchainPem
    store.privkeyPem store.now)
  read i secret :=
    match storedMetadata loads secret with
    | .ok metadata => metadata
    | .error _ => .object (freshFields domain (updates i))
  write i
    | .object fields => some (some [("metadata",
        .string (dumps (.object (withTargets fields (updates i)))))])
    | _ => none

variable {dumps loads x509 cfg domain store updates} {kv : Kv}

theorem updateCall_eq (call : UpdateCall) (kv : Kv) :
    updateCall dumps loads cfg domain call kv = updateWrite dumps cfg domain call
      (updateRead loads cfg domain call kv) ({ kv with client := true } : Kv).access := by
  rw [updateCall, updateCertTargets_eq, updateWrite, updateRead]
  cases setTargets call.targets (foundMetadata loads cfg domain call.now .done kv) <;> rfl

theorem secretIn_storeCall (kv : Kv) :
    secretIn cfg domain (storeCall dumps x509 cfg domain store kv) =
      some (certSecret dumps x509 domain store.certPem store.chainPem store.fullchainPem
        store.privkeyPem store.now) := by
  simp [secretIn, storeCall, storeCert, ensureAuthenticated, writeSecret, Kv.record]

theorem updateRead_eq (i : Fin n) (kv : Kv) :
    updateRead loads cfg domain (updates i) kv =
      (vaultCalls dumps loads x509 domain store updates).read i (secretIn cfg domain kv) := by
  have read : (readSecret cfg domain .done kv).bind (metadataOf loads) =
      storedMetadata loads (secretIn cfg domain kv) := by
    simp only [readSecret, secretIn]
    cases kv.secrets.get? (secretPath cfg domain) <;> rfl
  simp only [updateRead, foundMetadata, read, vaultCalls]
  cases storedMetadata loads (secretIn cfg domain kv) <;> rfl

theorem secretIn_updateWrite (i : Fin n) (metadata : Json) (kv : Kv) :
    secretIn cfg domain (updateWrite dumps cfg domain (updates i) metadata kv) =
      ((vaultCalls dumps loads x509 domain store updates).write i metadata).getD
        (secretIn cfg domain kv) := by
  cases metadata with
  | object fields => simp [updateWrite, setTargets, secretIn, writeSecret, Kv.record, vaultCalls,
      withTargets]
  | null | bool _ | number _ | string _ | array _ => rfl

theorem secretIn_updateCall (i : Fin n) (kv : Kv) :
    secretIn cfg domain (updateCall dumps loads cfg domain (updates i) kv) =
      (vaultCalls dumps loads x509 domain store updates).apply i (secretIn cfg domain kv) := by
  rw [updateCall_eq, secretIn_updateWrite, updateRead_eq]
  rfl

theorem secretIn_oneByOne (order : List (Option (Fin n))) (kv : Kv) :
    secretIn cfg domain (oneByOne dumps loads x509 cfg domain store updates order kv) =
      (vaultCalls dumps loads x509 domain store updates).serial order
        (secretIn cfg domain kv) := by
  induction order generalizing kv with
  | nil => rfl
  | cons call order ih =>
    cases call with
    | none => exact (ih _).trans (by rw [secretIn_storeCall]; rfl)
    | some i => exact (ih _).trans (by rw [secretIn_updateCall]; rfl)

/-- A race on the engine and one on the secret agree. -/
structure SameRecord (cfg : VaultConfig) (domain : String) (r : KvRace n)
    (r' : Race (Option Secret) Json (Fin n)) : Prop where
  secret : secretIn cfg domain r.kv = r'.current
  found : r.found = r'.found

theorem access_mirrors {r : KvRace n} {r' : Race (Option Secret) Json (Fin n)}
    (h : SameRecord cfg domain r r') (a : Access (Fin n)) :
    SameRecord cfg domain (access dumps loads x509 cfg domain store updates r a)
      ((vaultCalls dumps loads x509 domain store updates).step r' a) := by
  cases a with
  | store => exact ⟨secretIn_storeCall r.kv, h.found⟩
  | read i =>
    have read : updateRead loads cfg domain (updates i) r.kv =
        (vaultCalls dumps loads x509 domain store updates).read i r'.current := by
      rw [← h.secret]
      exact updateRead_eq i r.kv
    exact ⟨h.secret, by simp only [access, Calls.step, h.found, read]⟩
  | write i =>
    simp only [access, Calls.step, ← h.found]
    cases found : r.found i with
    | none => exact h
    | some metadata =>
      have after : secretIn cfg domain (updateWrite dumps cfg domain (updates i) metadata r.kv) =
          ((vaultCalls dumps loads x509 domain store updates).write i metadata).getD
            r'.current := by
        rw [← h.secret]
        exact secretIn_updateWrite i metadata r.kv
      simp only [Option.bind_some]
      cases written : (vaultCalls dumps loads x509 domain store updates).write i metadata with
      | none => exact ⟨by rw [after, written]; rfl, h.found⟩
      | some secret => exact ⟨by rw [after, written]; rfl, rfl⟩

/-- The race on the engine is the race on the secret. -/
theorem run_mirrors (accesses : List (Access (Fin n))) (kv : Kv) :
    SameRecord cfg domain
      (run (access dumps loads x509 cfg domain store updates) ⟨kv, fun _ => none⟩ accesses)
      (run (vaultCalls dumps loads x509 domain store updates).step
        (.initial (secretIn cfg domain kv)) accesses) := by
  induction accesses using List.reverseRecOn with
  | nil => exact ⟨rfl, rfl⟩
  | append_singleton accesses a ih =>
    rw [run_concat, run_concat]
    exact access_mirrors ih a

/-! ## Chains of updates -/

variable {start : Option Secret} {fields : Dict String Json}

/-- The metadata of the secret are the fields, with the targets of an update or without. -/
def Carries (loads : String → Option Json) (updates : Fin n → UpdateCall)
    (fields : Dict String Json) (secret : Option Secret) : Prop :=
  storedMetadata loads secret = .ok (.object fields) ∨
    ∃ i, storedMetadata loads secret = .ok (.object (withTargets fields (updates i)))

theorem Carries.write (h : Carries loads updates fields start) (i : Fin n) :
    (vaultCalls dumps loads x509 domain store updates).write i
        ((vaultCalls dumps loads x509 domain store updates).read i start) =
      some (some [("metadata", .string (dumps (.object (withTargets fields (updates i)))))]) := by
  rcases h with h | ⟨j, h⟩
  · simp [vaultCalls, h]
  · simp [vaultCalls, h, withTargets]

theorem storedMetadata_written {metadata : Json} (text : loads (dumps metadata) = some metadata) :
    storedMetadata loads (some [("metadata", .string (dumps metadata))]) = .ok metadata := by
  simp [storedMetadata, metadataOf, Dict.get?, text]

theorem Carries.apply (text : ∀ metadata, Written loads x509 domain store updates start metadata →
      loads (dumps metadata) = some metadata)
    (base : Base loads x509 domain store updates start fields) {secret : Option Secret}
    (h : Carries loads updates fields secret) (i : Fin n) :
    Carries loads updates fields
      ((vaultCalls dumps loads x509 domain store updates).apply i secret) := by
  rw [Calls.apply, h.write i]
  exact Or.inr ⟨i, storedMetadata_written (text _ (.routed fields i base))⟩

theorem Carries.follow (text : ∀ metadata, Written loads x509 domain store updates start metadata →
      loads (dumps metadata) = some metadata)
    (base : Base loads x509 domain store updates start fields) {secret : Option Secret}
    (h : Carries loads updates fields secret) (chain : List (Fin n)) :
    Carries loads updates fields
      ((vaultCalls dumps loads x509 domain store updates).follow chain secret) := by
  induction chain generalizing secret with
  | nil => exact h
  | cons i chain ih => exact ih (h.apply text base i)

theorem store_carries (text : ∀ metadata, Written loads x509 domain store updates start metadata →
      loads (dumps metadata) = some metadata) :
    Carries loads updates (certFields x509 domain store)
      (vaultCalls dumps loads x509 domain store updates).store := by
  refine Or.inl ?_
  have read : loads (dumps (certMetadata x509 domain store.certPem store.now)) =
      some (.object (certFields x509 domain store)) := text _ .stored
  simp [vaultCalls, storedMetadata, certSecret, metadataOf, Dict.get?, read]

/-- After a start that updates can go on from, each update in a chain writes the same fields:
those of the start, or those of the first update. -/
theorem chain_carries (text : ∀ metadata, Written loads x509 domain store updates start metadata →
      loads (dumps metadata) = some metadata)
    (routable : ¬ Unroutable loads start) (chain : List (Fin n)) (i : Fin n) :
    ∃ fields, Base loads x509 domain store updates start fields ∧
      (storedMetadata loads start = .ok (.object fields) ∨
        (∃ err, storedMetadata loads start = .error err) ∧
          ∃ j, fields = freshFields domain (updates j)) ∧
      (vaultCalls dumps loads x509 domain store updates).write i
        ((vaultCalls dumps loads x509 domain store updates).read i
          ((vaultCalls dumps loads x509 domain store updates).follow chain start)) =
        some (some [("metadata", .string (dumps (.object (withTargets fields (updates i)))))]) := by
  cases read : storedMetadata loads start with
  | ok metadata =>
    obtain ⟨fields, rfl⟩ : ∃ fields, metadata = .object fields := by
      by_contra none
      exact routable ⟨metadata, read, not_exists.mp none⟩
    have base : Base loads x509 domain store updates start fields := .start fields read
    exact ⟨fields, base, Or.inl rfl, Carries.write (Carries.follow text base (Or.inl read) chain) i⟩
  | error err =>
    cases chain with
    | nil =>
      refine ⟨_, .fresh i, Or.inr ⟨⟨err, rfl⟩, i, rfl⟩, ?_⟩
      simp [vaultCalls, read]
    | cons j chain =>
      refine ⟨_, .fresh j, Or.inr ⟨⟨err, rfl⟩, j, rfl⟩, ?_⟩
      have first : (vaultCalls dumps loads x509 domain store updates).apply j start =
          some [("metadata", .string (dumps (.object
            (withTargets (freshFields domain (updates j)) (updates j)))))] := by
        simp [Calls.apply, vaultCalls, read]
      have carries : Carries loads updates (freshFields domain (updates j))
          ((vaultCalls dumps loads x509 domain store updates).apply j start) := by
        rw [first]
        exact Or.inr ⟨j, storedMetadata_written (text _ (.routed _ j (.fresh j)))⟩
      exact (carries.follow text (.fresh j) chain).write i

/-! ## Serial orders -/

/-- What an order leaves: the stored secret, or what the last update made of its metadata. -/
theorem serial_cases (text : ∀ metadata, Written loads x509 domain store updates start metadata →
      loads (dumps metadata) = some metadata) {order : List (Option (Fin n))}
    (h : IsOrder order) :
    (vaultCalls dumps loads x509 domain store updates).serial order start =
        (vaultCalls dumps loads x509 domain store updates).store ∨
      ∃ i, (vaultCalls dumps loads x509 domain store updates).serial order start =
        some [("metadata", .string (dumps (.object
          (withTargets (certFields x509 domain store) (updates i)))))] := by
  obtain ⟨before, chain, rfl⟩ := h.split
  rw [serial_store]
  rcases List.eq_nil_or_concat chain with rfl | ⟨chain, i, rfl⟩
  · exact Or.inl rfl
  · rw [List.concat_eq_append]
    have carries := (store_carries text).follow text .store chain
    rw [follow_concat, Calls.apply, carries.write i]
    exact Or.inr ⟨i, rfl⟩

/-- An update of fresh fields, or of the start's, is as good as one of the stored ones only if
the start has the same metadata. -/
theorem sameMetadata_of_eq {i j : Fin n}
    (from_ : storedMetadata loads start = .ok (.object fields) ∨
      ∃ k, fields = freshFields domain (updates k))
    (eq : withTargets fields (updates i) =
      withTargets (certFields x509 domain store) (updates j)) :
    SameMetadata loads x509 domain store start := by
  have cleared := congrArg (fun d => Dict.set d "targets" Json.null) eq
  simp only [withTargets, Dict.set_set] at cleared
  rcases from_ with read | ⟨k, rfl⟩
  · exact ⟨fields, read, cleared⟩
  · have lengths := congrArg List.length cleared
    simp [freshFields, certFields, Dict.set] at lengths

theorem serialisable_of_goesBack (il : Interleaving (Fin n)) (kv : Kv)
    (back : (run (vaultCalls dumps loads x509 domain store updates).step
      (.initial (secretIn cfg domain kv)) il.accesses).goesBack = true) :
    Serialisable dumps loads x509 cfg domain store updates il kv := by
  obtain ⟨order, isOrder, eq⟩ := exists_order il back
  refine ⟨order, isOrder, ?_⟩
  rw [secretIn_oneByOne, eq, (run_mirrors il.accesses kv).secret]

/-- From metadata that is no object every update gives up. -/
theorem goesBack_of_unroutable (il : Interleaving (Fin n)) (unroutable : Unroutable loads start) :
    (run (vaultCalls dumps loads x509 domain store updates).step (.initial start)
      il.accesses).goesBack = true := by
  obtain ⟨metadata, read, fieldless⟩ := unroutable
  refine goesBack_of_fruitless il fun i => ?_
  cases metadata with
  | object fields => exact absurd rfl (fieldless fields)
  | null | bool _ | number _ | string _ | array _ => simp [vaultCalls, read]

/-- From any other start every update writes, whatever it has read. -/
theorem write_isSome (text : ∀ metadata, Written loads x509 domain store updates start metadata →
      loads (dumps metadata) = some metadata)
    (routable : ¬ Unroutable loads start) (chain : List (Fin n)) (i : Fin n) (back : Bool) :
    ((vaultCalls dumps loads x509 domain store updates).write i
      ((vaultCalls dumps loads x509 domain store updates).read i
        ((vaultCalls dumps loads x509 domain store updates).follow chain
          ((vaultCalls dumps loads x509 domain store updates).root start back)))).isSome := by
  cases back with
  | true =>
    have carries := (store_carries text).follow text .store chain
    simp only [Calls.root, if_true, carries.write i, Option.isSome_some]
  | false =>
    obtain ⟨fields, -, -, written⟩ := chain_carries text routable chain i
    simp [Calls.root, written]

/-- An order that leaves what a lost chain leaves needs a start with the stored metadata. -/
theorem sameMetadata_of_serial {i : Fin n}
    (text : ∀ metadata, Written loads x509 domain store updates start metadata →
      loads (dumps metadata) = some metadata)
    (base : Base loads x509 domain store updates start fields)
    (from_ : storedMetadata loads start = .ok (.object fields) ∨
      ∃ k, fields = freshFields domain (updates k))
    {order : List (Option (Fin n))} (isOrder : IsOrder order)
    (eq : (vaultCalls dumps loads x509 domain store updates).serial order start =
      some [("metadata", .string (dumps (.object (withTargets fields (updates i)))))]) :
    SameMetadata loads x509 domain store start := by
  rcases serial_cases text isOrder with stored | ⟨j, routed⟩
  · rw [stored] at eq
    simp [vaultCalls, certSecret] at eq
  · rw [routed] at eq
    have texts : dumps (.object (withTargets (certFields x509 domain store) (updates j))) =
        dumps (.object (withTargets fields (updates i))) := by simpa using eq
    have read := congrArg loads texts
    rw [text _ (.routed _ j .store), text _ (.routed fields i base)] at read
    exact sameMetadata_of_eq from_ (by simpa using read.symm)

/-- From fields that are the stored ones but for the targets, an update writes what it writes
after the store. -/
theorem apply_store_of_same {i : Fin n}
    (text : ∀ metadata, Written loads x509 domain store updates start metadata →
      loads (dumps metadata) = some metadata)
    (same : Dict.set fields "targets" .null =
      Dict.set (certFields x509 domain store) "targets" .null) :
    (vaultCalls dumps loads x509 domain store updates).follow [i]
        (vaultCalls dumps loads x509 domain store updates).store =
      some [("metadata", .string (dumps (.object (withTargets fields (updates i)))))] := by
  have carries := store_carries text
  simp only [Calls.follow, List.foldl_cons, List.foldl_nil, Calls.apply, carries.write i]
  have eq := congrArg (fun d => withTargets d (updates i)) same
  simp only [withTargets, Dict.set_set] at eq
  simp [withTargets, eq]

theorem serialisable_iff (dumps : Json → String) (loads : String → Option Json)
    (x509 : String → Option (String × String)) (cfg : VaultConfig) (domain : String)
    (store : StoreCall) (updates : Fin n → UpdateCall) (il : Interleaving (Fin n)) (kv : Kv)
    (text : ∀ metadata,
      Written loads x509 domain store updates (secretIn cfg domain kv) metadata →
        loads (dumps metadata) = some metadata) :
    Serialisable dumps loads x509 cfg domain store updates il kv ↔
      il.goesBack = true ∨ Unroutable loads (secretIn cfg domain kv) ∨
        SameMetadata loads x509 domain store (secretIn cfg domain kv) := by
  by_cases unroutable : Unroutable loads (secretIn cfg domain kv)
  · exact iff_of_true (serialisable_of_goesBack il kv (goesBack_of_unroutable il unroutable))
      (Or.inr (Or.inl unroutable))
  rw [← goesBack_eq il (write_isSome text unroutable)]
  cases back : (run (vaultCalls dumps loads x509 domain store updates).step
    (.initial (secretIn cfg domain kv)) il.accesses).goesBack with
  | true => exact iff_of_true (serialisable_of_goesBack il kv back) (Or.inl rfl)
  | false =>
    -- the last write comes of a chain of updates that goes back to the start, past the store
    obtain ⟨chain, i, -, written⟩ := exists_lost il back
    obtain ⟨fields, base, from_, written'⟩ := chain_carries text unroutable chain i
    have final := Option.some.inj (written.symm.trans written')
    rw [or_iff_right (by simp), or_iff_right unroutable, Serialisable,
      (run_mirrors il.accesses kv).secret, final]
    constructor
    · rintro ⟨order, isOrder, eq⟩
      rw [secretIn_oneByOne] at eq
      exact sameMetadata_of_serial text base (from_.imp_right And.right) isOrder eq
    · rintro ⟨fields', read, same⟩
      obtain rfl : fields' = fields := by
        rcases from_ with read' | ⟨⟨err, failed⟩, -⟩
        · simpa [read] using read'
        · simp [read] at failed
      refine ⟨_, il.isOrder (List.nodup_singleton i), ?_⟩
      rw [secretIn_oneByOne, serial_store, apply_store_of_same text same]

/-! ## A lost certificate -/

def quoted (text : String) : String := "\"" ++ text ++ "\""

/-- `json.dumps` with an indent of two, on fields that are texts or lists of texts without
escapes. -/
def textDumps : Json → String
  | .object fields =>
    let value : Json → String
      | .string text => quoted text
      | .array items => "[\n" ++ Python.join ",\n" (items.map fun
          | .string text => "    " ++ quoted text
          | _ => "null") ++ "\n  ]"
      | _ => "null"
    "\x7b\n" ++ Python.join ",\n" (fields.map fun (key, field) =>
      "  " ++ quoted key ++ ": " ++ value field) ++ "\n\x7d"
  | _ => "null"

def raceStore : StoreCall := ⟨"CERT", none, "CERT", "KEY", 0⟩

def raceUpdates : Fin 1 → UpdateCall := fun _ => ⟨["f5"], 0⟩

/-- The metadata that these calls write: the stored one without and with targets, and one that
was made afresh. -/
def storedJson : Json := .object (certFields (fun _ => none) "example.com" raceStore)

def routedJson : Json :=
  .object (withTargets (certFields (fun _ => none) "example.com" raceStore) (raceUpdates 0))

def freshJson : Json :=
  .object (withTargets (freshFields "example.com" (raceUpdates 0)) (raceUpdates 0))

/-- `json.loads` on their texts. -/
def raceLoads (text : String) : Option Json :=
  if text = textDumps storedJson then some storedJson
  else if text = textDumps routedJson then some routedJson
  else if text = textDumps freshJson then some freshJson
  else none

theorem raceLoads_written (metadata : Json)
    (written : Written raceLoads (fun _ => none) "example.com" raceStore raceUpdates none
      metadata) : raceLoads (textDumps metadata) = some metadata := by
  have routed : textDumps routedJson ≠ textDumps storedJson := by decide +kernel
  have fresh : textDumps freshJson ≠ textDumps storedJson ∧
      textDumps freshJson ≠ textDumps routedJson := by decide +kernel
  cases written with
  | stored => exact if_pos rfl
  | routed fields i base =>
    obtain rfl : i = 0 := Subsingleton.elim i 0
    cases base with
    | store => exact (if_neg routed).trans (if_pos rfl)
    | fresh i =>
      obtain rfl : i = 0 := Subsingleton.elim i 0
      exact (if_neg fresh.1).trans ((if_neg fresh.2).trans (if_pos rfl))
    | start fields read => simp [storedMetadata] at read

/-- The update reads before the store and writes after it. -/
def across : Interleaving (Fin 1) where
  accesses := [.read 0, .store, .write 0]
  once := by decide
  complete a := by
    cases a with
    | store => simp
    | read i | write i => simp [Subsingleton.elim i 0]
  ordered i pre post eq := by
    cases pre with
    | nil => simp at eq
    | cons a pre =>
      obtain ⟨rfl, -⟩ := List.cons.inj eq
      simp [Subsingleton.elim i 0]

theorem serialisable_iff_across :
    Serialisable textDumps raceLoads (fun _ => none) {} "example.com" raceStore raceUpdates across
        ⟨[], true, [], 0⟩ ↔
      across.goesBack = true ∨ Unroutable raceLoads none ∨
        SameMetadata raceLoads (fun _ => none) "example.com" raceStore none :=
  serialisable_iff textDumps raceLoads (fun _ => none) {} "example.com" raceStore raceUpdates
    across ⟨[], true, [], 0⟩ raceLoads_written

/-- The certificate that was stored in between is gone. -/
theorem store_lost : ¬ Serialisable textDumps raceLoads (fun _ => none) {} "example.com" raceStore
    raceUpdates across ⟨[], true, [], 0⟩ := by
  rintro ⟨order, isOrder, eq⟩
  rw [secretIn_oneByOne] at eq
  have left : secretIn {} "example.com" (run (access textDumps raceLoads (fun _ => none) {}
      "example.com" raceStore raceUpdates) ⟨⟨[], true, [], 0⟩, fun _ => none⟩ across.accesses).kv =
        some [("metadata", .string (textDumps freshJson))] := rfl
  rw [left] at eq
  rcases serial_cases raceLoads_written isOrder with stored | ⟨i, routed⟩
  · have fields := congrArg (Option.map List.length) (stored.symm.trans eq)
    simp [vaultCalls, certSecret] at fields
  · have texts : textDumps routedJson = textDumps freshJson := by
      simpa [Subsingleton.elim i 0, routedJson] using routed.symm.trans eq
    exact absurd texts (by decide +kernel)

end AcmeGitWebhook.Vault
