import AcmeGitWebhook.Vault.Renewals

/-!
# What is known of the stored certificates

The secrets as a board with at most one card for each domain: when its certificate or its
routing was noted, and the dates of the certificate if one was stored. `delete_cert` of
`app/vault_handler.py`, which no endpoint calls, takes a card down. `step_shows` relates each
request to its move on the board.
-/

namespace AcmeGitWebhook.Vault

open Library

/-- `delete_cert`: a path that is not there counts as deleted. -/
def deleteCert (cfg : VaultConfig) (domain : String) (auth : Except PyError Unit)
    (write : WriteOutcome) (kv : Kv) : Except PyError Bool × Kv :=
  match ensureAuthenticated auth kv with
  | (.error err, kv) => (.error err, kv)
  | (.ok (), kv) =>
    let kv := kv.access
    let deleted := { kv with secrets := kv.secrets.erase (secretPath cfg domain) }
    let (result, kv) : Except PyError Unit × Kv :=
      match write with
      | .done => (.ok (), deleted)
      | .lost err => (.error err, kv)
      | .late err => (.error err, deleted)
    match result with
    | .ok () | .error (.library "InvalidPath") => (.ok true, kv)
    | .error err => (.error err, kv)

/-- A request to the service, or a call of `delete_cert`. -/
inductive Change where
  | request (event : Event)
  | delete (domain : String) (auth : Except PyError Unit) (write : WriteOutcome)

def Event.domain? : Event → Option String
  | .store req _ _ _ => some req.domain
  | .route domain _ _ _ _ _ | .deploy domain _ _ _ _ _ => some domain
  | .login | .restart => none

def Change.domain? : Change → Option String
  | .request event => event.domain?
  | .delete domain _ _ => some domain

variable (dumps : Json → String) (loads : String → Option Json)
  (x509 : String → Option (String × String)) (tzdata : String → Option Zone) (app : App)

def change (st : State) : Change → State
  | .request event => step dumps loads x509 tzdata app st event
  | .delete domain auth write =>
    match app.handler with
    | none => st
    | some cfg => { st with kv := (deleteCert cfg domain auth write st.kv).2 }

/-- The metadata that are written read back as they were. -/
def ReadsBack (st : State) : Change → Prop
  | .request event => RoundTrips dumps loads x509 app st event
  | .delete _ _ _ => True

/-! ## The board -/

structure Card where
  storedAt : String
  dates : Option (String × String)
  deriving DecidableEq, Repr

abbrev Board := String → Option Card

instance (auth : Except PyError Unit) (write : WriteOutcome) : Decidable (TakesEffect auth write) :=
  match auth, write with
  | .ok (), .done => isTrue ⟨rfl, nofun⟩
  | .ok (), .late _ => isTrue ⟨rfl, nofun⟩
  | .ok (), .lost err => isFalse fun takes => takes.2 err rfl
  | .error _, _ => isFalse fun takes => nomatch takes.1

/-- No target of the list is unknown to the manager. -/
def App.registered (targets : List String) : Bool :=
  app.manager.all fun mgr => targets.all fun name => (mgr.targets.get? name).isSome

/-- The card after a change of routing whose write takes effect: a read that fails forgets
the certificate, and metadata that are no object are not written. -/
def routedCard (now : Int) : ReadOutcome → Option Card → Option Card
  | .done, card => some (card.getD ⟨isoformat now, none⟩)
  | .unreadable, some card => some card
  | .unreadable, none | .raises _, _ => some ⟨isoformat now, none⟩

def Board.step (b : Board) : Change → Board
  | .request (.store req now auth write) =>
    if app.handler.isSome ∧ TakesEffect auth write then
      Function.update b req.domain
        (some ⟨isoformat now, some ((x509 req.certPem).getD ("unknown", "unknown"))⟩)
    else b
  | .request (.route domain targets now auth read write) =>
    if app.handler.isSome ∧ app.registered targets ∧ TakesEffect auth write then
      Function.update b domain (routedCard now read (b domain))
    else b
  | .request (.deploy _ _ _ _ _ _) | .request .login | .request .restart => b
  | .delete domain auth write =>
    if app.handler.isSome ∧ TakesEffect auth write then Function.update b domain none else b

/-- The metadata say what is on the card. -/
structure Card.Describes (card : Card) (fields : Dict String Json) : Prop where
  storedAt : Dict.get? fields "stored_at" = some (.string card.storedAt)
  notBefore : Dict.get? fields "not_before" = card.dates.map fun dates => .string dates.1
  expiry : Dict.get? fields "expiry" = card.dates.map fun dates => .string dates.2

/-- A secret with the metadata of the card, or none if there is no card. -/
def ShowsCard (secret : Option Secret) : Option Card → Prop
  | none => secret = none
  | some card => ∃ data fields, secret = some data ∧
      metadataOf loads data = .ok (.object fields) ∧ card.Describes fields

def Shows (cfg : VaultConfig) (kv : Kv) (b : Board) : Prop :=
  ∀ domain, ShowsCard loads (kv.secrets.get? (secretPath cfg domain)) (b domain)

variable {dumps loads x509 tzdata app} {cfg : VaultConfig} {st : State} {kv kv' : Kv} {b : Board}
  {domain : String} {targets : List String} {now : Int} {auth : Except PyError Unit}
  {read : ReadOutcome} {write : WriteOutcome}

theorem routedCard_cases (now : Int) (read : ReadOutcome) (card : Option Card) :
    routedCard now read card = card ∨ routedCard now read card = some ⟨isoformat now, none⟩ := by
  cases read <;> cases card <;> simp [routedCard]

theorem Shows.congr (h : Shows loads cfg kv b) (secrets : kv'.secrets = kv.secrets) :
    Shows loads cfg kv' b := by
  intro domain
  rw [secrets]
  exact h domain

theorem Shows.isSome_iff (h : Shows loads cfg kv b) (domain : String) :
    (kv.secrets.get? (secretPath cfg domain)).isSome ↔ (b domain).isSome := by
  have shown := h domain
  cases known : b domain with
  | none =>
    rw [known] at shown
    simp [show kv.secrets.get? _ = none from shown]
  | some card =>
    rw [known] at shown
    obtain ⟨data, -, present, -⟩ := shown
    simp [present]

/-- A domain's secret and its card change together. -/
theorem Shows.update (h : Shows loads cfg kv b) {card : Option Card}
    (here : ShowsCard loads (kv'.secrets.get? (secretPath cfg domain)) card)
    (others : ∀ path, path ≠ secretPath cfg domain → kv'.secrets.get? path = kv.secrets.get? path) :
    Shows loads cfg kv' (Function.update b domain card) := by
  intro domain'
  by_cases same : domain' = domain
  · subst same
    rwa [Function.update_self]
  · rw [Function.update_of_ne same, others _ (by rwa [Ne, secretPath_inj])]
    exact h domain'

/-! ## Each request and its move -/

variable (x509) in
theorem certMetadata_describes (domain certPem : String) (now : Int) :
    ∃ fields, certMetadata x509 domain certPem now = .object fields ∧
      Card.Describes ⟨isoformat now, some ((x509 certPem).getD ("unknown", "unknown"))⟩ fields := by
  refine ⟨_, rfl, rfl, ?_, ?_⟩ <;> cases x509 certPem <;> rfl

variable (tzdata) in
theorem store_shows (h : Shows loads cfg st.kv b) (handler : app.handler = some cfg)
    {req : CertDeployRequest}
    (text : RoundTrips dumps loads x509 app st (.store req now auth write)) :
    Shows loads cfg (step dumps loads x509 tzdata app st (.store req now auth write)).kv
      (Board.step x509 app b (.request (.store req now auth write))) := by
  simp only [Board.step, handler, Option.isSome_some, true_and]
  rcases acmeDeploy_cases dumps x509 req now auth write st handler with
    ⟨lost, secrets, -⟩ | ⟨takes, after⟩
  · rw [if_neg lost]
    exact h.congr secrets
  · rw [if_pos takes]
    have secrets : (step dumps loads x509 tzdata app st (.store req now auth write)).kv.secrets =
        st.kv.secrets.set (secretPath cfg req.domain) (certSecret dumps x509 req.domain req.certPem
          req.chainPem req.fullchainPem req.privkeyPem now) := by
      rw [step, after]
      rfl
    obtain ⟨fields, object, describes⟩ := certMetadata_describes x509 req.domain req.certPem now
    refine h.update ?_ fun path other => by rw [secrets, Dict.get?_set_of_ne _ _ other]
    rw [secrets, Dict.get?_set_self]
    exact ⟨_, fields, rfl, object ▸ metadataOf_text rfl text, describes⟩

/-- What a change of routing that goes on from the metadata of a card writes. -/
theorem Card.Describes.setTargets {card : Card} {fields : Dict String Json}
    (h : card.Describes fields) : card.Describes
      (Dict.set fields "targets" (.array (targets.map .string))) where
  storedAt := by rw [Dict.get?_set_of_ne _ _ (by decide), h.storedAt]
  notBefore := by rw [Dict.get?_set_of_ne _ _ (by decide), h.notBefore]
  expiry := by rw [Dict.get?_set_of_ne _ _ (by decide), h.expiry]

theorem freshCard_describes (domain : String) (now : Int) : Card.Describes ⟨isoformat now, none⟩
    [("domain", .string domain), ("stored_at", .string (isoformat now))] :=
  ⟨rfl, rfl, rfl⟩

/-- A change of routing goes on from the metadata of the card that it leaves, or finds some that
are no object. -/
theorem foundMetadata_shows (h : Shows loads cfg kv b) (domain : String) (now : Int)
    (read : ReadOutcome) :
    (∃ card fields, routedCard now read (b domain) = some card ∧
      foundMetadata loads cfg domain now read kv = .object fields ∧ card.Describes fields) ∨
    (routedCard now read (b domain) = b domain ∧
      foundMetadata loads cfg domain now read kv = .array []) := by
  have shown := h domain
  cases read with
  | raises err => exact .inl ⟨_, _, rfl, by simp [foundMetadata, readSecret, Except.bind],
      freshCard_describes domain now⟩
  | done =>
    cases card : b domain with
    | none =>
      rw [card] at shown
      refine .inl ⟨_, _, rfl, ?_, freshCard_describes domain now⟩
      simp [foundMetadata, readSecret, Except.bind, show kv.secrets.get? _ = none from shown]
    | some _ =>
      rw [card] at shown
      obtain ⟨data, fields, present, object, describes⟩ := shown
      exact .inl ⟨_, fields, rfl,
        by simp [foundMetadata, readSecret, present, Except.bind, object], describes⟩
  | unreadable =>
    cases card : b domain with
    | none =>
      rw [card] at shown
      refine .inl ⟨_, _, rfl, ?_, freshCard_describes domain now⟩
      simp [foundMetadata, readSecret, Except.bind, show kv.secrets.get? _ = none from shown]
    | some card =>
      rw [card] at shown
      obtain ⟨data, fields, present, -, -⟩ := shown
      refine .inr ⟨rfl, ?_⟩
      simp [foundMetadata, readSecret, present, Except.bind, metadataOf]

/-- When a change of routing is written, and what it writes. -/
theorem updateCertTargets_secrets : (updateCertTargets dumps loads cfg domain targets now auth read
    write kv).2.secrets =
      match setTargets targets (foundMetadata loads cfg domain now read kv) with
      | .ok metadata => if TakesEffect auth write then
          kv.secrets.set (secretPath cfg domain) [("metadata", .string (dumps metadata))]
        else kv.secrets
      | .error _ => kv.secrets := by
  cases auth with
  | error err =>
    have lost : ¬ TakesEffect (.error err) write := fun takes => nomatch takes.1
    simp only [lost, if_false]
    split <;> rfl
  | ok =>
    rw [updateCertTargets_eq]
    cases setTargets targets (foundMetadata loads cfg domain now read kv) with
    | error err => rfl
    | ok metadata => cases write <;> simp [TakesEffect, writeSecret, Kv.record]

/-- An unknown target stops a change of routing before it logs in. -/
theorem patchCertTargets_secrets (handler : app.handler = some cfg) :
    (patchCertTargets dumps loads app domain targets now auth read write st).2.kv.secrets =
      if app.registered targets then
        (updateCertTargets dumps loads cfg domain targets now auth read write st.kv).2.secrets
      else st.kv.secrets := by
  have known : app.registered targets = true ↔ (app.manager.bind fun mgr =>
      targets.find? fun name => (mgr.targets.get? name).isNone) = none := by
    cases manager : app.manager <;> simp [App.registered, manager, Option.isSome_iff_ne_none]
  simp only [patchCertTargets, handler, known]
  split
  · rename_i name unknown
    simp [unknown]
  · rename_i none
    rw [if_pos none]
    split <;> rfl

variable (tzdata) in
theorem route_shows (h : Shows loads cfg st.kv b) (handler : app.handler = some cfg)
    (text : RoundTrips dumps loads x509 app st (.route domain targets now auth read write)) :
    Shows loads cfg (step dumps loads x509 tzdata app st
        (.route domain targets now auth read write)).kv
      (Board.step x509 app b (.request (.route domain targets now auth read write))) := by
  have secrets : (step dumps loads x509 tzdata app st (.route domain targets now auth read
      write)).kv.secrets = _ := patchCertTargets_secrets handler
  rw [updateCertTargets_secrets] at secrets
  simp only [Board.step, handler, Option.isSome_some, true_and, ite_and]
  rcases foundMetadata_shows h domain now read with
    ⟨card, fields, left, found, describes⟩ | ⟨left, found⟩
  · rw [found, Vault.setTargets] at secrets
    dsimp only at secrets
    split_ifs at secrets ⊢ with known takes
    · refine h.update ?_ fun path other => by rw [secrets, Dict.get?_set_of_ne _ _ other]
      rw [secrets, Dict.get?_set_self, left]
      have back := text cfg handler _ (by rw [found, Vault.setTargets])
      exact ⟨_, _, rfl, metadataOf_text rfl back, describes.setTargets⟩
    · exact h.congr secrets
    · exact h.congr secrets
  · simp only [found, Vault.setTargets, ite_self] at secrets
    rw [left, Function.update_eq_self, ite_self, ite_self]
    exact h.congr secrets

theorem delete_shows (h : Shows loads cfg st.kv b) (handler : app.handler = some cfg) :
    Shows loads cfg (change dumps loads x509 tzdata app st (.delete domain auth write)).kv
      (Board.step x509 app b (.delete domain auth write)) := by
  have secrets : (change dumps loads x509 tzdata app st (.delete domain auth write)).kv.secrets =
      if TakesEffect auth write then st.kv.secrets.erase (secretPath cfg domain)
      else st.kv.secrets := by
    simp only [change, handler, deleteCert]
    cases auth with
    | error err => rfl
    | ok =>
      simp only [ensureAuthenticated]
      cases write <;> split <;> simp [TakesEffect]
  simp only [Board.step, handler, Option.isSome_some, true_and]
  split_ifs at secrets ⊢ with takes
  · refine h.update ?_ fun path other => by rw [secrets, Dict.get?_erase_of_ne _ other]
    rw [secrets]
    exact Dict.get?_erase_self ..
  · exact h.congr secrets

variable (tzdata) in
/-- Every request, and every deletion, moves the board as the secrets. -/
theorem change_shows (h : Shows loads cfg st.kv b) (handler : app.handler = some cfg)
    (c : Change) (text : ReadsBack dumps loads x509 app st c) :
    Shows loads cfg (change dumps loads x509 tzdata app st c).kv (Board.step x509 app b c) := by
  cases c with
  | delete domain auth write => exact delete_shows h handler
  | request event =>
    cases event with
    | store req now auth write => exact store_shows tzdata h handler text
    | route domain targets now auth read write => exact route_shows tzdata h handler text
    | deploy domain req pemRead routingRead now outcome =>
      exact h.congr (deploy_frame req pemRead routingRead outcome).1
    | login | restart => exact h.congr rfl

end AcmeGitWebhook.Vault
