import AcmeGitWebhook.Vault.Endpoints

/-!
# The token that Vault is used with

`_ensure_authenticated` of `app/vault_handler.py` logs in when the token is missing or past
its expiry, four fifths of its lease after the login. The endpoints count what they ask of
Vault; this adds the expiry and the time at which they do. A request or a check of the monitor
takes no time. `deploy_cert_to_targets` uses the client as it is. `everyAccessFresh_iff` says in
which runs every access has a token that is still good.
-/

namespace AcmeGitWebhook.Vault

open Library

/-- How a login ends: with a lease, not at all, or with one whose duration is no number, for
which the handler has its client already. -/
inductive Login where
  | leased (duration : Int)
  | fails (err : PyError)
  | unusable
  deriving DecidableEq, Repr

/-- `_token_expires_at` beside the state of the endpoints. -/
structure Session where
  app : State
  expiresAt : ℚ

def Session.initial : Session := ⟨.initial, 0⟩

/-- A read or a write of Vault, and whether the login came right before it. -/
structure Access where
  time : ℚ
  expiresAt : ℚ
  afterLogin : Bool
  deriving DecidableEq, Repr

/-- `deploy_cert_to_single_target` is a deploy with its one target; a check of the monitor lists
so many certificates, or its listing raises. -/
inductive Request where
  | store (req : CertDeployRequest) (now : Int) (write : WriteOutcome)
  | route (domain : String) (targets : List String) (now : Int) (read : ReadOutcome)
      (write : WriteOutcome)
  | deploy (domain : String) (req : DeployRequest) (pemRead routingRead : ReadOutcome) (now : Int)
      (outcome : Nat → Except String Targets.DeployResult)
  | readyz
  | check (listing : Option Nat)
  | restart

/-- A request at a time, and how the login ends that it may make. -/
structure Arrival where
  request : Request
  time : ℚ
  login : Login

/-- `time.time() + lease_duration * 0.8`. -/
def tokenExpiry (time : ℚ) (duration : Int) : ℚ :=
  Python.roundDouble (time + Python.roundDouble (Python.roundDouble duration *
    Python.roundDouble (4 / 5)))

/-- The token is missing or expired. -/
def Session.stale (s : Session) (time : ℚ) : Bool := !s.app.kv.client || decide (s.expiresAt ≤ time)

/-- `_ensure_authenticated`: how it ends, the expiry it leaves, and whether it has logged in. -/
def Session.ensure (s : Session) (time : ℚ) (login : Login) : Except PyError Unit × ℚ × Bool :=
  if s.stale time then
    match login with
    | .leased duration => (.ok (), tokenExpiry time duration, true)
    | .fails err => (.error err, s.expiresAt, false)
    | .unusable => (.error .typeError, s.expiresAt, false)
  else (.ok (), s.expiresAt, false)

/-- The handler has a client although the login raised. -/
def Session.halfway (s : Session) (time : ℚ) (login : Login) : Bool :=
  s.stale time && login = .unusable

variable (dumps : Json → String) (loads : String → Option Json)
  (x509 : String → Option (String × String)) (tzdata : String → Option Zone) (app : App)

/-- The request gets as far as `_ensure_authenticated`. -/
def authenticates : Request → Bool
  | .store _ _ _ | .readyz | .check _ => app.handler.isSome
  | .route _ targets _ _ _ => app.handler.isSome && (app.manager.bind fun mgr =>
      targets.find? fun name => (mgr.targets.get? name).isNone).isNone
  | .deploy _ _ _ _ _ _ | .restart => false

/-- `_load_certs_from_vault` with a client: the listing, and each certificate that is listed. -/
def loadCerts (listing : Option Nat) (kv : Kv) : Kv := Kv.access^[listing.getD 0] kv.access

/-- What the request does, once it is known how its login ends. -/
def handle (auth : Except PyError Unit) (st : State) : Request → State
  | .store req now write => step dumps loads x509 tzdata app st (.store req now auth write)
  | .route domain targets now read write =>
    step dumps loads x509 tzdata app st (.route domain targets now auth read write)
  | .deploy domain req pemRead routingRead now outcome =>
    step dumps loads x509 tzdata app st (.deploy domain req pemRead routingRead now outcome)
  | .readyz => { st with kv := (ensureAuthenticated auth st.kv).2 }
  | .check listing =>
    match ensureAuthenticated auth st.kv with
    | (.ok (), kv) => { st with kv := loadCerts listing kv }
    | (.error _, kv) => { st with kv := kv }
  | .restart => step dumps loads x509 tzdata app st .restart

def serve (s : Session) (arrival : Arrival) : Session :=
  if authenticates app arrival.request then
    let (auth, expiresAt, _) := s.ensure arrival.time arrival.login
    let st := if s.halfway arrival.time arrival.login then
      step dumps loads x509 tzdata app s.app .login else s.app
    ⟨handle dumps loads x509 tzdata app auth st arrival.request, expiresAt⟩
  else
    match arrival.request with
    | .readyz | .check _ => s
    | .restart => ⟨step dumps loads x509 tzdata app s.app .restart, 0⟩
    | request => ⟨handle dumps loads x509 tzdata app (.ok ()) s.app request, s.expiresAt⟩

/-- The request logs in before its first access. -/
def logsIn (s : Session) (arrival : Arrival) : Bool :=
  authenticates app arrival.request && (s.ensure arrival.time arrival.login).2.2

/-- So many accesses at one time, the first of them right after a login or not. -/
def accessesAt (time expiresAt : ℚ) (afterLogin : Bool) : Nat → List Access
  | 0 => []
  | count + 1 => ⟨time, expiresAt, afterLogin⟩ :: List.replicate count ⟨time, expiresAt, false⟩

/-- The reads and writes that the request asks Vault for. -/
def accesses (s : Session) (arrival : Arrival) : List Access :=
  let after := serve dumps loads x509 tzdata app s arrival
  accessesAt arrival.time after.expiresAt (logsIn app s arrival)
    (after.app.kv.accesses - s.app.kv.accesses)

/-- Each access that does not come right after a login has a token that has not expired. -/
def Fresh (s : Session) (arrival : Arrival) : Prop :=
  ∀ a ∈ accesses dumps loads x509 tzdata app s arrival,
    a.afterLogin = true ∨ a.time < a.expiresAt

/-- The deploy reads the certificate or the routing from Vault. -/
def ReadsVault (kv : Kv) (req : DeployRequest) : Prop :=
  app.manager.isSome ∧ app.handler.isSome ∧ kv.client = true ∧
    (req.fullchainPem.isNone ∨ req.privkeyPem.isNone ∨ req.targetNames.isNone)

/-- The request makes a second access after its login: an update writes unless its metadata has
no fields, and a check reads the certificates that it has listed. -/
def GoesOn (kv : Kv) : Request → Prop
  | .route domain targets now read _ =>
    ∃ cfg ∈ app.handler, ∃ metadata,
      setTargets targets (foundMetadata loads cfg domain now read kv) = .ok metadata
  | .check listing => 0 < listing.getD 0
  | .store _ _ _ | .deploy _ _ _ _ _ _ | .readyz | .restart => False

/-- A deploy that reads from Vault comes before the token expires; any other request that logs
in and makes more than one access gets a lease that does not end at once. -/
def InTime (s : Session) (arrival : Arrival) : Prop :=
  match arrival.request with
  | .deploy _ req _ _ _ _ => ReadsVault app s.app.kv req → arrival.time < s.expiresAt
  | request => ∀ duration, authenticates app request = true → s.stale arrival.time = true →
      arrival.login = .leased duration → GoesOn loads app s.app.kv request →
        arrival.time < tokenExpiry arrival.time duration

variable {dumps loads x509 tzdata app} {s : Session} {arrival : Arrival} {st : State}

/-! ## How often Vault is asked -/

theorem acmeDeploy_accesses {req : CertDeployRequest} {now : Int} {auth : Except PyError Unit}
    {write : WriteOutcome} (handler : app.handler.isSome) :
    (acmeDeploy dumps x509 app req now auth write st).2.kv.accesses =
      match auth with
      | .error _ => st.kv.accesses
      | .ok () => st.kv.accesses + 1 := by
  obtain ⟨cfg, handler⟩ := Option.isSome_iff_exists.mp handler
  cases auth with
  | error err => simp [acmeDeploy, handler, storeCert, ensureAuthenticated]
  | ok =>
    cases write <;> simp [acmeDeploy, handler, storeCert, ensureAuthenticated, writeSecret,
      Kv.record]

theorem patchCertTargets_accesses {cfg : VaultConfig} {domain : String} {targets : List String}
    {now : Int} {auth : Except PyError Unit} {read : ReadOutcome} {write : WriteOutcome}
    (handler : app.handler = some cfg) (known : (app.manager.bind fun mgr =>
      targets.find? fun name => (mgr.targets.get? name).isNone) = none) :
    (patchCertTargets dumps loads app domain targets now auth read write st).2.kv.accesses =
      match auth, setTargets targets (foundMetadata loads cfg domain now read st.kv) with
      | .error _, _ => st.kv.accesses
      | .ok (), .error _ => st.kv.accesses + 1
      | .ok (), .ok _ => st.kv.accesses + 2 := by
  simp only [patchCertTargets, handler, known]
  cases auth with
  | error err => rfl
  | ok =>
    rw [updateCertTargets_eq]
    cases setTargets targets (foundMetadata loads cfg domain now read st.kv) with
    | error err => rfl
    | ok metadata => cases write <;> rfl

theorem loadCerts_accesses (listing : Option Nat) (kv : Kv) :
    (loadCerts listing kv).accesses = kv.accesses + 1 + listing.getD 0 := by
  have iterated (n : Nat) (kv : Kv) : (Kv.access^[n] kv).accesses = kv.accesses + n := by
    induction n generalizing kv with
    | zero => rfl
    | succ n ih =>
      rw [Function.iterate_succ_apply, ih, Kv.access_accesses]
      omega
  rw [loadCerts, iterated, Kv.access_accesses]

section

variable {domain : String} {req : DeployRequest} {pemRead routingRead : ReadOutcome} {now : Int}
  {outcome : Nat → Except String Targets.DeployResult}

theorem deploy_accesses (managed : app.manager.isSome) :
    (deployCertToTargets loads tzdata app domain req pemRead routingRead now outcome
        st).2.kv.accesses =
      match pemsFor app domain req pemRead st.kv with
      | (.error _, kv) => kv.accesses
      | (.ok (fullchainPem, privkeyPem), kv) =>
        (targetNamesFor loads app domain req routingRead
          (kv.record (.handed domain fullchainPem privkeyPem))).2.accesses := by
  obtain ⟨mgr, managed⟩ := Option.isSome_iff_exists.mp managed
  unfold deployCertToTargets
  simp only [managed]
  rcases pemsFor app domain req pemRead st.kv with ⟨failure | ⟨f, p⟩, kv⟩
  · rfl
  · dsimp only
    rcases targetNamesFor loads app domain req routingRead (kv.record (.handed domain f p)) with
      ⟨err | targetNames, kv⟩
    · rfl
    · dsimp only
      split <;> rfl

/-- The certificate cannot be given and fail to be found. -/
theorem missing_of_error {failure : Failure} {kv : Kv}
    (failed : (pemsFor app domain req pemRead kv).1 = .error failure) :
    req.fullchainPem.isNone ∨ req.privkeyPem.isNone := by
  unfold pemsFor at failed
  cases hf : req.fullchainPem <;> cases hp : req.privkeyPem <;> simp_all

/-- A deployment asks for the certificate or the routing if it can and has to. -/
theorem deploy_asks_iff :
    st.kv.accesses < (deployCertToTargets loads tzdata app domain req pemRead routingRead now
      outcome st).2.kv.accesses ↔ ReadsVault app st.kv req := by
  by_cases managed : app.manager.isSome
  · have pems : (pemsFor app domain req pemRead st.kv).2 = _ := pemsFor_snd
    rw [deploy_accesses managed]
    simp only [ReadsVault, managed, true_and]
    rcases found : pemsFor app domain req pemRead st.kv with ⟨failure | ⟨f, p⟩, kv⟩
    · have missing := missing_of_error (congrArg Prod.fst found)
      rw [found] at pems
      obtain rfl : kv = _ := pems
      split_ifs with asked
      · exact iff_of_true (Nat.lt_succ_self _)
          ⟨asked.1, asked.2.1, missing.imp_right Or.inl⟩
      · exact iff_of_false (lt_irrefl _) fun reads => asked ⟨reads.1, reads.2.1, missing⟩
    · rw [found] at pems
      obtain rfl : kv = _ := pems
      dsimp only
      rw [targetNamesFor_snd]
      split_ifs with first routed routed
      · exact iff_of_true (Nat.lt_add_of_pos_right Nat.two_pos)
          ⟨first.1, first.2.1, first.2.2.imp_right Or.inl⟩
      · exact iff_of_true (Nat.lt_succ_self _) ⟨first.1, first.2.1, first.2.2.imp_right Or.inl⟩
      · exact iff_of_true (Nat.lt_succ_self _) ⟨routed.1, routed.2.1, .inr (.inr routed.2.2)⟩
      · refine iff_of_false (lt_irrefl _) fun ⟨handler, client, missing⟩ => ?_
        rcases missing with chain | key | names
        · exact first ⟨handler, client, .inl chain⟩
        · exact first ⟨handler, client, .inr key⟩
        · exact routed ⟨handler, client, names⟩
  · rw [Bool.not_eq_true, Option.isSome_eq_false_iff, Option.isNone_iff_eq_none] at managed
    simp [deployCertToTargets, ReadsVault, managed]

end

/-- Without a login nothing is asked. -/
theorem handle_refused {err : PyError} {request : Request}
    (asks : authenticates app request = true) :
    (handle dumps loads x509 tzdata app (.error err) st request).kv.accesses =
      st.kv.accesses := by
  cases request with
  | deploy domain req pemRead routingRead now outcome => cases asks
  | restart => cases asks
  | readyz | check _ => rfl
  | store req now write => exact acmeDeploy_accesses asks
  | route domain targets now read write =>
    simp only [authenticates, Bool.and_eq_true, Option.isNone_iff_eq_none] at asks
    obtain ⟨cfg, handler⟩ := Option.isSome_iff_exists.mp asks.1
    exact patchCertTargets_accesses handler asks.2

/-- After a login, which requests ask more than once. -/
theorem handle_asks_twice {request : Request} (asks : authenticates app request = true) :
    2 ≤ (handle dumps loads x509 tzdata app (.ok ()) st request).kv.accesses - st.kv.accesses ↔
      GoesOn loads app st.kv request := by
  cases request with
  | deploy domain req pemRead routingRead now outcome => cases asks
  | restart => cases asks
  | readyz => simp [handle, ensureAuthenticated, GoesOn]
  | check listing =>
    simp only [handle, ensureAuthenticated, loadCerts_accesses, GoesOn]
    omega
  | store req now write =>
    simp only [handle, step, acmeDeploy_accesses asks, GoesOn, iff_false]
    omega
  | route domain targets now read write =>
    simp only [authenticates, Bool.and_eq_true, Option.isNone_iff_eq_none] at asks
    obtain ⟨cfg, handler⟩ := Option.isSome_iff_exists.mp asks.1
    simp only [handle, step, patchCertTargets_accesses handler asks.2, GoesOn, handler]
    cases set : setTargets targets (foundMetadata loads cfg domain now read st.kv) <;> simp [set]

/-! ## Which accesses are fresh -/

theorem accessesAt_fresh_iff {time expiresAt : ℚ} {afterLogin : Bool} {count : Nat} :
    (∀ a ∈ accessesAt time expiresAt afterLogin count,
        a.afterLogin = true ∨ a.time < a.expiresAt) ↔
      ((if afterLogin then 2 else 1) ≤ count → time < expiresAt) := by
  rcases count with _ | _ | count <;> cases afterLogin <;> simp [accessesAt]

/-- A request that does not get as far as a login asks for nothing, unless it is a deploy. -/
theorem serve_unasked (refused : authenticates app arrival.request = false)
    (other : ∀ domain req pemRead routingRead now outcome,
      arrival.request ≠ .deploy domain req pemRead routingRead now outcome) :
    (serve dumps loads x509 tzdata app s arrival).app.kv.accesses = s.app.kv.accesses := by
  obtain ⟨request, time, login⟩ := arrival
  cases request with
  | deploy domain req pemRead routingRead now outcome => exact absurd rfl (other _ _ _ _ _ _)
  | restart => rfl
  | readyz | check _ =>
    simp only [serve, refused]
    rfl
  | store req now write =>
    simp only [authenticates, Option.isSome_eq_false_iff, Option.isNone_iff_eq_none] at refused
    simp [serve, authenticates, handle, step, acmeDeploy, refused]
  | route domain targets now read write =>
    simp only [serve, refused, Bool.false_eq_true, if_false, handle, step, patchCertTargets]
    cases handler : app.handler with
    | none => rfl
    | some cfg =>
      simp only [authenticates, handler, Option.isSome_some, Bool.true_and,
        Option.isNone_eq_false_iff] at refused
      obtain ⟨name, unknown⟩ := Option.isSome_iff_exists.mp refused
      simp only [unknown]

theorem fresh_iff_of_asks (asks : authenticates app arrival.request = true) :
    Fresh dumps loads x509 tzdata app s arrival ↔
      ∀ duration, s.stale arrival.time = true → arrival.login = .leased duration →
        GoesOn loads app s.app.kv arrival.request →
          arrival.time < tokenExpiry arrival.time duration := by
  simp only [Fresh, accesses, accessesAt_fresh_iff, logsIn, serve, asks, Bool.true_and, if_true]
  cases stale : s.stale arrival.time with
  | false =>
    have good : arrival.time < s.expiresAt := by
      simp only [Session.stale, Bool.or_eq_false_iff, decide_eq_false_iff_not] at stale
      exact not_le.mp stale.2
    refine iff_of_true (fun _ => ?_) (by simp)
    simpa [Session.ensure, stale] using good
  | true =>
    cases login : arrival.login with
    | leased duration =>
      simp [Session.ensure, Session.halfway, stale, handle_asks_twice asks]
    | fails err =>
      simp [Session.ensure, Session.halfway, stale, handle_refused asks]
    | unusable =>
      simp [Session.ensure, Session.halfway, stale, handle_refused asks, step]

theorem fresh_iff (s : Session) (arrival : Arrival) :
    Fresh dumps loads x509 tzdata app s arrival ↔ InTime loads app s arrival := by
  by_cases asks : authenticates app arrival.request = true
  · rw [fresh_iff_of_asks asks]
    obtain ⟨request, time, login⟩ := arrival
    cases request with
    | deploy domain req pemRead routingRead now outcome => cases asks
    | restart => cases asks
    | store _ _ _ | route _ _ _ _ _ | readyz | check _ =>
      exact ⟨fun inTime duration _ => inTime duration, fun inTime duration => inTime duration asks⟩
  · rw [Bool.not_eq_true] at asks
    have unlogged : logsIn app s arrival = false := by simp [logsIn, asks]
    simp only [Fresh, accesses, accessesAt_fresh_iff, unlogged, Bool.false_eq_true, if_false]
    obtain ⟨request, time, login⟩ := arrival
    cases request with
    | deploy domain req pemRead routingRead now outcome =>
      have asked : s.app.kv.accesses < (deployCertToTargets loads tzdata app domain req pemRead
          routingRead now outcome s.app).2.kv.accesses ↔ ReadsVault app s.app.kv req :=
        deploy_asks_iff
      change (1 ≤ _ - _ → time < s.expiresAt) ↔ (ReadsVault app s.app.kv req → time < s.expiresAt)
      rw [← asked, Nat.one_le_iff_ne_zero, Nat.sub_ne_zero_iff_lt]
      rfl
    | store _ _ _ | route _ _ _ _ _ | readyz | check _ | restart =>
      have unasked : (serve dumps loads x509 tzdata app s _).app.kv.accesses =
          s.app.kv.accesses := serve_unasked asks (by simp)
      refine iff_of_true (fun some_ => ?_) fun _ asked => ?_
      · rw [unasked, Nat.sub_self] at some_
        cases some_
      · rw [asks] at asked
        cases asked

theorem everyAccessFresh_iff (dumps : Json → String) (loads : String → Option Json)
    (x509 : String → Option (String × String)) (tzdata : String → Option Zone) (app : App)
    (arrivals : List Arrival) :
    EveryStep (serve dumps loads x509 tzdata app) (Fresh dumps loads x509 tzdata app) .initial
        arrivals ↔
      EveryStep (serve dumps loads x509 tzdata app) (InTime loads app) .initial arrivals :=
  everyStep_congr fresh_iff .initial arrivals

def tokenApp : App := ⟨some {}, some (.init [⟨"f5", .f5, none⟩])⟩

/-- A deploy an hour after the login, with a token that was to be renewed after 48 minutes. -/
theorem deploys_with_expired_token : ¬ EveryStep
    (serve exampleDumps exampleLoads (fun _ => none) onlyUtc tokenApp)
    (Fresh exampleDumps exampleLoads (fun _ => none) onlyUtc tokenApp) .initial
    [⟨.store ⟨"example.com", "CERT", none, "CERT", "KEY"⟩ 0 .done, 0, .leased 3600⟩,
      ⟨.deploy "example.com" {} .done .done 0 fun _ => .error "", 3600, .leased 3600⟩] := by
  intro fresh
  have last := fresh [_] _ [] rfl
  revert last
  unfold Fresh
  decide +kernel

end AcmeGitWebhook.Vault
