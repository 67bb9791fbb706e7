import AcmeGitWebhook.Vault.Endpoints

/-!
# Certificates and their keys

What a domain's secret holds is settled by the last write to it that took effect: a store
leaves its certificate and key, a change of routing leaves neither (`Mirrors`). So every pair
that is handed to the deploy manager is the request's own or comes from one store exactly in
the runs where no deployment reads a secret whose last write was not a store (`intact_iff`).
-/

namespace AcmeGitWebhook.Vault

open Library

variable {dumps : Json → String} {loads : String → Option Json}
  {x509 : String → Option (String × String)} {tzdata : String → Option Zone} {app : App}
  {cfg : VaultConfig} {st : State} {kv : Kv} {domain : String}

def Entry.writes (domain : String) : Entry → Bool
  | .stored domain' _ _ | .routed domain' _ => domain' = domain
  | .handed _ _ _ => false

/-- The last write to the domain's secret. -/
def lastWrite (log : List Entry) (domain : String) : Option Entry :=
  (log.filter (Entry.writes domain)).getLast?

/-- The certificate and key fields that a write leaves. -/
def Entry.Leaves (data : Secret) : Entry → Prop
  | .stored _ fullchainPem privkeyPem => data.get? "fullchain.pem" = some (.string fullchainPem) ∧
      data.get? "privkey.pem" = some (.string privkeyPem)
  | .routed _ _ => data.get? "fullchain.pem" = none ∧ data.get? "privkey.pem" = none
  | .handed _ _ _ => False

/-- The secret is what the last write, if any, left. -/
def Reflects (secret : Option Secret) : Option Entry → Prop
  | none => secret = none
  | some entry => ∃ data, secret = some data ∧ entry.Leaves data

def Mirrors (cfg : VaultConfig) (kv : Kv) : Prop :=
  ∀ domain, Reflects (kv.secrets.get? (secretPath cfg domain)) (lastWrite kv.log domain)

/-- A pair that the event hands over is the request's own, or was stored together for the
domain, both parts non-empty. -/
def Intact (loads : String → Option Json) (tzdata : String → Option Zone) (app : App) (st : State) :
    Event → Prop
  | .deploy domain req pemRead routingRead now outcome => ∀ fullchainPem privkeyPem,
    (deployCertToTargets loads tzdata app domain req pemRead routingRead now outcome st).2.kv.log =
        st.kv.log ++ [.handed domain fullchainPem privkeyPem] →
      (req.fullchainPem.map .string = some fullchainPem ∧
        req.privkeyPem.map .string = some privkeyPem) ∨
      ∃ f p, Entry.stored domain f p ∈ st.kv.log ∧ f ≠ "" ∧ p ≠ "" ∧
        fullchainPem = .string f ∧ privkeyPem = .string p
  | .store _ _ _ _ | .route _ _ _ _ _ _ | .login | .restart => True

/-- A deployment that reads its pair from Vault finds no write to the domain's secret, or
last of all a store of a non-empty pair. -/
def ReadsStored (app : App) (st : State) : Event → Prop
  | .deploy domain req pemRead _ _ _ =>
    app.manager.isSome → app.handler.isSome → st.kv.client = true →
      (req.fullchainPem = none ∨ req.privkeyPem = none) → (∀ err, pemRead ≠ .raises err) →
      ∀ entry, lastWrite st.kv.log domain = some entry →
        ∃ f p, entry = .stored domain f p ∧ f ≠ "" ∧ p ≠ ""
  | _ => True

theorem secretPath_inj {domain' : String} :
    secretPath cfg domain = secretPath cfg domain' ↔ domain = domain' := by
  simp [secretPath, ← String.toList_inj]

theorem lastWrite_append (log : List Entry) (entry : Entry) (domain : String) :
    lastWrite (log ++ [entry]) domain =
      if entry.writes domain then some entry else lastWrite log domain := by
  by_cases here : entry.writes domain <;> simp [lastWrite, here]

theorem mem_of_lastWrite {log : List Entry} {entry : Entry}
    (h : lastWrite log domain = some entry) : entry ∈ log ∧ entry.writes domain = true :=
  List.mem_filter.mp (List.mem_of_getLast? h)

/-- What `Mirrors` looks at. -/
theorem Mirrors.congr {kv' : Kv} (h : Mirrors cfg kv) (secrets : kv'.secrets = kv.secrets)
    (writes : ∀ domain, lastWrite kv'.log domain = lastWrite kv.log domain) : Mirrors cfg kv' := by
  intro domain
  rw [secrets, writes]
  exact h domain

theorem Mirrors.write (h : Mirrors cfg kv) (domain : String) (data : Secret) (entry : Entry)
    (writes : ∀ domain', entry.writes domain' = decide (domain = domain'))
    (leaves : entry.Leaves data) :
    Mirrors cfg (({ kv with secrets := kv.secrets.set (secretPath cfg domain) data } : Kv).record
      entry) := by
  intro domain'
  rw [Kv.record, lastWrite_append, writes]
  by_cases same : domain = domain'
  · subst same
    rw [if_pos (decide_eq_true rfl)]
    exact ⟨data, Dict.get?_set_self .., leaves⟩
  · have other : secretPath cfg domain' ≠ secretPath cfg domain := by
      rw [Ne, secretPath_inj]
      exact Ne.symm same
    simpa [same, other] using h domain'

theorem Mirrors.writeSecret (h : Mirrors cfg kv) (domain : String) (data : Secret) (entry : Entry)
    (outcome : WriteOutcome) (writes : ∀ domain', entry.writes domain' = decide (domain = domain'))
    (leaves : entry.Leaves data) :
    Mirrors cfg (writeSecret cfg domain data outcome entry kv).2 := by
  cases outcome with
  | done => exact h.write domain data entry writes leaves
  | lost err => exact h.congr rfl fun _ => rfl
  | late err => exact h.write domain data entry writes leaves

theorem Mirrors.ensureAuthenticated (h : Mirrors cfg kv) (auth : Except PyError Unit) :
    Mirrors cfg (ensureAuthenticated auth kv).2 := by
  cases auth with
  | error err => exact h
  | ok => exact h.congr rfl fun _ => rfl

theorem Mirrors.storeCert (h : Mirrors cfg kv) {certPem : String} {chainPem : Option String}
    {fullchainPem privkeyPem : String} {now : Int} {auth : Except PyError Unit}
    {write : WriteOutcome} : Mirrors cfg (storeCert dumps x509 cfg domain certPem chainPem
      fullchainPem privkeyPem now auth write kv).2 := by
  have login := h.ensureAuthenticated auth
  unfold Vault.storeCert
  split
  · rename_i after
    rwa [after] at login
  · rename_i kv' after
    rw [after] at login
    have written := login.writeSecret domain
      (certSecret dumps x509 domain certPem chainPem fullchainPem privkeyPem now)
      (.stored domain fullchainPem privkeyPem) write (fun _ => rfl)
      ⟨by simp [certSecret, Dict.get?], by simp [certSecret, Dict.get?]⟩
    dsimp only
    split <;> (rename_i after; rwa [after] at written)

theorem Mirrors.updateCertTargets (h : Mirrors cfg kv) {targets : List String} {now : Int}
    {auth : Except PyError Unit} {read : ReadOutcome} {write : WriteOutcome} :
    Mirrors cfg (updateCertTargets dumps loads cfg domain targets now auth read write kv).2 := by
  have login := h.ensureAuthenticated auth
  unfold Vault.updateCertTargets
  split
  · rename_i after
    rwa [after] at login
  · rename_i kv' after
    rw [after] at login
    have asked : Mirrors cfg kv'.access := login.congr rfl fun _ => rfl
    dsimp only [readSecretVersion]
    split
    · exact asked
    · exact asked.writeSecret domain _ (.routed domain targets) write (fun _ => rfl)
        ⟨by simp [Dict.get?], by simp [Dict.get?]⟩

/-! ## What a deployment hands over -/

theorem deploy_hands_iff {req : DeployRequest} {pemRead routingRead : ReadOutcome} {now : Int}
    {outcome : Nat → Except String Targets.DeployResult} {fullchainPem privkeyPem : Json} :
    (deployCertToTargets loads tzdata app domain req pemRead routingRead now outcome st).2.kv.log =
        st.kv.log ++ [.handed domain fullchainPem privkeyPem] ↔
      app.manager.isSome ∧
        (pemsFor app domain req pemRead st.kv).1 = .ok (fullchainPem, privkeyPem) := by
  rw [(deploy_kv loads tzdata app domain req pemRead routingRead now outcome st).log]
  cases app.manager with
  | none => simp
  | some mgr =>
    rcases (pemsFor app domain req pemRead st.kv).1 with failure | ⟨f, p⟩ <;> simp [Kv.record]

/-- A read that goes through returns the PEM fields of the stored secret. -/
theorem readPems_eq {read : ReadOutcome} {data : Secret} (client : kv.client = true)
    (returns : ∀ err, read ≠ .raises err)
    (present : kv.secrets.get? (secretPath cfg domain) = some data) :
    (readPems cfg domain read kv).1 = .ok ((data.get? "fullchain.pem").getD (.string ""),
      (data.get? "privkey.pem").getD (.string "")) := by
  cases read with
  | done => simp [readPems_fst, client, readSecret, present]
  | raises err => exact absurd rfl (returns err)
  | unreadable => simp [readPems_fst, client, readSecret, present]

theorem readPems_ok {read : ReadOutcome} {pair : Json × Json}
    (h : (readPems cfg domain read kv).1 = .ok pair) :
    kv.client = true ∧ (∀ err, read ≠ .raises err) ∧
      ∃ data, kv.secrets.get? (secretPath cfg domain) = some data := by
  cases client : kv.client with
  | false => simp [readPems_fst, client] at h
  | true =>
    cases present : kv.secrets.get? (secretPath cfg domain) with
    | none => cases read <;> simp [readPems_fst, client, readSecret, present] at h
    | some data =>
      cases read with
      | raises err => simp [readPems_fst, client, readSecret] at h
      | done | unreadable => exact ⟨rfl, by simp, data, rfl⟩

/-- The store that a whole system works on, if it has one, mirrors the record. -/
def State.Mirrored (app : App) (st : State) : Prop :=
  ∀ cfg, app.handler = some cfg → Mirrors cfg st.kv

theorem step_mirrored (h : st.Mirrored app) (event : Event) :
    (step dumps loads x509 tzdata app st event).Mirrored app := by
  intro cfg handler
  have before := h cfg handler
  cases event with
  | store req now auth write =>
    simp only [step, acmeDeploy, handler]
    split <;> exact before.storeCert
  | route domain targets now auth read write =>
    simp only [step, patchCertTargets, handler]
    split
    · exact before
    · split <;> exact before.updateCertTargets
  | deploy domain req pemRead routingRead now outcome =>
    have asked := deploy_kv loads tzdata app domain req pemRead routingRead now outcome st
    refine Mirrors.congr ?_ asked.secrets fun domain' => by rw [step, asked.log]
    split
    · exact before.congr rfl fun domain' => by simp [Kv.record, lastWrite_append, Entry.writes]
    · exact before
  | login | restart => exact before.congr rfl fun _ => rfl

theorem pemsFor_of_missing {req : DeployRequest} {read : ReadOutcome}
    (missing : req.fullchainPem = none ∨ req.privkeyPem = none) (handler : app.handler = some cfg) :
    pemsFor app domain req read kv = readPems cfg domain read kv := by
  unfold pemsFor
  split
  · grind
  · simp [handler]

theorem intact_step_iff (h : st.Mirrored app) (event : Event) :
    Intact loads tzdata app st event ↔ ReadsStored app st event := by
  cases event with
  | store _ _ _ _ | route _ _ _ _ _ _ | login | restart => exact Iff.rfl
  | deploy domain req pemRead routingRead now outcome =>
    simp only [Intact, deploy_hands_iff, ReadsStored]
    constructor
    · intro intact managed handled client missing returns entry last
      obtain ⟨cfg, handler⟩ := Option.isSome_iff_exists.mp handled
      have reflects := h cfg handler domain
      rw [last] at reflects
      obtain ⟨data, present, leaves⟩ := reflects
      have read := readPems_eq client returns present
      rw [← pemsFor_of_missing missing handler] at read
      have notGiven : ∀ f p : Json, ¬ (req.fullchainPem.map .string = some f ∧
          req.privkeyPem.map .string = some p) := by
        rintro f p ⟨hf, hp⟩
        rcases missing with missing | missing <;> simp [missing] at hf hp
      obtain ⟨mem, writes⟩ := mem_of_lastWrite last
      obtain ⟨f, p, stored, nonempty⟩ := (intact _ _ ⟨managed, read⟩).resolve_left (notGiven _ _)
      cases entry with
      | stored domain' f' p' =>
        obtain rfl : domain' = domain := by simpa [Entry.writes] using writes
        simp only [leaves.1, leaves.2, Option.getD_some, Json.string.injEq] at nonempty
        exact ⟨f', p', rfl, by grind, by grind⟩
      | routed domain' targets =>
        simp only [leaves.1, leaves.2, Option.getD_none, Json.string.injEq] at nonempty
        exact absurd nonempty.2.2.1.symm nonempty.1
      | handed domain' f' p' => exact leaves.elim
    · rintro stores f p ⟨managed, found⟩
      by_cases missing : req.fullchainPem = none ∨ req.privkeyPem = none
      · right
        cases handler : app.handler with
        | none =>
          rcases missing with missing | missing <;> simp [pemsFor, missing, handler] at found
        | some cfg =>
          rw [pemsFor_of_missing missing handler] at found
          obtain ⟨client, returns, data, present⟩ := readPems_ok found
          have reflects := h cfg handler domain
          rw [present] at reflects
          cases last : lastWrite st.kv.log domain with
          | none => simp [last, Reflects] at reflects
          | some entry =>
            obtain ⟨f', p', rfl, hf, hp⟩ :=
              stores managed (by simp [handler]) client missing returns entry last
            rw [last] at reflects
            obtain ⟨data', same, leaves⟩ := reflects
            obtain rfl := Option.some.inj same
            rw [readPems_eq client returns present, leaves.1, leaves.2] at found
            obtain ⟨rfl, rfl⟩ : Json.string f' = f ∧ Json.string p' = p := by simpa using found
            exact ⟨f', p', (mem_of_lastWrite last).1, hf, hp, rfl, rfl⟩
      · left
        obtain ⟨f', hf⟩ := Option.ne_none_iff_exists'.mp (fun h => missing (Or.inl h))
        obtain ⟨p', hp⟩ := Option.ne_none_iff_exists'.mp (fun h => missing (Or.inr h))
        simpa [pemsFor, hf, hp] using found

theorem intact_iff (dumps : Json → String) (loads : String → Option Json)
    (x509 : String → Option (String × String)) (tzdata : String → Option Zone) (app : App)
    (es : List Event) :
    EveryStep (step dumps loads x509 tzdata app) (Intact loads tzdata app) State.initial es ↔
      EveryStep (step dumps loads x509 tzdata app) (ReadsStored app) State.initial es := by
  have start : State.initial.Mirrored app := fun _ _ _ => rfl
  exact everyStep_congr_of_invariant (I := State.Mirrored app)
    (fun _ event h => step_mirrored h event) (fun _ event h => intact_step_iff h event) start es

set_option maxRecDepth 3000 in
/-- A certificate is stored, its routing is set, and what is left to deploy is empty. -/
theorem deploys_empty : ¬ EveryStep
    (step exampleDumps exampleLoads (fun _ => none) onlyUtc
      ⟨some {}, some (.init [⟨"f5", .f5, none⟩])⟩)
    (Intact exampleLoads onlyUtc ⟨some {}, some (.init [⟨"f5", .f5, none⟩])⟩) State.initial
    [.store ⟨"example.com", "CERT", none, "CHAIN", "KEY"⟩ 0 (.ok ()) .done,
      .route "example.com" ["f5"] 0 (.ok ()) .done .done,
      .deploy "example.com" {} .done .done 0 fun _ => .error ""] := by
  intro intact
  have pair := intact [_, _] (.deploy "example.com" {} .done .done 0 fun _ => .error "") [] rfl
    (.string "") (.string "") (deploy_hands_iff.mpr ⟨rfl, rfl⟩)
  rcases pair with ⟨given, -⟩ | ⟨f, p, -, hf, -, same, -⟩
  · simp at given
  · exact hf (Json.string.inj same).symm

end AcmeGitWebhook.Vault
