import AcmeGitWebhook.Library.Run
import AcmeGitWebhook.Targets.Scripts

/-!
# The Ivanti target

`IvantiTarget` of `app/targets/ivanti.py` and the appliance that it uploads to. The API key is read
from its file when the first client is made, and is kept from then on; closing the target gives up
the client only. How each call ends is given with the call. `run_uploads` says what the appliance
has taken after any run of deployments and closings.
-/

namespace AcmeGitWebhook.Targets

/-- A `DeployResult` with details of any type. -/
structure Result where
  target : String
  provider : String
  status : DeployStatus
  details : List (String × Json) := []
  error : Option String := none

end AcmeGitWebhook.Targets

namespace AcmeGitWebhook.Ivanti

open Library Targets Exchange

structure IvantiTargetConfig where
  name : String
  addr : String
  internalPorts : List String := []
  externalPorts : List String := []
  managementInterface : Bool := false

/-- The body of the upload. -/
structure Payload where
  cert : String
  password : String
  internalPorts : List String
  externalPorts : List String
  managementInterface : Bool
  deriving DecidableEq

/-- The target's `_api_key`, the key that its `_client` sends, and the uploads that the appliance
has taken, each with the key it came with. -/
structure State where
  apiKey : Option String := none
  client : Option String := none
  received : List (String × Payload) := []

/-- What stands at the path of the API key. -/
inductive KeyFile where
  | missing
  | unreadable (text : String)
  | holds (text : String)

/-- How the upload ends: it is taken, is refused, or raises after it was taken. -/
inductive Outcome where
  | done
  | rejected (text : String)
  | late (text : String)

/-- How the calls of a deployment end. -/
structure Calls where
  pemToPfx : String → String → Except String Pfx
  keyFile : KeyFile
  client : Except String Unit := .ok ()
  post : Outcome := .done

/-! ## The deployment -/

def readApiKey : KeyFile → Except String String
  | .missing => .error "Ivanti API key file not found"
  | .unreadable text => .error text
  | .holds text =>
    let key := String.ofList (Python.strip text.toList)
    if key = "" then .error "Ivanti API key file is empty" else .ok key

/-- The key that is sent. Making the client may raise after the key is read. -/
def ensureClient (calls : Calls) (st : State) : Except String String × State :=
  match st.client with
  | some key => (.ok key, st)
  | none =>
    let read : Except String String :=
      match st.apiKey with
      | some key => .ok key
      | none => readApiKey calls.keyFile
    match read with
    | .error text => (.error text, st)
    | .ok key =>
      let st := { st with apiKey := some key }
      match calls.client with
      | .error text => (.error text, st)
      | .ok () => (.ok key, { st with client := some key })

def payload (cfg : IvantiTargetConfig) (pfx : Pfx) : Payload :=
  ⟨String.ofList (Python.b64encode pfx.bytes), pfx.password, cfg.internalPorts, cfg.externalPorts,
    cfg.managementInterface⟩

/-- The POST, and `raise_for_status`. -/
def upload (key : String) (body : Payload) (post : Outcome) (st : State) :
    Except String Unit × State :=
  let taken := { st with received := st.received ++ [(key, body)] }
  match post with
  | .done => (.ok (), taken)
  | .rejected text => (.error text, st)
  | .late text => (.error text, taken)

/-- The `try` block. -/
def attempt (cfg : IvantiTargetConfig) (fullchainPem privkeyPem : String) (calls : Calls)
    (st : State) : Except String Unit × State :=
  match calls.pemToPfx fullchainPem privkeyPem with
  | .error text => (.error text, st)
  | .ok pfx =>
    match ensureClient calls st with
    | (.error text, st) => (.error text, st)
    | (.ok key, st) => upload key (payload cfg pfx) calls.post st

def deploy (cfg : IvantiTargetConfig) (fullchainPem privkeyPem : String) (calls : Calls)
    (st : State) : Result × State :=
  match attempt cfg fullchainPem privkeyPem calls st with
  | (.ok (), st) =>
    (⟨cfg.name, Provider.ivanti.text, .ok, [("host", .string cfg.addr),
      ("internal_ports", .array (cfg.internalPorts.map .string)),
      ("external_ports", .array (cfg.externalPorts.map .string))], none⟩, st)
  | (.error text, st) => (⟨cfg.name, Provider.ivanti.text, .error, [], some text⟩, st)

def close (st : State) : State := { st with client := none }

inductive Event where
  | deploy (fullchainPem privkeyPem : String) (calls : Calls)
  | close

def step (cfg : IvantiTargetConfig) (st : State) : Event → State
  | .deploy fullchainPem privkeyPem calls => (deploy cfg fullchainPem privkeyPem calls st).2
  | .close => close st

/-! ## What a step does -/

variable {cfg : IvantiTargetConfig} {fullchainPem privkeyPem key : String} {calls : Calls}
  {st : State} {es : List Event}

/-- The client sends the key that is kept, and that key came with every upload. -/
structure Keyed (st : State) : Prop where
  client : ∀ key, st.client = some key → st.apiKey = some key
  received : ∀ up ∈ st.received, st.apiKey = some up.1

/-- A key that is kept stays; another one is kept only when none was, and comes from the file. -/
structure KeepsKey (file : KeyFile) (st st' : State) : Prop where
  kept : ∀ key, st.apiKey = some key → st'.apiKey = some key
  read : ∀ key, st'.apiKey = some key → st.apiKey = some key ∨ readApiKey file = .ok key

theorem KeepsKey.of_eq {file : KeyFile} {st' : State} (same : st'.apiKey = st.apiKey) :
    KeepsKey file st st' :=
  ⟨fun _ kept => same ▸ kept, fun _ kept => .inl (same ▸ kept)⟩

/-- Making sure of the client uploads nothing, and the key it answers with is the one kept. -/
structure Ensured (calls : Calls) (st : State) (answer : Except String String) (st' : State) :
    Prop where
  received : st'.received = st.received
  keeps : KeepsKey calls.keyFile st st'
  client : ∀ key, st'.client = some key → st'.apiKey = some key
  sends : ∀ key, answer = .ok key → st'.apiKey = some key

theorem ensureClient_ensured (calls : Calls) (keyed : Keyed st) :
    Ensured calls st (ensureClient calls st).1 (ensureClient calls st).2 := by
  unfold ensureClient
  cases sent : st.client with
  | some key =>
    exact ⟨rfl, .of_eq rfl, keyed.client, by rintro _ ⟨⟩; exact keyed.client key sent⟩
  | none =>
    have absent : ∀ key, st.client = some key → st.apiKey = some key := keyed.client
    cases kept : st.apiKey with
    | some key =>
      cases made : calls.client with
      | error text => exact ⟨rfl, .of_eq kept.symm, by simp, by simp⟩
      | ok => exact ⟨rfl, .of_eq kept.symm, by simp, by simp⟩
    | none =>
      cases found : readApiKey calls.keyFile with
      | error text => exact ⟨rfl, .of_eq rfl, absent, by simp⟩
      | ok key =>
        cases made : calls.client with
        | error text => exact ⟨rfl, ⟨by simp [kept], by simp [found]⟩, by simp, by simp⟩
        | ok => exact ⟨rfl, ⟨by simp [kept], by simp [found]⟩, by simp, by simp⟩

/-- An upload of the certificate made of the pair, with the key that is kept. -/
structure Uploaded (cfg : IvantiTargetConfig) (fullchainPem privkeyPem : String) (calls : Calls)
    (st st' : State) : Prop where
  added : ∃ pfx key, calls.pemToPfx fullchainPem privkeyPem = .ok pfx ∧ st'.apiKey = some key ∧
    st'.received = st.received ++ [(key, payload cfg pfx)]

/-- A deployment adds at most one upload, and adds one if it answers `ok`. -/
structure Deployed (cfg : IvantiTargetConfig) (fullchainPem privkeyPem : String) (calls : Calls)
    (st : State) (answer : Result × State) : Prop where
  keeps : KeepsKey calls.keyFile st answer.2
  client : ∀ key, answer.2.client = some key → answer.2.apiKey = some key
  received : answer.2.received = st.received ∨
    Uploaded cfg fullchainPem privkeyPem calls st answer.2
  ok : answer.1.status = .ok → Uploaded cfg fullchainPem privkeyPem calls st answer.2

theorem deploy_deployed (cfg : IvantiTargetConfig) (fullchainPem privkeyPem : String)
    (calls : Calls) (keyed : Keyed st) :
    Deployed cfg fullchainPem privkeyPem calls st
      (deploy cfg fullchainPem privkeyPem calls st) := by
  unfold deploy attempt
  cases made : calls.pemToPfx fullchainPem privkeyPem with
  | error text => exact ⟨.of_eq rfl, keyed.client, .inl rfl, by simp⟩
  | ok pfx =>
    have ensured := ensureClient_ensured calls keyed
    generalize ensureClient calls st = answer at ensured ⊢
    obtain ⟨text | key, st'⟩ := answer
    · exact ⟨ensured.keeps, ensured.client, .inl ensured.received, by simp⟩
    · obtain ⟨received, keeps, client, sends⟩ := ensured
      have uploaded : Uploaded cfg fullchainPem privkeyPem calls st
          { st' with received := st'.received ++ [(key, payload cfg pfx)] } :=
        ⟨pfx, key, made, sends key rfl, by simp [show st'.received = st.received from received]⟩
      have keeps' : KeepsKey calls.keyFile st
          { st' with received := st'.received ++ [(key, payload cfg pfx)] } :=
        ⟨keeps.kept, keeps.read⟩
      cases post : calls.post with
      | done => exact ⟨keeps', client, .inr uploaded, fun _ => uploaded⟩
      | rejected text => exact ⟨keeps, client, .inl received, by simp [upload]⟩
      | late text => exact ⟨keeps', client, .inr uploaded, by simp [upload]⟩

/-! ## Runs -/

theorem step_keyed (keyed : Keyed st) (event : Event) : Keyed (step cfg st event) := by
  cases event with
  | close => exact ⟨by simp [step, close], keyed.received⟩
  | deploy fullchainPem privkeyPem calls =>
    obtain ⟨keeps, client, received, -⟩ :=
      deploy_deployed cfg fullchainPem privkeyPem calls keyed
    refine ⟨client, fun up mem => ?_⟩
    change up ∈ (deploy cfg fullchainPem privkeyPem calls st).2.received at mem
    rcases received with same | ⟨pfx, key, -, kept, added⟩
    · exact keeps.kept up.1 (keyed.received up (same ▸ mem))
    · rw [added] at mem
      rcases List.mem_append.mp mem with old | new
      · exact keeps.kept up.1 (keyed.received up old)
      · obtain rfl := List.mem_singleton.mp new
        exact kept

theorem run_keyed (cfg : IvantiTargetConfig) (es : List Event) : Keyed (run (step cfg) {} es) :=
  run_invariant (I := Keyed) (fun _ event keyed => step_keyed keyed event) ⟨by simp, by simp⟩ es

/-- The key is what some deployment of the run has found in the file, without blanks around it. -/
def ReadKey (es : List Event) (key : String) : Prop :=
  ∃ fullchainPem privkeyPem calls text, .deploy fullchainPem privkeyPem calls ∈ es ∧
    calls.keyFile = .holds text ∧ key = String.ofList (Python.strip text.toList) ∧ key ≠ ""

/-- The upload is of a certificate made of the pair of some deployment of the run, and its field
`cert` is Base64 of that certificate. -/
def Carries (cfg : IvantiTargetConfig) (es : List Event) (body : Payload) : Prop :=
  ∃ fullchainPem privkeyPem calls pfx, .deploy fullchainPem privkeyPem calls ∈ es ∧
    calls.pemToPfx fullchainPem privkeyPem = .ok pfx ∧ body = payload cfg pfx ∧
    Base64.decode body.cert.toList = some pfx.bytes

theorem readApiKey_ok {file : KeyFile} (read : readApiKey file = .ok key) :
    ∃ text, file = .holds text ∧ key = String.ofList (Python.strip text.toList) ∧ key ≠ "" := by
  cases file with
  | missing => cases read
  | unreadable text => cases read
  | holds text =>
    dsimp only [readApiKey] at read
    split_ifs at read with empty
    obtain rfl := Except.ok.inj read
    exact ⟨text, rfl, rfl, empty⟩

theorem run_readKey (cfg : IvantiTargetConfig) (es : List Event)
    (kept : (run (step cfg) {} es).apiKey = some key) : ReadKey es key := by
  induction es using List.reverseRecOn with
  | nil => cases kept
  | append_singleton es event ih =>
    have wider : ReadKey es key → ReadKey (es ++ [event]) key :=
      fun ⟨f, p, calls, text, mem, rest⟩ => ⟨f, p, calls, text, List.mem_append_left _ mem, rest⟩
    rw [run_concat] at kept
    cases event with
    | close => exact wider (ih kept)
    | deploy fullchainPem privkeyPem calls =>
      have deployed := deploy_deployed cfg fullchainPem privkeyPem calls (run_keyed cfg es)
      rcases deployed.keeps.read key kept with old | read
      · exact wider (ih old)
      · obtain ⟨text, holds, eq, nonempty⟩ := readApiKey_ok read
        exact ⟨fullchainPem, privkeyPem, calls, text, List.mem_append_right _ (by simp), holds, eq,
          nonempty⟩

theorem payload_decode (cfg : IvantiTargetConfig) (pfx : Pfx) :
    Base64.decode (payload cfg pfx).cert.toList = some pfx.bytes := by
  rw [payload, String.toList_ofList, Python.b64encode, Base64.decode_encode]

theorem run_carries (cfg : IvantiTargetConfig) (es : List Event) :
    ∀ up ∈ (run (step cfg) {} es).received, Carries cfg es up.2 := by
  induction es using List.reverseRecOn with
  | nil => simp
  | append_singleton es event ih =>
    have wider : ∀ body, Carries cfg es body → Carries cfg (es ++ [event]) body :=
      fun _ ⟨f, p, calls, pfx, mem, rest⟩ => ⟨f, p, calls, pfx, List.mem_append_left _ mem, rest⟩
    intro up mem
    rw [run_concat] at mem
    cases event with
    | close => exact wider up.2 (ih up mem)
    | deploy fullchainPem privkeyPem calls =>
      have deployed := deploy_deployed cfg fullchainPem privkeyPem calls (run_keyed cfg es)
      change up ∈ (deploy cfg fullchainPem privkeyPem calls _).2.received at mem
      rcases deployed.received with same | ⟨pfx, key, made, -, added⟩
      · exact wider up.2 (ih up (same ▸ mem))
      · rw [added] at mem
        rcases List.mem_append.mp mem with old | new
        · exact wider up.2 (ih up old)
        · obtain rfl := List.mem_singleton.mp new
          exact ⟨fullchainPem, privkeyPem, calls, pfx, List.mem_append_right _ (by simp), made, rfl,
            payload_decode cfg pfx⟩

/-- The deployments of a run that are answered `ok`. -/
def succeeded (cfg : IvantiTargetConfig) (st : State) : Event → Nat
  | .deploy fullchainPem privkeyPem calls =>
    if (deploy cfg fullchainPem privkeyPem calls st).1.status = .ok then 1 else 0
  | .close => 0

/-- What the appliance has taken after a run. -/
structure Uploads (cfg : IvantiTargetConfig) (es : List Event) (st : State) : Prop where
  oneKey : st.received ≠ [] → ∃ key, ReadKey es key ∧ ∀ up ∈ st.received, up.1 = key
  carries : ∀ up ∈ st.received, Carries cfg es up.2
  counted : tally (step cfg) (succeeded cfg) {} es ≤ st.received.length

theorem ensureClient_received (calls : Calls) (st : State) :
    (ensureClient calls st).2.received = st.received := by
  unfold ensureClient
  cases st.client with
  | some key => rfl
  | none =>
    cases st.apiKey with
    | some key => cases calls.client <;> rfl
    | none =>
      cases readApiKey calls.keyFile with
      | error text => rfl
      | ok key => cases calls.client <;> rfl

/-- A deployment adds the upload of the certificate made of the pair, or adds nothing and fails. -/
theorem attempt_received (cfg : IvantiTargetConfig) (fullchainPem privkeyPem : String)
    (calls : Calls) (st : State) :
    ((attempt cfg fullchainPem privkeyPem calls st).2.received = st.received ∧
        ∃ text, (attempt cfg fullchainPem privkeyPem calls st).1 = .error text) ∨
      ∃ pfx key, calls.pemToPfx fullchainPem privkeyPem = .ok pfx ∧
        (attempt cfg fullchainPem privkeyPem calls st).2.received =
          st.received ++ [(key, payload cfg pfx)] := by
  unfold attempt
  cases made : calls.pemToPfx fullchainPem privkeyPem with
  | error text => exact .inl ⟨rfl, text, rfl⟩
  | ok pfx =>
    have same := ensureClient_received calls st
    generalize ensureClient calls st = answer at same ⊢
    obtain ⟨text | key, st'⟩ := answer
    · exact .inl ⟨same, text, rfl⟩
    · have added : st'.received ++ [(key, payload cfg pfx)] =
          st.received ++ [(key, payload cfg pfx)] := congrArg (· ++ _) same
      cases calls.post with
      | done => exact .inr ⟨pfx, key, rfl, added⟩
      | rejected text => exact .inl ⟨same, text, rfl⟩
      | late text => exact .inr ⟨pfx, key, rfl, added⟩

/-- No deployment takes an upload back, and one that answers `ok` adds one. -/
theorem step_length (st : State) (event : Event) :
    st.received.length + succeeded cfg st event ≤ (step cfg st event).received.length := by
  cases event with
  | close => exact le_rfl
  | deploy fullchainPem privkeyPem calls =>
    have received := attempt_received cfg fullchainPem privkeyPem calls st
    rcases tried : attempt cfg fullchainPem privkeyPem calls st with ⟨text | ⟨⟩, st'⟩ <;>
      rw [tried] at received
    · have never : st.received.length ≤ st'.received.length := by
        rcases received with ⟨same, -⟩ | ⟨pfx, key, -, added⟩
        · exact (congrArg List.length same).ge
        · exact (List.prefix_append _ _).length_le.trans (congrArg List.length added).ge
      simpa [succeeded, step, deploy, tried] using never
    · rcases received with ⟨-, text, failed⟩ | ⟨pfx, key, -, added⟩
      · cases failed
      · simp [succeeded, step, deploy, tried, show st'.received = _ from added]

/-- All uploads of a run came with the one key that was read first, each is a certificate made of
the pair of a deployment, and every `ok` stands for one of them. -/
theorem run_uploads (cfg : IvantiTargetConfig) (es : List Event) :
    Uploads cfg es (run (step cfg) {} es) where
  oneKey some_upload := by
    obtain ⟨up, mem⟩ := List.exists_mem_of_ne_nil _ some_upload
    have keyed := (run_keyed cfg es).received
    refine ⟨up.1, run_readKey cfg es (keyed up mem), fun up' mem' => ?_⟩
    exact Option.some.inj ((keyed up' mem').symm.trans (keyed up mem))
  carries := run_carries cfg es
  counted := by simpa using tally_le (g := fun st : State => st.received.length) step_length {} es

end AcmeGitWebhook.Ivanti
