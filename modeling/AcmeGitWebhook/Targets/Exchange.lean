import AcmeGitWebhook.Library.PowerShell
import AcmeGitWebhook.Targets.F5
import AcmeGitWebhook.Targets.Manager

/-!
# The Exchange target

`ExchangeTarget.deploy` of `app/targets/exchange.py`: three PowerShell scripts are sent one after
the other, of which the first stages the certificate with its private key in a file and the last
removes that file. How each call ends is given with the call, and a deployment returns the scripts
it has sent beside its result.

## Main results

* `domainInert_iff`: for which paths the scripts contain the domain as text only.
* `removesPfx_iff`: in which runs the staged file is removed.
-/

namespace AcmeGitWebhook.Exchange

open Library Library.PowerShell Targets

/-- The fields of the configuration that the scripts and the result are made of. -/
structure ExchangeTargetConfig where
  name : String
  addr : String
  remotePath : String := "C:\\certs"
  services : String := "SMTP"

def isUrlSafe (c : Char) : Bool :=
  ('A' ≤ c && c ≤ 'Z') || ('a' ≤ c && c ≤ 'z') || ('0' ≤ c && c ≤ '9') || c = '-' || c = '_'

/-- What `pem_to_pfx` returns; the password comes from `secrets.token_urlsafe`. -/
structure Pfx where
  bytes : List UInt8
  password : String
  urlSafe : ∀ c ∈ password.toList, isUrlSafe c = true

/-- How `session.run_ps` ends. Decoding the error output may raise itself. -/
inductive Response where
  | returned (statusCode : Int) (stdErr : Except String String)
  | raised (text : String)

/-- How the calls of a deployment end, and whether the upload script has written the file. -/
structure Calls where
  winrm : Except String Unit := .ok ()
  pemToPfx : String → String → Except String Pfx
  upload : Response := .returned 0 (.ok "")
  written : Bool := true
  importing : Response := .returned 0 (.ok "")
  cleanup : Response := .returned 0 (.ok "")

/-- The text of the exception that a response leads to, if it is checked. -/
def Response.failure (what : String) : Response → Option String
  | .raised text => some text
  | .returned statusCode stdErr =>
    if statusCode = 0 then none
    else
      match stdErr with
      | .ok stdErr => some (what ++ stdErr)
      | .error text => some text

/-! ## The scripts -/

def remoteFile (cfg : ExchangeTargetConfig) (domain : String) : String :=
  cfg.remotePath ++ "\\" ++ domain ++ ".pfx"

def inQuotes (text : String) : String := "\"" ++ text ++ "\""

def uploadScript (pfxB64 remoteFile : String) : String :=
  "$bytes = [Convert]::FromBase64String(" ++ inQuotes pfxB64 ++ "); [IO.File]::WriteAllBytes(" ++
    inQuotes remoteFile ++ ", $bytes)"

def importScript (password remoteFile services : String) : String :=
  "$pwd = ConvertTo-SecureString " ++ inQuotes password ++ " -AsPlainText -Force; " ++
    "$cert = Import-ExchangeCertificate -FileName " ++ inQuotes remoteFile ++
    (" " ++ "-Password $pwd; " ++ "Enable-ExchangeCertificate -Thumbprint $cert.Thumbprint " ++
      "-Services " ++ services)

def cleanupScript (remoteFile : String) : String :=
  "Remove-Item -Path " ++ inQuotes remoteFile ++ " -Force -ErrorAction SilentlyContinue"

/-! ## The deployment -/

/-- The `try` block, and the scripts it has sent. -/
def attempt (cfg : ExchangeTargetConfig) (domain fullchainPem privkeyPem : String)
    (calls : Calls) : Except String Unit × List String :=
  match calls.winrm with
  | .error text => (.error text, [])
  | .ok () =>
    match calls.pemToPfx fullchainPem privkeyPem with
    | .error text => (.error text, [])
    | .ok pfx =>
      let file := remoteFile cfg domain
      let upload := uploadScript (String.ofList (Python.b64encode pfx.bytes)) file
      match calls.upload.failure "WinRM upload failed: " with
      | some text => (.error text, [upload])
      | none =>
        let importing := importScript pfx.password file cfg.services
        match calls.importing.failure "WinRM import/enable failed: " with
        | some text => (.error text, [upload, importing])
        | none =>
          -- the status of the removal is not looked at
          match calls.cleanup with
          | .raised text => (.error text, [upload, importing, cleanupScript file])
          | .returned _ _ => (.ok (), [upload, importing, cleanupScript file])

def deploy (cfg : ExchangeTargetConfig) (domain fullchainPem privkeyPem : String) (calls : Calls) :
    DeployResult × List String :=
  match attempt cfg domain fullchainPem privkeyPem calls with
  | (.ok (), sent) =>
    (⟨cfg.name, Provider.exchange.text, .ok, [("host", cfg.addr), ("services", cfg.services),
      ("remote_path", remoteFile cfg domain)], none⟩, sent)
  | (.error text, sent) => (⟨cfg.name, Provider.exchange.text, .error, [], some text⟩, sent)

variable {cfg : ExchangeTargetConfig} {domain fullchainPem privkeyPem : String} {calls : Calls}
  {pfx : Pfx} {before after script text : String}

theorem deploy_sent :
    (deploy cfg domain fullchainPem privkeyPem calls).2 =
      (attempt cfg domain fullchainPem privkeyPem calls).2 := by
  unfold deploy
  rcases attempt cfg domain fullchainPem privkeyPem calls with ⟨_ | _, sent⟩ <;> rfl

def Response.Succeeds (response : Response) : Prop := ∃ stdErr, response = .returned 0 stdErr

theorem Response.failure_eq_none {response : Response} (what : String) :
    response.failure what = none ↔ response.Succeeds := by
  unfold Response.failure Succeeds
  rcases response with ⟨statusCode, stdErr⟩ | text
  · by_cases zero : statusCode = 0
    · simp [zero]
    · cases stdErr <;> simp [zero]
  · simp

/-- The three scripts of a deployment that gets to its end. -/
def scripts (cfg : ExchangeTargetConfig) (domain : String) (pfx : Pfx) : List String :=
  [uploadScript (String.ofList (Python.b64encode pfx.bytes)) (remoteFile cfg domain),
    importScript pfx.password (remoteFile cfg domain) cfg.services,
    cleanupScript (remoteFile cfg domain)]

theorem attempt_started
    (sent : script ∈ (attempt cfg domain fullchainPem privkeyPem calls).2) :
    calls.winrm = .ok () ∧ ∃ pfx, calls.pemToPfx fullchainPem privkeyPem = .ok pfx := by
  cases login : calls.winrm with
  | error text => simp [attempt, login] at sent
  | ok =>
    cases made : calls.pemToPfx fullchainPem privkeyPem with
    | error text => simp [attempt, login, made] at sent
    | ok pfx => exact ⟨rfl, pfx, rfl⟩

/-- The scripts are sent up to the first of them that fails. -/
theorem attempt_sent (cfg : ExchangeTargetConfig) (domain : String)
    (login : calls.winrm = .ok ())
    (made : calls.pemToPfx fullchainPem privkeyPem = .ok pfx) :
    (¬ calls.upload.Succeeds ∧
      (attempt cfg domain fullchainPem privkeyPem calls).2 = (scripts cfg domain pfx).take 1) ∨
    (calls.upload.Succeeds ∧ ¬ calls.importing.Succeeds ∧
      (attempt cfg domain fullchainPem privkeyPem calls).2 = (scripts cfg domain pfx).take 2) ∨
    (calls.upload.Succeeds ∧ calls.importing.Succeeds ∧
      (attempt cfg domain fullchainPem privkeyPem calls).2 = scripts cfg domain pfx) := by
  rw [← Response.failure_eq_none "WinRM upload failed: ",
    ← Response.failure_eq_none "WinRM import/enable failed: "]
  simp only [attempt, login, made]
  cases calls.upload.failure "WinRM upload failed: " with
  | some text => exact .inl ⟨by simp, rfl⟩
  | none =>
    cases calls.importing.failure "WinRM import/enable failed: " with
    | some text => exact .inr (.inl ⟨rfl, by simp, rfl⟩)
    | none => cases calls.cleanup <;> exact .inr (.inr ⟨rfl, rfl, rfl⟩)

theorem attempt_scripts
    (sent : script ∈ (attempt cfg domain fullchainPem privkeyPem calls).2) :
    ∃ pfx, calls.pemToPfx fullchainPem privkeyPem = .ok pfx ∧ script ∈ scripts cfg domain pfx := by
  obtain ⟨login, pfx, made⟩ := attempt_started sent
  refine ⟨pfx, made, ?_⟩
  rcases attempt_sent cfg domain login made with
    ⟨-, eq⟩ | ⟨-, -, eq⟩ | ⟨-, -, eq⟩
  · exact List.mem_of_mem_take (eq ▸ sent)
  · exact List.mem_of_mem_take (eq ▸ sent)
  · exact eq ▸ sent

/-! ## The domain in the scripts -/

/-- The script is the author's text around a string in double quotes, which is opened there, reads
as the path without an expansion, and is closed where the author has closed it. -/
structure KeepsPath (before path after script : String) : Prop where
  text : script = before ++ inQuotes path ++ after
  opened : Code before.toList
  literal : readLiteral (path.toList ++ doubleQuote :: after.toList) =
    some (path.toList, after.toList)

/-- What the author has written before and after the path in each of the scripts. -/
inductive Frame (cfg : ExchangeTargetConfig) (pfx : Pfx) : String → String → Prop
  | upload : Frame cfg pfx ("$bytes = [Convert]::FromBase64String(" ++
      inQuotes (String.ofList (Python.b64encode pfx.bytes)) ++ "); [IO.File]::WriteAllBytes(")
      ", $bytes)"
  | importing : Frame cfg pfx ("$pwd = ConvertTo-SecureString " ++ inQuotes pfx.password ++
      " -AsPlainText -Force; " ++ "$cert = Import-ExchangeCertificate -FileName ")
      (" " ++ "-Password $pwd; " ++ "Enable-ExchangeCertificate -Thumbprint $cert.Thumbprint " ++
        "-Services " ++ cfg.services)
  | cleanup : Frame cfg pfx "Remove-Item -Path " " -Force -ErrorAction SilentlyContinue"

/-- Every script that a deployment sends contains the domain as text of the path only. -/
def DomainInert (cfg : ExchangeTargetConfig) (domain : String) : Prop :=
  ∀ fullchainPem privkeyPem calls,
    ∀ script ∈ (deploy cfg domain fullchainPem privkeyPem calls).2,
      ∃ pfx before after, calls.pemToPfx fullchainPem privkeyPem = .ok pfx ∧
        Frame cfg pfx before after ∧ KeepsPath before (remoteFile cfg domain) after script

theorem isUrlSafe_plain {c : Char} (safe : isUrlSafe c = true) : special c = false :=
  plain_of_holds safe (by decide)

theorem b64encode_plain (bytes : List UInt8) (c : Char) (mem : c ∈ Python.b64encode bytes) :
    special c = false :=
  plain_of_all (by decide) c (Base64.mem_alphabet_of_mem_encode mem)

theorem inQuotes_toList (text : String) :
    (inQuotes text).toList = doubleQuote :: (text.toList ++ [doubleQuote]) := by
  simp [inQuotes, doubleQuote]

theorem code_quoted (head tail : String) (chars : head.toList.all codeChar = true)
    (plain : ∀ c ∈ text.toList, special c = false)
    {c : Char} (first : tail.toList.head? = some c) (other : isDoubleQuote c = false)
    (rest : tail.toList.all codeChar = true) :
    Code (head ++ inQuotes text ++ tail).toList := by
  have tail' : Code tail.toList := by simpa using code_append (List.all_eq_true.mp rest) .nil
  have string := code_string plain (closes_of_head first other) tail'
  simpa [inQuotes_toList] using code_append (List.all_eq_true.mp chars) string

/-- The author's text leaves the path to stand in a string of its own. -/
theorem Frame.opened (frame : Frame cfg pfx before after) : Code before.toList := by
  cases frame with
  | upload =>
    exact code_quoted _ _ (by decide +kernel) (by simpa using b64encode_plain pfx.bytes)
      (c := ')') (by decide +kernel) (by decide) (by decide +kernel)
  | importing =>
    have code := code_quoted "$pwd = ConvertTo-SecureString "
      " -AsPlainText -Force; $cert = Import-ExchangeCertificate -FileName "
      (by decide +kernel) (fun c mem => isUrlSafe_plain (pfx.urlSafe c mem))
      (c := ' ') (by decide +kernel) (by decide) (by decide +kernel)
    simpa [String.append_assoc] using code
  | cleanup => simpa using code_append (List.all_eq_true.mp (by decide +kernel)) Code.nil

theorem Frame.closes (frame : Frame cfg pfx before after) :
    ∀ c ∈ after.toList.head?, isDoubleQuote c = false := by
  cases frame with
  | upload => exact closes_of_head (c := ',') (by decide +kernel) (by decide)
  | cleanup => exact closes_of_head (c := ' ') (by decide +kernel) (by decide)
  | importing => simp [isDoubleQuote]

theorem Frame.keepsPath_iff (frame : Frame cfg pfx before after) :
    KeepsPath before text after (before ++ inQuotes text ++ after) ↔
      ∀ c ∈ text.toList, special c = false :=
  ⟨fun keeps => (readLiteral_eq_self_iff frame.closes).mp keeps.literal,
    fun plain => ⟨rfl, frame.opened, (readLiteral_eq_self_iff frame.closes).mpr plain⟩⟩

/-- Whatever a call returns, a script that is sent is the author's text around the path. -/
theorem attempt_frame (sent : script ∈ (attempt cfg domain fullchainPem privkeyPem calls).2) :
    ∃ pfx before after, calls.pemToPfx fullchainPem privkeyPem = .ok pfx ∧
      Frame cfg pfx before after ∧
      script = before ++ inQuotes (remoteFile cfg domain) ++ after := by
  obtain ⟨pfx, made, script⟩ := attempt_scripts sent
  simp only [scripts, List.mem_cons, List.not_mem_nil, or_false] at script
  rcases script with rfl | rfl | rfl
  · exact ⟨pfx, _, _, made, .upload, rfl⟩
  · exact ⟨pfx, _, _, made, .importing, rfl⟩
  · exact ⟨pfx, _, _, made, .cleanup, rfl⟩

def anyPfx : Pfx := ⟨[77, 97, 110], "s3cret", List.all_eq_true.mp (by decide)⟩

theorem remoteFile_plain : (∀ c ∈ (remoteFile cfg domain).toList, special c = false) ↔
    ∀ c ∈ cfg.remotePath.toList ++ domain.toList, special c = false := by
  have literal : ∀ c ∈ '\\' :: ".pfx".toList, special c = false := plain_of_all (by decide +kernel)
  simp [remoteFile, or_imp, forall_and] at literal ⊢
  tauto

/-- The domain is inert exactly when neither it nor the configured path has one of the characters
that mean something in a string: a dollar sign, a backtick or a double quote. -/
theorem domainInert_iff (cfg : ExchangeTargetConfig) (domain : String) :
    DomainInert cfg domain ↔
      ∀ c ∈ cfg.remotePath.toList ++ domain.toList, special c = false := by
  rw [← remoteFile_plain]
  constructor
  · intro inert
    -- a deployment in which all goes well, with any file, sends a script with the path
    obtain ⟨_, _, _, -, frame, keeps⟩ := inert "" ""
      { pemToPfx := fun _ _ => .ok anyPfx }
      (cleanupScript (remoteFile cfg domain)) (by simp [deploy, attempt, Response.failure])
    exact (readLiteral_eq_self_iff frame.closes).mp keeps.literal
  · intro plain fullchainPem privkeyPem calls script sent
    rw [deploy_sent] at sent
    obtain ⟨pfx, before, after, made, frame, rfl⟩ := attempt_frame sent
    exact ⟨pfx, before, after, made, frame, frame.keepsPath_iff.mpr plain⟩

theorem expands_domain : F5.Accepted "mail.example.com$(Restart-Computer)" ∧
    ¬ DomainInert ⟨"mail", "exchange.example.com", "C:\\certs", "SMTP"⟩
      "mail.example.com$(Restart-Computer)" := by
  refine ⟨by decide, fun inert => ?_⟩
  obtain ⟨_, _, _, -, -, keeps⟩ := inert "CERT" "KEY"
    { pemToPfx := fun _ _ => .ok anyPfx }
    (cleanupScript "C:\\certs\\mail.example.com$(Restart-Computer).pfx")
    (by simp [deploy, attempt, Response.failure, remoteFile])
  have := plain_of_readLiteral keeps.literal '$' (by decide +kernel)
  simp [special] at this

/-! ## The staged file -/

/-- The upload script is sent, and writes the file with the private key. -/
def WritesPfx (cfg : ExchangeTargetConfig) (domain fullchainPem privkeyPem : String)
    (calls : Calls) : Prop :=
  calls.written = true ∧ ∃ pfx, calls.pemToPfx fullchainPem privkeyPem = .ok pfx ∧
    uploadScript (String.ofList (Python.b64encode pfx.bytes)) (remoteFile cfg domain) ∈
      (deploy cfg domain fullchainPem privkeyPem calls).2

/-- The run sends the removal script for the file that it has written. -/
def RemovesPfx (cfg : ExchangeTargetConfig) (domain fullchainPem privkeyPem : String)
    (calls : Calls) : Prop :=
  WritesPfx cfg domain fullchainPem privkeyPem calls →
    cleanupScript (remoteFile cfg domain) ∈ (deploy cfg domain fullchainPem privkeyPem calls).2

theorem head_append {text : String} {c : Char} (head : text.toList.head? = some c)
    (rest : String) : (text ++ rest).toList.head? = some c := by
  rw [String.toList_append, List.head?_append, head]
  rfl

theorem cleanupScript_head (file : String) : (cleanupScript file).toList.head? = some 'R' :=
  head_append (head_append (by decide +kernel) _) _

theorem uploadScript_head (bytes file : String) :
    (uploadScript bytes file).toList.head? = some '$' :=
  head_append (head_append (head_append (head_append (by decide +kernel) _) _) _) _

theorem importScript_head (password file services : String) :
    (importScript password file services).toList.head? = some '$' :=
  head_append (head_append (head_append (head_append (head_append (by decide +kernel) _) _) _) _) _

theorem cleanupScript_ne_upload (bytes file other : String) :
    cleanupScript file ≠ uploadScript bytes other := by
  intro same
  have head := cleanupScript_head file
  rw [same, uploadScript_head] at head
  exact absurd head (by decide)

theorem cleanupScript_ne_import (password file other services : String) :
    cleanupScript file ≠ importScript password other services := by
  intro same
  have head := cleanupScript_head file
  rw [same, importScript_head] at head
  exact absurd head (by decide)

theorem attempt_cleanup_iff (login : calls.winrm = .ok ())
    (made : calls.pemToPfx fullchainPem privkeyPem = .ok pfx) :
    cleanupScript (remoteFile cfg domain) ∈ (attempt cfg domain fullchainPem privkeyPem calls).2 ↔
      calls.upload.Succeeds ∧ calls.importing.Succeeds := by
  rcases attempt_sent cfg domain login made with
    ⟨upload, eq⟩ | ⟨upload, importing, eq⟩ | ⟨upload, importing, eq⟩
  · simp [eq, scripts, upload, cleanupScript_ne_upload]
  · simp [eq, scripts, importing, cleanupScript_ne_upload, cleanupScript_ne_import]
  · simp [eq, scripts, upload, importing]

theorem writesPfx_iff : WritesPfx cfg domain fullchainPem privkeyPem calls ↔
    calls.winrm = .ok () ∧ (∃ pfx, calls.pemToPfx fullchainPem privkeyPem = .ok pfx) ∧
      calls.written = true := by
  rw [WritesPfx, deploy_sent]
  constructor
  · rintro ⟨written, pfx, -, sent⟩
    obtain ⟨login, made⟩ := attempt_started sent
    exact ⟨login, made, written⟩
  · rintro ⟨login, ⟨pfx, made⟩, written⟩
    refine ⟨written, pfx, made, ?_⟩
    rcases attempt_sent cfg domain login made with
      ⟨-, eq⟩ | ⟨-, -, eq⟩ | ⟨-, -, eq⟩ <;> simp [eq, scripts]

/-- The file is removed exactly when, once it is written, the upload and the import succeed: the
removal is the last statement of the block that an error leaves. -/
theorem removesPfx_iff (cfg : ExchangeTargetConfig) (domain fullchainPem privkeyPem : String)
    (calls : Calls) :
    RemovesPfx cfg domain fullchainPem privkeyPem calls ↔
      (calls.winrm = .ok () → (∃ pfx, calls.pemToPfx fullchainPem privkeyPem = .ok pfx) →
        calls.written = true → calls.upload.Succeeds ∧ calls.importing.Succeeds) := by
  rw [RemovesPfx, writesPfx_iff, deploy_sent]
  constructor
  · rintro removes login ⟨pfx, made⟩ written
    exact (attempt_cleanup_iff login made).mp (removes ⟨login, ⟨pfx, made⟩, written⟩)
  · rintro succeeds ⟨login, ⟨pfx, made⟩, written⟩
    exact (attempt_cleanup_iff login made).mpr (succeeds login ⟨pfx, made⟩ written)

/-- The import fails, as the tests let it. -/
theorem leaves_pfx : ¬ RemovesPfx ⟨"mail", "exchange.example.com", "C:\\certs", "SMTP"⟩
    "mail.example.com" "CERT" "KEY"
    { pemToPfx := fun _ _ => .ok anyPfx, importing := .returned 1 (.ok "Command not found") } := by
  intro removes
  have sent := removes (writesPfx_iff.mpr ⟨rfl, ⟨anyPfx, rfl⟩, rfl⟩)
  rw [deploy_sent, attempt_cleanup_iff rfl rfl] at sent
  obtain ⟨-, _, failed⟩ := sent
  simp at failed

end AcmeGitWebhook.Exchange
