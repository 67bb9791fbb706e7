import AcmeGitWebhook.Targets.Exchange

/-!
# What the Exchange scripts say

The strings that PowerShell reads in the three scripts of a deployment, when neither the path nor
the domain has a character that means something in a string: the certificate file in Base64, the
path it is written to and imported from and removed at, and the password of the file.
-/

namespace AcmeGitWebhook.Exchange

open Library Library.PowerShell Targets

variable {cfg : ExchangeTargetConfig} {domain fullchainPem privkeyPem : String} {calls : Calls}
  {pfx : Pfx} {text text' : String}

theorem strings_quoted (head tail : String) (chars : head.toList.all codeChar = true)
    (plain : ∀ c ∈ text.toList, special c = false)
    (closes : ∀ c ∈ tail.toList.head?, isDoubleQuote c = false) :
    strings (head ++ inQuotes text ++ tail).toList =
      (strings tail.toList).map (text.toList :: ·) := by
  have read := strings_string plain closes
  simpa [inQuotes_toList] using (strings_append (List.all_eq_true.mp chars) _).trans read

/-- A script with one string. -/
theorem strings_one (head tail : String) (chars : head.toList.all codeChar = true)
    (plain : ∀ c ∈ text.toList, special c = false)
    (closes : ∀ c ∈ tail.toList.head?, isDoubleQuote c = false)
    (rest : tail.toList.all codeChar = true) :
    strings (head ++ inQuotes text ++ tail).toList = some [text.toList] := by
  rw [strings_quoted head tail chars plain closes, strings_code (List.all_eq_true.mp rest)]
  rfl

/-- A script with two strings. -/
theorem strings_two (head middle tail : String) (chars : head.toList.all codeChar = true)
    (plain : ∀ c ∈ text.toList, special c = false)
    (plain' : ∀ c ∈ text'.toList, special c = false)
    {c : Char} (first : middle.toList.head? = some c) (other : isDoubleQuote c = false)
    (between : middle.toList.all codeChar = true)
    (closes : ∀ c ∈ tail.toList.head?, isDoubleQuote c = false)
    (rest : tail.toList.all codeChar = true) :
    strings (head ++ inQuotes text ++ middle ++ inQuotes text' ++ tail).toList =
      some [text.toList, text'.toList] := by
  have head' : (middle ++ inQuotes text' ++ tail).toList.head? = some c :=
    head_append (head_append first _) _
  have grouped : head ++ inQuotes text ++ middle ++ inQuotes text' ++ tail =
      head ++ inQuotes text ++ (middle ++ inQuotes text' ++ tail) := by
    simp only [String.append_assoc]
  rw [grouped, strings_quoted head _ chars plain (closes_of_head head' other),
    strings_one middle tail between plain' closes rest]
  rfl

theorem b64_plain (bytes : List UInt8) :
    ∀ c ∈ (String.ofList (Python.b64encode bytes)).toList, special c = false := by
  simpa using b64encode_plain bytes

theorem upload_strings (bytes : List UInt8) (plain : ∀ c ∈ text.toList, special c = false) :
    strings (uploadScript (String.ofList (Python.b64encode bytes)) text).toList =
      some [Python.b64encode bytes, text.toList] := by
  have read := strings_two "$bytes = [Convert]::FromBase64String(" "); [IO.File]::WriteAllBytes("
    ", $bytes)" (by decide +kernel) (b64_plain bytes) plain (c := ')') (by decide +kernel)
    (by decide) (by decide +kernel) (closes_of_head (c := ',') (by decide +kernel) (by decide))
    (by decide +kernel)
  rw [String.toList_ofList] at read
  exact read

theorem regroup (a b c d e : String) : a ++ b ++ c ++ d ++ e = a ++ (b ++ c) ++ d ++ e := by
  simp only [String.append_assoc]

theorem import_strings (pfx : Pfx) {services : String}
    (plain : ∀ c ∈ text.toList, special c = false)
    (code : ∀ c ∈ services.toList, codeChar c = true) :
    strings (importScript pfx.password text services).toList =
      some [pfx.password.toList, text.toList] := by
  have author : (" " ++ "-Password $pwd; " ++
      "Enable-ExchangeCertificate -Thumbprint $cert.Thumbprint " ++ "-Services ").toList.all
        codeChar = true := by
    decide +kernel
  have read := strings_two "$pwd = ConvertTo-SecureString "
    (" -AsPlainText -Force; " ++ "$cert = Import-ExchangeCertificate -FileName ")
    (" " ++ "-Password $pwd; " ++ "Enable-ExchangeCertificate -Thumbprint $cert.Thumbprint " ++
      "-Services " ++ services)
    (by decide +kernel) (fun c mem => isUrlSafe_plain (pfx.urlSafe c mem)) plain (c := ' ')
    (by decide +kernel) (by decide) (by decide +kernel) (by simp [isDoubleQuote])
    (by rw [String.toList_append, List.all_append, author, List.all_eq_true.mpr code]; rfl)
  rw [← regroup] at read
  exact read

theorem cleanup_strings (plain : ∀ c ∈ text.toList, special c = false) :
    strings (cleanupScript text).toList = some [text.toList] := by
  have read := strings_one "Remove-Item -Path " " -Force -ErrorAction SilentlyContinue"
    (by decide +kernel) plain (closes_of_head (c := ' ') (by decide +kernel) (by decide))
    (by decide +kernel)
  exact read

/-- What the strings of the three scripts are to be: the certificate in Base64 and where to write
it, its password and where to import it from, and what to remove. -/
def meant (text : List Char) (pfx : Pfx) (file : String) : List (Option (List (List Char))) :=
  [some [text, file.toList], some [pfx.password.toList, file.toList], some [file.toList]]

/-- The strings of the scripts that a deployment sends are a start of what is meant, the first of
them the very bytes of the certificate; all of it is sent when the deployment answers `ok`. -/
structure SaysMeant (cfg : ExchangeTargetConfig) (domain : String) (pfx : Pfx)
    (answer : DeployResult × List String) : Prop where
  said : ∃ text, Base64.decode text = some pfx.bytes ∧
    answer.2.map (fun script => strings script.toList) <+: meant text pfx (remoteFile cfg domain)
  staged : answer.2 ≠ []
  ok : answer.1.status = .ok → answer.2.length = 3

theorem scripts_strings (pfx : Pfx)
    (plain : ∀ c ∈ cfg.remotePath.toList ++ domain.toList, special c = false)
    (services : ∀ c ∈ cfg.services.toList, codeChar c = true) :
    (scripts cfg domain pfx).map (fun script => strings script.toList) =
      meant (Python.b64encode pfx.bytes) pfx (remoteFile cfg domain) := by
  have path := remoteFile_plain.mpr plain
  simp only [scripts, meant, List.map_cons, List.map_nil, upload_strings pfx.bytes path,
    import_strings pfx path services, cleanup_strings path]

theorem deploy_ok_sent (login : calls.winrm = .ok ())
    (made : calls.pemToPfx fullchainPem privkeyPem = .ok pfx)
    (ok : (deploy cfg domain fullchainPem privkeyPem calls).1.status = .ok) :
    (deploy cfg domain fullchainPem privkeyPem calls).2 = scripts cfg domain pfx := by
  have answered : ∀ text, (attempt cfg domain fullchainPem privkeyPem calls).1 ≠ .error text := by
    intro text failed
    rcases tried : attempt cfg domain fullchainPem privkeyPem calls with ⟨_ | _, sent⟩ <;>
      simp_all [deploy]
  rw [deploy_sent]
  simp only [attempt, login, made] at answered ⊢
  cases upload : calls.upload.failure "WinRM upload failed: " with
  | some text => simp [upload] at answered
  | none =>
    cases importing : calls.importing.failure "WinRM import/enable failed: " with
    | some text => simp [upload, importing] at answered
    | none => cases calls.cleanup <;> rfl

theorem attempt_saysMeant (plain : ∀ c ∈ cfg.remotePath.toList ++ domain.toList, special c = false)
    (services : ∀ c ∈ cfg.services.toList, codeChar c = true) (login : calls.winrm = .ok ())
    (made : calls.pemToPfx fullchainPem privkeyPem = .ok pfx) :
    SaysMeant cfg domain pfx (deploy cfg domain fullchainPem privkeyPem calls) := by
  have whole := scripts_strings pfx plain services
  have sent := attempt_sent cfg domain login made
  refine ⟨⟨Python.b64encode pfx.bytes, Base64.decode_encode _, ?_⟩, ?_, fun ok => ?_⟩
  · rw [deploy_sent, ← whole]
    rcases sent with ⟨-, eq⟩ | ⟨-, -, eq⟩ | ⟨-, -, eq⟩
    · exact eq ▸ (List.take_prefix 1 _).map _
    · exact eq ▸ (List.take_prefix 2 _).map _
    · rw [eq]
  · rw [deploy_sent]
    rcases sent with ⟨-, eq⟩ | ⟨-, -, eq⟩ | ⟨-, -, eq⟩ <;> simp [eq, scripts]
  · rw [deploy_ok_sent login made ok]
    rfl

/-- The session with the host opens and a certificate file is made. -/
def Calls.Opens (calls : Calls) (fullchainPem privkeyPem : String) (pfx : Pfx) : Prop :=
  calls.winrm = .ok () ∧ calls.pemToPfx fullchainPem privkeyPem = .ok pfx

/-- Without a session or a certificate file, Exchange is told nothing. -/
theorem deploy_silent (closed : ∀ pfx, ¬ calls.Opens fullchainPem privkeyPem pfx) :
    (deploy cfg domain fullchainPem privkeyPem calls).1.status = .error ∧
      (deploy cfg domain fullchainPem privkeyPem calls).2 = [] := by
  cases login : calls.winrm with
  | error text => simp [deploy, attempt, login]
  | ok =>
    cases made : calls.pemToPfx fullchainPem privkeyPem with
    | error text => simp [deploy, attempt, login, made]
    | ok pfx => exact absurd ⟨login, made⟩ (closed pfx)

/-- Once a certificate file is made, Exchange is told to write a file, to import that file with
the file's own password and to remove that file, and what it is told to write is the certificate;
before that it is told nothing. -/
theorem deploy_saysMeant (cfg : ExchangeTargetConfig) (domain fullchainPem privkeyPem : String)
    (calls : Calls) (plain : ∀ c ∈ cfg.remotePath.toList ++ domain.toList, special c = false)
    (services : ∀ c ∈ cfg.services.toList, codeChar c = true) :
    let answer := deploy cfg domain fullchainPem privkeyPem calls
    (∀ pfx, calls.Opens fullchainPem privkeyPem pfx → SaysMeant cfg domain pfx answer) ∧
      ((∀ pfx, ¬ calls.Opens fullchainPem privkeyPem pfx) →
        answer.1.status = .error ∧ answer.2 = []) :=
  ⟨fun _ opens => attempt_saysMeant plain services opens.1 opens.2, deploy_silent⟩

def exampleConfig : ExchangeTargetConfig := ⟨"mail", "exchange.example.com", "C:\\certs", "SMTP"⟩

theorem mail_saysMeant : SaysMeant exampleConfig "mail.example.com" anyPfx
    (deploy exampleConfig "mail.example.com" "CERT" "KEY"
      { pemToPfx := fun _ _ => .ok anyPfx, importing := .returned 1 (.ok "Command not found") }) :=
  (deploy_saysMeant exampleConfig "mail.example.com" "CERT" "KEY" _
    (plain_of_all (by decide +kernel)) (List.all_eq_true.mp (by decide +kernel))).1 anyPfx
      ⟨rfl, rfl⟩

end AcmeGitWebhook.Exchange
