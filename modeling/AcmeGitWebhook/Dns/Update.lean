import AcmeGitWebhook.Library.Dict
import AcmeGitWebhook.Library.DnsName
import AcmeGitWebhook.Python

/-!
# Dynamic updates

`app/dns_update.py`, called with the values of `dns.update` as `_add_txt_record_wrapper` and
`_remove_txt_record_wrapper` of `app/main.py` do. Both functions build one update message and
send it; here the message is a value.
-/

namespace AcmeGitWebhook.Dns

open Library

structure DnsUpdateConfig where
  server : String := "127.0.0.1"
  port : Int := 53
  keyName : String := "acme-key."
  keyFile : Option String := none
  keySecret : Option String := none
  keyAlgorithm : String := "hmac-sha256"
  zone : Option String := none
  ttl : Int := 60

/-- The secret of a key and its algorithm, a `dict` of the module. -/
structure TsigKey where
  secret : String
  algorithm : String
  deriving DecidableEq, Repr

/-- What a keyring has its entries under. No text equals a name. -/
inductive RingKey where
  | text (key : String)
  | name (key : DnsName)
  deriving DecidableEq, Repr

/-- What a keyring can hold: a secret or a key, as dnspython documents, or a `dict`. -/
inductive RingEntry where
  | secret (bytes : List UInt8)
  | key (name : DnsName) (secret : List UInt8) (algorithm : DnsName)
  | dict (key : TsigKey)
  deriving DecidableEq, Repr

def RingEntry.isKey : RingEntry → Bool
  | .secret _ | .key _ _ _ => true
  | .dict _ => false

abbrev Keyring := Dict RingKey RingEntry

/-- The entry that dnspython signs with: the one under the name, and without a name the first. -/
def Keyring.entry (keyring : Keyring) : Option DnsName → Option RingEntry
  | some name => keyring.get? (.name name)
  | none => keyring.head?.map Prod.snd

/-- The parts of dnspython that the module relies on: names beyond plain ASCII text, the
constructor of an update (which may refuse its key), and TXT data read as zone-file text. -/
structure Dnspython where
  specialName : String → Option DnsName
  newUpdate : DnsName → Keyring → Option DnsName → String → Except PyError Unit
  txtData : String → Except PyError (List (List UInt8))

/-- dnspython signs an update with a secret or a key that it finds in the keyring. -/
def SignsWithKeys (lib : Dnspython) : Prop :=
  ∀ zone keyring keyName algorithm, lib.newUpdate zone keyring keyName algorithm = .ok () →
    ∃ entry, keyring.entry keyName = some entry ∧ entry.isKey = true

inductive Change where
  | replace (owner : DnsName) (ttl : Int) (value : List (List UInt8))
  | delete (owner : DnsName)
  deriving DecidableEq, Repr

/-- The name whose TXT records an update changes. -/
def Change.owner : Change → DnsName
  | .replace owner _ _ => owner
  | .delete owner => owner

structure Update where
  zone : DnsName
  keyring : Keyring
  keyName : Option DnsName
  keyAlgorithm : String
  change : Change
  deriving DecidableEq, Repr

def buildKeyring (keyName secret algorithm : String) : Keyring :=
  [(.text keyName, .dict ⟨secret, algorithm⟩)]

/-- `domain.rstrip(".")`. -/
def stripDots (domain : String) : String :=
  String.ofList ((domain.toList.reverse.dropWhile (· = '.')).reverse)

def normalizeZone (domain : String) : String :=
  Python.join "." ((Python.split '.' (stripDots domain)).drop 1) ++ "."

example : normalizeZone "_acme-challenge.example.com" = "example.com." := by decide

variable (lib : Dnspython) (readText : String → Except PyError String) (cfg : DnsUpdateConfig)

def name (text : String) : Except PyError DnsName :=
  match DnsName.fromText lib.specialName text with
  | some name => .ok name
  | none => .error (.library "dns.exception.DNSException")

/-- The owner of both functions' records. -/
def fqdn (domain : String) : Except PyError DnsName :=
  name lib ("_acme-challenge." ++ domain ++ ".")

/-- The configured secret, or the text of the key file without blanks around it. -/
def secret : Except PyError String :=
  match cfg.keySecret.filter (· ≠ ""), cfg.keyFile.filter (· ≠ "") with
  | some text, _ => .ok text
  | none, some file => (readText file).map fun text => String.ofList (Python.strip text.toList)
  | none, none => .ok ""

/-- An empty key name is no name. -/
def keyName : Except PyError (Option DnsName) :=
  if cfg.keyName = "" then .ok none else (name lib cfg.keyName).map some

/-- What the two functions do alike: find the secret and open an update of the zone. -/
def newUpdate (domain : String) : Except PyError (Change → Update) := do
  let zoneName := (cfg.zone.filter (· ≠ "")).getD (normalizeZone domain)
  let secret ← secret readText cfg
  if secret = "" then throw (.valueError "Either key_secret or key_file must be provided")
  else
    let keyring := buildKeyring cfg.keyName secret cfg.keyAlgorithm
    let zone ← name lib zoneName
    let keyName ← keyName lib cfg
    lib.newUpdate zone keyring keyName cfg.keyAlgorithm
    return fun change => ⟨zone, keyring, keyName, cfg.keyAlgorithm, change⟩

/-- The message that `add_txt_record` sends. -/
def addUpdate (domain value : String) : Except PyError Update := do
  let update ← newUpdate lib readText cfg domain
  let owner ← fqdn lib domain
  let data ← lib.txtData value
  return update (.replace owner cfg.ttl data)

/-- The message that `remove_txt_record` sends. -/
def removeUpdate (domain : String) : Except PyError Update := do
  let update ← newUpdate lib readText cfg domain
  let owner ← fqdn lib domain
  return update (.delete owner)

variable (query : String → Int → Update → Except PyError Nat)

/-- An update is sent to the configured server, and every code but zero is a failure. -/
def send (update : Update) : Except PyError Unit := do
  let rcode ← query cfg.server cfg.port update
  if rcode ≠ 0 then throw (.runtimeError ("nsupdate failed with rcode " ++ toString rcode))
  else return ()

def addTxtRecord (domain value : String) : Except PyError Unit := do
  let update ← addUpdate lib readText cfg domain value
  send cfg query update

/-- A failed exchange is only logged. -/
def removeTxtRecord (domain : String) : Except PyError Bool := do
  let update ← removeUpdate lib readText cfg domain
  match send cfg query update with
  | .ok () => return true
  | .error _ => return false

/-- dnspython finds no key in the module's keyring: its one entry is a `dict` under a text. -/
theorem SignsWithKeys.refuses {lib : Dnspython} (keys : SignsWithKeys lib)
    (zone : DnsName) (text secret : String) (keyName : Option DnsName) (algorithm : String) :
    lib.newUpdate zone (buildKeyring text secret algorithm) keyName algorithm ≠ .ok () := by
  intro accepted
  obtain ⟨entry, found, key⟩ := keys _ _ _ _ accepted
  cases keyName with
  | some name => simp [Keyring.entry, buildKeyring, Dict.get?] at found
  | none =>
    obtain rfl : RingEntry.dict ⟨secret, algorithm⟩ = entry := by
      simpa [Keyring.entry, buildKeyring] using found
    cases key

/-! ## A dnspython to compute with -/

/-- What an update does with its keyring: the key is looked up under its name, and an entry that
is not a key has no algorithm. -/
def useTsig (keyring : Keyring) (keyName : Option DnsName) : Except PyError Unit :=
  match keyring.entry keyName with
  | none => .error (.keyError (Python.join "." (keyName.getD []) ++ "."))
  | some entry => if entry.isKey then .ok () else .error .attributeError

/-- All names are plain text, and TXT data is one character string. -/
def exampleDnspython : Dnspython where
  specialName _ := none
  newUpdate _ keyring keyName _ := useTsig keyring keyName
  txtData text := .ok [Python.encode text]

theorem exampleDnspython_signs : SignsWithKeys exampleDnspython := by
  intro zone keyring keyName algorithm accepted
  simp only [exampleDnspython, useTsig] at accepted
  split at accepted
  next => cases accepted
  next entry found =>
    refine ⟨entry, found, ?_⟩
    by_contra dict
    rw [if_neg dict] at accepted
    cases accepted

end AcmeGitWebhook.Dns
