import AcmeGitWebhook.Dns.Cleanup
import AcmeGitWebhook.Library.ZoneText
import AcmeGitWebhook.Zones.Challenges

/-!
# What the backends store of a token

`_add_txt_record_wrapper` of `app/main.py` with either backend, and the TXT records that are at the
name it writes to when it has not raised. The git backend makes a record of the token's bytes; the
nsupdate backend lets dnspython read the token as zone-file text, which `keepsToken_iff` says what
it would do to it. With no key that dnspython takes, only the git backend stores anything
(`stored_keeps`).
-/

namespace AcmeGitWebhook.Dns

open Challenge Library Zones

variable {β : Type}

/-- A backend, and what it works on: the clone of the zone repository, or a server. -/
inductive Backend (β : Type) where
  | git (site : Site β) (disk : Disk β)
  | nsupdate (readText : String → Except PyError String) (cfg : DnsUpdateConfig)
    (exchange : Exchange) (server : Server)

def Backend.isNsupdate : Backend β → Bool
  | .git _ _ => false
  | .nsupdate _ _ _ _ => true

/-- The character strings of a record. -/
def strings : Rdata → List (List UInt8)
  | .txt strings => strings
  | .other _ => []

/-- The TXT records at the challenge name after `_add_txt_record_wrapper`, where the git backend
has them in the text of the zone file. -/
def Backend.stored (lib : Dnspython) (domain validation : String) :
    Backend β → Except PyError (List (List (List UInt8)))
  | .git site disk => do
    let rewrite ← Zones.addTxtRecord site disk domain validation
    return (txtIn site rewrite.file rewrite.text domain).map strings
  | .nsupdate readText cfg exchange server => do
    addTxtRecord lib readText cfg (fun _ _ _ => exchange.reply) domain validation
    let update ← addUpdate lib readText cfg domain validation
    return exchanged exchange (.ok update) server update.change.owner

/-- There is one record, which a probe decodes to the token. -/
def KeepsToken (token : String) (records : List (List (List UInt8))) : Prop :=
  ∃ strings, records = [strings] ∧ decode strings.flatten = .ok token

/-- What dnspython makes of a text as TXT data is what zone-file text is read as. -/
def ReadsZoneText (digit : Char → Option ℕ) (lib : Dnspython) : Prop :=
  ∀ text strings, lib.txtData text = .ok strings → ZoneText.Reads digit text.toList strings

variable {lib : Dnspython} {digit : Char → Option ℕ} {token domain : String}
  {records : List (List (List UInt8))}

theorem git_stored {site : Site β} {disk : Disk β}
    (h : (Backend.git site disk).stored lib domain token = .ok records) :
    records = [[Python.encode token]] := by
  obtain ⟨rewrite, added, h⟩ := bind_ok h
  obtain rfl := Except.ok.inj h
  rw [(addTxtRecord_rewrites added).txt]
  rfl

theorem addUpdate_change {readText : String → Except PyError String} {cfg : DnsUpdateConfig}
    {update : Update} (h : addUpdate lib readText cfg domain token = .ok update) :
    ∃ owner data, update.change = .replace owner cfg.ttl data ∧ lib.txtData token = .ok data := by
  obtain ⟨make, opened, h⟩ := bind_ok h
  obtain ⟨owner, -, h⟩ := bind_ok h
  obtain ⟨data, read, h⟩ := bind_ok h
  obtain rfl := Except.ok.inj h
  exact ⟨owner, data, newUpdate_change opened _, read⟩

theorem send_ok {cfg : DnsUpdateConfig} {exchange : Exchange} {update : Update}
    (h : send cfg (fun _ _ _ => exchange.reply) update = .ok ()) : exchange.applied = true := by
  obtain ⟨rcode, reply, h⟩ := bind_ok h
  cases exchange with
  | lost err applied => cases reply
  | answered rcode' =>
    obtain rfl := Except.ok.inj reply
    simp only [Exchange.applied, decide_eq_true_eq]
    by_contra failed
    rw [if_pos failed] at h
    cases h

/-- An update that is answered well leaves the one record that dnspython has read. -/
theorem nsupdate_stored {readText : String → Except PyError String} {cfg : DnsUpdateConfig}
    {exchange : Exchange} {server : Server}
    (h : (Backend.nsupdate (β := β) readText cfg exchange server).stored lib domain token =
      .ok records) :
    ∃ data, lib.txtData token = .ok data ∧ records = [data] := by
  obtain ⟨_, added, h⟩ := bind_ok h
  obtain ⟨update, made, h⟩ := bind_ok h
  obtain ⟨update', made', sent⟩ := bind_ok added
  obtain rfl := Except.ok.inj (made.symm.trans made')
  obtain ⟨owner, data, change, read⟩ := addUpdate_change made
  refine ⟨data, read, ?_⟩
  rw [← Except.ok.inj h, exchanged, send_ok sent, if_pos rfl, change, Server.apply, Change.owner,
    Function.update_self]

/-- Whatever dnspython makes of the keyring: the git backend keeps every token, and the nsupdate
backend, where it stores one, those without blanks, newlines, semicolons, parentheses, double quotes
and backslashes. -/
theorem keepsToken_iff (lib : Dnspython) {digit : Char → Option ℕ}
    (reads : ReadsZoneText digit lib) (backend : Backend β) (req : AcmeRequest)
    {records : List (List (List UInt8))}
    (h : backend.stored lib req.domain (req.validation.getD "") = .ok records) :
    KeepsToken (req.validation.getD "") records ↔
      (backend.isNsupdate = true →
        ∀ c ∈ (req.validation.getD "").toList, ZoneText.special c = false) := by
  cases backend with
  | git site disk =>
    obtain rfl := git_stored h
    simp [KeepsToken, Backend.isNsupdate, decode_eq_ok_iff]
  | nsupdate readText cfg exchange server =>
    obtain ⟨data, read, rfl⟩ := nsupdate_stored h
    simp [KeepsToken, Backend.isNsupdate, decode_eq_ok_iff, ← (reads _ _ read).eq_text_iff,
      Python.encode]

/-- dnspython with TXT data that are read as zone-file text. -/
def zoneTextLib : Dnspython :=
  { exampleDnspython with
    txtData := fun text =>
      match ZoneText.read Python.digit? text.toList with
      | some strings => .ok strings
      | none => .error (.library "dns.exception.SyntaxError") }

theorem zoneTextLib_reads : ReadsZoneText Python.digit? zoneTextLib := by
  intro text strings read
  refine .strings ?_
  simp only [zoneTextLib] at read
  split at read
  next found => rw [found, Except.ok.inj read]
  next => cases read

end AcmeGitWebhook.Dns
