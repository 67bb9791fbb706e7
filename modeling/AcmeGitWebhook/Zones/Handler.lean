import AcmeGitWebhook.Library.FileTree
import AcmeGitWebhook.Library.DnsZone
import AcmeGitWebhook.Python

/-!
# The zone handler

`app/zone_handler.py`: which zone file of a clone a domain belongs to, and what
`add_txt_record` and `remove_txt_record` make of that file. Both end in rewriting one file;
here they return the rewrite, so that a caller can let it fail half-way.
-/

namespace AcmeGitWebhook.Zones

open Library

/-- What `zone_handler` is called with besides the domain: where the clone is and the layout of
the repository; and the two parts of dnspython it relies on. -/
structure Site (β : Type) where
  reposPath : Path
  zonePath : String := "."
  zoneFileSuffix : String := ".zone"
  format : ZoneFormat β
  specialName : String → Option DnsName := fun _ => none

/-- A file and the text it is to have. -/
structure Rewrite (β : Type) where
  file : Path
  text : β

/-- `Path.stem` of a file's name, up to Python 3.13. Later versions drop a final dot as well. -/
def stem (name : String) : String :=
  let parts := Python.split '.' name
  let front := Python.join "." parts.dropLast
  if front ≠ "" ∧ parts.getLast? ≠ some "" then front else name

/-- `_zone_name`, and the first lines of `_resolve_zone_path`. -/
def zoneName (domain : String) : String :=
  Python.removePrefix "*." (Python.removePrefix "_acme-challenge." domain)

/-- The dot-suffixes of the zone name, the longest first. -/
def candidates (domain : String) : List String :=
  ((Python.split '.' (zoneName domain)).tails.dropLast).map (Python.join ".")

example : candidates "_acme-challenge.*.sub.example.com" =
    ["sub.example.com", "example.com", "com"] ∧ stem "example.com.zone" = "example.com" := by
  decide

variable {β : Type} (site : Site β)

@[irreducible] def fromText (text : String) : Except PyError DnsName :=
  match DnsName.fromText site.specialName text with
  | some name => .ok name
  | none => .error (.library "dns.exception.DNSException")

/-- The name that both functions edit. -/
def acmeName (domain : String) : Except PyError DnsName := fromText site (domain ++ ".")

def originFromZoneFile (zoneFile : Path) : Except PyError DnsName :=
  fromText site (stem (zoneFile.getLast?.getD ""))

/-- `_resolve_zone_path`. A candidate outside the resolved zone directory is passed over. -/
def resolveZonePath (d : Disk β) (domain : String) : Option Path :=
  let zones := joinPath d.root site.zonePath
  match d.realpath zones with
  | none => none
  | some allowedBase =>
    (candidates domain).findSome? fun candidate =>
      (d.realpath (joinPath zones (candidate ++ site.zoneFileSuffix))).filter
        fun resolved => allowedBase <+: resolved

/-- The zone in a text found at the path of a zone file. -/
def parseZone (zoneFile : Path) (text : β) : Except PyError DnsZone :=
  match originFromZoneFile site zoneFile with
  | .error err => .error err
  | .ok origin =>
    match site.format.parse origin text with
    | some nodes => .ok ⟨origin, nodes⟩
    | none => .error (.library "dns.exception.DNSException")

def loadZone (d : Disk β) (zoneFile : Path) : Except PyError DnsZone :=
  match d.read? zoneFile with
  | some text => parseZone site zoneFile text
  | none => .error .osError

def outsideZone : PyError := .keyError "name parameter must be a subdomain of the zone origin"

def addTxtRecord (d : Disk β) (domain token : String) : Except PyError (Rewrite β) := do
  match resolveZonePath site d domain with
  | none =>
    throw (.fileNotFoundError ("No zone file found for domain '" ++ domain ++ "' in /" ++
      Python.join "/" (joinPath d.root site.zonePath)))
  | some zoneFile =>
    let zone ← loadZone site d zoneFile
    let name ← acmeName site domain
    let ttl := ((zone.getRdataset name TXT).map Rdataset.ttl).getD 0
    if 255 < (Python.encode token).length then throw (.valueError "string too long")
    else
      match zone.replaceRdataset name TXT ⟨ttl, [.txt [Python.encode token]]⟩ with
      | none => throw outsideZone
      | some zone => return ⟨zoneFile, site.format.render zone⟩

/-- `none` when there is no zone file or no record to remove. -/
def removeTxtRecord (d : Disk β) (domain : String) : Except PyError (Option (Rewrite β)) := do
  match resolveZonePath site d domain with
  | none => return none
  | some zoneFile =>
    let zone ← loadZone site d zoneFile
    let name ← acmeName site domain
    match zone.getRdataset name TXT with
    | none => return none
    | some _ =>
      match zone.deleteRdataset name TXT with
      | none => throw outsideZone
      | some zone => return some ⟨zoneFile, site.format.render zone⟩

/-! ## The records of a challenge -/

/-- The TXT records of the challenge name of `domain` in a zone file's text. -/
def txtIn (zoneFile : Path) (text : β) (domain : String) : List Rdata :=
  match parseZone site zoneFile text with
  | .error _ => []
  | .ok zone =>
    match acmeName site domain with
    | .error _ => []
    | .ok name => ((zone.getRdataset name TXT).map Rdataset.items).getD []

/-- The TXT records of the challenge name in a clone: those in the file of the clone that the
domain resolves to. -/
def challengeTxt (d : Disk β) (domain : String) : List Rdata :=
  match resolveZonePath site d domain with
  | none => []
  | some zoneFile =>
    if d.root <+: zoneFile then
      ((d.read? zoneFile).map fun text => txtIn site zoneFile text domain).getD []
    else []

/-- A rewrite of the domain's zone file: at the challenge name, the TXT records of the zone that
was read from it are changed, and `zone'` is what the file is rewritten from. -/
structure Edits (d : Disk β) (domain : String) (r : Rewrite β) (name : DnsName)
    (zone zone' : DnsZone) : Prop where
  resolved : resolveZonePath site d domain = some r.file
  loaded : loadZone site d r.file = .ok zone
  named : acmeName site domain = .ok name
  change : zone.TxtChange name zone'
  text : r.text = site.format.render zone'

/-- What both functions promise of a rewrite. -/
structure Rewrites (d : Disk β) (domain : String) (r : Rewrite β) (items : List Rdata) : Prop where
  resolved : resolveZonePath site d domain = some r.file
  exists_file : ∃ old, d.read? r.file = some old
  txt : txtIn site r.file r.text domain = items

variable {site} {d d' : Disk β} {domain token : String} {r : Rewrite β} {items : List Rdata}

theorem bind_ok {ε α γ : Type} {x : Except ε α} {f : α → Except ε γ} {c : γ}
    (h : x >>= f = .ok c) : ∃ a, x = .ok a ∧ f a = .ok c := by
  cases x with
  | error e => cases h
  | ok a => exact ⟨a, rfl, h⟩

/-- Resolving a domain looks at no file's text. -/
theorem resolveZonePath_congr (shape : Disk.SameShape d d') :
    resolveZonePath site d' domain = resolveZonePath site d domain := by
  simp only [resolveZonePath, shape.root, Disk.realpath_congr shape]

theorem loadZone_ok {zoneFile : Path} {zone : DnsZone} (h : loadZone site d zoneFile = .ok zone) :
    ∃ text, d.read? zoneFile = some text ∧ parseZone site zoneFile text = .ok zone := by
  unfold loadZone at h
  split at h
  · next text found => exact ⟨text, found, h⟩
  · cases h

theorem parseZone_ok {zoneFile : Path} {text : β} {zone : DnsZone}
    (h : parseZone site zoneFile text = .ok zone) :
    ∃ nodes, originFromZoneFile site zoneFile = .ok zone.origin ∧
      site.format.parse zone.origin text = some nodes ∧ zone = ⟨zone.origin, nodes⟩ := by
  unfold parseZone at h
  split at h
  · cases h
  · next origin originated =>
    split at h
    · next nodes parsed =>
      cases h
      exact ⟨nodes, originated, parsed, rfl⟩
    · cases h

/-- A changed zone reads back from the text it is written as. -/
theorem parseZone_render {zoneFile : Path} {text : β} {zone zone' : DnsZone} {name : DnsName}
    (loaded : parseZone site zoneFile text = .ok zone) (change : zone.TxtChange name zone') :
    ∃ again, parseZone site zoneFile (site.format.render zone') = .ok again ∧
      ∀ name t, again.getRdataset name t = zone'.getRdataset name t := by
  obtain ⟨nodes, originated, parsed, eq⟩ := parseZone_ok loaded
  rw [eq] at change
  obtain ⟨nodes', parsed', same⟩ := site.format.parse_render parsed change
  exact ⟨⟨zone.origin, nodes'⟩, by simp only [parseZone, originated, parsed'], same⟩

namespace Edits

variable {name : DnsName} {zone zone' : DnsZone}

theorem exists_file (h : Edits site d domain r name zone zone') :
    ∃ old, d.read? r.file = some old ∧ parseZone site r.file old = .ok zone := loadZone_ok h.loaded

theorem parse (h : Edits site d domain r name zone zone') :
    ∃ again, parseZone site r.file r.text = .ok again ∧
      ∀ name t, again.getRdataset name t = zone'.getRdataset name t := by
  obtain ⟨old, -, read⟩ := h.exists_file
  rw [h.text]
  exact parseZone_render read h.change

theorem rewrites (h : Edits site d domain r name zone zone') :
    Rewrites site d domain r (((zone'.getRdataset name TXT).map Rdataset.items).getD []) := by
  obtain ⟨old, found, -⟩ := h.exists_file
  obtain ⟨again, parsed, same⟩ := h.parse
  refine ⟨h.resolved, ⟨old, found⟩, ?_⟩
  simp only [txtIn, parsed, h.named, same name TXT]

end Edits

/-- What a successful `add_txt_record` has read and what it writes. -/
theorem addTxtRecord_ok (h : addTxtRecord site d domain token = .ok r) :
    ∃ name zone zone', resolveZonePath site d domain = some r.file ∧
      loadZone site d r.file = .ok zone ∧ acmeName site domain = .ok name ∧
      (Python.encode token).length ≤ 255 ∧
      zone.replaceRdataset name TXT ⟨((zone.getRdataset name TXT).map Rdataset.ttl).getD 0,
        [.txt [Python.encode token]]⟩ = some zone' ∧ r.text = site.format.render zone' := by
  unfold addTxtRecord at h
  split at h
  · cases h
  · next zoneFile resolved =>
    obtain ⟨zone, loaded, h⟩ := bind_ok h
    obtain ⟨name, named, h⟩ := bind_ok h
    split_ifs at h with long
    dsimp only at h
    split at h
    · cases h
    · next zone' replaced =>
      obtain rfl := Except.ok.inj h
      exact ⟨name, zone, zone', resolved, loaded, named, Nat.not_lt.mp long, replaced, rfl⟩

/-- What a `remove_txt_record` that finds a record has read and what it writes. -/
theorem removeTxtRecord_ok (h : removeTxtRecord site d domain = .ok (some r)) :
    ∃ name zone zone', resolveZonePath site d domain = some r.file ∧
      loadZone site d r.file = .ok zone ∧ acmeName site domain = .ok name ∧
      zone.getRdataset name TXT ≠ none ∧ zone.deleteRdataset name TXT = some zone' ∧
      r.text = site.format.render zone' := by
  unfold removeTxtRecord at h
  split at h
  · cases h
  · next zoneFile resolved =>
    obtain ⟨zone, loaded, h⟩ := bind_ok h
    obtain ⟨name, named, h⟩ := bind_ok h
    split at h
    · cases h
    · next present =>
      split at h
      · cases h
      · next zone' deleted =>
        obtain rfl := Option.some.inj (Except.ok.inj h)
        exact ⟨name, zone, zone', resolved, loaded, named, by simp [present], deleted, rfl⟩

theorem addTxtRecord_edits (h : addTxtRecord site d domain token = .ok r) :
    ∃ name zone zone' ttl, Edits site d domain r name zone zone' ∧
      zone'.getRdataset name TXT = some ⟨ttl, [.txt [Python.encode token]]⟩ := by
  obtain ⟨name, zone, zone', resolved, loaded, named, short, replaced, text⟩ := addTxtRecord_ok h
  exact ⟨name, zone, zone', _, ⟨resolved, loaded, named, .replace short replaced, text⟩,
    DnsZone.getRdataset_replace replaced⟩

theorem removeTxtRecord_edits (h : removeTxtRecord site d domain = .ok (some r)) :
    ∃ name zone zone', Edits site d domain r name zone zone' ∧
      zone'.getRdataset name TXT = none := by
  obtain ⟨name, zone, zone', resolved, loaded, named, -, deleted, text⟩ := removeTxtRecord_ok h
  exact ⟨name, zone, zone', ⟨resolved, loaded, named, .delete deleted, text⟩,
    DnsZone.getRdataset_delete deleted⟩

/-- A cleanup that finds nothing to remove has read the zone, if there is one. -/
theorem removeTxtRecord_none {zoneFile : Path} (h : removeTxtRecord site d domain = .ok none)
    (resolved : resolveZonePath site d domain = some zoneFile) :
    ∃ name zone, loadZone site d zoneFile = .ok zone ∧ acmeName site domain = .ok name ∧
      zone.getRdataset name TXT = none := by
  unfold removeTxtRecord at h
  rw [resolved] at h
  obtain ⟨zone, loaded, h⟩ := bind_ok h
  obtain ⟨name, named, h⟩ := bind_ok h
  split at h
  · next absent => exact ⟨name, zone, loaded, named, absent⟩
  · split at h <;> cases h

theorem addTxtRecord_rewrites (h : addTxtRecord site d domain token = .ok r) :
    Rewrites site d domain r [.txt [Python.encode token]] := by
  obtain ⟨name, zone, zone', ttl, edits, stored⟩ := addTxtRecord_edits h
  simpa [stored] using edits.rewrites

theorem removeTxtRecord_rewrites (h : removeTxtRecord site d domain = .ok (some r)) :
    Rewrites site d domain r [] := by
  obtain ⟨name, zone, zone', edits, gone⟩ := removeTxtRecord_edits h
  simpa [gone] using edits.rewrites

/-- Once a rewrite of a file inside the clone is done, the challenge name has its records. -/
theorem challengeTxt_write (h : Rewrites site d domain r items) (inside : d.root <+: r.file) :
    challengeTxt site (d.write r.file r.text) domain = items := by
  obtain ⟨old, found⟩ := h.exists_file
  have shape := Disk.write_sameShape found r.text
  have resolved : resolveZonePath site (d.write r.file r.text) domain = some r.file :=
    (resolveZonePath_congr shape).trans h.resolved
  simp only [challengeTxt, resolved, shape.root, if_pos inside, Disk.read_write, Option.map_some,
    Option.getD_some, h.txt]

theorem challengeTxt_congr {root : Path} {host t t' : FileTree β} (same : FileTree.Same t' t) :
    challengeTxt site ⟨root, t', host⟩ domain = challengeTxt site ⟨root, t, host⟩ domain := by
  have shape : Disk.SameShape ⟨root, t, host⟩ ⟨root, t', host⟩ := Disk.sameShape_of_same same
  have read : ∀ p, Disk.read? ⟨root, t', host⟩ p = Disk.read? ⟨root, t, host⟩ p := by
    intro p
    simp only [Disk.read?, Disk.lookup, same _]
  simp only [challengeTxt, resolveZonePath_congr shape, read]

end AcmeGitWebhook.Zones
