import AcmeGitWebhook.Library.Run
import AcmeGitWebhook.Zones.Handler

/-!
# Challenge records as a map

`add_txt_record` and `remove_txt_record` rewrite whole zone files. What they are for is a map: for
each zone file and name at most one token.

## Main results

* `formsMap`: any sequence of successful calls acts on the TXT records as assignments and
  deletions act on a map, and repeating a call changes nothing.
* `restores_iff`: when adding and removing a challenge leaves all other records as they were.
-/

namespace AcmeGitWebhook.Zones

open Library

variable {β : Type} (site : Site β)

/-! ## Calls -/

inductive Call where
  | add (domain token : String)
  | remove (domain : String)
  deriving DecidableEq, Repr

def Call.domain : Call → String
  | .add domain _ => domain
  | .remove domain => domain

/-- The TXT records that a call leaves at its name. -/
def Call.leaves : Call → Option (List Rdata)
  | .add _ token => some [.txt [Python.encode token]]
  | .remove _ => none

/-- A call with the rewrite of the file at its end: the file that is returned, and the disk. -/
def perform (d : Disk β) : Call → Except PyError (Option Path × Disk β)
  | .add domain token =>
    match addTxtRecord site d domain token with
    | .error err => .error err
    | .ok r => .ok (some r.file, d.write r.file r.text)
  | .remove domain =>
    match removeTxtRecord site d domain with
    | .error err => .error err
    | .ok none => .ok (none, d)
    | .ok (some r) => .ok (some r.file, d.write r.file r.text)

/-- The disk after a call; one that raises has written nothing. -/
def after (d : Disk β) (call : Call) : Disk β :=
  match perform site d call with
  | .ok (_, d') => d'
  | .error _ => d

/-- The zone file that a domain resolves to and its challenge name, which the zone's origin
contains. -/
def target (d : Disk β) (domain : String) : Option (Path × DnsName) :=
  match resolveZonePath site d domain, acmeName site domain with
  | some file, .ok name =>
    match originFromZoneFile site file with
    | .ok origin => if origin <:+ name then some (file, name) else none
    | .error _ => none
  | _, _ => none

/-! ## Records -/

/-- The record set that the zone in a file has at a name. -/
def fileRecords (d : Disk β) (file : Path) (name : DnsName) (t : RRType) : Option Rdataset :=
  match loadZone site d file with
  | .ok zone => zone.getRdataset name t
  | .error _ => none

def content (d : Disk β) (file : Path) (name : DnsName) : Option (List Rdata) :=
  (fileRecords site d file name TXT).map Rdataset.items

/-- What a map has at a place after calls: what the last call for it leaves there, or what was
there before. -/
def settled (d : Disk β) (calls : List Call) (file : Path) (name : DnsName) :
    Option (List Rdata) :=
  match (calls.filter fun call => target site d call.domain = some (file, name)).getLast? with
  | some call => call.leaves
  | none => content site d file name

/-- A call that succeeds, for a domain with a zone file whose origin contains its name. -/
def Successful (d : Disk β) (call : Call) : Prop :=
  (perform site d call).isOk ∧ (target site d call.domain).isSome

/-- Challenge records behave like a map over these calls. -/
structure FormsMap (d : Disk β) (calls : List Call) : Prop where
  last : ∀ file name,
    content site (run (after site) d calls) file name = settled site d calls file name
  others : ∀ file name t, (∀ call ∈ calls, target site d call.domain ≠ some (file, name)) →
    fileRecords site (run (after site) d calls) file name t = fileRecords site d file name t
  files : ∀ file, (∀ call ∈ calls, ∀ name, target site d call.domain ≠ some (file, name)) →
    (run (after site) d calls).read? file = d.read? file
  removes : ∀ domain file name answer d', target site d domain = some (file, name) →
    perform site (run (after site) d calls) (.remove domain) = .ok (answer, d') →
      (content site (run (after site) d calls) file name ≠ none ∧ answer = some file) ∨
        (content site (run (after site) d calls) file name = none ∧ answer = none ∧
          d' = run (after site) d calls)
  repeats : ∀ domain token answer d',
    perform site (run (after site) d calls) (.add domain token) = .ok (answer, d') →
      ∃ again, perform site d' (.add domain token) = .ok (answer, again) ∧
        ∀ file name t, fileRecords site again file name t = fileRecords site d' file name t

variable {site} {d d' : Disk β} {domain token : String} {r : Rewrite β} {file : Path}
  {name : DnsName} {zone zone' : DnsZone}

theorem target_eq_some_iff :
    target site d domain = some (file, name) ↔ resolveZonePath site d domain = some file ∧
      acmeName site domain = .ok name ∧
        ∃ origin, originFromZoneFile site file = .ok origin ∧ origin <:+ name := by
  constructor
  · intro h
    unfold target at h
    split at h
    · next resolved named =>
      split at h
      · next origin originated =>
        split_ifs at h with contained
        obtain ⟨rfl, rfl⟩ := Prod.mk.inj (Option.some.inj h)
        exact ⟨resolved, named, origin, originated, contained⟩
      · cases h
    · cases h
  · rintro ⟨resolved, named, origin, originated, contained⟩
    simp only [target, resolved, named, originated, if_pos contained]

theorem target_congr (shape : Disk.SameShape d d') :
    target site d' domain = target site d domain := by
  simp only [target, resolveZonePath_congr shape]

theorem loadZone_origin (loaded : loadZone site d file = .ok zone) :
    originFromZoneFile site file = .ok zone.origin := by
  obtain ⟨text, -, parsed⟩ := loadZone_ok loaded
  obtain ⟨nodes, originated, -⟩ := parseZone_ok parsed
  exact originated

theorem fileRecords_of_loaded (loaded : loadZone site d file = .ok zone) (t : RRType) :
    fileRecords site d file name t = zone.getRdataset name t := by
  simp only [fileRecords, loaded]

theorem loaded_of_fileRecords {t : RRType} (present : fileRecords site d file name t ≠ none) :
    ∃ zone, loadZone site d file = .ok zone := by
  unfold fileRecords at present
  split at present
  · next zone loaded => exact ⟨zone, loaded⟩
  · contradiction

/-! ## What one call does -/

/-- Between the two disks, nothing differs but the records of one name in one zone file. -/
structure ChangesAt (site : Site β) (d d' : Disk β) (file : Path) (name : DnsName) : Prop where
  shape : Disk.SameShape d d'
  others : ∀ file' name' t, (file', name') ≠ (file, name) →
    fileRecords site d' file' name' t = fileRecords site d file' name' t
  files : ∀ file', file' ≠ file → d'.read? file' = d.read? file'

/-- The name has this token and no alias. -/
structure Adds (site : Site β) (d d' : Disk β) (file : Path) (name : DnsName) (token : String) :
    Prop extends ChangesAt site d d' file name where
  stored : fileRecords site d' file name TXT =
    some ⟨((fileRecords site d file name TXT).map Rdataset.ttl).getD 0,
      [.txt [Python.encode token]]⟩
  beside : ∀ t, t ≠ TXT → fileRecords site d' file name t =
    if TXT.excludes t then none else fileRecords site d file name t

structure Removes (site : Site β) (d d' : Disk β) (file : Path) (name : DnsName) :
    Prop extends ChangesAt site d d' file name where
  present : fileRecords site d file name TXT ≠ none
  gone : fileRecords site d' file name TXT = none
  beside : ∀ t, t ≠ TXT → fileRecords site d' file name t = fileRecords site d file name t

/-- A rewrite puts the changed zone in the place of the one that was read. -/
theorem fileRecords_write (loaded : loadZone site d r.file = .ok zone)
    (change : zone.TxtChange name zone') (text : r.text = site.format.render zone')
    (file' : Path) (name' : DnsName) (t : RRType) :
    fileRecords site (d.write r.file r.text) file' name' t =
      if file' = r.file then zone'.getRdataset name' t else fileRecords site d file' name' t := by
  split_ifs with here
  · obtain ⟨old, -, read⟩ := loadZone_ok loaded
    obtain ⟨again, parsed, same⟩ := parseZone_render read change
    rw [← text] at parsed
    simp only [fileRecords, loadZone, here, Disk.read_write, parsed, same]
  · simp only [fileRecords, loadZone, Disk.read_write_of_ne _ here]

theorem changesAt_write (loaded : loadZone site d r.file = .ok zone)
    (change : zone.TxtChange name zone') (text : r.text = site.format.render zone') :
    ChangesAt site d (d.write r.file r.text) r.file name := by
  obtain ⟨old, found, -⟩ := loadZone_ok loaded
  refine ⟨Disk.write_sameShape found _, ?_, fun file' other => Disk.read_write_of_ne _ other⟩
  intro file' name' t other
  rw [fileRecords_write loaded change text]
  split_ifs with here
  · have other : name' ≠ name := fun same => other (by rw [here, same])
    rw [change.getRdataset_of_ne other, here, fileRecords_of_loaded loaded]
  · rfl

theorem addTxtRecord_adds (h : addTxtRecord site d domain token = .ok r) :
    ∃ name, target site d domain = some (r.file, name) ∧
      Adds site d (d.write r.file r.text) r.file name token := by
  obtain ⟨name, zone, zone', resolved, loaded, named, short, replaced, text⟩ := addTxtRecord_ok h
  have contained : zone.origin <:+ name := by
    unfold DnsZone.replaceRdataset at replaced
    split_ifs at replaced with below
    exact below
  have change := DnsZone.TxtChange.replace short replaced
  refine ⟨name, target_eq_some_iff.mpr
    ⟨resolved, named, zone.origin, loadZone_origin loaded, contained⟩,
    changesAt_write loaded change text, ?_, ?_⟩
  · rw [fileRecords_write loaded change text, if_pos rfl, DnsZone.getRdataset_replace replaced,
      fileRecords_of_loaded loaded]
  · intro t other
    rw [fileRecords_write loaded change text, if_pos rfl,
      DnsZone.getRdataset_replace_same replaced other, fileRecords_of_loaded loaded]

theorem removeTxtRecord_removes (h : removeTxtRecord site d domain = .ok (some r)) :
    ∃ name, target site d domain = some (r.file, name) ∧
      Removes site d (d.write r.file r.text) r.file name := by
  obtain ⟨name, zone, zone', resolved, loaded, named, present, deleted, text⟩ :=
    removeTxtRecord_ok h
  have contained : zone.origin <:+ name := by
    unfold DnsZone.getRdataset at present
    split_ifs at present with below
    · exact below
    · contradiction
  have change := DnsZone.TxtChange.delete deleted
  refine ⟨name, target_eq_some_iff.mpr
    ⟨resolved, named, zone.origin, loadZone_origin loaded, contained⟩,
    changesAt_write loaded change text, ?_, ?_, ?_⟩
  · rwa [fileRecords_of_loaded loaded]
  · rw [fileRecords_write loaded change text, if_pos rfl, DnsZone.getRdataset_delete deleted]
  · intro t other
    rw [fileRecords_write loaded change text, if_pos rfl,
      DnsZone.getRdataset_delete_same deleted other, fileRecords_of_loaded loaded]

/-- A removal that returns nothing found no record. -/
theorem removeTxtRecord_idle (h : removeTxtRecord site d domain = .ok none)
    (targeted : target site d domain = some (file, name)) :
    fileRecords site d file name TXT = none := by
  obtain ⟨resolved, named, -⟩ := target_eq_some_iff.mp targeted
  obtain ⟨name', zone, loaded, named', absent⟩ := removeTxtRecord_none h resolved
  obtain rfl := Except.ok.inj (named.symm.trans named')
  rw [fileRecords_of_loaded loaded, absent]

/-- What an addition needs. -/
theorem addTxtRecord_isOk (targeted : target site d domain = some (file, name))
    (loaded : loadZone site d file = .ok zone) (short : (Python.encode token).length ≤ 255) :
    ∃ r, addTxtRecord site d domain token = .ok r ∧ r.file = file := by
  obtain ⟨resolved, named, origin, originated, contained⟩ := target_eq_some_iff.mp targeted
  obtain rfl := Except.ok.inj ((loadZone_origin loaded).symm.trans originated)
  simp only [addTxtRecord, resolved, loaded, named, bind, Except.bind, not_lt.mpr short, if_false,
    DnsZone.replaceRdataset, if_pos contained]
  exact ⟨_, rfl, rfl⟩

/-- A call changes the records at its target only, and leaves there what it is to leave. -/
theorem Successful.settles {call : Call} (h : Successful site d call)
    (targeted : target site d call.domain = some (file, name)) :
    ChangesAt site d (after site d call) file name ∧
      content site (after site d call) file name = call.leaves := by
  obtain ⟨succeeds, -⟩ := h
  unfold after content
  cases call with
  | add domain token =>
    simp only [perform] at succeeds ⊢
    split at succeeds
    · cases succeeds
    · next r added =>
      obtain ⟨name', targeted', adds⟩ := addTxtRecord_adds added
      obtain ⟨rfl, rfl⟩ := Prod.mk.inj (Option.some.inj (targeted'.symm.trans targeted))
      exact ⟨adds.toChangesAt, by simp [adds.stored, Call.leaves]⟩
  | remove domain =>
    simp only [perform] at succeeds ⊢
    split at succeeds
    · cases succeeds
    · next idle =>
      refine ⟨⟨.refl d, fun _ _ _ _ => rfl, fun _ _ => rfl⟩, ?_⟩
      simp [removeTxtRecord_idle idle targeted, Call.leaves]
    · next r removed =>
      obtain ⟨name', targeted', removes⟩ := removeTxtRecord_removes removed
      obtain ⟨rfl, rfl⟩ := Prod.mk.inj (Option.some.inj (targeted'.symm.trans targeted))
      exact ⟨removes.toChangesAt, by simp [removes.gone, Call.leaves]⟩

/-! ## What a run of calls does -/

variable {calls : List Call}

theorem settled_concat (d : Disk β) (calls : List Call) (call : Call) (file : Path)
    (name : DnsName) :
    settled site d (calls ++ [call]) file name =
      if target site d call.domain = some (file, name) then call.leaves
      else settled site d calls file name := by
  unfold settled
  split_ifs with here <;> simp [List.filter_append, here]

/-- No call moves a file or a link, so every domain keeps its target. -/
theorem run_shape (every : EveryStep (after site) (Successful site) d calls) :
    Disk.SameShape d (run (after site) d calls) := by
  refine (every.invariant (I := Disk.SameShape d) ?_ (.refl d)).last
  intro d' call shape successful
  obtain ⟨⟨file, name⟩, targeted⟩ := Option.isSome_iff_exists.mp successful.2
  exact shape.trans (successful.settles targeted).1.shape

/-- The last call of a run, with the target it has at the start. -/
theorem settles_last {call : Call}
    (every : EveryStep (after site) (Successful site) d (calls ++ [call])) :
    ∃ file name, target site d call.domain = some (file, name) ∧
      ChangesAt site (run (after site) d calls) (run (after site) d (calls ++ [call])) file name ∧
      content site (run (after site) d (calls ++ [call])) file name = call.leaves := by
  obtain ⟨before, last⟩ := (everyStep_append d calls [call]).mp every
  have successful := ((everyStep_cons _ _ _).mp last).1
  obtain ⟨⟨file, name⟩, targeted⟩ := Option.isSome_iff_exists.mp successful.2
  refine ⟨file, name, (target_congr (run_shape before)).symm.trans targeted, ?_⟩
  rw [run_concat]
  exact successful.settles targeted

theorem run_content (every : EveryStep (after site) (Successful site) d calls) (file : Path)
    (name : DnsName) :
    content site (run (after site) d calls) file name = settled site d calls file name := by
  induction calls using List.reverseRecOn with
  | nil => rfl
  | append_singleton calls call ih =>
    obtain ⟨file', name', targeted, changes, leaves⟩ := settles_last every
    rw [settled_concat, targeted]
    split_ifs with here
    · obtain ⟨rfl, rfl⟩ := Prod.mk.inj (Option.some.inj here)
      exact leaves
    · have other : (file, name) ≠ (file', name') := fun same => here (congrArg some same.symm)
      rw [content, changes.others file name TXT other, ← content,
        ih ((everyStep_append d calls [call]).mp every).1]

theorem run_others (every : EveryStep (after site) (Successful site) d calls)
    (apart : ∀ call ∈ calls, target site d call.domain ≠ some (file, name)) (t : RRType) :
    fileRecords site (run (after site) d calls) file name t = fileRecords site d file name t := by
  induction calls using List.reverseRecOn with
  | nil => rfl
  | append_singleton calls call ih =>
    obtain ⟨file', name', targeted, changes, -⟩ := settles_last every
    have other : (file, name) ≠ (file', name') := fun same =>
      apart call (by simp) (targeted.trans (congrArg some same.symm))
    rw [changes.others file name t other, ih ((everyStep_append d calls [call]).mp every).1
      fun call mem => apart call (List.mem_append_left _ mem)]

theorem run_files (every : EveryStep (after site) (Successful site) d calls)
    (apart : ∀ call ∈ calls, ∀ name, target site d call.domain ≠ some (file, name)) :
    (run (after site) d calls).read? file = d.read? file := by
  induction calls using List.reverseRecOn with
  | nil => rfl
  | append_singleton calls call ih =>
    obtain ⟨file', name', targeted, changes, -⟩ := settles_last every
    have other : file ≠ file' := by
      rintro rfl
      exact apart call (by simp) name' targeted
    rw [changes.files file other, ih ((everyStep_append d calls [call]).mp every).1
      fun call mem => apart call (List.mem_append_left _ mem)]

theorem perform_remove {answer : Option Path} (targeted : target site d domain = some (file, name))
    (h : perform site d (.remove domain) = .ok (answer, d')) :
    (content site d file name ≠ none ∧ answer = some file) ∨
      (content site d file name = none ∧ answer = none ∧ d' = d) := by
  simp only [perform] at h
  split at h
  · cases h
  · next idle =>
    obtain ⟨rfl, rfl⟩ := Prod.mk.inj (Except.ok.inj h)
    exact .inr ⟨by simp [content, removeTxtRecord_idle idle targeted], rfl, rfl⟩
  · next r removed =>
    obtain ⟨rfl, rfl⟩ := Prod.mk.inj (Except.ok.inj h)
    obtain ⟨name', targeted', removes⟩ := removeTxtRecord_removes removed
    obtain ⟨rfl, rfl⟩ := Prod.mk.inj (Option.some.inj (targeted'.symm.trans targeted))
    exact .inl ⟨by simpa [content] using removes.present, rfl⟩

/-- Adding a token where it is already finds its own record, whose TTL it keeps. -/
theorem perform_add_again {answer : Option Path}
    (h : perform site d (.add domain token) = .ok (answer, d')) :
    ∃ again, perform site d' (.add domain token) = .ok (answer, again) ∧
      ∀ file name t, fileRecords site again file name t = fileRecords site d' file name t := by
  simp only [perform] at h
  split at h
  · cases h
  · next r added =>
    obtain ⟨rfl, rfl⟩ := Prod.mk.inj (Except.ok.inj h)
    obtain ⟨name, targeted, adds⟩ := addTxtRecord_adds added
    obtain ⟨-, -, -, -, -, -, short, -⟩ := addTxtRecord_ok added
    have targeted' := (target_congr adds.shape).trans targeted
    obtain ⟨zone, loaded⟩ := loaded_of_fileRecords
      (show fileRecords site (d.write r.file r.text) r.file name TXT ≠ none by simp [adds.stored])
    obtain ⟨r', added', file⟩ := addTxtRecord_isOk targeted' loaded short
    obtain ⟨name', targeted'', adds'⟩ := addTxtRecord_adds added'
    obtain ⟨-, rfl⟩ := Prod.mk.inj (Option.some.inj (targeted''.symm.trans targeted'))
    rw [file] at adds'
    refine ⟨(d.write r.file r.text).write r.file r'.text, by simp [perform, added', file], ?_⟩
    intro file' name t
    by_cases here : (file', name) = (r.file, name')
    · obtain ⟨rfl, rfl⟩ := Prod.mk.inj here
      by_cases txt : t = TXT
      · rw [txt, adds'.stored, adds.stored]
        rfl
      · rw [adds'.beside t txt, adds.beside t txt]
        split_ifs <;> rfl
    · exact adds'.others file' name t here

theorem formsMap (site : Site β) (d : Disk β) (calls : List Call)
    (every : EveryStep (after site) (Successful site) d calls) : FormsMap site d calls where
  last := run_content every
  others _ _ t apart := run_others every apart t
  files _ apart := run_files every apart
  removes _ _ _ _ _ targeted := perform_remove ((target_congr (run_shape every)).trans targeted)
  repeats _ _ _ _ := perform_add_again

def sharedSite : Site DnsZone where
  reposPath := ["data", "zone-repo"]
  zonePath := "zones"
  format := .plain

def zoneDisk (zone : DnsZone) : Disk DnsZone :=
  ⟨["data", "zone-repo"], [(["zones", "example.com.zone"], .file zone)], []⟩

/-- Two names share a zone file. -/
theorem formsMap_shared : FormsMap sharedSite (zoneDisk ⟨["example", "com"], []⟩)
    [.add "_acme-challenge.example.com" "token", .remove "_acme-challenge.*.example.com"] := by
  refine formsMap _ _ _ ?_
  simp only [everyStep_cons, everyStep_nil, Successful]
  decide +kernel

/-! ## A challenge and its cleanup -/

/-- Adding a challenge and removing it leaves every record set but that challenge's. -/
def Restores (site : Site β) (d : Disk β) (domain token : String) : Prop :=
  ∀ file name t, ¬ (target site d domain = some (file, name) ∧ t = TXT) →
    fileRecords site (after site (after site d (.add domain token)) (.remove domain)) file name t =
      fileRecords site d file name t

/-- No alias stands at the challenge name, unless the token is too long to be added. -/
def NoAlias (site : Site β) (d : Disk β) (domain token : String) : Prop :=
  ∀ file name, target site d domain = some (file, name) → (Python.encode token).length ≤ 255 →
    ∀ t, TXT.excludes t = true → fileRecords site d file name t = none

/-- A removal touches TXT records only. -/
theorem fileRecords_remove {t : RRType}
    (other : ¬ (target site d domain = some (file, name) ∧ t = TXT)) :
    fileRecords site (after site d (.remove domain)) file name t =
      fileRecords site d file name t := by
  unfold after
  simp only [perform]
  cases removed : removeTxtRecord site d domain with
  | error err => rfl
  | ok changed =>
    cases changed with
    | none => rfl
    | some r =>
      obtain ⟨name', targeted, removes⟩ := removeTxtRecord_removes removed
      by_cases here : (file, name) = (r.file, name')
      · obtain ⟨rfl, rfl⟩ := Prod.mk.inj here
        exact removes.beside t fun txt => other ⟨targeted, txt⟩
      · exact removes.others file name t here

/-- What an addition that succeeds does to the other record sets. -/
theorem fileRecords_add {t : RRType} (added : addTxtRecord site d domain token = .ok r)
    (other : ¬ (target site d domain = some (file, name) ∧ t = TXT)) :
    fileRecords site (after site d (.add domain token)) file name t =
      if target site d domain = some (file, name) ∧ TXT.excludes t = true then none
      else fileRecords site d file name t := by
  obtain ⟨name', targeted, adds⟩ := addTxtRecord_adds added
  have disk : after site d (.add domain token) = d.write r.file r.text := by
    simp only [after, perform, added]
  rw [disk, targeted]
  by_cases here : (file, name) = (r.file, name')
  · obtain ⟨rfl, rfl⟩ := Prod.mk.inj here
    simpa using adds.beside t fun txt => other ⟨targeted, txt⟩
  · have apart : ¬ (some (r.file, name') = some (file, name) ∧ TXT.excludes t = true) :=
      fun both => here (Option.some.inj both.1).symm
    rw [if_neg apart, adds.others file name t here]

theorem restores_iff (site : Site β) (d : Disk β) (domain token : String) :
    Restores site d domain token ↔ NoAlias site d domain token := by
  constructor
  · intro restores file name targeted short t excluded
    by_contra present
    have other : t ≠ TXT := by
      rintro rfl
      exact absurd excluded (by decide)
    obtain ⟨zone, loaded⟩ := loaded_of_fileRecords present
    obtain ⟨r, added, -⟩ := addTxtRecord_isOk targeted loaded short
    have cleaned := restores file name t fun both => other both.2
    rw [fileRecords_remove fun both => other both.2,
      fileRecords_add added fun both => other both.2, if_pos ⟨targeted, excluded⟩] at cleaned
    exact present cleaned.symm
  · intro noAlias file name t other
    cases added : addTxtRecord site d domain token with
    | error err =>
      have disk : after site d (.add domain token) = d := by simp only [after, perform, added]
      rw [disk, fileRecords_remove other]
    | ok r =>
      obtain ⟨name', targeted, adds⟩ := addTxtRecord_adds added
      obtain ⟨-, -, -, -, -, -, short, -⟩ := addTxtRecord_ok added
      have disk : after site d (.add domain token) = d.write r.file r.text := by
        simp only [after, perform, added]
      rw [fileRecords_remove, fileRecords_add added other]
      · split_ifs with excluded
        · exact (noAlias file name excluded.1 short t excluded.2).symm
        · rfl
      · rwa [disk, target_congr adds.shape]

/-- The challenge name is delegated by a CNAME record. -/
def delegated : DnsZone :=
  ⟨["example", "com"], [(["_acme-challenge", "example", "com"],
    [(⟨5, 0⟩, ⟨3600, [.other "auth.example.org."]⟩)])]⟩

theorem loses_alias :
    ¬ Restores sharedSite (zoneDisk delegated) "_acme-challenge.example.com" "token" := by
  intro restores
  have cname := restores ["data", "zone-repo", "zones", "example.com.zone"]
    ["_acme-challenge", "example", "com"] ⟨5, 0⟩ (by simp [TXT])
  revert cname
  decide +kernel

end AcmeGitWebhook.Zones
