import AcmeGitWebhook.Challenge.Leftovers

/-!
# Updates are not lost

A request rewrites a whole zone file from its clone and commits all it finds. `serialised` says
what runs of requests come to when no git step fails and other writers commit between the critical
sections: a challenge name has the record of the last request for it, and every other record is as
its last writer left it. That is if the zone files are found by the glob with which they are staged;
below a hidden directory an update is lost though every push is accepted (`loses_hidden`).
-/

namespace AcmeGitWebhook.Challenge

open Library Library.Git Zones

variable {β : Type} {merge : FileTree β → FileTree β → FileTree β → Option (FileTree β)}
  {site : Site β} {env : Env β} {w : World β} {d d' : Disk β} {file : Path} {name : DnsName}
  {domain : String} {items : List Rdata} {edit : Disk β → Except PyError (Option (Rewrite β))}

/-! ## Records of a branch -/

/-- The records in a tree of the repository, whose zone files go by their paths in it. -/
def records (site : Site β) (tree : FileTree β) (file : Path) (name : DnsName) (t : RRType) :
    Option Rdataset :=
  match tree.get? file with
  | some (.file text) =>
    match parseZone site (site.reposPath ++ file) text with
    | .ok zone => zone.getRdataset name t
    | .error _ => none
  | _ => none

def txtAt (site : Site β) (tree : FileTree β) (file : Path) (name : DnsName) : List Rdata :=
  ((records site tree file name TXT).map Rdataset.items).getD []

/-- The remote branch, checked out on the host. -/
def published (site : Site β) (w : World β) : Disk β := ⟨site.reposPath, w.remote.headTree, w.host⟩

/-- Where the challenge record of a domain belongs: the zone file in the repository, and the
name. -/
def place (site : Site β) (d : Disk β) (domain : String) : Option (Path × DnsName) :=
  match resolveZonePath site d domain, acmeName site domain with
  | some zoneFile, .ok name =>
    if d.root <+: zoneFile then some (zoneFile.drop d.root.length, name) else none
  | _, _ => none

/-- The TXT records that a name of a zone file is to have. -/
structure RecordChange where
  file : Path
  name : DnsName
  items : List Rdata
  deriving DecidableEq, Repr

/-- The change that a request asks for. One that raises asks for none. -/
def asked (site : Site β) (edit : Disk β → Except PyError (Option (Rewrite β))) (domain : String)
    (items : List Rdata) (d : Disk β) : Option RecordChange :=
  match edit d with
  | .ok _ => (place site d domain).map fun (file, name) => ⟨file, name, items⟩
  | .error _ => none

def change (site : Site β) (d : Disk β) : Event β → Option RecordChange
  | .auth req _ =>
    asked site (addChallenge site req) req.domain
      [.txt [Python.encode (req.validation.getD "")]] d
  | .cleanup req _ => asked site (fun d => removeTxtRecord site d req.domain) req.domain [] d
  | .foreign _ => none

theorem records_congr {tree tree' : FileTree β} (same : FileTree.Same tree tree') (file : Path)
    (name : DnsName) (t : RRType) :
    records site tree file name t = records site tree' file name t := by
  simp only [records, same file]

theorem place_congr (shape : Disk.SameShape d d') (domain : String) :
    place site d' domain = place site d domain := by
  simp only [place, resolveZonePath_congr shape, shape.root]

theorem place_eq_some :
    place site d domain = some (file, name) ↔ ∃ zoneFile,
      resolveZonePath site d domain = some zoneFile ∧ acmeName site domain = .ok name ∧
        d.root <+: zoneFile ∧ zoneFile.drop d.root.length = file := by
  unfold place
  split
  · next zoneFile name' resolved named =>
    split_ifs with inside <;> simp [resolved, named, inside, and_comm]
  · next none =>
    simp only [reduceCtorEq, false_iff, not_exists, not_and]
    exact fun zoneFile resolved named => absurd named (none zoneFile name resolved)

theorem asked_eq_some {c : RecordChange} :
    asked site edit domain items d = some c ↔ (∃ result, edit d = .ok result) ∧
      place site d domain = some (c.file, c.name) ∧ c.items = items := by
  unfold asked
  rcases edit d with err | result
  · simp
  · constructor
    · intro h
      obtain ⟨⟨file, name⟩, found, rfl⟩ := Option.map_eq_some_iff.mp h
      exact ⟨⟨result, rfl⟩, found, rfl⟩
    · rintro ⟨-, found, rfl⟩
      simp [found]

/-! ## What a request makes of them -/

/-- The disk after a request has rewritten its zone file. -/
def rewritten (edit : Disk β → Except PyError (Option (Rewrite β))) (d : Disk β) : Disk β :=
  match edit d with
  | .ok (some r) => d.write r.file r.text
  | _ => d

/-- Editing gives the challenge name of the domain these TXT records, or finds that it has
them. -/
structure Gives (site : Site β) (edit : Disk β → Except PyError (Option (Rewrite β)))
    (domain : String) (items : List Rdata) : Prop where
  edits : ∀ d r, edit d = .ok (some r) → ∃ name zone zone',
    Edits site d domain r name zone zone' ∧
      ((zone'.getRdataset name TXT).map Rdataset.items).getD [] = items
  idle : ∀ d zoneFile, edit d = .ok none → resolveZonePath site d domain = some zoneFile →
    ∃ name zone, loadZone site d zoneFile = .ok zone ∧ acmeName site domain = .ok name ∧
      ((zone.getRdataset name TXT).map Rdataset.items).getD [] = items

theorem addChallenge_gives (site : Site β) (req : AcmeRequest) :
    Gives site (addChallenge site req) req.domain
      [.txt [Python.encode (req.validation.getD "")]] := by
  constructor
  · intro d r h
    obtain ⟨name, zone, zone', ttl, edits, stored⟩ := addTxtRecord_edits (addChallenge_ok h)
    exact ⟨name, zone, zone', edits, by rw [stored]; rfl⟩
  · intro d zoneFile h
    unfold addChallenge at h
    split at h <;> cases h

theorem removeTxtRecord_gives (site : Site β) (domain : String) :
    Gives site (fun d => removeTxtRecord site d domain) domain [] := by
  constructor
  · intro d r h
    obtain ⟨name, zone, zone', edits, gone⟩ := removeTxtRecord_edits h
    exact ⟨name, zone, zone', edits, by rw [gone]; rfl⟩
  · intro d zoneFile h resolved
    obtain ⟨name, zone, loaded, named, absent⟩ := removeTxtRecord_none h resolved
    exact ⟨name, zone, loaded, named, by rw [absent]; rfl⟩

/-- What is read from a file of the repository is on record. -/
theorem records_of_load {zoneFile : Path} {zone : DnsZone} (root : d.root = site.reposPath)
    (inside : d.root <+: zoneFile) (loaded : loadZone site d zoneFile = .ok zone)
    (name : DnsName) (t : RRType) :
    records site d.tree (zoneFile.drop d.root.length) name t = zone.getRdataset name t := by
  obtain ⟨text, found, parsed⟩ := loadZone_ok loaded
  have file := Disk.lookup_of_read found
  rw [Disk.lookup, if_pos inside] at file
  have path : site.reposPath ++ zoneFile.drop d.root.length = zoneFile := by
    rw [← root]
    exact (List.prefix_iff_eq_append.mp inside)
  simp only [records, file, path, parsed]

/-- A rewrite of a file outside the clone, or with the text it has, leaves the tree. -/
theorem rewritten_same (d : Disk β) (kept : ∀ r, edit d = .ok (some r) → d.root <+: r.file →
    d.read? r.file = some r.text) : FileTree.Same d.tree (rewritten edit d).tree := by
  unfold rewritten
  split
  · next r ok =>
    unfold Disk.write
    split_ifs with inside
    · have file := Disk.lookup_of_read (kept r ok inside)
      rw [Disk.lookup, if_pos inside] at file
      exact (FileTree.same_set_iff.mpr file).symm
    · exact .rfl
  · exact .rfl

theorem rewritten_sameShape (gives : Gives site edit domain items) (d : Disk β) :
    Disk.SameShape d (rewritten edit d) := by
  unfold rewritten
  split
  · next r h =>
    obtain ⟨name, zone, zone', edits, -⟩ := gives.edits d r h
    obtain ⟨old, found, -⟩ := edits.exists_file
    exact Disk.write_sameShape found r.text
  · exact Disk.SameShape.refl d

/-- The records of the rewritten file are those of the changed zone. -/
theorem records_of_edits {r : Rewrite β} {zone zone' : DnsZone}
    (edits : Edits site d domain r name zone zone') (root : d.root = site.reposPath)
    (inside : d.root <+: r.file) (name' : DnsName) (t : RRType) :
    records site (d.write r.file r.text).tree (r.file.drop d.root.length) name' t =
      zone'.getRdataset name' t := by
  obtain ⟨again, parsed, same⟩ := edits.parse
  obtain ⟨old, found, -⟩ := edits.exists_file
  have shape := Disk.write_sameShape found r.text
  have loaded : loadZone site (d.write r.file r.text) r.file = .ok again := by
    simp only [loadZone, Disk.read_write, parsed]
  have read := records_of_load (shape.root.trans root) (shape.root ▸ inside) loaded name' t
  rwa [shape.root, same] at read

theorem rewritten_txt {c : RecordChange} (gives : Gives site edit domain items)
    (root : d.root = site.reposPath) (asks : asked site edit domain items d = some c) :
    txtAt site (rewritten edit d).tree c.file c.name = c.items := by
  obtain ⟨⟨result, ok⟩, placed, carried⟩ := asked_eq_some.mp asks
  obtain ⟨zoneFile, resolved, named, inside, path⟩ := place_eq_some.mp placed
  rw [rewritten, ok, carried, ← path]
  cases result with
  | none =>
    obtain ⟨name, zone, loaded, named', has⟩ := gives.idle d zoneFile ok resolved
    obtain rfl := Except.ok.inj (named.symm.trans named')
    rw [txtAt, records_of_load root inside loaded, has]
  | some r =>
    obtain ⟨name, zone, zone', edits, has⟩ := gives.edits d r ok
    obtain rfl := Option.some.inj (resolved.symm.trans edits.resolved)
    obtain rfl := Except.ok.inj (named.symm.trans edits.named)
    rw [txtAt, records_of_edits edits root inside, has]

/-- All records but those the request is about stay. -/
theorem rewritten_others (gives : Gives site edit domain items) (root : d.root = site.reposPath)
    (spared : asked site edit domain items d ≠ some ⟨file, name, items⟩) (t : RRType) :
    records site (rewritten edit d).tree file name t = records site d.tree file name t := by
  unfold rewritten
  split
  · next r ok =>
    obtain ⟨name', zone, zone', edits, -⟩ := gives.edits d r ok
    by_cases inside : d.root <+: r.file
    · by_cases here : file = r.file.drop d.root.length
      · subst here
        have other : name ≠ name' := by
          rintro rfl
          have placed := place_eq_some.mpr ⟨r.file, edits.resolved, edits.named, inside, rfl⟩
          exact spared (asked_eq_some.mpr ⟨⟨_, ok⟩, placed, rfl⟩)
        rw [records_of_edits edits root inside, records_of_load root inside edits.loaded,
          edits.change.getRdataset_of_ne other]
      · simp only [records, Disk.write, if_pos inside, Dict.get?_set_of_ne _ _ here]
    · rw [Disk.write, if_neg inside]
  · rfl

/-! ## A request whose git steps take effect -/

/-- The request has the branch to itself, no act up to the release of the lock stops, and the
server does not decline the push. -/
structure Undisturbed (env : Env β) : Prop where
  alone : ∀ act, env.foreign act = []
  through : ∀ act, act ≠ .probe → env.stops act = false
  accepted : env.declined = false

theorem Undisturbed.goes (undisturbed : Undisturbed env) {act : Act} (h : act ≠ .probe) :
    ¬ env.stops act = true := by
  simp [undisturbed.through act h]

theorem Undisturbed.land (undisturbed : Undisturbed env) (act : Act) (w : World β) :
    w.land (env.foreign act) = w := by
  rw [undisturbed.alone]
  rfl

theorem Undisturbed.reaches (undisturbed : Undisturbed env) : Reaches env env.between := by
  refine ⟨?_, undisturbed.accepted, fun stops => absurd stops (undisturbed.goes (by decide))⟩
  simp only [Env.between, undisturbed.alone, List.append_nil]

variable [DecidableEq β]

theorem push_host (env : Env β) (c : Clone β) (w : World β) : (push env c w).2.host = w.host := by
  rw [push_eq]
  dsimp only
  split <;> simp

theorem commitAndPush_host (env : Env β) (w : World β) :
    (commitAndPush env w).2.host = w.host := by
  rw [commitAndPush, andThen_before]
  split
  · exact land_host w _
  · rw [← land_host w (env.foreign .stage)]
    split
    · rfl
    · split
      · rfl
      · rw [andThen_before]
        split
        · exact land_host _ _
        · rw [push_host]
          exact land_host _ _

theorem changeAndPush_host (undisturbed : Undisturbed env) (w : World β) :
    (changeAndPush site env edit w).2.host = (rewritten edit (w.disk site)).host := by
  have writes : ¬ env.stops .rewrite = true := undisturbed.goes (by decide)
  have world : (rewriteZone site env edit w).2.host = (rewritten edit (w.disk site)).host := by
    rw [rewriteZone, andThen_before, if_neg (undisturbed.goes (by decide)), land_disk, rewritten]
    rcases edit (w.disk site) with err | _ | r
    · exact land_host w _
    · exact land_host w _
    · simp only [if_neg writes, World.write, land_disk]
  rw [← world]
  unfold changeAndPush
  rcases rewriteZone site env edit w with ⟨err | _ | file, w'⟩
  · rfl
  · rfl
  · exact andThen_world.symm ▸ commitAndPush_host env w'

/-- With a fresh checkout, a request that leaves a clean clone has put its rewrite on the
branch. -/
theorem changeAndPush_published (undisturbed : Undisturbed env) (numbered : Numbered w)
    (done : Clean (changeAndPush site env edit w.checkedOut).2) :
    FileTree.Same (changeAndPush site env edit w.checkedOut).2.remote.headTree
      (rewritten edit (published site w)).tree := by
  have pulled := checkedOut_pulled numbered
  have disk : w.checkedOut.disk site = published site w := checkedOut_disk site w
  have complete := (clean_changeAndPush_iff pulled (checkedOut_clean w)).mp done
  rcases (changeAndPush_outcome pulled :
    Outcome site env edit w.checkedOut (Clone.of w.remote) _) with
    ⟨same, kept⟩ | ⟨changes, stops, -, -, -⟩ | ⟨changes, -, -, -, pushed⟩
  · obtain ⟨edits, sources, grown⟩ := kept.grown
    have none : edits = [] := by
      refine List.eq_nil_iff_forall_not_mem.mpr fun e mem => ?_
      obtain ⟨act, source⟩ := sources e mem
      simp [undisturbed.alone act] at source
    rw [grown.tree, none]
    refine rewritten_same (published site w) fun r ok inside => ?_
    have goes := undisturbed.through .rewrite (by decide)
    by_contra changed
    exact same r r.text ⟨undisturbed.through .parse (by decide), disk ▸ ok, inside,
      by simp [written, goes], disk ▸ changed⟩
  · exfalso
    rcases stops with stops | stops | stops <;> exact undisturbed.goes (by decide) stops
  · next r id =>
    obtain ⟨-, visible⟩ := complete r r.text changes
    have ok := changes.rewrite
    have inside : (published site w).root <+: r.file := changes.inside
    rw [disk] at ok
    rw [pushed.taken undisturbed.reaches, rewritten, ok]
    dsimp only
    rw [Disk.write, if_pos inside]
    exact Clone.stageAll_set_visible pulled.unmodified.1 visible

/-- The branch after a request has the rewrite that the request makes of it, and all zone files
are where they were. -/
structure Lands (site : Site β) (edit : Disk β → Except PyError (Option (Rewrite β)))
    (w w' : World β) : Prop where
  tree : FileTree.Same w'.remote.headTree (rewritten edit (published site w)).tree
  shape : Disk.SameShape (published site w) (published site w')

/-- The pull brings a clean clone, a stale one or none, to the branch, so that what is rewritten
is what the branch has. -/
theorem critical_lands (gives : Gives site edit domain items) (undisturbed : Undisturbed env)
    (numbered : Numbered w) (clean : Clean w)
    (done : Clean (critical merge site env edit w).2) :
    Lands site edit w (critical merge site env edit w).2 := by
  simp only [critical, undisturbed.land, attempt] at done ⊢
  rcases cloneOrPull_clean merge env clean with ⟨why, err, failed⟩ | ⟨-, pulled⟩
  · rw [undisturbed.land] at why failed
    rw [failed]
    refine ⟨rewritten_same (published site w) fun r ok inside => ?_, Disk.SameShape.refl _⟩
    have empty := why.resolve_left (undisturbed.goes (by decide))
    obtain ⟨name, zone, zone', edits, -⟩ := gives.edits _ r ok
    obtain ⟨old, found, -⟩ := edits.exists_file
    have file := Disk.lookup_of_read found
    rw [Disk.lookup, if_pos inside] at file
    simp [published, empty, History.headTree] at file
  · rw [undisturbed.land] at pulled
    rw [pulled, andThen_of_ok] at done ⊢
    have after := rewritten_sameShape gives (published site w)
    have tree := changeAndPush_published undisturbed numbered done
    have host : (changeAndPush site env edit w.checkedOut).2.host =
        (rewritten edit (published site w)).host := by
      rw [changeAndPush_host undisturbed, checkedOut_disk, published]
    refine ⟨tree, rfl, fun p => ?_, fun p => ?_⟩
    · exact (congrArg (Option.map Node.shape) (tree p)).trans (after.tree p)
    · rw [published, host]
      exact after.host p

/-! ## One step of a run -/

/-- The domain that a request is for. -/
def Event.domain? : Event β → Option String
  | .auth req _ => some req.domain
  | .cleanup req _ => some req.domain
  | .foreign _ => none

/-- What is assumed of each step of a run. The git steps of a request are undisturbed. A commit of
another writer leaves the zone files that the domains belong to where they are, and the TXT records
of the challenge names as they are. -/
def TakesEffect (site : Site β) (domains : List String) (w : World β) : Event β → Prop
  | .auth _ env | .cleanup _ env => Undisturbed env
  | .foreign edit => ∀ domain ∈ domains,
      place site (published site (w.foreign edit)) domain = place site (published site w) domain ∧
        ∀ file name, place site (published site w) domain = some (file, name) →
          txtAt site (edit w.remote.headTree) file name = txtAt site w.remote.headTree file name

/-- No directory at the top of the repository hides the zone file of a request from the glob of
`index.add`. -/
def Visible (site : Site β) (w : World β) (event : Event β) : Prop :=
  ∀ domain ∈ event.domain?, ∀ file name,
    place site (published site w) domain = some (file, name) → Clone.hidden file = false

/-- The step takes effect, and what it changes is found. -/
structure Settles (site : Site β) (domains : List String) (w : World β) (event : Event β) :
    Prop where
  takes : TakesEffect site domains w event
  visible : Visible site w event

/-- The event is a request for this name in this zone file. -/
def Addresses (site : Site β) (file : Path) (name : DnsName) (w : World β) (event : Event β) :
    Prop :=
  ∃ items, change site (published site w) event = some ⟨file, name, items⟩

/-- The event is a request for this name, or a commit of another writer that changes its
records. -/
def Touches (site : Site β) (file : Path) (name : DnsName) (w : World β) : Event β → Prop
  | .foreign edit => ∃ t, records site (edit w.remote.headTree) file name t ≠
      records site w.remote.headTree file name t
  | event => Addresses site file name w event

variable {domains : List String} {event : Event β}

/-- A request is an edit of the published disk, for its domain. -/
structure Requests (merge : FileTree β → FileTree β → FileTree β → Option (FileTree β))
    (site : Site β) (w : World β) (event : Event β)
    (edit : Disk β → Except PyError (Option (Rewrite β))) (domain : String)
    (items : List Rdata) : Prop where
  about : event.domain? = some domain
  asks : ∀ d, change site d event = asked site edit domain items d
  gives : Gives site edit domain items
  lands : Lands site edit w (step merge site w event)

omit [DecidableEq β] in
/-- An undisturbed request publishes what it changes, if the glob finds its zone file. -/
theorem Undisturbed.completes (undisturbed : Undisturbed env) (gives : Gives site edit domain items)
    (visible : ∀ file name, place site (published site w) domain = some (file, name) →
      Clone.hidden file = false) : Completes site env edit w := by
  intro _ r text changes
  have disk : remoteDisk site env w = published site w := by
    rw [remoteDisk, undisturbed.land]
    rfl
  rw [disk] at changes
  obtain ⟨name, zone, zone', edits, -⟩ := gives.edits _ r changes.rewrite
  have placed : place site (published site w) domain =
      some (r.file.drop site.reposPath.length, name) :=
    place_eq_some.mpr ⟨r.file, edits.resolved, edits.named, changes.inside, rfl⟩
  exact ⟨⟨undisturbed.through .rewrite (by decide), undisturbed.through .stage (by decide),
    undisturbed.through .commit (by decide), undisturbed.reaches⟩, visible _ name placed⟩

theorem step_clean (numbered : Numbered w) (clean : Clean w)
    (settles : Settles site domains w event) : Clean (step merge site w event) := by
  obtain ⟨takes, visible⟩ := settles
  refine (clean_step_iff numbered clean event).mpr ?_
  cases event with
  | auth req env =>
    exact Undisturbed.completes takes (addChallenge_gives site req) (visible req.domain rfl)
  | cleanup req env =>
    exact Undisturbed.completes takes (removeTxtRecord_gives site req.domain)
      (visible req.domain rfl)
  | foreign edit => trivial

variable (merge) in
/-- What the steps of a run can do to the branch. -/
theorem step_cases (numbered : Numbered w) (clean : Clean w)
    (settles : Settles site domains w event) :
    (∃ edit, event = .foreign edit) ∨
      ∃ edit domain items, Requests merge site w event edit domain items := by
  have done : Clean (step merge site w event) := step_clean numbered clean settles
  cases event with
  | auth req env =>
    have gives := addChallenge_gives site req
    refine Or.inr ⟨addChallenge site req, req.domain, _, rfl, fun _ => rfl, gives, ?_⟩
    rw [step, acmeAuth_world] at done ⊢
    exact critical_lands gives settles.takes numbered clean done
  | cleanup req env =>
    have gives := removeTxtRecord_gives site req.domain
    refine Or.inr ⟨_, req.domain, [], rfl, fun _ => rfl, gives, ?_⟩
    rw [step, acmeCleanup_world] at done ⊢
    exact critical_lands gives settles.takes numbered clean done
  | foreign edit => exact Or.inl ⟨edit, rfl⟩

theorem step_place (numbered : Numbered w) (clean : Clean w)
    (settles : Settles site domains w event) (known : domain ∈ domains) :
    place site (published site (step merge site w event)) domain =
      place site (published site w) domain := by
  rcases step_cases merge numbered clean settles with ⟨edit, rfl⟩ | ⟨edit, domain', items, request⟩
  · exact (settles.takes domain known).1
  · exact place_congr request.lands.shape domain

/-- After a request the challenge name has what it asked for. -/
theorem step_txt {c : RecordChange} (numbered : Numbered w) (clean : Clean w)
    (settles : Settles site domains w event)
    (asks : change site (published site w) event = some c) :
    txtAt site (step merge site w event).remote.headTree c.file c.name = c.items := by
  rcases step_cases merge numbered clean settles with ⟨edit, rfl⟩ | ⟨edit, domain, items, request⟩
  · cases asks
  · rw [request.asks] at asks
    rw [txtAt, records_congr request.lands.tree, ← txtAt]
    exact rewritten_txt request.gives rfl asks

theorem step_others (numbered : Numbered w) (clean : Clean w)
    (settles : Settles site domains w event)
    (spared : ¬ Touches site file name w event) (t : RRType) :
    records site (step merge site w event).remote.headTree file name t =
      records site w.remote.headTree file name t := by
  rcases step_cases merge numbered clean settles with ⟨edit, rfl⟩ | ⟨edit, domain, items, request⟩
  · by_contra changed
    exact spared ⟨t, changed⟩
  · have unasked : ¬ Addresses site file name w event := by
      cases event with
      | auth req env => exact spared
      | cleanup req env => exact spared
      | foreign edit => exact absurd request.about (by simp [Event.domain?])
    rw [records_congr request.lands.tree]
    refine rewritten_others request.gives rfl (fun asks => ?_) t
    exact unasked ⟨items, (request.asks _).trans asks⟩

/-- The TXT records of a challenge name stay at a step that is no request for it. -/
theorem step_keeps_txt (numbered : Numbered w) (clean : Clean w)
    (settles : Settles site domains w event) (known : domain ∈ domains)
    (placed : place site (published site w) domain = some (file, name))
    (spared : ¬ Addresses site file name w event) :
    txtAt site (step merge site w event).remote.headTree file name =
      txtAt site w.remote.headTree file name := by
  cases event with
  | foreign edit => exact (settles.takes domain known).2 file name placed
  | auth req env => rw [txtAt, step_others numbered clean settles spared, ← txtAt]
  | cleanup req env => rw [txtAt, step_others numbered clean settles spared, ← txtAt]

omit [DecidableEq β] in
theorem visible_of_place (about : event.domain? = some domain)
    (here : (place site (published site w) domain).all (fun placed => !Clone.hidden placed.1) =
      true) : Visible site w event := by
  rintro domain' known file name placed
  obtain rfl := Option.some.inj (about.symm.trans known)
  simpa [placed] using here

/-! ## Runs -/

/-- The domains of a run's requests. -/
def requested (es : List (Event β)) : List String := es.filterMap Event.domain?

/-- The service between two requests, with nothing left over from those before. Its clone may
be missing or behind the remote. -/
structure Ready (merge : FileTree β → FileTree β → FileTree β → Option (FileTree β))
    (site : Site β) (w : World β) : Prop where
  reached : ∃ trees host before, w = run (step merge site) (World.initial trees host) before
  clean : Clean w

/-- At the end of a run the remote branch is what the requests and the other writers made of
it, one after the other. -/
structure Serialised (merge : FileTree β → FileTree β → FileTree β → Option (FileTree β))
    (site : Site β) (w : World β) (es : List (Event β)) : Prop where
  /-- A challenge name has what the last request for it asked for. -/
  txt : ∀ pre event post c, es = pre ++ event :: post →
    change site (published site (run (step merge site) w pre)) event = some c →
    EveryStep (step merge site) (fun w later => ¬ Addresses site c.file c.name w later)
      (run (step merge site) w (pre ++ [event])) post →
    txtAt site (run (step merge site) w es).remote.headTree c.file c.name = c.items
  /-- Any other record is as it was left by the last commit of another writer that changed it,
  or as it was at first. -/
  others : ∀ pre post file name, es = pre ++ post →
    EveryStep (step merge site) (fun w later => ¬ Touches site file name w later)
      (run (step merge site) w pre) post →
    ∀ t, records site (run (step merge site) w es).remote.headTree file name t =
      records site (run (step merge site) w pre).remote.headTree file name t

theorem Ready.numbered (ready : Ready merge site w) : Numbered w := by
  obtain ⟨trees, host, before, rfl⟩ := ready.reached
  exact run_invariant (I := Numbered) (fun _ event numbered => step_numbered numbered event)
    (initial_numbered trees host) before

/-- What every state of such a run has. -/
structure Good (w : World β) : Prop where
  numbered : Numbered w
  clean : Clean w

theorem step_good (good : Good w) (settles : Settles site domains w event) :
    Good (step merge site w event) :=
  ⟨step_numbered good.numbered event, step_clean good.numbered good.clean settles⟩

theorem run_good {es : List (Event β)} (good : Good w)
    (settles : EveryStep (step merge site) (Settles site domains) w es) :
    Good (run (step merge site) w es) :=
  (EveryStep.invariant (fun _ _ good settles => step_good good settles) good settles).last

theorem run_others {es : List (Event β)} (good : Good w)
    (settles : EveryStep (step merge site) (Settles site domains) w es)
    (spared : EveryStep (step merge site) (fun w later => ¬ Touches site file name w later) w es)
    (t : RRType) :
    records site (run (step merge site) w es).remote.headTree file name t =
      records site w.remote.headTree file name t := by
  refine EveryStep.run_eq (f := fun w => records site w.remote.headTree file name t)
    (fun w event good h => step_good good h.1) (fun w event good h => ?_) good (settles.and spared)
  exact step_others good.numbered good.clean h.1 h.2 t

theorem run_keeps_txt {es : List (Event β)} (good : Good w)
    (settles : EveryStep (step merge site) (Settles site domains) w es)
    (known : domain ∈ domains)
    (placed : place site (published site w) domain = some (file, name))
    (spared : EveryStep (step merge site) (fun w later => ¬ Addresses site file name w later) w
      es) :
    txtAt site (run (step merge site) w es).remote.headTree file name =
      txtAt site w.remote.headTree file name := by
  -- the zone file of the domain stays in its place, so that other writers spare it
  refine EveryStep.run_eq (f := fun w => txtAt site w.remote.headTree file name)
    (I := fun w => Good w ∧ place site (published site w) domain = some (file, name))
    (fun w event inv h => ?_) (fun w event inv h => ?_) ⟨good, placed⟩ (settles.and spared)
  · obtain ⟨good, placed⟩ := inv
    exact ⟨step_good good h.1, (step_place good.numbered good.clean h.1 known).trans placed⟩
  · obtain ⟨good, placed⟩ := inv
    exact step_keeps_txt good.numbered good.clean h.1 known placed h.2

omit [DecidableEq β] in
theorem change_place {c : RecordChange} (asks : change site d event = some c) :
    ∃ domain, event.domain? = some domain ∧ place site d domain = some (c.file, c.name) := by
  cases event with
  | auth req env =>
    rw [change, asked_eq_some] at asks
    exact ⟨req.domain, rfl, asks.2.1⟩
  | cleanup req env =>
    rw [change, asked_eq_some] at asks
    exact ⟨req.domain, rfl, asks.2.1⟩
  | foreign edit => cases asks

/-- Updates that take effect are not lost, whatever the order of the requests and whatever
other writers commit to other names between them, as long as no zone file of theirs is hidden. -/
theorem serialised {es : List (Event β)} (ready : Ready merge site w)
    (takes : EveryStep (step merge site) (TakesEffect site (requested es)) w es)
    (visible : EveryStep (step merge site) (Visible site) w es) :
    Serialised merge site w es := by
  have start : Good w := ⟨ready.numbered, ready.clean⟩
  have settles : EveryStep (step merge site) (Settles site (requested es)) w es :=
    fun pre event post split => ⟨takes pre event post split, visible pre event post split⟩
  constructor
  · rintro pre event post c rfl asks spared
    rw [everyStep_append, everyStep_cons] at settles
    obtain ⟨before, first, after⟩ := settles
    have good := run_good start before
    have good' : Good (step merge site _ event) := step_good good first
    obtain ⟨domain, about, placed⟩ := change_place asks
    have known : domain ∈ requested (pre ++ event :: post) :=
      List.mem_filterMap.mpr ⟨event, by simp, about⟩
    have placed' : place site (published site (step merge site _ event)) domain =
        some (c.file, c.name) :=
      (step_place good.numbered good.clean first known).trans placed
    rw [run_concat] at spared
    rw [run_append, run_cons, run_keeps_txt good' after known placed' spared]
    exact step_txt good.numbered good.clean first asks
  · rintro pre post file name rfl spared t
    rw [everyStep_append] at settles
    rw [run_append]
    exact run_others (run_good start settles.1) settles.2 spared t

/-- Another writer adds a host to the zone. -/
def addHost (tree : FileTree DnsZone) : FileTree DnsZone :=
  match tree.get? ["zones", "example.com.zone"] with
  | some (.file zone) =>
    tree.set ["zones", "example.com.zone"] (.file ⟨zone.origin,
      zone.nodes.set ["www", "example", "com"] [(⟨1, 0⟩, ⟨300, [.other "192.0.2.1"]⟩)]⟩)
  | _ => tree

def exampleRun : List (Event DnsZone) :=
  [.auth exampleRequest {}, .foreign addHost, .cleanup exampleRequest {}]

theorem undisturbed_example : Undisturbed ({} : Env DnsZone) :=
  ⟨fun _ => rfl, fun _ _ => rfl, rfl⟩

theorem exampleRun_serialised :
    Serialised (fun _ _ _ => none) exampleSite (World.initial [exampleTree] []) exampleRun := by
  have ready : Ready (fun _ _ _ => none) exampleSite (World.initial [exampleTree] []) :=
    ⟨⟨[exampleTree], [], [], rfl⟩, by decide⟩
  refine serialised ready ?_ ?_
  · simp only [exampleRun, everyStep_cons, everyStep_nil, and_true]
    refine ⟨undisturbed_example, fun domain known => ?_, undisturbed_example⟩
    have either : domain = exampleRequest.domain ∨ exampleRequest.domain = domain := by
      simpa [requested, Event.domain?] using known
    obtain rfl := either.elim id Eq.symm
    refine ⟨by decide +kernel, fun file name placed => ?_⟩
    have here : place exampleSite (published exampleSite (step (fun _ _ _ => none) exampleSite
        (World.initial [exampleTree] []) (.auth exampleRequest {}))) exampleRequest.domain =
          some (["zones", "example.com.zone"], ["_acme-challenge", "example", "com"]) := by
      decide +kernel
    obtain ⟨rfl, rfl⟩ := Prod.mk.inj (Option.some.inj (here.symm.trans placed))
    decide +kernel
  · simp only [exampleRun, everyStep_cons, everyStep_nil, and_true]
    refine ⟨visible_of_place rfl (by decide +kernel), ?_,
      visible_of_place rfl (by decide +kernel)⟩
    rintro domain ⟨⟩

/-- The zone files are below `.zones`. -/
def hiddenSite : Site DnsZone := { exampleSite with zonePath := ".zones" }

def hiddenTree : FileTree DnsZone := [([".zones", "example.com.zone"], .file exampleZone)]

def hiddenRun : List (Event DnsZone) := [.auth exampleRequest {}]

/-- A request that is answered and whose push is accepted, without its record on the branch. -/
theorem loses_hidden :
    Ready (fun _ _ _ => none) hiddenSite (World.initial [hiddenTree] []) ∧
      EveryStep (step (fun _ _ _ => none) hiddenSite)
        (TakesEffect hiddenSite (requested hiddenRun)) (World.initial [hiddenTree] [])
        hiddenRun ∧
      ¬ Serialised (fun _ _ _ => none) hiddenSite (World.initial [hiddenTree] []) hiddenRun := by
  refine ⟨⟨⟨[hiddenTree], [], [], rfl⟩, by decide⟩, ?_, fun h => ?_⟩
  · simp only [hiddenRun, everyStep_cons, everyStep_nil, and_true]
    exact undisturbed_example
  · have lost := h.txt [] (.auth exampleRequest {}) []
      ⟨[".zones", "example.com.zone"], ["_acme-challenge", "example", "com"],
        [.txt [Python.encode "token"]]⟩ rfl (by decide +kernel) (everyStep_nil _)
    revert lost
    decide +kernel

end AcmeGitWebhook.Challenge
