import AcmeGitWebhook.Challenge.Request
import AcmeGitWebhook.Library.Git
import AcmeGitWebhook.Library.Run
import AcmeGitWebhook.Zones.Handler

/-!
# The critical section of a challenge request

`app/git_handler.py`, and `acme_auth` and `acme_cleanup` of `app/main.py` with the git backend.
Requests hold the lock one at a time, so a request is one step of a run; the environment of the
request says what happens inside it: which commits other writers land on the remote branch
before each act, which act raises or sees the process die, what a broken-off rewrite leaves in
the zone file, and what becomes of the push.
-/

namespace AcmeGitWebhook.Challenge

open Library Library.Git Zones

/-- What a request does, in this order. `probe` is the wait for propagation after the lock. -/
inductive Act where
  | pull | parse | rewrite | stage | commit | push | release | probe
  deriving DecidableEq, Repr

structure Env (β : Type) where
  /-- Commits that other writers land just before the act, as edits of the tree. -/
  foreign : Act → List (FileTree β → FileTree β) := fun _ => []
  /-- The act raises, or the process dies there. -/
  stops : Act → Bool := fun _ => false
  /-- What a rewrite that stops has put into the file, if anything. -/
  leftover : Option β := none
  /-- The server rejects the pushed branch, which `origin.push` only notes in its result. -/
  declined : Bool := false
  /-- A push that stops has reached the server. -/
  late : Bool := false

/-- The remote branch, the local clone `zone-repo` and the other files of the host. Commits are
numbered as they are made. -/
structure World (β : Type) where
  remote : History β
  clone : Option (Clone β) := none
  host : FileTree β := []
  nextId : Nat := 0

variable {β : Type}

namespace World

/-- Another writer's commit. -/
def foreign (w : World β) (edit : FileTree β → FileTree β) : World β :=
  { w with remote := ⟨w.nextId, edit w.remote.headTree⟩ :: w.remote, nextId := w.nextId + 1 }

def land (w : World β) (edits : List (FileTree β → FileTree β)) : World β := edits.foldl foreign w

/-- The host's files with the working tree of the clone in their place. -/
def disk (site : Site β) (w : World β) : Disk β :=
  ⟨site.reposPath, ((w.clone.map Clone.work).getD []), w.host⟩

def write (site : Site β) (w : World β) (file : Path) (text : β) : World β :=
  let d := (w.disk site).write file text
  { w with clone := w.clone.map fun c => { c with work := d.tree }, host := d.host }

end World

/-- Go on after a success; an exception leaves the world as it is. -/
def andThen {α γ : Type} (x : Except PyError α × World β)
    (f : α → World β → Except PyError γ × World β) : Except PyError γ × World β :=
  match x with
  | (.ok a, w) => f a w
  | (.error err, w) => (.error err, w)

def interrupted (act : String) : PyError := .library act

variable (merge : FileTree β → FileTree β → FileTree β → Option (FileTree β)) (site : Site β)
  (env : Env β)

/-- What happens before an act that may stop before it has done anything. -/
def before (act : Act) (w : World β) : Except PyError Unit × World β :=
  let w := w.land (env.foreign act)
  if env.stops act then (.error (interrupted "stopped"), w) else (.ok (), w)

variable [DecidableEq β]

/-- `clone_or_pull`. Cloning a branch that does not exist fails. -/
def cloneOrPull (w : World β) : Except PyError Unit × World β :=
  andThen (before env .pull w) fun _ w =>
    match w.clone with
    | none =>
      if w.remote = [] then (.error (interrupted "git clone"), w)
      else (.ok (), { w with clone := some (Clone.of w.remote) })
    | some c =>
      let (c, n, pulled) := c.pullRebase merge w.remote w.nextId
      let w := { w with clone := some c, nextId := n }
      if pulled then (.ok (), w) else (.error (interrupted "git pull"), w)

/-- Change a zone file: `edit` is `add_txt_record` or `remove_txt_record` up to the rewrite of
the file. -/
def rewriteZone (edit : Disk β → Except PyError (Option (Rewrite β))) (w : World β) :
    Except PyError (Option Path) × World β :=
  andThen (before env .parse w) fun _ w =>
    match edit (w.disk site) with
    | .error err => (.error err, w)
    | .ok none => (.ok none, w)
    | .ok (some r) =>
      let w := w.land (env.foreign .rewrite)
      if env.stops .rewrite then
        match env.leftover with
        | none => (.error (interrupted "to_file"), w)
        | some text => (.error (interrupted "to_file"), w.write site r.file text)
      else (.ok (some r.file), w.write site r.file r.text)

/-- `origin.push()`. Whether the server takes the branch is in a result that nobody reads. -/
def push (c : Clone β) (w : World β) : Except PyError Unit × World β :=
  let w := w.land (env.foreign .push)
  let taken := if env.declined = false ∧ Accepts w.remote c then { w with remote := c.head } else w
  if env.stops .push then (.error (interrupted "git push"), if env.late then taken else w)
  else (.ok (), taken)

/-- `commit_and_push`. Nothing is committed or pushed unless the clone differs from its last
commit. -/
def commitAndPush (w : World β) : Except PyError Unit × World β :=
  andThen (before env .stage w) fun _ w =>
    match w.clone with
    | none => (.error (interrupted "Repo"), w)
    | some c =>
      if c.Unmodified then (.ok (), w)
      else
        andThen (before env .commit { w with clone := some c.stage }) fun _ w =>
          let c := c.stage.commit w.nextId
          push env c { w with clone := some c, nextId := w.nextId + 1 }

/-- The `try` block after the pull. A request that finds nothing to change commits nothing. -/
def changeAndPush (edit : Disk β → Except PyError (Option (Rewrite β))) (w : World β) :
    Except PyError (Option Path) × World β :=
  andThen (rewriteZone site env edit w) fun changed w =>
    match changed with
    | none => (.ok none, w)
    | some file => andThen (commitAndPush env w) fun _ w => (.ok (some file), w)

/-- The `try` block that both endpoints share. -/
def attempt (edit : Disk β → Except PyError (Option (Rewrite β))) (w : World β) :
    Except PyError (Option Path) × World β :=
  andThen (cloneOrPull merge env w) fun _ w => changeAndPush site env edit w

/-- The `try` block, and the release of the lock whatever came of it. -/
def critical (edit : Disk β → Except PyError (Option (Rewrite β))) (w : World β) :
    Except PyError (Option Path) × World β :=
  let (result, w) := attempt merge site env edit w
  (result, w.land (env.foreign .release))

inductive Answer where
  | ok (domain zoneFile : String)
  | skipped (domain detail : String)
  deriving DecidableEq, Repr

/-- `add_txt_record` as `acme_auth` calls it. -/
def addChallenge (req : AcmeRequest) (d : Disk β) : Except PyError (Option (Rewrite β)) :=
  match addTxtRecord site d req.domain (req.validation.getD "") with
  | .ok r => .ok (some r)
  | .error err => .error err

def acmeAuth (req : AcmeRequest) (w : World β) : Except PyError Answer × World β :=
  andThen (critical merge site env (addChallenge site req) w) fun _ w =>
    if env.stops .probe then (.error (interrupted "check_propagation"), w)
    else (.ok (.ok req.domain (zoneName req.domain ++ site.zoneFileSuffix)), w)

def acmeCleanup (req : AcmeRequest) (w : World β) : Except PyError Answer × World β :=
  andThen (critical merge site env (fun d => removeTxtRecord site d req.domain) w)
    fun changed w =>
      match changed with
      | none => (.ok (.skipped req.domain "No TXT record found to remove"), w)
      | some file => (.ok (.ok req.domain (file.getLast?.getD "")), w)

inductive Event (β : Type) where
  | auth (req : AcmeRequest) (env : Env β)
  | cleanup (req : AcmeRequest) (env : Env β)
  | foreign (edit : FileTree β → FileTree β)

def step (w : World β) : Event β → World β
  | .auth req env => (acmeAuth merge site env req w).2
  | .cleanup req env => (acmeCleanup merge site env req w).2
  | .foreign edit => w.foreign edit

/-! ## A repository with one zone -/

def exampleSite : Site DnsZone where
  reposPath := ["data", "zone-repo"]
  zonePath := "zones"
  format := .plain

def exampleZone : DnsZone :=
  ⟨["example", "com"], [(["example", "com"], [(⟨6, 0⟩, ⟨3600, [.other "SOA"]⟩)])]⟩

def exampleTree : FileTree DnsZone := [(["zones", "example.com.zone"], .file exampleZone)]

def exampleRequest : AcmeRequest :=
  ⟨"_acme-challenge.example.com", some "token", by decide, by decide⟩

example : (acmeAuth (fun _ _ _ => none) exampleSite {} exampleRequest
    ⟨[⟨0, exampleTree⟩], none, [], 1⟩).1.toOption =
      some (.ok "_acme-challenge.example.com" "example.com.zone") := by
  decide +kernel

end AcmeGitWebhook.Challenge
