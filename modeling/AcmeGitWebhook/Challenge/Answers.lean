import AcmeGitWebhook.Challenge.Trace

/-!
# What a successful answer means

`/acme/auth` and `/acme/cleanup` answer 200 once their section is through. `delivers_iff` says
which of these answers are true of the remote branch.
-/

namespace AcmeGitWebhook.Challenge

open Library Library.Git Zones

variable {β : Type} {merge : FileTree β → FileTree β → FileTree β → Option (FileTree β)}
  {site : Site β} {env : Env β} {w w' : World β} {domain : String} {items : List Rdata}
  {edit : Disk β → Except PyError (Option (Rewrite β))}

/-- The TXT records of a challenge name in a tree of the repository, checked out on the host. -/
def txt (site : Site β) (host : FileTree β) (domain : String) (tree : FileTree β) : List Rdata :=
  challengeTxt site ⟨site.reposPath, tree, host⟩ domain

/-- What others land during the request is about other names. -/
def Spares (site : Site β) (env : Env β) (host : FileTree β) (domain : String) : Prop :=
  ∀ act, ∀ e ∈ env.foreign act, ∀ tree,
    txt site host domain (e tree) = txt site host domain tree

/-- The request, working in this world, changes the text of a file and its push is taken. -/
def Pushes (site : Site β) (env : Env β) (edit : Disk β → Except PyError (Option (Rewrite β)))
    (w : World β) (r : Rewrite β) : Prop :=
  Changes site env edit (w.disk site) r r.text ∧ Reaches env env.between

/-- When a request that has pulled brings what it promises to the remote: it pushes a change,
unless the file is hidden from the index and the clone had not got it already; or the remote has
it already. -/
structure Delivers (site : Site β) (env : Env β)
    (edit : Disk β → Except PyError (Option (Rewrite β))) (domain : String)
    (items : List Rdata) (w : World β) : Prop where
  pushed : ∀ r, Pushes site env edit w r →
    Clone.hidden (r.file.drop site.reposPath.length) = false ∨
      ∀ c, w.clone = some c → txt site w.host domain c.head.headTree = items
  present : (∀ r, ¬ Pushes site env edit w r) → txt site w.host domain w.remote.headTree = items

theorem foldl_txt {edits : List (FileTree β → FileTree β)} {host : FileTree β}
    (spares : Spares site env host domain) (sources : ∀ e ∈ edits, ∃ act, e ∈ env.foreign act)
    (tree : FileTree β) :
    txt site host domain (edits.foldl (fun tree e => e tree) tree) =
      txt site host domain tree := by
  induction edits generalizing tree with
  | nil => rfl
  | cons e edits ih =>
    obtain ⟨act, mem⟩ := sources e (by simp)
    rw [List.foldl_cons, ih (fun e' mem' => sources e' (by simp [mem'])), spares act e mem]

/-- Commits to other names leave the records of this one. -/
theorem Grown.txt {edits : List (FileTree β → FileTree β)} {host : FileTree β}
    (grown : Grown edits w w') (spares : Spares site env host domain)
    (sources : ∀ e ∈ edits, ∃ act, e ∈ env.foreign act) :
    txt site host domain w'.remote.headTree = txt site host domain w.remote.headTree := by
  rw [grown.tree, foldl_txt spares sources]

theorem between_sources : ∀ e ∈ env.between, ∃ act, e ∈ env.foreign act := by
  intro e mem
  simp only [Env.between, List.mem_append] at mem
  rcases mem with (((mem | mem) | mem) | mem) | mem <;> exact ⟨_, mem⟩

variable [DecidableEq β]

omit [DecidableEq β] in
/-- The tree that a request commits has what it promises, or, if the file is hidden from the
index, what the clone had. -/
theorem txt_committed {c : Clone β} {r : Rewrite β} (pulled : Pulled w c)
    (rewrites : Rewrites site (w.disk site) domain r items) (inside : site.reposPath <+: r.file) :
    txt site w.host domain
        ((c.edited (r.file.drop site.reposPath.length) (.file r.text)).stage).index =
      if Clone.hidden (r.file.drop site.reposPath.length) then
        txt site w.host domain c.head.headTree
      else items := by
  have clean := pulled.unmodified
  split
  · next hides =>
    exact challengeTxt_congr ((Clone.stageAll_set_hidden clean.1 hides).trans clean.2)
  · next visible =>
    have disk : w.disk site = ⟨site.reposPath, c.work, w.host⟩ := by
      simp [World.disk, pulled.clone]
    have done := challengeTxt_write rewrites (by rwa [disk])
    rw [disk, Disk.write, if_pos inside] at done
    rw [Bool.not_eq_true] at visible
    exact (challengeTxt_congr (Clone.stageAll_set_visible clean.1 visible)).trans done

/-- After the pull, what a successful request leaves on the remote. -/
theorem changeAndPush_delivers_iff {c : Clone β} {changed : Option Path} (pulled : Pulled w c)
    (rewrites : ∀ r, edit (w.disk site) = .ok (some r) →
      Rewrites site (w.disk site) domain r items)
    (spares : Spares site env w.host domain)
    (answered : (changeAndPush site env edit w).1 = .ok changed) :
    txt site w.host domain (changeAndPush site env edit w).2.remote.headTree = items ↔
      Delivers site env edit domain items w := by
  rcases (changeAndPush_outcome pulled : Outcome site env edit w c _) with
    ⟨same, kept⟩ | ⟨changes, stops, failed, clone, modified⟩ |
      ⟨changes, rewritten, staged, committed, pushed⟩
  · obtain ⟨edits, sources, grown⟩ := kept.grown
    have idle : ∀ r, ¬ Pushes site env edit w r := fun r h => same r r.text h.1
    rw [grown.txt spares sources]
    exact ⟨fun present => ⟨fun r h => absurd h (idle r), fun _ => present⟩,
      fun h => h.present idle⟩
  · rw [failed] at answered
    cases answered
  · next r id =>
    have only : ∀ r', Pushes site env edit w r' → r' = r := fun r' h =>
      h.1.unique changes.rewrite
    by_cases reaches : Reaches env env.between
    · have pushes : Pushes site env edit w r := ⟨changes, reaches⟩
      have own := txt_committed pulled (rewrites r changes.rewrite) changes.inside
      rw [pushed.taken reaches]
      refine Iff.trans (b := Clone.hidden (r.file.drop site.reposPath.length) = false ∨
        txt site w.host domain c.head.headTree = items) ?_ ?_
      · refine (Eq.congr_left own).trans ?_
        split <;> grind
      · constructor
        · refine fun h => ⟨fun r' h' => ?_, fun idle => absurd pushes (idle r)⟩
          rw [only r' h']
          refine h.imp_right fun had c' found => ?_
          rwa [← Option.some.inj (pulled.clone.symm.trans found)]
        · exact fun h => (h.pushed r pushes).imp_right fun had => had c pulled.clone
    · obtain ⟨grown, -⟩ := pushed.missed reaches
      rw [grown.txt spares between_sources]
      exact ⟨fun present => ⟨fun r' h => absurd h.2 reaches, fun _ => present⟩,
        fun h => h.present fun r' h' => reaches h'.2⟩

theorem critical_delivers_iff {changed : Option Path} (numbered : Numbered w)
    (rewrites : ∀ d r, edit d = .ok (some r) → Rewrites site d domain r items)
    (spares : Spares site env w.host domain)
    (answered : (critical merge site env edit w).1 = .ok changed) :
    txt site w.host domain (critical merge site env edit w).2.remote.headTree = items ↔
      Delivers site env edit domain items (cloneOrPull merge env w).2 := by
  simp only [critical, attempt] at answered ⊢
  rw [(grown_land _ (env.foreign .release)).txt spares fun e mem => ⟨_, mem⟩]
  rcases eq : cloneOrPull merge env w with ⟨err | _, w₁⟩
  · rw [eq] at answered
    cases answered
  · obtain ⟨-, host, c, pulled⟩ := cloneOrPull_ok numbered eq
    rw [eq, andThen_of_ok] at answered
    rw [andThen_of_ok, ← host]
    exact changeAndPush_delivers_iff pulled (rewrites _) (host ▸ spares) answered

/-! ## Runs -/

/-- A 200 of `/acme/auth` promises exactly the one record, and a 200 of `/acme/cleanup` none,
whatever other writers commit about other names. -/
def Promised (merge : FileTree β → FileTree β → FileTree β → Option (FileTree β)) (site : Site β)
    (w : World β) : Event β → Prop
  | .auth req env => ∀ validation answer, req.validation = some validation →
      Spares site env w.host req.domain → (acmeAuth merge site env req w).1 = .ok answer →
        txt site w.host req.domain (acmeAuth merge site env req w).2.remote.headTree =
          [.txt [Python.encode validation]]
  | .cleanup req env => ∀ answer, Spares site env w.host req.domain →
      (acmeCleanup merge site env req w).1 = .ok answer →
        txt site w.host req.domain (acmeCleanup merge site env req w).2.remote.headTree = []
  | .foreign _ => True

/-- The condition on the same answers. -/
def Delivered (merge : FileTree β → FileTree β → FileTree β → Option (FileTree β))
    (site : Site β) (w : World β) : Event β → Prop
  | .auth req env => ∀ validation answer, req.validation = some validation →
      Spares site env w.host req.domain → (acmeAuth merge site env req w).1 = .ok answer →
        Delivers site env (addChallenge site req) req.domain [.txt [Python.encode validation]]
          (cloneOrPull merge env w).2
  | .cleanup req env => ∀ answer, Spares site env w.host req.domain →
      (acmeCleanup merge site env req w).1 = .ok answer →
        Delivers site env (fun d => removeTxtRecord site d req.domain) req.domain []
          (cloneOrPull merge env w).2
  | .foreign _ => True

omit [DecidableEq β] in
theorem addChallenge_rewrites {req : AcmeRequest} {validation : String}
    (carries : req.validation = some validation) {d : Disk β} {r : Rewrite β}
    (h : addChallenge site req d = .ok (some r)) :
    Rewrites site d req.domain r [.txt [Python.encode validation]] := by
  have added := addChallenge_ok h
  rw [carries, Option.getD_some] at added
  exact addTxtRecord_rewrites added

theorem promised_iff (numbered : Numbered w) (event : Event β) :
    Promised merge site w event ↔ Delivered merge site w event := by
  cases event with
  | auth req env =>
    refine forall₄_congr fun validation answer carries spares => ?_
    refine imp_congr_right fun answered => ?_
    rcases section_eq : critical merge site env (addChallenge site req) w with ⟨err | changed, w'⟩
    · simp [acmeAuth, section_eq, andThen] at answered
    · rw [acmeAuth_world]
      exact critical_delivers_iff numbered (fun d r h => addChallenge_rewrites carries h) spares
        (by rw [section_eq])
  | cleanup req env =>
    refine forall₃_congr fun answer spares answered => ?_
    rcases section_eq : critical merge site env (fun d => removeTxtRecord site d req.domain) w with
      ⟨err | changed, w'⟩
    · simp [acmeCleanup, section_eq, andThen] at answered
    · rw [acmeCleanup_world]
      exact critical_delivers_iff numbered (fun d r h => removeTxtRecord_rewrites h) spares
        (by rw [section_eq])
  | foreign edit => exact Iff.rfl

/-- In a run, all 200 answers are true of the remote branch exactly if each request that is
answered so either pushes what it changed, or finds on the remote what it was asked for. -/
theorem delivers_iff (merge : FileTree β → FileTree β → FileTree β → Option (FileTree β))
    (site : Site β) (trees : List (FileTree β)) (host : FileTree β) (es : List (Event β)) :
    EveryStep (step merge site) (Promised merge site) (World.initial trees host) es ↔
      EveryStep (step merge site) (Delivered merge site) (World.initial trees host) es :=
  everyStep_congr_of_invariant (I := Numbered)
    (fun _ event numbered => step_numbered numbered event)
    (fun _ event numbered => promised_iff numbered event) (initial_numbered trees host) es

/-- The service after a push that the server declined, which `/acme/auth` answers with 200. -/
def declinedWorld : World DnsZone :=
  run (step (fun _ _ _ => none) exampleSite) (World.initial [exampleTree] [])
    [.auth exampleRequest { declined := true }]

/-- The client asks again, the clone has nothing to commit, and the answer is 200 again. -/
theorem answers_without_record : ¬ EveryStep (step (fun _ _ _ => none) exampleSite)
    (Promised (fun _ _ _ => none) exampleSite) (World.initial [exampleTree] [])
    [.auth exampleRequest { declined := true }, .auth exampleRequest {}] := by
  intro promised
  have answered : (acmeAuth (fun _ _ _ => none) exampleSite {} exampleRequest
      declinedWorld).1.toOption = some (.ok "_acme-challenge.example.com" "example.com.zone") := by
    decide +kernel
  have missing : txt exampleSite declinedWorld.host exampleRequest.domain
      (acmeAuth (fun _ _ _ => none) exampleSite {} exampleRequest
        declinedWorld).2.remote.headTree = [] := by
    decide +kernel
  have spares : Spares exampleSite {} declinedWorld.host exampleRequest.domain := by
    intro act e mem
    cases mem
  have second : Promised (fun _ _ _ => none) exampleSite declinedWorld (.auth exampleRequest {}) :=
    promised [.auth exampleRequest { declined := true }] (.auth exampleRequest {}) [] rfl
  rcases eq : (acmeAuth (fun _ _ _ => none) exampleSite {} exampleRequest declinedWorld).1 with
    err | answer
  · simp [eq, Except.toOption] at answered
  · have stored := second "token" answer rfl spares eq
    rw [missing] at stored
    cases stored

end AcmeGitWebhook.Challenge
