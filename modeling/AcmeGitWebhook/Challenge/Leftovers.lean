import AcmeGitWebhook.Challenge.Trace

/-!
# What a failed request leaves behind

`acme_auth` and `acme_cleanup` clean up nothing but the lock. `leavesNothing_iff` says which
runs of requests, with every act allowed to fail, leave a clean clone between requests.
-/

namespace AcmeGitWebhook.Challenge

open Library Library.Git Zones

variable {β : Type} {merge : FileTree β → FileTree β → FileTree β → Option (FileTree β)}
  {site : Site β} {env : Env β} {w : World β}
  {edit : Disk β → Except PyError (Option (Rewrite β))}

/-- The clone has nothing modified, no rebase in progress and no commit that the remote branch
lacks. -/
def Clean (w : World β) : Prop :=
  ∀ c, w.clone = some c → c.Unmodified ∧ c.rebasing = false ∧ c.head <:+ w.remote

instance [DecidableEq β] (w : World β) : Decidable (Clean w) :=
  decidable_of_iff (w.clone.all fun c =>
      decide (c.Unmodified ∧ c.rebasing = false ∧ c.head <:+ w.remote)) <| by
    cases found : w.clone <;> simp [Clean, found]

/-- The disk a request works on when the clone has nothing of its own: the remote branch as the
pull finds it. -/
def remoteDisk (site : Site β) (env : Env β) (w : World β) : Disk β :=
  ⟨site.reposPath, (w.land (env.foreign .pull)).remote.headTree, w.host⟩

/-- The world with a clone that has what the remote branch has. -/
def World.checkedOut (w : World β) : World β := { w with clone := some (Clone.of w.remote) }

/-- Every act from the rewrite to the push takes effect. -/
structure Publishes (env : Env β) : Prop where
  rewrite : env.stops .rewrite = false
  stage : env.stops .stage = false
  commit : env.stops .commit = false
  push : Reaches env env.between

/-- A request that puts another text into a file of the clone publishes it, and no hidden
directory keeps the file from being staged. -/
def Completes (site : Site β) (env : Env β) (edit : Disk β → Except PyError (Option (Rewrite β)))
    (w : World β) : Prop :=
  env.stops .pull = false → ∀ r text, Changes site env edit (remoteDisk site env w) r text →
    Publishes env ∧ Clone.hidden (r.file.drop site.reposPath.length) = false

theorem clean_land_iff (numbered : Numbered w) (edits : List (FileTree β → FileTree β)) :
    Clean (w.land edits) ↔ Clean w := by
  have grown := grown_land w edits
  simp only [Clean, land_clone]
  refine forall₂_congr fun c found => ?_
  have suffix : c.head <:+ (w.land edits).remote ↔ c.head <:+ w.remote :=
    ⟨grown.old_suffix (numbered.clone c found), fun old => old.trans grown.suffix⟩
  rw [suffix]

theorem checkedOut_clean (w : World β) : Clean w.checkedOut := by
  rintro c ⟨⟩
  exact ⟨Clone.of_unmodified _, rfl, List.suffix_refl _⟩

theorem checkedOut_pulled (numbered : Numbered w) :
    Pulled w.checkedOut (Clone.of w.remote) :=
  ⟨rfl, Clone.of_unmodified _, List.suffix_refl _, numbered.remote⟩

theorem checkedOut_disk (site : Site β) (w : World β) :
    w.checkedOut.disk site = ⟨site.reposPath, w.remote.headTree, w.host⟩ := by
  simp [World.disk, World.checkedOut, Clone.of]

variable [DecidableEq β]

/-- Pulling into a clean clone fails and changes nothing, or brings the clone to the remote. -/
theorem cloneOrPull_clean (merge : FileTree β → FileTree β → FileTree β → Option (FileTree β))
    (env : Env β) (clean : Clean w) :
    ((env.stops .pull = true ∨ (w.land (env.foreign .pull)).remote = []) ∧
      ∃ err, cloneOrPull merge env w = (.error err, w.land (env.foreign .pull))) ∨
    (env.stops .pull = false ∧
      cloneOrPull merge env w = (.ok (), (w.land (env.foreign .pull)).checkedOut)) := by
  rw [cloneOrPull, andThen_before]
  by_cases stops : env.stops .pull = true
  · exact Or.inl ⟨Or.inl stops, _, if_pos stops⟩
  · rw [if_neg stops, land_clone]
    cases found : w.clone with
    | none =>
      dsimp only
      split
      · next empty => exact Or.inl ⟨Or.inr empty, _, rfl⟩
      · exact Or.inr ⟨by simpa using stops, rfl⟩
    | some c =>
      obtain ⟨unmodified, idle, suffix⟩ := clean c found
      have old := suffix.trans (grown_land w (env.foreign .pull)).suffix
      refine Or.inr ⟨by simpa using stops, ?_⟩
      dsimp only
      rw [Clone.pullRebase_of_suffix unmodified idle old]
      rfl

/-- After a pull the clone stays clean exactly if what the request changes is published. -/
theorem clean_changeAndPush_iff {c : Clone β} (pulled : Pulled w c) (clean : Clean w) :
    Clean (changeAndPush site env edit w).2 ↔
      ∀ r text, Changes site env edit (w.disk site) r text →
        Publishes env ∧ Clone.hidden (r.file.drop site.reposPath.length) = false := by
  obtain ⟨unmodified, idle, suffix⟩ := clean c pulled.clone
  rcases (changeAndPush_outcome pulled : Outcome site env edit w c _) with
    ⟨same, kept⟩ | ⟨changes, stops, failed, clone, modified⟩ |
      ⟨changes, rewritten, staged, committed, pushed⟩
  · refine iff_of_true (fun c' found => ?_) fun r text changes => absurd changes (same r text)
    obtain ⟨c'', found', unmodified', head, rebasing⟩ := kept.clone
    obtain ⟨edits, -, grown⟩ := kept.grown
    obtain rfl := Option.some.inj (found.symm.trans found')
    exact ⟨unmodified', rebasing.trans idle, head ▸ suffix.trans grown.suffix⟩
  · refine iff_of_false (fun h => modified (h _ clone).1) fun h => ?_
    obtain ⟨publishes, -⟩ := h _ _ changes
    rcases stops with stops | stops | stops
    · exact absurd stops (by simp [publishes.rewrite])
    · exact absurd stops (by simp [publishes.stage])
    · exact absurd stops (by simp [publishes.commit])
  · next r id =>
    have changed := (read_inside pulled.clone changes.inside).not.mp changes.changed
    have visible_iff := Clone.edited_commit_unmodified_iff unmodified changed id
    constructor
    · intro h r' text' changes'
      obtain rfl := changes.unique changes'.rewrite
      obtain ⟨unmodified', -, suffix'⟩ := h _ pushed.clone
      refine ⟨⟨rewritten, staged, committed, ?_⟩, visible_iff.mp unmodified'⟩
      by_contra missed
      exact (pushed.missed missed).2 suffix'
    · intro h c' found
      obtain ⟨publishes, visible⟩ := h _ _ changes
      obtain rfl := Option.some.inj (found.symm.trans pushed.clone)
      exact ⟨visible_iff.mpr visible, idle, (pushed.taken publishes.push) ▸ List.suffix_refl _⟩

omit [DecidableEq β] in
/-- An empty working tree has no file to rewrite. -/
theorem not_changes_of_empty {r : Rewrite β} {text : β} {host : FileTree β}
    (exact : ∀ d r, edit d = .ok (some r) → ∃ old, d.read? r.file = some old) :
    ¬ Changes site env edit ⟨site.reposPath, [], host⟩ r text := by
  intro changes
  obtain ⟨old, found⟩ := exact _ _ changes.rewrite
  simp [Disk.read?, Disk.lookup, changes.inside] at found

theorem clean_critical_iff (numbered : Numbered w) (clean : Clean w)
    (exact : ∀ d r, edit d = .ok (some r) → ∃ old, d.read? r.file = some old) :
    Clean (critical merge site env edit w).2 ↔ Completes site env edit w := by
  have landed := numbered.land (env.foreign .pull)
  have clean' := (clean_land_iff numbered (env.foreign .pull)).mpr clean
  rw [critical, clean_land_iff (attempt_numbered numbered), attempt]
  rcases cloneOrPull_clean merge env clean with ⟨why, err, failed⟩ | ⟨pulls, pulled⟩
  · rw [failed, andThen]
    refine iff_of_true clean' fun pulls r text changes => ?_
    rcases why with stops | empty
    · exact absurd stops (by simp [pulls])
    · rw [remoteDisk, empty] at changes
      exact absurd changes (not_changes_of_empty exact)
  · have disk : (w.land (env.foreign .pull)).checkedOut.disk site = remoteDisk site env w := by
      rw [checkedOut_disk, land_host, remoteDisk]
    rw [pulled, andThen_of_ok,
      clean_changeAndPush_iff (checkedOut_pulled landed) (checkedOut_clean _), disk]
    simp only [Completes, pulls, true_imp_iff]

/-- The condition on one step of a run. -/
def LeavesNothing (site : Site β) (w : World β) : Event β → Prop
  | .auth req env => Completes site env (addChallenge site req) w
  | .cleanup req env => Completes site env (fun d => removeTxtRecord site d req.domain) w
  | .foreign _ => True

theorem clean_step_iff (numbered : Numbered w) (clean : Clean w) (event : Event β) :
    Clean (step merge site w event) ↔ LeavesNothing site w event := by
  cases event with
  | auth req env =>
    rw [step, acmeAuth_world]
    exact clean_critical_iff numbered clean fun d r h =>
      (addTxtRecord_rewrites (addChallenge_ok h)).exists_file
  | cleanup req env =>
    rw [step, acmeCleanup_world]
    exact clean_critical_iff numbered clean fun d r h => (removeTxtRecord_rewrites h).exists_file
  | foreign edit => exact iff_of_true ((clean_land_iff numbered [edit]).mpr clean) trivial

/-- A run leaves a clean clone between its requests exactly if each of its requests that
changes a file of the clone publishes the change. -/
theorem leavesNothing_iff (merge : FileTree β → FileTree β → FileTree β → Option (FileTree β))
    (site : Site β) (trees : List (FileTree β)) (host : FileTree β) (es : List (Event β)) :
    EveryState (step merge site) Clean (World.initial trees host) es ↔
      EveryStep (step merge site) (LeavesNothing site) (World.initial trees host) es :=
  everyState_iff_everyStep_of_invariant (J := Numbered)
    (fun _ event numbered => step_numbered numbered event)
    (fun _ event numbered clean => clean_step_iff numbered clean event)
    (initial_numbered trees host) (by rintro c ⟨⟩) es

/-- A commit that fails leaves its zone file staged. -/
theorem leaves_staged_change : ¬ EveryState (step (fun _ _ _ => none) exampleSite) Clean
    (World.initial [exampleTree] [])
    [.auth exampleRequest { stops := fun act => act = .commit }] := by
  intro clean
  have modified : (run (step (fun _ _ _ => none) exampleSite) (World.initial [exampleTree] [])
      [.auth exampleRequest { stops := fun act => act = .commit }]).clone.map
        (fun c => decide c.Unmodified) = some false := by
    decide +kernel
  obtain ⟨c, found, h⟩ := Option.map_eq_some_iff.mp modified
  exact of_decide_eq_false h (clean.last c found).1

end AcmeGitWebhook.Challenge
