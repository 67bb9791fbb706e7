import AcmeGitWebhook.Challenge.Leftovers
import AcmeGitWebhook.Challenge.Reports

/-!
# What becomes of a clone that is left behind

Between requests a clone is idle, though it may have commits that were not pushed, or it is wedged:
modified, or in the middle of a rebase. A wedged clone makes every later request fail
(`wedged_forever`); an idle one delivers what it has with the next change that is pushed
(`recovers`). `idle_iff` says which runs end with an idle clone.
-/

namespace AcmeGitWebhook.Challenge

open Library Library.Git Zones

variable {β : Type}

/-- The clone has nothing modified and no rebase in progress. -/
def Idle (w : World β) : Prop := ∀ c, w.clone = some c → c.Unmodified ∧ c.rebasing = false

instance [DecidableEq β] (w : World β) : Decidable (Idle w) :=
  decidable_of_iff (w.clone.all fun c => decide (c.Unmodified ∧ c.rebasing = false)) <| by
    cases found : w.clone <;> simp [Idle, found]

/-- What others land during an event whose request, if it is one, ends with its pull. -/
def others : Event β → List (FileTree β → FileTree β)
  | .auth _ env | .cleanup _ env => env.foreign .pull ++ env.foreign .release
  | .foreign edit => [edit]

variable [DecidableEq β] (merge : FileTree β → FileTree β → FileTree β → Option (FileTree β))
  (site : Site β)

/-- The request ends with an exception. -/
def Fails (w : World β) : Event β → Prop
  | .auth req env => ∃ err, (acmeAuth merge site env req w).1 = .error err
  | .cleanup req env => ∃ err, (acmeCleanup merge site env req w).1 = .error err
  | .foreign _ => True

/-- The clone and the remote branch have both moved on, and replaying the clone's commits stops at
one that does not merge. -/
def Conflicts (env : Env β) (w : World β) : Prop :=
  let remote := (w.land (env.foreign .pull)).remote
  env.stops .pull = false ∧ ∃ c, w.clone = some c ∧ ¬ c.head <:+ remote ∧ ¬ remote <:+ c.head ∧
    (Clone.replay merge remote.headTree (Clone.ahead remote c.head)).2 = true

/-- A request that puts another text into a file of its clone gets to its push, and no hidden
directory keeps the file from being staged. -/
def Finishes (env : Env β) (edit : Disk β → Except PyError (Option (Rewrite β))) (d : Disk β) :
    Prop :=
  ∀ r text, Changes site env edit d r text → env.stops .rewrite = false ∧
    env.stops .stage = false ∧ env.stops .commit = false ∧
      Clone.hidden (r.file.drop site.reposPath.length) = false

/-- The pull does not stop at a conflict, and what is done after it is finished. -/
def SmoothSection (env : Env β) (edit : Disk β → Except PyError (Option (Rewrite β)))
    (w : World β) : Prop :=
  ¬ Conflicts merge env w ∧ ((cloneOrPull merge env w).1 = .ok () →
    Finishes site env edit (layout merge site env w))

def Smooth (w : World β) : Event β → Prop
  | .auth req env => SmoothSection merge site env (addChallenge site req) w
  | .cleanup req env => SmoothSection merge site env (fun d => removeTxtRecord site d req.domain) w
  | .foreign _ => True

variable {merge site} {env : Env β} {w : World β}
  {edit : Disk β → Except PyError (Option (Rewrite β))}

omit [DecidableEq β] in
theorem idle_land_iff (edits : List (FileTree β → FileTree β)) : Idle (w.land edits) ↔ Idle w := by
  simp only [Idle, land_clone]

omit [DecidableEq β] in
theorem land_append (w : World β) (edits edits' : List (FileTree β → FileTree β)) :
    (w.land edits).land edits' = w.land (edits ++ edits') := List.foldl_append.symm

/-! ## Wedged clones -/

theorem cloneOrPull_wedged (merge : FileTree β → FileTree β → FileTree β → Option (FileTree β))
    (env : Env β) (wedged : ¬ Idle w) :
    ∃ err, cloneOrPull merge env w = (.error err, w.land (env.foreign .pull)) := by
  obtain ⟨c, found, stuck⟩ : ∃ c, w.clone = some c ∧ (c.rebasing = true ∨ ¬ c.Unmodified) := by
    simp only [Idle, not_forall, not_and_or, Bool.not_eq_false] at wedged
    obtain ⟨c, found, stuck⟩ := wedged
    exact ⟨c, found, stuck.symm⟩
  have landed : (w.land (env.foreign .pull)).clone = some c := by rw [land_clone, found]
  have refused (remote : History β) (n : Nat) : c.pullRebase merge remote n = (c, n, false) :=
    if_pos stuck
  rw [cloneOrPull, andThen_before]
  split
  · exact ⟨_, rfl⟩
  · dsimp only
    rw [landed]
    simp only [refused, Bool.false_eq_true, if_false, ← landed]
    exact ⟨_, rfl⟩

variable (merge site env edit) in
theorem critical_wedged (wedged : ¬ Idle w) : ∃ err, critical merge site env edit w =
    (.error err, w.land (env.foreign .pull ++ env.foreign .release)) := by
  obtain ⟨err, failed⟩ := cloneOrPull_wedged merge env wedged
  exact ⟨err, by rw [critical, attempt, failed, andThen, ← land_append]⟩

variable (merge site) in
theorem step_wedged (wedged : ¬ Idle w) (event : Event β) :
    step merge site w event = w.land (others event) ∧ Fails merge site w event := by
  cases event with
  | auth req env =>
    obtain ⟨err, failed⟩ := critical_wedged merge site env (addChallenge site req) wedged
    refine ⟨by rw [step, acmeAuth_world, failed]; rfl, err, ?_⟩
    rw [acmeAuth, failed, andThen]
  | cleanup req env =>
    obtain ⟨err, failed⟩ := critical_wedged merge site env
      (fun d => removeTxtRecord site d req.domain) wedged
    refine ⟨by rw [step, acmeCleanup_world, failed]; rfl, err, ?_⟩
    rw [acmeCleanup, failed, andThen]
  | foreign edit => exact ⟨rfl, trivial⟩

/-- What a run does to a wedged clone: nothing. -/
theorem run_wedged (wedged : ¬ Idle w) (es : List (Event β)) :
    run (step merge site) w es = w.land (es.flatMap others) ∧
      EveryStep (step merge site) (Fails merge site) w es := by
  induction es generalizing w with
  | nil => exact ⟨rfl, everyStep_nil _⟩
  | cons event es ih =>
    obtain ⟨landed, fails⟩ := step_wedged merge site wedged event
    obtain ⟨rest, failing⟩ := ih (w := w.land (others event)) ((idle_land_iff _).not.mpr wedged)
    rw [everyStep_cons, run_cons, landed, rest, land_append, List.flatMap_cons]
    exact ⟨rfl, fails, failing⟩

/-! ## Idle clones -/

variable (merge) in
/-- A pull into a clean clone leaves no change, and stops only at a commit that does not merge. -/
theorem pullRebase_idle {c : Clone β} (clean : c.Unmodified) (idle : c.rebasing = false)
    (remote : History β) (n : Nat) : (c.pullRebase merge remote n).1.Unmodified ∧
      (c.pullRebase merge remote n).1.rebasing = !(c.pullRebase merge remote n).2.2 ∧
      ((c.pullRebase merge remote n).2.2 = false ↔ ¬ c.head <:+ remote ∧ ¬ remote <:+ c.head ∧
        (Clone.replay merge remote.headTree (Clone.ahead remote c.head)).2 = true) := by
  have ready : ¬ (c.rebasing = true ∨ ¬ c.Unmodified) := by simp [idle, clean]
  rw [Clone.pullRebase, if_neg ready]
  by_cases old : c.head <:+ remote
  · rw [if_pos old]
    exact ⟨Clone.of_unmodified _, rfl, by simp [old]⟩
  · rw [if_neg old]
    by_cases new : remote <:+ c.head
    · rw [if_pos new]
      exact ⟨clean, idle, by simp [new]⟩
    · rw [if_neg new]
      exact ⟨Clone.of_unmodified _, by simp, by simp [old, new]⟩

variable (merge env) in
/-- A pull into an idle clone leaves it idle, whether it succeeds or not, unless it stops at a
conflict. -/
theorem cloneOrPull_idle (idle : Idle w) :
    ((cloneOrPull merge env w).1 = .ok () → ¬ Conflicts merge env w) ∧
      (Idle (cloneOrPull merge env w).2 ↔ ¬ Conflicts merge env w) := by
  have landed : Idle (w.land (env.foreign .pull)) := (idle_land_iff _).mpr idle
  rw [cloneOrPull, andThen_before]
  by_cases stops : env.stops .pull = true
  · have calm : ¬ Conflicts merge env w := fun conflicts => by simp [conflicts.1] at stops
    rw [if_pos stops]
    exact ⟨by simp, iff_of_true landed calm⟩
  · rw [if_neg stops, land_clone]
    cases found : w.clone with
    | none =>
      have calm : ¬ Conflicts merge env w := by
        rintro ⟨-, c, found', -⟩
        cases found.symm.trans found'
      dsimp only
      split
      · exact ⟨by simp, iff_of_true landed calm⟩
      · refine ⟨fun _ => calm, iff_of_true ?_ calm⟩
        rintro c ⟨⟩
        exact ⟨Clone.of_unmodified _, rfl⟩
    | some c =>
      obtain ⟨clean, quiet⟩ := idle c found
      obtain ⟨unmodified, rebasing, stopped⟩ := pullRebase_idle merge clean quiet
        (w.land (env.foreign .pull)).remote (w.land (env.foreign .pull)).nextId
      have conflicts : Conflicts merge env w ↔ (c.pullRebase merge
          (w.land (env.foreign .pull)).remote (w.land (env.foreign .pull)).nextId).2.2 = false := by
        rw [stopped, Conflicts]
        simp [found, stops]
      rw [conflicts]
      dsimp only
      generalize c.pullRebase merge (w.land (env.foreign .pull)).remote
        (w.land (env.foreign .pull)).nextId = pulled at unmodified rebasing ⊢
      obtain ⟨c', n, ok⟩ := pulled
      dsimp only at unmodified rebasing ⊢
      cases ok with
      | true =>
        refine ⟨by simp, iff_of_true ?_ (by simp)⟩
        rintro c'' ⟨⟩
        exact ⟨unmodified, rebasing⟩
      | false =>
        refine ⟨by simp, iff_of_false (fun h => ?_) (by simp)⟩
        have quiet := (h c' rfl).2
        rw [rebasing] at quiet
        cases quiet

/-- Whether the clone is idle after a request's work on it. -/
theorem idle_changeAndPush_iff {c : Clone β} (pulled : Pulled w c) (idle : Idle w) :
    Idle (changeAndPush site env edit w).2 ↔ Finishes site env edit (w.disk site) := by
  obtain ⟨unmodified, quiet⟩ := idle c pulled.clone
  rcases (changeAndPush_outcome pulled : Outcome site env edit w c _) with
    ⟨same, kept⟩ | ⟨changes, stops, failed, clone, modified⟩ |
      ⟨changes, rewritten, staged, committed, pushed⟩
  · refine iff_of_true (fun c' found => ?_) fun r text changes => absurd changes (same r text)
    obtain ⟨c'', found', unmodified', -, rebasing⟩ := kept.clone
    obtain rfl := Option.some.inj (found.symm.trans found')
    exact ⟨unmodified', rebasing.trans quiet⟩
  · refine iff_of_false (fun h => modified (h _ clone).1) fun h => ?_
    obtain ⟨rewritten, staged, committed, -⟩ := h _ _ changes
    simp [rewritten, staged, committed] at stops
  · next r id =>
    have changed := (read_inside pulled.clone changes.inside).not.mp changes.changed
    have visible_iff := Clone.edited_commit_unmodified_iff unmodified changed id
    constructor
    · intro h r' text' changes'
      obtain rfl := changes.unique changes'.rewrite
      exact ⟨rewritten, staged, committed, visible_iff.mp (h _ pushed.clone).1⟩
    · intro h c' found
      obtain ⟨-, -, -, visible⟩ := h _ _ changes
      obtain rfl := Option.some.inj (found.symm.trans pushed.clone)
      exact ⟨visible_iff.mpr visible, quiet⟩

theorem idle_critical_iff (numbered : Numbered w) (idle : Idle w) :
    Idle (critical merge site env edit w).2 ↔ SmoothSection merge site env edit w := by
  obtain ⟨calm, idle_iff⟩ := cloneOrPull_idle merge env idle
  rw [critical, idle_land_iff, attempt, SmoothSection, layout]
  rcases pull : cloneOrPull merge env w with ⟨err | ⟨⟩, w₁⟩
  · rw [pull] at idle_iff
    simp [andThen, idle_iff]
  · rw [pull] at calm idle_iff
    obtain ⟨-, -, c, pulled⟩ := cloneOrPull_ok numbered pull
    have calm := calm rfl
    rw [andThen_of_ok, idle_changeAndPush_iff pulled (idle_iff.mpr calm)]
    simp [calm]

theorem idle_step_iff (numbered : Numbered w) (idle : Idle w) (event : Event β) :
    Idle (step merge site w event) ↔ Smooth merge site w event := by
  cases event with
  | auth req env =>
    rw [step, acmeAuth_world]
    exact idle_critical_iff numbered idle
  | cleanup req env =>
    rw [step, acmeCleanup_world]
    exact idle_critical_iff numbered idle
  | foreign edit => exact iff_of_true ((idle_land_iff [edit]).mpr idle) trivial

/-- A step that is not smooth wedges the clone for good. -/
theorem run_idle_iff (es : List (Event β)) (numbered : Numbered w) (idle : Idle w) :
    Idle (run (step merge site) w es) ↔ EveryStep (step merge site) (Smooth merge site) w es := by
  induction es generalizing w with
  | nil => exact iff_of_true idle (everyStep_nil _)
  | cons event es ih =>
    rw [run_cons, everyStep_cons, ← idle_step_iff numbered idle]
    by_cases still : Idle (step merge site w event)
    · rw [ih (step_numbered numbered event) still]
      exact (and_iff_right still).symm
    · rw [(run_wedged still es).1, idle_land_iff]
      exact iff_of_false still fun h => still h.1

/-! ## Main results -/

omit [DecidableEq β] in
theorem initial_idle (trees : List (FileTree β)) (host : FileTree β) :
    Idle (World.initial trees host) := by
  rintro c ⟨⟩

/-- A run ends with an idle clone exactly if each of its steps is smooth. -/
theorem idle_iff (merge : FileTree β → FileTree β → FileTree β → Option (FileTree β))
    (site : Site β) (trees : List (FileTree β)) (host : FileTree β) (es : List (Event β)) :
    Idle (run (step merge site) (World.initial trees host) es) ↔
      EveryStep (step merge site) (Smooth merge site) (World.initial trees host) es :=
  run_idle_iff es (initial_numbered trees host) (initial_idle trees host)

/-- After a step that is not smooth every request fails, and all that happens to the repository is
what others do to it. -/
theorem wedged_forever (merge : FileTree β → FileTree β → FileTree β → Option (FileTree β))
    (site : Site β) (trees : List (FileTree β)) (host : FileTree β) (es later : List (Event β))
    (rough : ¬ EveryStep (step merge site) (Smooth merge site) (World.initial trees host) es) :
    run (step merge site) (World.initial trees host) (es ++ later) =
        (run (step merge site) (World.initial trees host) es).land (later.flatMap others) ∧
      EveryStep (step merge site) (Fails merge site)
        (run (step merge site) (World.initial trees host) es) later := by
  rw [run_append]
  exact run_wedged
    ((run_idle_iff es (initial_numbered trees host) (initial_idle trees host)).not.mpr rough) later

theorem wedged_forever_example :
    let stopped : List (Event DnsZone) :=
      [.auth exampleRequest { stops := fun act => act = .commit }]
    let later : List (Event DnsZone) := [.cleanup exampleRequest {}]
    run (step (fun _ _ _ => none) exampleSite) (World.initial [exampleTree] []) (stopped ++ later) =
        (run (step (fun _ _ _ => none) exampleSite) (World.initial [exampleTree] []) stopped).land
          (later.flatMap others) ∧
      EveryStep (step (fun _ _ _ => none) exampleSite) (Fails (fun _ _ _ => none) exampleSite)
        (run (step (fun _ _ _ => none) exampleSite) (World.initial [exampleTree] []) stopped)
          later := by
  refine wedged_forever _ _ _ _ _ _ fun smooth => ?_
  have idle := (run_idle_iff _ (initial_numbered [exampleTree] [])
    (initial_idle [exampleTree] [])).mpr smooth
  revert idle
  decide +kernel

/-! ## Unpushed commits -/

/-- The pull succeeds, and the request puts another text into a file and publishes it. -/
def Delivery (merge : FileTree β → FileTree β → FileTree β → Option (FileTree β)) (site : Site β)
    (env : Env β) (edit : Disk β → Except PyError (Option (Rewrite β))) (w : World β) : Prop :=
  (cloneOrPull merge env w).1 = .ok () ∧ Publishes env ∧
    ∃ r text, Changes site env edit (layout merge site env w) r text ∧
      Clone.hidden (r.file.drop site.reposPath.length) = false

def DeliveredBy (merge : FileTree β → FileTree β → FileTree β → Option (FileTree β))
    (site : Site β) (w : World β) : Event β → Prop
  | .auth req env => Delivery merge site env (addChallenge site req) w
  | .cleanup req env => Delivery merge site env (fun d => removeTxtRecord site d req.domain) w
  | .foreign _ => False

theorem run_numbered (es : List (Event β)) (numbered : Numbered w) :
    Numbered (run (step merge site) w es) := by
  induction es generalizing w with
  | nil => exact numbered
  | cons event es ih => exact ih (step_numbered numbered event)

theorem clean_of_delivery (numbered : Numbered w) (idle : Idle w)
    (delivery : Delivery merge site env edit w) : Clean (critical merge site env edit w).2 := by
  obtain ⟨pulls, publishes, r, text, changes, visible⟩ := delivery
  obtain ⟨calm, idle_iff⟩ := cloneOrPull_idle merge env idle
  have quiet := idle_iff.mpr (calm pulls)
  rw [critical, clean_land_iff (attempt_numbered numbered), attempt]
  rw [layout] at changes
  rcases pull : cloneOrPull merge env w with ⟨result, w₁⟩
  rw [pull] at pulls quiet changes
  obtain rfl : result = .ok () := pulls
  obtain ⟨-, -, c, pulled⟩ := cloneOrPull_ok numbered pull
  obtain ⟨unmodified, rebasing⟩ := quiet c pulled.clone
  rw [andThen_of_ok]
  rcases (changeAndPush_outcome pulled : Outcome site env edit w₁ c _) with
    ⟨same, -⟩ | ⟨-, stops, -, -, -⟩ | ⟨changes', -, -, -, pushed⟩
  · exact absurd changes (same r text)
  · simp [publishes.rewrite, publishes.stage, publishes.commit] at stops
  · obtain rfl := changes.unique changes'.rewrite
    have changed := (read_inside pulled.clone changes'.inside).not.mp changes'.changed
    intro c' found
    obtain rfl := Option.some.inj (found.symm.trans pushed.clone)
    exact ⟨(Clone.edited_commit_unmodified_iff unmodified changed _).mpr visible, rebasing,
      (pushed.taken publishes.push) ▸ List.suffix_refl _⟩

/-- Commits whose push did not reach the server are not lost: after smooth steps, whatever became
of their pushes, the next change that is published, of a file that is not hidden from the commit,
brings the remote branch all that the clone has. -/
theorem recovers (merge : FileTree β → FileTree β → FileTree β → Option (FileTree β))
    (site : Site β) (trees : List (FileTree β)) (host : FileTree β) (es : List (Event β))
    (event : Event β)
    (smooth : EveryStep (step merge site) (Smooth merge site) (World.initial trees host) es)
    (delivered : DeliveredBy merge site (run (step merge site) (World.initial trees host) es)
      event) :
    Clean (run (step merge site) (World.initial trees host) (es ++ [event])) := by
  have numbered : Numbered (run (step merge site) (World.initial trees host) es) :=
    run_numbered es (initial_numbered trees host)
  have idle := (run_idle_iff es (initial_numbered trees host) (initial_idle trees host)).mpr smooth
  rw [run_concat]
  cases event with
  | auth req env =>
    rw [step, acmeAuth_world]
    exact clean_of_delivery numbered idle delivered
  | cleanup req env =>
    rw [step, acmeCleanup_world]
    exact clean_of_delivery numbered idle delivered
  | foreign edit => exact delivered.elim

/-- The clone after a push that was declined. -/
def declinedLayout : Disk DnsZone :=
  layout (fun _ _ _ => none) exampleSite {} (run (step (fun _ _ _ => none) exampleSite)
    (World.initial [exampleTree] []) [.auth exampleRequest { declined := true }])

/-- The first push is declined, and the cleanup that follows finds its record in the clone. -/
theorem recovers_example : Clean (run (step (fun _ _ _ => none) exampleSite)
    (World.initial [exampleTree] [])
    ([.auth exampleRequest { declined := true }] ++ [.cleanup exampleRequest {}])) := by
  refine recovers _ _ _ _ _ _ ?_ ?_
  · refine (run_idle_iff _ (initial_numbered [exampleTree] [])
      (initial_idle [exampleTree] [])).mp ?_
    decide +kernel
  · refine ⟨by decide +kernel, ⟨rfl, rfl, rfl, rfl, rfl, nofun⟩, ?_⟩
    have edited : (removeTxtRecord exampleSite declinedLayout exampleRequest.domain).toOption.map
        (·.map fun r => (r.file, r.text)) =
          some (some (["data", "zone-repo", "zones", "example.com.zone"], exampleZone)) := by
      decide +kernel
    rcases removed : removeTxtRecord exampleSite declinedLayout exampleRequest.domain with
      err | _ | ⟨file, text⟩
    · simp [removed, Except.toOption] at edited
    · simp [removed, Except.toOption] at edited
    · obtain ⟨rfl, rfl⟩ : file = _ ∧ text = _ := by simpa [removed, Except.toOption] using edited
      exact ⟨_, exampleZone, ⟨rfl, removed, by decide, rfl, by decide +kernel⟩, by decide +kernel⟩

/-! ## The remote branch -/

omit [DecidableEq β] in
theorem land_remote (w : World β) (edits : List (FileTree β → FileTree β)) :
    w.remote <:+ (w.land edits).remote := (grown_land w edits).suffix

theorem cloneOrPull_remote : w.remote <:+ (cloneOrPull merge env w).2.remote := by
  have landed := land_remote w (env.foreign .pull)
  rw [cloneOrPull, andThen_before]
  split
  · exact landed
  · dsimp only
    split
    · split <;> exact landed
    · split <;> exact landed

omit [DecidableEq β] in
theorem rewriteZone_remote : w.remote <:+ (rewriteZone site env edit w).2.remote := by
  have parsed := land_remote w (env.foreign .parse)
  have rewritten := parsed.trans (land_remote _ (env.foreign .rewrite))
  rw [rewriteZone, andThen_before]
  split
  · exact parsed
  · dsimp only
    split
    · exact parsed
    · exact parsed
    · split
      · split <;> exact rewritten
      · exact rewritten

/-- The server takes only what continues its branch. -/
theorem push_remote (env : Env β) (c : Clone β) {remote : History β} (h : remote <:+ w.remote) :
    remote <:+ (push env c w).2.remote := by
  have landed := h.trans (land_remote w (env.foreign .push))
  rw [push_eq]
  dsimp only
  split
  · next taken => exact landed.trans taken.2.1
  · exact landed

theorem commitAndPush_remote : w.remote <:+ (commitAndPush env w).2.remote := by
  have opened := land_remote w (env.foreign .stage)
  rw [commitAndPush, andThen_before]
  split
  · exact opened
  · dsimp only
    split
    · exact opened
    · split
      · exact opened
      · next c _ _ =>
        have staged := opened.trans (land_remote
          { w.land (env.foreign .stage) with clone := some c.stage } (env.foreign .commit))
        rw [andThen_before]
        split
        · exact staged
        · exact push_remote env _ staged

theorem critical_remote : w.remote <:+ (critical merge site env edit w).2.remote := by
  have attempted : w.remote <:+ (attempt merge site env edit w).2.remote := by
    refine andThen_keeps (P := fun w' => w.remote <:+ w'.remote) cloneOrPull_remote
      fun _ w₁ pulled => ?_
    refine andThen_keeps (P := fun w' => w.remote <:+ w'.remote)
      (pulled.trans rewriteZone_remote) fun changed w₂ rewritten => ?_
    cases changed with
    | none => exact rewritten
    | some file =>
      exact andThen_keeps (P := fun w' => w.remote <:+ w'.remote)
        (rewritten.trans commitAndPush_remote) fun _ _ h => h
  exact attempted.trans (land_remote _ _)

theorem step_remote (event : Event β) : w.remote <:+ (step merge site w event).remote := by
  cases event with
  | auth req env =>
    rw [step, acmeAuth_world]
    exact critical_remote
  | cleanup req env =>
    rw [step, acmeCleanup_world]
    exact critical_remote
  | foreign edit => exact land_remote w [edit]

/-- The remote branch only grows: whatever fails, no commit that it once had, another writer's or
the service's own, is ever taken off it or put in another order. -/
theorem remote_grows (merge : FileTree β → FileTree β → FileTree β → Option (FileTree β))
    (site : Site β) (w : World β) (es later : List (Event β)) :
    (run (step merge site) w es).remote <:+ (run (step merge site) w (es ++ later)).remote := by
  rw [run_append]
  generalize run (step merge site) w es = middle
  induction later generalizing middle with
  | nil => exact List.suffix_refl _
  | cons event later ih => exact (step_remote event).trans (ih _)

end AcmeGitWebhook.Challenge
