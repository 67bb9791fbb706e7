import AcmeGitWebhook.Challenge.Section

/-!
# What a section does to the world

Other writers only add commits (`Grown`), and commits are numbered in the order they are made
(`Numbered`). For the acts of a request: `cloneOrPull_ok` says what a clone looks like once it
is pulled, and `commitAndPush_edited` follows a changed file through staging, commit and push.
-/

namespace AcmeGitWebhook.Challenge

open Library Library.Git Zones

variable {β : Type} {merge : FileTree β → FileTree β → FileTree β → Option (FileTree β)}
  {site : Site β} {env : Env β} {w w' w'' : World β}

/-- The remote branch has grown by commits of others, one for each edit. -/
structure Grown (edits : List (FileTree β → FileTree β)) (w w' : World β) : Prop where
  le : w.nextId ≤ w'.nextId
  tree : w'.remote.headTree = edits.foldl (fun tree edit => edit tree) w.remote.headTree
  remote : ∃ new, w'.remote = new ++ w.remote ∧ (new = [] ↔ edits = []) ∧
    ∀ commit ∈ new, w.nextId ≤ commit.id ∧ commit.id < w'.nextId

theorem Grown.refl (w : World β) : Grown [] w w :=
  ⟨le_rfl, rfl, [], rfl, by simp, by simp⟩

theorem Grown.trans {edits edits' : List (FileTree β → FileTree β)} (h : Grown edits w w')
    (h' : Grown edits' w' w'') : Grown (edits ++ edits') w w'' := by
  obtain ⟨new, eq, none, ids⟩ := h.remote
  obtain ⟨new', eq', none', ids'⟩ := h'.remote
  refine ⟨h.le.trans h'.le, ?_, new' ++ new, ?_, ?_, ?_⟩
  · rw [h'.tree, h.tree, List.foldl_append]
  · rw [eq', eq, List.append_assoc]
  · simp only [List.append_eq_nil_iff, none, none']
    exact and_comm
  · intro commit mem
    rcases List.mem_append.mp mem with mem | mem
    · exact ⟨h.le.trans (ids' commit mem).1, (ids' commit mem).2⟩
    · exact ⟨(ids commit mem).1, (ids commit mem).2.trans_le h'.le⟩

/-- The remote and the numbering are all that growth is about. -/
theorem Grown.congr {edits : List (FileTree β → FileTree β)} (h : Grown edits w w')
    (remote : w''.remote = w'.remote) (le : w'.nextId ≤ w''.nextId) : Grown edits w w'' := by
  obtain ⟨new, eq, none, ids⟩ := h.remote
  refine ⟨h.le.trans le, by rw [remote, h.tree], new, by rw [remote, eq], none, ?_⟩
  exact fun commit mem => ⟨(ids commit mem).1, (ids commit mem).2.trans_le le⟩

theorem Grown.suffix {edits : List (FileTree β → FileTree β)} (h : Grown edits w w') :
    w.remote <:+ w'.remote := by
  obtain ⟨new, eq, -⟩ := h.remote
  exact ⟨new, eq.symm⟩

theorem grown_foreign (w : World β) (edit : FileTree β → FileTree β) :
    Grown [edit] w (w.foreign edit) :=
  ⟨Nat.le_succ _, rfl, [⟨w.nextId, edit w.remote.headTree⟩], rfl, by simp,
    by simp [World.foreign]⟩

@[simp] theorem land_clone (w : World β) (edits : List (FileTree β → FileTree β)) :
    (w.land edits).clone = w.clone := by
  induction edits generalizing w with
  | nil => rfl
  | cons edit edits ih => exact ih (w.foreign edit)

@[simp] theorem land_host (w : World β) (edits : List (FileTree β → FileTree β)) :
    (w.land edits).host = w.host := by
  induction edits generalizing w with
  | nil => rfl
  | cons edit edits ih => exact ih (w.foreign edit)

@[simp] theorem land_disk (w : World β) (edits : List (FileTree β → FileTree β)) :
    (w.land edits).disk site = w.disk site := by
  simp only [World.disk, land_clone, land_host]

theorem grown_land (w : World β) (edits : List (FileTree β → FileTree β)) :
    Grown edits w (w.land edits) := by
  induction edits generalizing w with
  | nil => exact .refl w
  | cons edit edits ih => exact (grown_foreign w edit).trans (ih (w.foreign edit))

/-! ## Numbers -/

/-- The next commit gets a number that none has. -/
structure Numbered (w : World β) : Prop where
  remote : w.remote.Below w.nextId
  clone : ∀ c, w.clone = some c → c.head.Below w.nextId

theorem Grown.numbered {edits : List (FileTree β → FileTree β)} (h : Grown edits w w')
    (clone : w'.clone = w.clone) (numbered : Numbered w) : Numbered w' := by
  obtain ⟨new, eq, -, ids⟩ := h.remote
  constructor
  · intro commit mem
    rw [eq] at mem
    rcases List.mem_append.mp mem with mem | mem
    · exact (ids commit mem).2
    · exact (numbered.remote commit mem).trans_le h.le
  · intro c found
    exact (numbered.clone c (clone ▸ found)).mono h.le

theorem Numbered.land (numbered : Numbered w) (edits : List (FileTree β → FileTree β)) :
    Numbered (w.land edits) := (grown_land w edits).numbered (land_clone w edits) numbered

/-- A commit of the clone's own is on the remote only if it was when the remote grew. -/
theorem Grown.old_suffix {edits : List (FileTree β → FileTree β)} (h : Grown edits w w')
    {c : Clone β} (below : c.head.Below w.nextId) (suffix : c.head <:+ w'.remote) :
    c.head <:+ w.remote := by
  obtain ⟨new, eq, -, ids⟩ := h.remote
  rw [eq] at suffix
  rcases List.suffix_or_suffix_of_suffix suffix (List.suffix_append new w.remote) with old | longer
  · exact old
  · obtain ⟨own, eq'⟩ := longer
    cases own with
    | nil => exact ⟨[], by simpa using eq'.symm⟩
    | cons commit own =>
      exfalso
      rw [← eq'] at suffix below
      have landed : commit :: own <:+ new := List.suffix_append_self_iff.mp suffix
      have late := (ids commit (landed.mem (by simp))).1
      have early := below commit (by simp)
      omega

/-! ## Pulling -/

@[simp] theorem andThen_of_ok {α γ : Type} (a : α) (w : World β)
    (f : α → World β → Except PyError γ × World β) : andThen (.ok a, w) f = f a w := rfl

theorem andThen_of_error {α γ : Type} {x : Except PyError α × World β} {err : PyError}
    (f : α → World β → Except PyError γ × World β) (h : x.1 = .error err) :
    andThen x f = (.error err, x.2) := by
  rcases x with ⟨_ | a, w⟩ <;> cases h
  rfl

theorem andThen_world {α γ : Type} {x : Except PyError α × World β} {g : α → Except PyError γ} :
    (andThen x fun a w => (g a, w)).2 = x.2 := by
  rcases x with ⟨err | a, w⟩ <;> rfl

theorem before_world (act : Act) : (before env act w).2 = w.land (env.foreign act) := by
  unfold before
  split_ifs <;> rfl

@[simp] theorem andThen_before {γ : Type} (act : Act)
    (f : Unit → World β → Except PyError γ × World β) :
    andThen (before env act w) f =
      if env.stops act then (.error (interrupted "stopped"), w.land (env.foreign act))
      else f () (w.land (env.foreign act)) := by
  unfold before
  split_ifs <;> simp [andThen]

variable [DecidableEq β]

/-- The clone of a pulled world has all of the remote and no changes. -/
structure Pulled (w : World β) (c : Clone β) : Prop where
  clone : w.clone = some c
  unmodified : c.Unmodified
  base : w.remote <:+ c.head
  below : c.head.Below w.nextId

theorem cloneOrPull_ok (numbered : Numbered w) (h : cloneOrPull merge env w = (.ok (), w')) :
    Grown (env.foreign .pull) w w' ∧ w'.host = w.host ∧ ∃ c, Pulled w' c := by
  have grown := grown_land w (env.foreign .pull)
  have landed := numbered.land (env.foreign .pull)
  rw [cloneOrPull, andThen_before] at h
  split at h
  · cases h
  · dsimp only at h
    split at h
    · split_ifs at h with empty
      · cases h
      · cases h
        exact ⟨grown.congr rfl le_rfl, land_host w _, _, rfl, Clone.of_unmodified _,
          List.suffix_refl _, landed.remote⟩
    · next c found =>
      have ids := Clone.pullRebase_below merge landed.remote (landed.clone c found)
      split_ifs at h with pulled
      · have good := Clone.pullRebase_ok pulled
        cases h
        exact ⟨grown.congr rfl ids.1, land_host w _, _, rfl, good.2, good.1, ids.2⟩
      · cases h

theorem cloneOrPull_numbered (numbered : Numbered w) :
    Numbered (cloneOrPull merge env w).2 := by
  have landed := numbered.land (env.foreign .pull)
  rw [cloneOrPull, andThen_before]
  split
  · exact landed
  · dsimp only
    split
    · split_ifs with empty
      · exact landed
      · exact ⟨landed.remote, by rintro c ⟨⟩; exact landed.remote⟩
    · next c found =>
      have ids := Clone.pullRebase_below merge landed.remote (landed.clone c found)
      split_ifs <;> exact ⟨landed.remote.mono ids.1, by rintro c ⟨⟩; exact ids.2⟩

/-! ## Writing -/

section Write

omit [DecidableEq β]

variable {c : Clone β} {file : Path} {text : β}

theorem write_inside (text : β) (found : w.clone = some c) (inside : site.reposPath <+: file) :
    (w.write site file text).clone =
      some (c.edited (file.drop site.reposPath.length) (.file text)) := by
  simp [World.write, World.disk, Disk.write, found, inside, Clone.edited]

theorem write_outside (found : w.clone = some c) (outside : ¬ site.reposPath <+: file) :
    (w.write site file text).clone = some c := by
  simp [World.write, World.disk, Disk.write, found, outside]

theorem read_inside (found : w.clone = some c) (inside : site.reposPath <+: file) :
    (w.disk site).read? file = some text ↔
      c.work.get? (file.drop site.reposPath.length) = some (.file text) := by
  simp only [World.disk, Disk.read?, Disk.lookup, found, inside, if_true, Option.map_some,
    Option.getD_some]
  split
  · next content eq => simp [eq]
  · next other =>
    constructor
    · simp
    · intro eq
      exact absurd eq (other text)

theorem Numbered.write (numbered : Numbered w) : Numbered (w.write site file text) := by
  refine ⟨numbered.remote, fun c' found => ?_⟩
  obtain ⟨c, old, rfl⟩ := Option.map_eq_some_iff.mp found
  exact numbered.clone c old

end Write

omit [DecidableEq β] in
theorem rewriteZone_numbered {edit : Disk β → Except PyError (Option (Rewrite β))}
    (numbered : Numbered w) : Numbered (rewriteZone site env edit w).2 := by
  have parsed := numbered.land (env.foreign .parse)
  have rewritten := parsed.land (env.foreign .rewrite)
  rw [rewriteZone, andThen_before]
  split
  · exact parsed
  · dsimp only
    split
    · exact parsed
    · exact parsed
    · split
      · split
        · exact rewritten
        · exact rewritten.write
      · exact rewritten.write

/-! ## Publishing -/

/-- The server takes the branch, even if the push then fails. -/
def Taken (env : Env β) (remote : History β) (c : Clone β) : Prop :=
  env.declined = false ∧ Accepts remote c ∧ (env.stops .push = true → env.late = true)

instance (remote : History β) (c : Clone β) : Decidable (Taken env remote c) :=
  inferInstanceAs (Decidable (_ ∧ _ ∧ _))

theorem push_eq (c : Clone β) (w : World β) :
    push env c w = (if env.stops .push then .error (interrupted "git push") else .ok (),
      if Taken env (w.land (env.foreign .push)).remote c then
        { w.land (env.foreign .push) with remote := c.head }
      else w.land (env.foreign .push)) := by
  by_cases stops : env.stops .push = true <;> by_cases late : env.late = true <;>
    simp [push, Taken, stops, late]

theorem commitAndPush_unmodified {c : Clone β} (found : w.clone = some c) (clean : c.Unmodified) :
    commitAndPush env w = before env .stage w := by
  rw [commitAndPush, andThen_before, before]
  split_ifs
  · rfl
  · simp [found, clean]

omit [DecidableEq β] in
/-- Commits of others on both sides of a commit that took the number between them. -/
theorem Grown.around {edits edits' : List (FileTree β → FileTree β)} {w₁ w₂ : World β}
    (h : Grown edits w₁ w) (h' : Grown edits' w' w₂) (remote : w'.remote = w.remote)
    (next : w'.nextId = w.nextId + 1) :
    ∃ new, w₂.remote = new ++ w₁.remote ∧ (new = [] ↔ edits ++ edits' = []) ∧
      ∀ commit ∈ new, w₁.nextId ≤ commit.id ∧ commit.id ≠ w.nextId := by
  obtain ⟨new, eq, none, ids⟩ := h.remote
  obtain ⟨new', eq', none', ids'⟩ := h'.remote
  refine ⟨new' ++ new, by rw [eq', remote, eq, List.append_assoc], ?_, ?_⟩
  · simp only [List.append_eq_nil_iff, none, none']
    exact and_comm
  · intro commit mem
    have le := h.le
    rcases List.mem_append.mp mem with mem | mem
    · have := (ids' commit mem).1
      omega
    · have := ids commit mem
      omega

/-- The server takes a push when nobody was faster, and it does not decline the branch. -/
def Reaches (env : Env β) (landed : List (FileTree β → FileTree β)) : Prop :=
  landed = [] ∧ env.declined = false ∧ (env.stops .push = true → env.late = true)

/-- The world after the own commit that made `c`, the last of the clone, and its push. -/
structure Committed (env : Env β) (landed : List (FileTree β → FileTree β)) (w₁ : World β)
    (c : Clone β) (w : World β) : Prop where
  clone : w.clone = some c
  taken : Reaches env landed → w.remote = c.head
  missed : ¬ Reaches env landed → Grown landed w₁ w ∧ ¬ c.head <:+ w.remote

theorem push_committed (env : Env β) (c : Clone β) {edits : List (FileTree β → FileTree β)}
    {w₁ : World β}
    (grown : Grown edits w₁ w) (below : c.head.Below w₁.nextId) (base : w₁.remote <:+ c.head) :
    Committed env (edits ++ env.foreign .push) w₁ (c.commit w.nextId)
      (push env (c.commit w.nextId)
        { w with clone := some (c.commit w.nextId), nextId := w.nextId + 1 }).2 := by
  have own : Grown edits w₁
      { w with clone := some (c.commit w.nextId), nextId := w.nextId + 1 } :=
    grown.congr rfl (Nat.le_succ _)
  have after := grown_land { w with clone := some (c.commit w.nextId), nextId := w.nextId + 1 }
    (env.foreign .push)
  obtain ⟨new, eq, none, ids⟩ := grown.around after rfl rfl
  have base' : w₁.remote <:+ (c.commit w.nextId).head := base.trans (List.suffix_cons _ _)
  have unknown : ∀ commit ∈ new, commit ∉ (c.commit w.nextId).head := by
    intro commit mem known
    obtain ⟨old, other⟩ := ids commit mem
    rcases List.mem_cons.mp known with rfl | known
    · exact other rfl
    · exact absurd (below commit known) (by omega)
  have taken_iff : Taken env (new ++ w₁.remote) (c.commit w.nextId) ↔
      Reaches env (edits ++ env.foreign .push) := by
    rw [Taken, accepts_append_iff base' unknown, none, Reaches]
    exact and_left_comm
  rw [push_eq]
  refine ⟨?_, fun reaches => ?_, fun missed => ?_⟩
  · dsimp only
    split <;> simp
  · rw [← taken_iff, ← eq] at reaches
    rw [if_pos reaches]
  · rw [← taken_iff, ← eq] at missed
    rw [if_neg missed]
    refine ⟨own.trans after, fun suffix => ?_⟩
    have mem := suffix.mem List.mem_cons_self
    rw [eq] at mem
    rcases List.mem_append.mp mem with mem | mem
    · exact (ids _ mem).2 rfl
    · have early : w.nextId < w₁.nextId := below _ (base.mem mem)
      exact absurd grown.le (by omega)

/-- A changed file on its way to the remote: either the index or the commit stops and the clone
stays modified, or the change is committed and pushed. -/
theorem commitAndPush_edited (env : Env β) {edits : List (FileTree β → FileTree β)}
    {w₁ : World β} {c : Clone β} {p : Path} {node : Node β}
    (found : w.clone = some (c.edited p node)) (clean : c.Unmodified)
    (changed : c.work.get? p ≠ some node) (grown : Grown edits w₁ w)
    (below : c.head.Below w₁.nextId) (base : w₁.remote <:+ c.head) :
    ((env.stops .stage = true ∨ env.stops .commit = true) ∧
      (∃ err, (commitAndPush env w).1 = .error err) ∧
        ∃ c', (commitAndPush env w).2.clone = some c' ∧ ¬ c'.Unmodified) ∨
    (env.stops .stage = false ∧ env.stops .commit = false ∧
      ∃ id, Committed env (edits ++ env.foreign .stage ++ env.foreign .commit ++
        env.foreign .push) w₁ ((c.edited p node).stage.commit id) (commitAndPush env w).2) := by
  have modified : ¬ (c.edited p node).Unmodified :=
    (Clone.edited_unmodified_iff clean).not.mpr changed
  have staged := grown.trans (grown_land w (env.foreign .stage))
  have staged' : Grown _ w₁ { w.land (env.foreign .stage) with
      clone := some (c.edited p node).stage } := staged.congr rfl le_rfl
  have committed := staged'.trans (grown_land _ (env.foreign .commit))
  have pushed := push_committed env (c.edited p node).stage committed below base
  rw [commitAndPush, andThen_before]
  by_cases stopsStage : env.stops .stage = true
  · refine Or.inl ⟨Or.inl stopsStage, ?_⟩
    rw [if_pos stopsStage]
    exact ⟨⟨_, rfl⟩, _, by rw [land_clone, found], modified⟩
  · simp only [if_neg stopsStage, land_clone, found, if_neg modified, andThen_before]
    by_cases stopsCommit : env.stops .commit = true
    · refine Or.inl ⟨Or.inr stopsCommit, ?_⟩
      rw [if_pos stopsCommit]
      exact ⟨⟨_, rfl⟩, _, land_clone _ _, Clone.edited_stage_modified clean changed⟩
    · refine Or.inr ⟨by simpa using stopsStage, by simpa using stopsCommit, ?_⟩
      rw [if_neg stopsCommit]
      exact ⟨_, pushed⟩

/-! ## From the pull to the push -/

/-- What the rewrite of a zone file puts into it. -/
def written (env : Env β) (r : Rewrite β) : Option β :=
  if env.stops .rewrite then env.leftover else some r.text

/-- The request puts another text into a file of its clone. -/
structure Changes (site : Site β) (env : Env β)
    (edit : Disk β → Except PyError (Option (Rewrite β))) (d : Disk β) (r : Rewrite β)
    (text : β) : Prop where
  parsed : env.stops .parse = false
  rewrite : edit d = .ok (some r)
  inside : site.reposPath <+: r.file
  written : written env r = some text
  changed : d.read? r.file ≠ some text

omit [DecidableEq β] in
/-- There is one rewrite that a request may make. -/
theorem Changes.unique {edit : Disk β → Except PyError (Option (Rewrite β))} {d : Disk β}
    {r r' : Rewrite β} {text : β} (h : Changes site env edit d r text)
    (edited : edit d = .ok (some r')) : r = r' :=
  Option.some.inj (Except.ok.inj (h.rewrite.symm.trans edited))

/-- What lands between the pull and the push. -/
def Env.between (env : Env β) : List (FileTree β → FileTree β) :=
  env.foreign .parse ++ env.foreign .rewrite ++ env.foreign .stage ++ env.foreign .commit ++
    env.foreign .push

/-- The clone is as it was pulled, and the remote has at most commits of others. -/
structure Untouched (env : Env β) (w : World β) (c : Clone β) (w' : World β) : Prop where
  grown : ∃ edits, (∀ e ∈ edits, ∃ act, e ∈ env.foreign act) ∧ Grown edits w w'
  clone : ∃ c', w'.clone = some c' ∧ c'.Unmodified ∧ c'.head = c.head ∧ c'.rebasing = c.rebasing

/-- All that can come of a request once it has pulled: it changes no text of the clone; or it is
broken off and the clone stays modified; or it commits the change and pushes. -/
inductive Outcome (site : Site β) (env : Env β)
    (edit : Disk β → Except PyError (Option (Rewrite β))) (w : World β) (c : Clone β)
    (out : Except PyError (Option Path) × World β) : Prop where
  | untouched (same : ∀ r text, ¬ Changes site env edit (w.disk site) r text)
      (kept : Untouched env w c out.2)
  | brokenOff {r : Rewrite β} {text : β} {err : PyError} {c' : Clone β}
      (changes : Changes site env edit (w.disk site) r text)
      (stops : env.stops .rewrite = true ∨ env.stops .stage = true ∨ env.stops .commit = true)
      (failed : out.1 = .error err) (clone : out.2.clone = some c') (modified : ¬ c'.Unmodified)
  | committed {r : Rewrite β} {id : Nat}
      (changes : Changes site env edit (w.disk site) r r.text)
      (rewritten : env.stops .rewrite = false) (staged : env.stops .stage = false)
      (committed : env.stops .commit = false)
      (pushed : Committed env env.between w
        ((c.edited (r.file.drop site.reposPath.length) (.file r.text)).stage.commit id) out.2)

omit [DecidableEq β] in
theorem Untouched.of_grown {edits : List (FileTree β → FileTree β)} {c c' : Clone β}
    (sources : ∀ e ∈ edits, ∃ act, e ∈ env.foreign act) (grown : Grown edits w w')
    (found : w'.clone = some c') (unmodified : c'.Unmodified) (head : c'.head = c.head)
    (rebasing : c'.rebasing = c.rebasing) : Untouched env w c w' :=
  ⟨⟨edits, sources, grown⟩, c', found, unmodified, head, rebasing⟩

omit [DecidableEq β] in
/-- A rewrite that is of another file, or changes nothing, leaves a clean clone clean. -/
theorem write_unmodified {c : Clone β} {file : Path} (text : β) (found : w.clone = some c)
    (clean : c.Unmodified)
    (same : site.reposPath <+: file → (w.disk site).read? file = some text) :
    ∃ c', (w.write site file text).clone = some c' ∧ c'.Unmodified ∧ c'.head = c.head ∧
      c'.rebasing = c.rebasing := by
  by_cases inside : site.reposPath <+: file
  · have kept := (read_inside found inside).mp (same inside)
    have clean' := (Clone.edited_unmodified_iff clean).mpr kept
    exact ⟨_, write_inside text found inside, clean', rfl, rfl⟩
  · exact ⟨c, write_outside found inside, clean, rfl, rfl⟩

omit [DecidableEq β] in
theorem rewriteZone_some {edit : Disk β → Except PyError (Option (Rewrite β))} {r : Rewrite β}
    (parsed : ¬ env.stops .parse = true) (edited : edit (w.disk site) = .ok (some r)) :
    rewriteZone site env edit w =
      (if env.stops .rewrite then .error (interrupted "to_file") else .ok (some r.file),
        match written env r with
        | none => (w.land (env.foreign .parse)).land (env.foreign .rewrite)
        | some text =>
          ((w.land (env.foreign .parse)).land (env.foreign .rewrite)).write site r.file text) := by
  rw [rewriteZone, andThen_before, if_neg parsed, land_disk, edited]
  by_cases stops : env.stops .rewrite = true
  · cases leftover : env.leftover <;> simp [written, stops, leftover]
  · simp [written, stops]

omit [DecidableEq β] in
theorem rewriteZone_none {edit : Disk β → Except PyError (Option (Rewrite β))}
    (none : ¬ ∃ r, env.stops .parse = false ∧ edit (w.disk site) = .ok (some r)) :
    (rewriteZone site env edit w).2 = w.land (env.foreign .parse) ∧
      ∀ file, (rewriteZone site env edit w).1 ≠ .ok (some file) := by
  rw [rewriteZone, andThen_before, land_disk]
  split
  · simp
  · next parsed =>
    rcases edited : edit (w.disk site) with err | _ | r
    · simp
    · simp
    · exact absurd ⟨r, by simpa using parsed, edited⟩ none

/-- A request that rewrites a zone file, and gets as far as putting a text into it. -/
theorem written_outcome {edit : Disk β → Except PyError (Option (Rewrite β))} {c : Clone β}
    {r : Rewrite β} {text : β} {w₁ : World β} (pulled : Pulled w c)
    (parsed : env.stops .parse = false) (edited : edit (w.disk site) = .ok (some r))
    (put : written env r = some text) (found : w₁.clone = some c)
    (host : w₁.host = w.host) (grown : Grown (env.foreign .parse ++ env.foreign .rewrite) w w₁) :
    Outcome site env edit w c
      (andThen (if env.stops .rewrite then .error (interrupted "to_file") else .ok (some r.file),
        w₁.write site r.file text) fun changed w =>
          match changed with
          | none => (.ok none, w)
          | some file => andThen (commitAndPush env w) fun _ w => (.ok (some file), w)) := by
  have clean := pulled.unmodified
  have disk : w₁.disk site = w.disk site := by simp only [World.disk, found, host, pulled.clone]
  have sources : ∀ e ∈ env.foreign .parse ++ env.foreign .rewrite, ∃ act, e ∈ env.foreign act :=
    fun e mem => (List.mem_append.mp mem).elim (⟨_, ·⟩) (⟨_, ·⟩)
  have grown' : Grown _ w (w₁.write site r.file text) := grown.congr rfl le_rfl
  by_cases same : site.reposPath <+: r.file → (w.disk site).read? r.file = some text
  · obtain ⟨c', found', unmodified, head, rebasing⟩ :=
      write_unmodified text found clean (by rwa [disk])
    refine .untouched (fun r' text' h => ?_) ?_
    · obtain rfl := h.unique edited
      obtain rfl := Option.some.inj (put.symm.trans h.written)
      exact h.changed (same h.inside)
    · by_cases stops : env.stops .rewrite = true
      · rw [if_pos stops]
        exact .of_grown sources grown' found' unmodified head rebasing
      · rw [if_neg stops]
        simp only [andThen_of_ok, andThen_world, commitAndPush_unmodified found' unmodified,
          before_world]
        refine .of_grown (fun e mem => ?_) (grown'.trans (grown_land _ (env.foreign .stage)))
          (by rw [land_clone, found']) unmodified head rebasing
        exact (List.mem_append.mp mem).elim (sources e) (⟨_, ·⟩)
  · obtain ⟨inside, changed⟩ := Classical.not_imp.mp same
    have changes : Changes site env edit (w.disk site) r text :=
      ⟨parsed, edited, inside, put, changed⟩
    have found' := write_inside text found inside
    have changed' := (read_inside pulled.clone inside).not.mp changed
    have modified := (Clone.edited_unmodified_iff clean).not.mpr changed'
    by_cases stops : env.stops .rewrite = true
    · rw [if_pos stops]
      exact .brokenOff changes (Or.inl stops) rfl found' modified
    · have goes : env.stops .rewrite = false := by simpa using stops
      obtain rfl : r.text = text := by simpa [written, goes] using put
      rw [if_neg stops]
      rcases commitAndPush_edited env found' clean changed' grown' pulled.below
        pulled.base with ⟨stops, ⟨err, failed⟩, c', kept, modified⟩ | ⟨staged, committed, id, h⟩
      · rw [andThen_of_ok]
        dsimp only
        rw [andThen_of_error _ failed]
        exact .brokenOff changes (Or.inr stops) rfl kept modified
      · have h' : Committed env env.between w
            ((c.edited (r.file.drop site.reposPath.length) (.file r.text)).stage.commit id)
            (andThen (commitAndPush env (w₁.write site r.file r.text))
              fun _ w => (Except.ok (some r.file), w)).2 := by
          rw [andThen_world]
          exact h
        exact .committed changes goes staged committed h'

/-- A request that rewrites a zone file. -/
theorem rewriting_outcome {edit : Disk β → Except PyError (Option (Rewrite β))} {c : Clone β}
    {r : Rewrite β} (pulled : Pulled w c) (parsed : env.stops .parse = false)
    (edited : edit (w.disk site) = .ok (some r)) :
    Outcome site env edit w c (changeAndPush site env edit w) := by
  have rewritten : Grown _ w _ :=
    (grown_land w (env.foreign .parse)).trans (grown_land _ (env.foreign .rewrite))
  have found : ((w.land (env.foreign .parse)).land (env.foreign .rewrite)).clone = some c := by
    rw [land_clone, land_clone, pulled.clone]
  rw [changeAndPush, rewriteZone_some (by simp [parsed]) edited]
  cases put : written env r with
  | some text =>
    have host : ((w.land (env.foreign .parse)).land (env.foreign .rewrite)).host = w.host := by
      rw [land_host, land_host]
    exact written_outcome pulled parsed edited put found host rewritten
  | none =>
    have stops : env.stops .rewrite = true := by
      by_contra goes
      simp [written, goes] at put
    refine .untouched (fun r' text h => ?_) ?_
    · obtain rfl := h.unique edited
      exact absurd (put.symm.trans h.written) (by simp)
    · rw [if_pos stops]
      refine .of_grown (fun e mem => ?_) rewritten found pulled.unmodified rfl rfl
      exact (List.mem_append.mp mem).elim (⟨_, ·⟩) (⟨_, ·⟩)

theorem changeAndPush_outcome {edit : Disk β → Except PyError (Option (Rewrite β))} {c : Clone β}
    (pulled : Pulled w c) :
    Outcome site env edit w c (changeAndPush site env edit w) := by
  by_cases rewrites : ∃ r, env.stops .parse = false ∧ edit (w.disk site) = .ok (some r)
  · obtain ⟨r, parsed, edited⟩ := rewrites
    exact rewriting_outcome pulled parsed edited
  · have same : ∀ r text, ¬ Changes site env edit (w.disk site) r text :=
      fun r text h => rewrites ⟨r, h.parsed, h.rewrite⟩
    obtain ⟨world, nothing⟩ := rewriteZone_none rewrites
    refine .untouched same ?_
    have unchanged : (changeAndPush site env edit w).2 = w.land (env.foreign .parse) := by
      rw [← world, changeAndPush]
      rcases eq : rewriteZone site env edit w with ⟨err | _ | file, w'⟩
      · rfl
      · rfl
      · exact absurd (by rw [eq]) (nothing file)
    rw [unchanged]
    exact .of_grown (fun e mem => ⟨_, mem⟩) (grown_land w _) (by rw [land_clone, pulled.clone])
      pulled.unmodified rfl rfl

/-! ## Numbers along a run -/

theorem push_numbered {c : Clone β} (found : w.clone = some c) (numbered : Numbered w) :
    Numbered (push env c w).2 := by
  have landed := numbered.land (env.foreign .push)
  have own : c.head.Below (w.land (env.foreign .push)).nextId :=
    landed.clone c (by rw [land_clone, found])
  rw [push_eq]
  dsimp only
  split
  · exact ⟨own, landed.clone⟩
  · exact landed

theorem commitAndPush_numbered (numbered : Numbered w) : Numbered (commitAndPush env w).2 := by
  have opened := numbered.land (env.foreign .stage)
  rw [commitAndPush, andThen_before]
  split
  · exact opened
  · dsimp only
    split
    · exact opened
    · next c found =>
      have own := opened.clone c found
      split
      · exact opened
      · have staged : Numbered { w.land (env.foreign .stage) with clone := some c.stage } :=
          ⟨opened.remote, by rintro c' ⟨⟩; exact own⟩
        have landed := staged.land (env.foreign .commit)
        rw [andThen_before]
        split
        · exact landed
        · refine push_numbered rfl ⟨landed.remote.mono (Nat.le_succ _), ?_⟩
          rintro c' ⟨⟩
          exact (landed.clone c.stage (land_clone _ _)).cons _

omit [DecidableEq β] in
theorem andThen_keeps {P : World β → Prop} {α γ : Type} {x : Except PyError α × World β}
    {f : α → World β → Except PyError γ × World β} (hx : P x.2)
    (hf : ∀ a w, P w → P (f a w).2) : P (andThen x f).2 := by
  rcases x with ⟨err | a, w⟩
  · exact hx
  · exact hf a w hx

theorem attempt_numbered {edit : Disk β → Except PyError (Option (Rewrite β))}
    (numbered : Numbered w) : Numbered (attempt merge site env edit w).2 := by
  refine andThen_keeps (cloneOrPull_numbered numbered) fun _ w pulled => ?_
  unfold changeAndPush
  refine andThen_keeps (rewriteZone_numbered pulled) fun changed w rewritten => ?_
  cases changed with
  | none => exact rewritten
  | some file => exact andThen_keeps (commitAndPush_numbered rewritten) fun _ _ h => h

theorem critical_numbered {edit : Disk β → Except PyError (Option (Rewrite β))}
    (numbered : Numbered w) : Numbered (critical merge site env edit w).2 :=
  (attempt_numbered numbered).land _

omit [DecidableEq β] in
theorem addChallenge_ok {req : AcmeRequest} {d : Disk β} {r : Rewrite β}
    (h : addChallenge site req d = .ok (some r)) :
    addTxtRecord site d req.domain (req.validation.getD "") = .ok r := by
  unfold addChallenge at h
  split at h
  · next r' added => rwa [← Option.some.inj (Except.ok.inj h)]
  · cases h

/-- A request answers from its critical section and leaves the world to it. -/
theorem acmeAuth_world (req : AcmeRequest) :
    (acmeAuth merge site env req w).2 = (critical merge site env (addChallenge site req) w).2 := by
  unfold acmeAuth
  rcases critical merge site env (addChallenge site req) w with ⟨err | changed, w'⟩
  · rfl
  · simp only [andThen]
    split <;> rfl

theorem acmeCleanup_world (req : AcmeRequest) :
    (acmeCleanup merge site env req w).2 =
      (critical merge site env (fun d => removeTxtRecord site d req.domain) w).2 := by
  unfold acmeCleanup
  rcases critical merge site env (fun d => removeTxtRecord site d req.domain) w with
    ⟨err | changed, w'⟩
  · rfl
  · cases changed <;> rfl

theorem step_numbered (numbered : Numbered w) (event : Event β) :
    Numbered (step merge site w event) := by
  cases event with
  | auth req env =>
    rw [step, acmeAuth_world]
    exact critical_numbered numbered
  | cleanup req env =>
    rw [step, acmeCleanup_world]
    exact critical_numbered numbered
  | foreign edit => exact numbered.land [edit]

/-- A repository with its history, and a host that has no clone of it yet. -/
def World.initial (trees : List (FileTree β)) (host : FileTree β) : World β :=
  ⟨History.extend 0 trees [], none, host, trees.length⟩

omit [DecidableEq β] in
theorem initial_numbered (trees : List (FileTree β)) (host : FileTree β) :
    Numbered (World.initial trees host) := by
  have below : History.Below 0 ([] : History β) := by simp [History.Below]
  refine ⟨?_, by rintro c ⟨⟩⟩
  have := below.extend trees
  rwa [Nat.zero_add] at this

end AcmeGitWebhook.Challenge
