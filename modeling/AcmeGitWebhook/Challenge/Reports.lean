import AcmeGitWebhook.Challenge.Trace
import AcmeGitWebhook.Zones.Resolution

/-!
# The zone file that is reported

`acme_auth` puts the name of the zone file in its answer together from the domain, `acme_cleanup`
takes it from the path that `remove_txt_record` returns. `reportsChanged_iff` says for which
layouts of the repository the first is the name of the file that was changed.
-/

namespace AcmeGitWebhook.Challenge

open Library Library.Git Zones

variable {β : Type} [DecidableEq β]
  (merge : FileTree β → FileTree β → FileTree β → Option (FileTree β)) (site : Site β)
  (env : Env β) (req : AcmeRequest) (w : World β)

/-- The disk on which a request looks for the zone file: the clone is pulled. -/
def layout : Disk β := (cloneOrPull merge env w).2.disk site

/-- The reported zone file is the one that was changed, and what any cleanup of the domain on the
same layout reports as well. -/
structure ReportsChanged (zoneFile : String) : Prop where
  auth : ∃ file, (critical merge site env (addChallenge site req) w).1 = .ok (some file) ∧
    zoneFile = file.getLast?.getD ""
  cleanup : ∀ env' (req' : AcmeRequest) w' reported, req'.domain = req.domain →
    Disk.SameShape (layout merge site env w) (layout merge site env' w') →
      (acmeCleanup merge site env' req' w').1 = .ok (.ok req'.domain reported) →
        zoneFile = reported

/-- The zone file of the longest suffix that has one, links followed, is called after the whole
zone name. -/
def NamedAfterZone (d : Disk β) (domain : String) : Prop :=
  ∃ suffix file, Longest site d domain suffix file ∧
    file.getLast?.getD "" = zoneName domain ++ site.zoneFileSuffix

variable {merge site env req w} {reported : String}

/-- A critical section that ends well has performed its edit on the layout, and returns the file
of the rewrite. -/
theorem critical_changed {edit : Disk β → Except PyError (Option (Rewrite β))}
    {changed : Option Path} (h : (critical merge site env edit w).1 = .ok changed) :
    ∃ edited, edit (layout merge site env w) = .ok edited ∧ edited.map Rewrite.file = changed := by
  simp only [critical, attempt] at h
  unfold layout
  generalize cloneOrPull merge env w = pulled at h ⊢
  rcases pulled with ⟨err | _, w₁⟩
  · cases h
  rw [andThen_of_ok, changeAndPush, rewriteZone, andThen_before] at h
  dsimp only at h ⊢
  rw [land_disk] at h
  split_ifs at h with stops rewrites
  · cases h
  · rcases edited : edit (w₁.disk site) with err | _ | r
    · simp [edited, andThen] at h
    · exact ⟨none, rfl, by simpa [edited] using h⟩
    · cases left : env.leftover <;> simp [edited, left, andThen] at h
  · rcases edited : edit (w₁.disk site) with err | _ | r
    · simp [edited, andThen] at h
    · exact ⟨none, rfl, by simpa [edited] using h⟩
    · refine ⟨some r, rfl, ?_⟩
      simp only [edited, andThen_of_ok] at h
      generalize commitAndPush env _ = pushed at h
      rcases pushed with ⟨err | _, w₂⟩
      · cases h
      · exact Except.ok.inj h

/-- What an answer of `acme_auth` says, and what has come before it. -/
theorem acmeAuth_answered {domain : String}
    (h : (acmeAuth merge site env req w).1 = .ok (.ok domain reported)) :
    reported = zoneName req.domain ++ site.zoneFileSuffix ∧
      ∃ r, addTxtRecord site (layout merge site env w) req.domain (req.validation.getD "") = .ok r ∧
        (critical merge site env (addChallenge site req) w).1 = .ok (some r.file) := by
  unfold acmeAuth at h
  rcases section_eq : critical merge site env (addChallenge site req) w with ⟨err | changed, w₁⟩
  · rw [section_eq] at h
    cases h
  · rw [section_eq, andThen_of_ok] at h
    obtain ⟨edited, added, rfl⟩ := critical_changed (congrArg Prod.fst section_eq)
    split_ifs at h
    refine ⟨(Answer.ok.inj (Except.ok.inj h)).2.symm, ?_⟩
    cases edited with
    | none =>
      unfold addChallenge at added
      split at added <;> cases added
    | some r => exact ⟨r, addChallenge_ok added, rfl⟩

theorem acmeCleanup_answered {domain : String}
    (h : (acmeCleanup merge site env req w).1 = .ok (.ok domain reported)) :
    ∃ r, removeTxtRecord site (layout merge site env w) req.domain = .ok (some r) ∧
      reported = r.file.getLast?.getD "" := by
  unfold acmeCleanup at h
  rcases section_eq : critical merge site env (fun d => removeTxtRecord site d req.domain) w with
    ⟨err | changed, w₁⟩
  · rw [section_eq] at h
    cases h
  · rw [section_eq, andThen_of_ok] at h
    obtain ⟨edited, removed, rfl⟩ := critical_changed (congrArg Prod.fst section_eq)
    cases edited with
    | none => cases h
    | some r => exact ⟨r, removed, (Answer.ok.inj (Except.ok.inj h)).2.symm⟩

theorem reportsChanged_iff
    (merge : FileTree β → FileTree β → FileTree β → Option (FileTree β)) (site : Site β)
    (env : Env β) (req : AcmeRequest) (w : World β) (domain zoneFile : String)
    (answered : (acmeAuth merge site env req w).1 = .ok (.ok domain zoneFile)) :
    ReportsChanged merge site env req w zoneFile ↔
      NamedAfterZone site (layout merge site env w) req.domain := by
  obtain ⟨composed, r, added, changed⟩ := acmeAuth_answered answered
  have resolved := (addTxtRecord_rewrites added).resolved
  obtain ⟨suffix, longest⟩ := resolveZonePath_eq_some_iff.mp resolved
  constructor
  · rintro ⟨⟨file, changed', named⟩, -⟩
    obtain rfl := Option.some.inj (Except.ok.inj (changed.symm.trans changed'))
    exact ⟨suffix, r.file, longest, named.symm.trans composed⟩
  · rintro ⟨suffix', file, longest', named⟩
    have resolved' := resolveZonePath_eq_some_iff.mpr ⟨suffix', longest'⟩
    obtain rfl := Option.some.inj (resolved.symm.trans resolved')
    refine ⟨⟨r.file, changed, composed.trans named.symm⟩, ?_⟩
    intro env' req' w' reported same shape cleaned
    obtain ⟨r', removed, rfl⟩ := acmeCleanup_answered cleaned
    have found := (removeTxtRecord_rewrites removed).resolved
    rw [same, resolveZonePath_congr shape] at found
    obtain file : r.file = r'.file := Option.some.inj (resolved.symm.trans found)
    rw [composed, ← named, file]

def freshWorld : World DnsZone := ⟨[⟨0, exampleTree⟩], none, [], 1⟩

theorem reportsChanged_iff_example :
    ReportsChanged (fun _ _ _ => none) exampleSite {} exampleRequest freshWorld
        "example.com.zone" ↔
      NamedAfterZone exampleSite (layout (fun _ _ _ => none) exampleSite {} freshWorld)
        exampleRequest.domain :=
  reportsChanged_iff _ _ _ _ _ "_acme-challenge.example.com" _ (by decide +kernel)

def subRequest : AcmeRequest :=
  ⟨"_acme-challenge.sub.example.com", some "token", by decide, exampleRequest.sized⟩

/-- A domain below the zone is answered with the name of a file that does not exist. -/
theorem reports_other_file :
    (acmeAuth (fun _ _ _ => none) exampleSite {} subRequest freshWorld).1 =
        .ok (.ok "_acme-challenge.sub.example.com" "sub.example.com.zone") ∧
      ¬ ReportsChanged (fun _ _ _ => none) exampleSite {} subRequest freshWorld
        "sub.example.com.zone" := by
  have answered : (acmeAuth (fun _ _ _ => none) exampleSite {} subRequest freshWorld).1 =
      .ok (.ok "_acme-challenge.sub.example.com" "sub.example.com.zone") := by decide +kernel
  refine ⟨answered, ?_⟩
  rintro ⟨⟨file, changed, named⟩, -⟩
  have rewritten : (critical (fun _ _ _ => none) exampleSite {}
      (addChallenge exampleSite subRequest) freshWorld).1 =
        .ok (some ["data", "zone-repo", "zones", "example.com.zone"]) := by
    decide +kernel
  obtain rfl := Option.some.inj (Except.ok.inj (changed.symm.trans rewritten))
  exact absurd named (by decide)

end AcmeGitWebhook.Challenge
