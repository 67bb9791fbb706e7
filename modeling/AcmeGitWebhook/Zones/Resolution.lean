import AcmeGitWebhook.Challenge.Request
import AcmeGitWebhook.Library.Suffixes
import AcmeGitWebhook.Zones.Handler

/-!
# Which zone a domain belongs to

`_resolve_zone_path` against what it is for: among the dot-suffixes of the zone name whose zone
file exists in the zone directory, the longest.
-/

namespace AcmeGitWebhook.Zones

open Library Challenge

variable {β : Type} (site : Site β) (d : Disk β)

/-- `repos_path / zone_path`. -/
def zoneDirectory : Path := joinPath d.root site.zonePath

/-- The path that is probed for a suffix. -/
def zoneFileOf (suffix : String) : Path :=
  joinPath (zoneDirectory site d) (suffix ++ site.zoneFileSuffix)

/-- The path probed for the suffix exists, and what it leads to is the zone directory or lies
below it, all links followed. -/
structure Qualifies (suffix : String) (file : Path) : Prop where
  exists_file : d.realpath (zoneFileOf site d suffix) = some file
  confined : ∃ base, d.realpath (zoneDirectory site d) = some base ∧ base <+: file

/-- A dot-suffix of the domain's zone name. -/
def DotSuffix (domain suffix : String) : Prop :=
  SuffixAt '.' suffix.toList (zoneName domain).toList

/-- The longest dot-suffix of the domain that qualifies. -/
structure Longest (domain suffix : String) (file : Path) : Prop where
  dotSuffix : DotSuffix domain suffix
  qualifies : Qualifies site d suffix file
  longest : ∀ suffix' file', DotSuffix domain suffix' → Qualifies site d suffix' file' →
    suffix'.length ≤ suffix.length

variable {site d} {domain suffix : String} {file : Path}

theorem candidates_eq :
    candidates domain = (suffixesAt '.' (zoneName domain).toList).map String.ofList := by
  rw [candidates, Python.split, List.map_tails, ← List.map_dropLast, List.map_map, suffixesAt,
    List.map_map]
  refine List.map_congr_left fun parts _ => ?_
  simp [Python.join, Function.comp_def]

theorem mem_candidates : suffix ∈ candidates domain ↔ DotSuffix domain suffix := by
  rw [candidates_eq, List.mem_map, DotSuffix]
  constructor
  · rintro ⟨text, mem, rfl⟩
    rw [String.toList_ofList]
    exact mem_suffixesAt.mp mem
  · intro h
    exact ⟨suffix.toList, mem_suffixesAt.mpr h, String.ofList_toList⟩

theorem candidates_pairwise :
    (candidates domain).Pairwise fun longer shorter => shorter.length < longer.length := by
  rw [candidates_eq, List.pairwise_map]
  simpa only [String.length_ofList] using suffixesAt_pairwise

/-- What the walk over the candidates looks for. -/
theorem probe_eq_some_iff {base : Path} (allowed : d.realpath (zoneDirectory site d) = some base) :
    (d.realpath (zoneFileOf site d suffix)).filter (fun resolved => base <+: resolved) =
      some file ↔ Qualifies site d suffix file := by
  simp only [Option.filter_eq_some_iff, decide_eq_true_eq]
  constructor
  · rintro ⟨found, below⟩
    exact ⟨found, base, allowed, below⟩
  · rintro ⟨found, base', allowed', below⟩
    obtain rfl := Option.some.inj (allowed.symm.trans allowed')
    exact ⟨found, below⟩

theorem resolveZonePath_eq :
    resolveZonePath site d domain = (d.realpath (zoneDirectory site d)).bind fun base =>
      (candidates domain).findSome? fun candidate =>
        (d.realpath (zoneFileOf site d candidate)).filter fun resolved => base <+: resolved := by
  simp only [resolveZonePath, zoneDirectory, zoneFileOf]
  cases d.realpath (joinPath d.root site.zonePath) with
  | none => simp only [Option.bind_none]
  | some base => simp only [Option.bind_some]

theorem resolveZonePath_eq_some_iff :
    resolveZonePath site d domain = some file ↔ ∃ suffix, Longest site d domain suffix file := by
  rw [resolveZonePath_eq]
  cases allowed : d.realpath (zoneDirectory site d) with
  | none =>
    constructor
    · rintro ⟨⟩
    · rintro ⟨suffix, -, ⟨-, base, allowed', -⟩, -⟩
      cases allowed.symm.trans allowed'
  | some base =>
    rw [Option.bind_some, findSome?_longest candidates_pairwise]
    constructor
    · rintro ⟨suffix, mem, found, largest⟩
      refine ⟨suffix, mem_candidates.mp mem, (probe_eq_some_iff allowed).mp found, ?_⟩
      intro suffix' file' dotted qualifies
      have hit := (probe_eq_some_iff allowed).mpr qualifies
      exact largest suffix' (mem_candidates.mpr dotted) (Option.isSome_of_eq_some hit)
    · rintro ⟨suffix, dotted, qualifies, longest⟩
      refine ⟨suffix, mem_candidates.mpr dotted, (probe_eq_some_iff allowed).mpr qualifies, ?_⟩
      intro suffix' mem hit
      obtain ⟨file', found⟩ := Option.isSome_iff_exists.mp hit
      exact longest suffix' file' (mem_candidates.mp mem) ((probe_eq_some_iff allowed).mp found)

theorem resolveZonePath_eq_none_iff :
    resolveZonePath site d domain = none ↔
      ∀ suffix file, DotSuffix domain suffix → ¬ Qualifies site d suffix file := by
  rw [resolveZonePath_eq]
  cases allowed : d.realpath (zoneDirectory site d) with
  | none =>
    refine ⟨fun _ => ?_, fun _ => rfl⟩
    rintro suffix file - ⟨-, base, allowed', -⟩
    cases allowed.symm.trans allowed'
  | some base =>
    rw [Option.bind_some, List.findSome?_eq_none_iff]
    constructor
    · intro misses suffix file dotted qualifies
      have hit := (probe_eq_some_iff allowed).mpr qualifies
      cases hit.symm.trans (misses suffix (mem_candidates.mpr dotted))
    · intro none suffix mem
      refine Option.eq_none_iff_forall_ne_some.mpr fun file found => ?_
      exact none suffix file (mem_candidates.mp mem) ((probe_eq_some_iff allowed).mp found)

/-! ## Names that pass validation -/

theorem removePrefix_append (start rest : String) :
    Python.removePrefix start (start ++ rest) = rest := by
  have starts : start.toList <+: (start ++ rest).toList := by
    rw [String.toList_append]
    exact List.prefix_append _ _
  rw [Python.removePrefix, if_pos starts, String.toList_append,
    List.drop_left' String.length_toList, String.ofList_toList]

theorem removePrefix_of_not {start text : String} (h : ¬ start.toList <+: text.toList) :
    Python.removePrefix start text = text := if_neg h

/-- What is stripped off an accepted domain, and what is left of it. -/
theorem zoneName_of_accepted (req : AcmeRequest) :
    hostLabels false false (zoneName req.domain).toList = true ∧
      (req.domain = challengePrefix ++ zoneName req.domain ∨
        req.domain = challengePrefix ++ "*." ++ zoneName req.domain) := by
  obtain ⟨starts, matched⟩ := Bool.and_eq_true_iff.mp req.accepted
  obtain ⟨rest, split⟩ := of_decide_eq_true starts
  have domain : req.domain = challengePrefix ++ String.ofList rest := by
    rw [← String.toList_inj, String.toList_append, String.toList_ofList, split]
  rw [← split, List.drop_left' String.length_toList] at matched
  have stripped : zoneName req.domain = Python.removePrefix "*." (String.ofList rest) := by
    rw [zoneName, domain]
    exact congrArg (Python.removePrefix "*.") (removePrefix_append challengePrefix _)
  split at matched
  · next labels =>
    have wildcard : String.ofList ('*' :: '.' :: labels) = "*." ++ String.ofList labels := by
      rw [← String.toList_inj]
      simp
    have name : zoneName req.domain = String.ofList labels := by
      rw [stripped, wildcard, removePrefix_append]
    rw [name, String.toList_ofList]
    refine ⟨matched, .inr ?_⟩
    rw [domain, wildcard, String.append_assoc]
  · have plain : ¬ "*.".toList <+: (String.ofList rest).toList := by
      rintro ⟨labels, eq⟩
      rw [← String.toList_ofList (l := rest), ← eq] at matched
      exact absurd matched (by simp [hostLabels, alphanumeric])
    have name : zoneName req.domain = String.ofList rest := by
      rw [stripped, removePrefix_of_not plain]
    rw [name, String.toList_ofList]
    exact ⟨matched, .inl domain⟩

theorem hostLabels_after {started underscore : Bool} {front cs : List Char}
    (h : hostLabels started underscore (front ++ '.' :: cs) = true) :
    hostLabels false false cs = true := by
  induction front generalizing started underscore with
  | nil => exact (Bool.and_eq_true_iff.mp h).2
  | cons c front ih =>
    by_cases dot : c = '.'
    · subst dot
      exact ih (Bool.and_eq_true_iff.mp h).2
    · rw [List.cons_append, hostLabels.eq_3 _ _ _ _ (by simpa using dot)] at h
      exact ih (Bool.and_eq_true_iff.mp h).2

/-- A dot-suffix of an accepted domain is made of labels itself. -/
theorem DotSuffix.hostLabels {req : AcmeRequest} (h : DotSuffix req.domain suffix) :
    hostLabels false false suffix.toList = true := by
  have whole := (zoneName_of_accepted req).1
  obtain all | ⟨front, split⟩ := h
  · rw [all]
    exact whole
  · rw [split] at whole
    exact hostLabels_after whole

theorem hostLabels_noSlash {started underscore : Bool} {cs : List Char}
    (h : Challenge.hostLabels started underscore cs = true) : '/' ∉ cs := by
  fun_induction Challenge.hostLabels started underscore cs with
  | case1 => simp
  | case2 started underscore cs ih => simpa using ih (Bool.and_eq_true_iff.mp h).2
  | case3 started underscore c cs undotted ih =>
    obtain ⟨letter, tail⟩ := Bool.and_eq_true_iff.mp h
    have here : c ≠ '/' := by
      rintro rfl
      exact absurd letter (by decide)
    simpa [Ne.symm here] using ih tail

theorem hostLabels_head {cs : List Char} (h : Challenge.hostLabels false false cs = true) :
    ∃ c rest, cs = c :: rest ∧ c ≠ '.' := by
  match cs, h with
  | c :: rest, h =>
    refine ⟨c, rest, rfl, ?_⟩
    rintro rfl
    exact absurd h (by simp [Challenge.hostLabels])

/-- A name without a slash that is neither empty nor starts with a dot is one part of a path. -/
theorem joinPath_child {base : Path} {name : String} {c : Char} {rest : List Char}
    (noSlash : '/' ∉ name.toList) (head : name.toList = c :: rest) (undotted : c ≠ '.') :
    joinPath base name = base ++ [name] := by
  have relative : isAbsolute name = false := by
    rw [isAbsolute, head]
    have here : c ≠ '/' := by
      rintro rfl
      exact noSlash (by simp [head])
    simpa using here
  have kept : name ≠ "" ∧ name ≠ "." := by
    constructor <;> rintro rfl <;> cases head
    exact undotted rfl
  rw [joinPath, relative, if_neg Bool.false_ne_true, pathParts, List.splitOn_eq_singleton noSlash]
  simp [kept]

/-- What the zone file that is found for an accepted domain is, and where it was looked for. -/
structure ResolvesLongest (site : Site β) (d : Disk β) (req : AcmeRequest) : Prop where
  stripped : hostLabels false false (zoneName req.domain).toList = true ∧
    (req.domain = challengePrefix ++ zoneName req.domain ∨
      req.domain = challengePrefix ++ "*." ++ zoneName req.domain)
  some_iff : ∀ file, resolveZonePath site d req.domain = some file ↔
    ∃ suffix, Longest site d req.domain suffix file
  none_iff : resolveZonePath site d req.domain = none ↔
    ∀ suffix file, DotSuffix req.domain suffix → ¬ Qualifies site d suffix file
  confined : ∀ file, resolveZonePath site d req.domain = some file →
    ∃ base, d.realpath (zoneDirectory site d) = some base ∧ base <+: file
  children : '/' ∉ site.zoneFileSuffix.toList → ∀ candidate ∈ candidates req.domain,
    zoneFileOf site d candidate = zoneDirectory site d ++ [candidate ++ site.zoneFileSuffix] ∧
      candidate ++ site.zoneFileSuffix ≠ ".."

theorem resolvesLongest (site : Site β) (d : Disk β) (req : AcmeRequest) :
    ResolvesLongest site d req where
  stripped := zoneName_of_accepted req
  some_iff _ := resolveZonePath_eq_some_iff
  none_iff := resolveZonePath_eq_none_iff
  confined file found := by
    obtain ⟨suffix, longest⟩ := resolveZonePath_eq_some_iff.mp found
    exact longest.qualifies.confined
  children noSlash candidate mem := by
    have labels := (mem_candidates.mp mem).hostLabels
    obtain ⟨c, rest, chars, undotted⟩ := hostLabels_head labels
    have head : (candidate ++ site.zoneFileSuffix).toList =
        c :: (rest ++ site.zoneFileSuffix.toList) := by
      rw [String.toList_append, chars, List.cons_append]
    have noSlash' : '/' ∉ (candidate ++ site.zoneFileSuffix).toList := by
      rw [String.toList_append, List.mem_append, not_or]
      exact ⟨hostLabels_noSlash labels, noSlash⟩
    refine ⟨joinPath_child noSlash' head undotted, fun up => ?_⟩
    rw [up] at head
    have first : ['.', '.'] = c :: (rest ++ site.zoneFileSuffix.toList) := head
    exact undotted (List.cons.inj first).1.symm

end AcmeGitWebhook.Zones
