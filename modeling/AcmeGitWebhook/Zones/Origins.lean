import AcmeGitWebhook.Library.DnsSpelling
import AcmeGitWebhook.Zones.Resolution

/-!
# The origin of a zone

`_origin_from_zone_file` reads the origin off the name of the file that was found, links
followed and extension dropped, while the file was found under a suffix of the domain with
`zone_file_suffix` at the end. `originsMatch_iff` says when the two agree.
-/

namespace AcmeGitWebhook.Zones

open Library Challenge

/-- What is left of a file's name without its extension: a name keeps its only dot at the start,
and a dot at its end. -/
inductive BaseName : String → String → Prop where
  | extension {base ext : String} (nonempty : base ≠ "") (named : ext ≠ "")
      (undotted : '.' ∉ ext.toList) : BaseName (base ++ "." ++ ext) base
  | undotted {file : String} (undotted : '.' ∉ file.toList) : BaseName file file
  | hidden {rest : String} (undotted : '.' ∉ rest.toList) : BaseName ("." ++ rest) ("." ++ rest)
  | finalDot {front : String} : BaseName (front ++ ".") (front ++ ".")

theorem stem_undotted {file : String} (undotted : '.' ∉ file.toList) : stem file = file := by
  have parts : Python.split '.' file = [file] := by
    rw [Python.split, List.splitOn_eq_singleton undotted]
    simp
  simp only [stem, parts]
  exact if_neg fun h => h.1 rfl

theorem stem_dotted {front last : String} (undotted : '.' ∉ last.toList) :
    stem (front ++ "." ++ last) =
      if front ≠ "" ∧ last ≠ "" then front else front ++ "." ++ last := by
  have chars : (front ++ "." ++ last).toList = front.toList ++ '.' :: last.toList := by simp
  have parts : Python.split '.' (front ++ "." ++ last) = Python.split '.' front ++ [last] := by
    rw [Python.split, chars, List.splitOn_append_cons_self, List.splitOn_eq_singleton undotted,
      List.map_append, ← Python.split]
    simp
  have joined : Python.join "." (Python.split '.' front) = front := by
    simp [Python.join, Python.split, Function.comp_def]
  simp only [stem, parts, List.dropLast_concat, joined, List.getLast?_concat, ne_eq,
    Option.some_inj]

theorem exists_last_dot {file : String} (dotted : '.' ∈ file.toList) :
    ∃ front last, file = front ++ "." ++ last ∧ '.' ∉ last.toList := by
  obtain ⟨last, front, split, undotted⟩ :=
    List.eq_append_cons_of_mem (List.mem_reverse.mpr dotted)
  refine ⟨String.ofList front.reverse, String.ofList last.reverse, ?_, by simpa using undotted⟩
  have chars : file.toList = front.reverse ++ '.' :: last.reverse := by
    rw [← List.reverse_reverse file.toList, split]
    simp
  rw [← String.toList_inj, chars]
  simp

theorem baseName_stem (file : String) : BaseName file (stem file) := by
  by_cases dotted : '.' ∈ file.toList
  · obtain ⟨front, last, rfl, undotted⟩ := exists_last_dot dotted
    rw [stem_dotted undotted]
    by_cases start : front = ""
    · subst start
      exact .hidden undotted
    · by_cases final : last = ""
      · subst final
        rw [if_neg fun both => both.2 rfl, String.append_empty]
        exact .finalDot
      · rw [if_pos ⟨start, final⟩]
        exact .extension start final undotted
  · rw [stem_undotted dotted]
    exact .undotted dotted

theorem stem_eq_iff {file base : String} : stem file = base ↔ BaseName file base := by
  constructor
  · rintro rfl
    exact baseName_stem file
  · intro h
    cases h with
    | extension nonempty named undotted => rw [stem_dotted undotted, if_pos ⟨nonempty, named⟩]
    | undotted undotted => exact stem_undotted undotted
    | @hidden rest undotted =>
      have start : stem ("" ++ "." ++ rest) = _ := stem_dotted undotted
      rwa [if_neg fun both => both.1 rfl] at start
    | @finalDot front =>
      have final : stem (front ++ "." ++ "") = _ := stem_dotted (by simp)
      rwa [if_neg fun both => both.2 rfl, String.append_empty] at final

/-! ## Spellings of the suffix -/

variable {β : Type} (site : Site β)

/-- A plain text names the suffix when it has the same letters, in either case, with or without
a final dot. What another text names is up to dnspython. -/
inductive Spells (suffix text : String) : Prop where
  | bare (plainText : DnsName.plain text.toList = true)
      (same : DnsName.lower text.toList = DnsName.lower suffix.toList)
  | dotted (plainText : DnsName.plain text.toList = true)
      (same : DnsName.lower text.toList = DnsName.lower suffix.toList ++ ['.'])
  | special (notPlain : DnsName.plain text.toList = false)
      (read : site.specialName text = some (DnsName.ofLabels (suffix.toList.splitOn '.')))

/-- The name of the file, less its extension, is the suffix. -/
def NamedAfter (suffix file : String) : Prop := ∃ base, BaseName file base ∧ Spells site suffix base

/-- The origin derived from the file is the suffix, and so the challenge name is inside the zone
that is loaded. -/
structure OriginMatches (d : Disk β) (domain suffix : String) (file : Path) : Prop where
  origin : ∃ origin, originFromZoneFile site file = .ok origin ∧ fromText site suffix = .ok origin
  inside : ∀ zone name, loadZone site d file = .ok zone → acmeName site domain = .ok name →
    zone.origin <:+ name

variable {site} {d : Disk β} {suffix : String} {req : AcmeRequest}

theorem fromText_eq_ok_iff {text : String} {name : DnsName} :
    fromText site text = .ok name ↔ DnsName.fromText site.specialName text = some name := by
  unfold fromText
  cases DnsName.fromText site.specialName text <;> simp

/-- Labels of an accepted domain are not empty. -/
theorem hostLabels_full {started underscore : Bool} {cs : List Char}
    (h : hostLabels started underscore cs = true) :
    ∃ part parts, cs.splitOn '.' = part :: parts ∧ (started = false → part ≠ []) ∧ [] ∉ parts := by
  fun_induction hostLabels started underscore cs with
  | case1 started underscore => exact ⟨[], [], rfl, by simp_all, by simp⟩
  | case2 started underscore cs ih =>
    obtain ⟨first, rest⟩ := Bool.and_eq_true_iff.mp h
    obtain ⟨part, parts, split, full, more⟩ := ih rest
    refine ⟨[], part :: parts, ?_, by simp [first], ?_⟩
    · rw [List.splitOn_cons_eq_if_modifyHead, if_pos (by simp), split]
    · simpa [Ne.symm (full rfl)] using more
  | case3 started underscore c cs undotted ih =>
    obtain ⟨part, parts, split, -, more⟩ := ih (Bool.and_eq_true_iff.mp h).2
    refine ⟨c :: part, parts, ?_, by simp, more⟩
    rw [List.splitOn_cons_eq_if_modifyHead, if_neg (by simpa using undotted), split]
    rfl

theorem DotSuffix.labelled (h : DotSuffix req.domain suffix) : DnsName.Labelled suffix.toList where
  full := by
    obtain ⟨part, parts, split, full, more⟩ := hostLabels_full h.hostLabels
    simpa [split, Ne.symm (full rfl)] using more
  spelled shorthand := by
    have labels := h.hostLabels
    rw [shorthand] at labels
    exact absurd labels (by decide)

theorem DotSuffix.plain (h : DotSuffix req.domain suffix) : DnsName.plain suffix.toList = true :=
  hostLabels_plain h.hostLabels

/-- The suffix as a name, when its labels have the sizes of a name's. -/
theorem fromText_suffix {origin : DnsName} (h : DotSuffix req.domain suffix) :
    fromText site suffix = .ok origin ↔ DnsName.wellSized (suffix.toList.splitOn '.') = true ∧
      origin = DnsName.ofLabels (suffix.toList.splitOn '.') :=
  fromText_eq_ok_iff.trans (DnsName.fromText_labelled h.labelled h.plain)

theorem spells_iff {text : String} (h : DotSuffix req.domain suffix)
    (sized : DnsName.wellSized (suffix.toList.splitOn '.') = true) :
    fromText site text = .ok (DnsName.ofLabels (suffix.toList.splitOn '.')) ↔
      Spells site suffix text := by
  rw [fromText_eq_ok_iff]
  cases plainText : DnsName.plain text.toList with
  | true =>
    rw [DnsName.fromText_eq_iff h.labelled plainText, and_iff_right sized]
    constructor
    · rintro (same | same)
      · exact .bare plainText same
      · exact .dotted plainText same
    · rintro (⟨-, same⟩ | ⟨-, same⟩ | ⟨notPlain, -⟩)
      · exact .inl same
      · exact .inr same
      · cases plainText.symm.trans notPlain
  | false =>
    rw [DnsName.fromText, plainText, if_neg Bool.false_ne_true]
    constructor
    · exact .special plainText
    · rintro (⟨isPlain, -⟩ | ⟨isPlain, -⟩ | ⟨-, read⟩)
      · cases plainText.symm.trans isPlain
      · cases plainText.symm.trans isPlain
      · exact read

theorem origin_iff {file : Path} (h : DotSuffix req.domain suffix) :
    (∃ origin, originFromZoneFile site file = .ok origin ∧ fromText site suffix = .ok origin) ↔
      DnsName.wellSized (suffix.toList.splitOn '.') = true ∧
        NamedAfter site suffix (file.getLast?.getD "") := by
  constructor
  · rintro ⟨origin, derived, named⟩
    obtain ⟨sized, rfl⟩ := (fromText_suffix h).mp named
    rw [originFromZoneFile] at derived
    exact ⟨sized, _, baseName_stem _, (spells_iff h sized).mp derived⟩
  · rintro ⟨sized, base, named, spelled⟩
    refine ⟨_, ?_, (fromText_suffix h).mpr ⟨sized, rfl⟩⟩
    rw [originFromZoneFile, stem_eq_iff.mpr named]
    exact (spells_iff h sized).mpr spelled

/-- The zone name is a dot-suffix of the domain itself. -/
theorem zoneName_suffixAt (req : AcmeRequest) :
    SuffixAt '.' (zoneName req.domain).toList req.domain.toList := by
  have strip : ∀ {front : String}, req.domain = front ++ "." ++ zoneName req.domain →
      SuffixAt '.' (zoneName req.domain).toList req.domain.toList := by
    intro front split
    have chars := congrArg String.toList split
    rw [String.toList_append, String.toList_append] at chars
    exact .inr ⟨front.toList, by simpa using chars⟩
  have start : challengePrefix = "_acme-challenge" ++ "." := by simp [challengePrefix]
  have wild : challengePrefix ++ "*." = "_acme-challenge.*" ++ "." := by simp [challengePrefix]
  obtain plain | wildcard := (zoneName_of_accepted req).2
  · rw [start] at plain
    exact strip plain
  · rw [wild] at wildcard
    exact strip wildcard

theorem suffix_of_acmeName {name : DnsName} (h : DotSuffix req.domain suffix)
    (named : acmeName site req.domain = .ok name) :
    DnsName.ofLabels (suffix.toList.splitOn '.') <:+ name := by
  have nonempty : req.domain ≠ "" := by simpa using req.nonempty
  rw [DnsName.fromText_dotted req.plain nonempty (fromText_eq_ok_iff.mp named)]
  exact (h.trans (zoneName_suffixAt req)).splitOn.map _

theorem originMatches_iff {file : Path} (h : DotSuffix req.domain suffix) :
    OriginMatches site d req.domain suffix file ↔
      DnsName.wellSized (suffix.toList.splitOn '.') = true ∧
        NamedAfter site suffix (file.getLast?.getD "") := by
  rw [← origin_iff h]
  refine ⟨OriginMatches.origin, fun derives => ⟨derives, ?_⟩⟩
  intro zone name loaded named
  obtain ⟨origin, derived, matched⟩ := derives
  obtain ⟨-, rfl⟩ := (fromText_suffix h).mp matched
  obtain ⟨text, -, parsed⟩ := loadZone_ok loaded
  obtain ⟨nodes, derived', -⟩ := parseZone_ok parsed
  rw [← Except.ok.inj (derived.symm.trans derived')]
  exact suffix_of_acmeName h named

/-- A file under its own name, with one extension after the suffix, gives the suffix back. -/
theorem originMatches_extension {file : Path} {ext : String} (h : DotSuffix req.domain suffix)
    (sized : DnsName.wellSized (suffix.toList.splitOn '.') = true) (named : ext ≠ "")
    (undotted : '.' ∉ ext.toList) (unlinked : file.getLast? = some (suffix ++ "." ++ ext)) :
    OriginMatches site d req.domain suffix file := by
  have nonempty : suffix ≠ "" := by
    rintro rfl
    exact absurd h.hostLabels (by decide)
  rw [originMatches_iff h, unlinked]
  exact ⟨sized, suffix, .extension nonempty named undotted, .bare h.plain rfl⟩

/-- The origin of every zone file that is found for the domain is the suffix it was found by. -/
def OriginsMatch (site : Site β) (d : Disk β) (req : AcmeRequest) : Prop :=
  ∀ file, resolveZonePath site d req.domain = some file →
    ∀ suffix, Longest site d req.domain suffix file →
      OriginMatches site d req.domain suffix file

/-- Exactly if the longest suffix that qualifies is a name, and the file that its zone file
leads to is named after it. -/
theorem originsMatch_iff (site : Site β) (d : Disk β) (req : AcmeRequest) :
    OriginsMatch site d req ↔ ∀ suffix file, Longest site d req.domain suffix file →
      DnsName.wellSized (suffix.toList.splitOn '.') = true ∧
        NamedAfter site suffix (file.getLast?.getD "") := by
  constructor
  · intro h suffix file longest
    have found := resolveZonePath_eq_some_iff.mpr ⟨suffix, longest⟩
    exact (originMatches_iff longest.dotSuffix).mp (h file found suffix longest)
  · intro h file _ suffix longest
    exact (originMatches_iff longest.dotSuffix).mpr (h suffix file longest)

/-- Zone files without an extension. -/
def bareSite : Site DnsZone where
  reposPath := ["data", "zone-repo"]
  zonePath := "zones"
  zoneFileSuffix := ""
  format := .plain

def bareDisk : Disk DnsZone where
  root := ["data", "zone-repo"]
  tree := [(["zones", "example.com"], .file ⟨["example"], []⟩)]
  host := []

def bareRequest : AcmeRequest := ⟨"_acme-challenge.*.example.com", none, by decide, by decide⟩

/-- The file `example.com` is taken for the zone `example.`. -/
theorem misreads_origin : ¬ OriginsMatch bareSite bareDisk bareRequest := by
  intro h
  have found : resolveZonePath bareSite bareDisk bareRequest.domain =
      some ["data", "zone-repo", "zones", "example.com"] := by decide +kernel
  have longest : Longest bareSite bareDisk bareRequest.domain "example.com"
      ["data", "zone-repo", "zones", "example.com"] :=
    { dotSuffix := .inl (by decide)
      qualifies := ⟨by decide, ["data", "zone-repo", "zones"], by decide, by decide⟩
      longest := by
        intro suffix' file' dotted _
        exact dotted.length_le }
  obtain ⟨origin, derived, named⟩ := (h _ found _ longest).origin
  have derived' : originFromZoneFile bareSite ["data", "zone-repo", "zones", "example.com"] =
      .ok ["example"] := fromText_eq_ok_iff.mpr (by decide)
  have named' : fromText bareSite "example.com" = .ok ["example", "com"] :=
    fromText_eq_ok_iff.mpr (by decide)
  rw [← Except.ok.inj (derived'.symm.trans derived)] at named
  exact absurd (named'.symm.trans named) (by decide)

end AcmeGitWebhook.Zones
