import AcmeGitWebhook.Challenge.Request
import AcmeGitWebhook.Library.Fields
import AcmeGitWebhook.Zones.Handler

/-!
# The patterns of domains

`_ACME_DOMAIN_PATTERN` and `_DOMAIN_PATTERN` of `app/models.py` as languages, written as the
regular expressions of the source. `patterns_iff` says that the functions that decide them accept
just these languages.
-/

namespace AcmeGitWebhook.Challenge

open Library

/-- `_DOMAIN_PATTERN`. -/
def domainPattern (domain : String) : Bool :=
  match domain.toList with
  | '*' :: '.' :: cs => hostLabels false false cs
  | cs => hostLabels false false cs

/-- `[a-zA-Z0-9_-]`. -/
def labelChar (c : Char) : Bool := alphanumeric c || c = '_'

/-- `([a-zA-Z0-9_-]+\.)*[a-zA-Z0-9-]+`. -/
def hostLanguage : Language Char := fields '.' (oneOrMore labelChar) (oneOrMore alphanumeric)

/-- `(\*\.)?([a-zA-Z0-9_-]+\.)*[a-zA-Z0-9-]+`. -/
def domainLanguage : Language Char := (1 + {['*', '.']}) * hostLanguage

/-- `_acme-challenge\.(\*\.)?([a-zA-Z0-9_-]+\.)*[a-zA-Z0-9-]+`. -/
def acmeDomainLanguage : Language Char := {challengePrefix.toList} * domainLanguage

theorem free_of_oneOrMore {p : Char → Bool} {c : Char} (out : p c = false) :
    Free c (oneOrMore p) := by
  intro w mem found
  exact absurd ((mem_oneOrMore.mp mem).2 c found) (by simp [out])

theorem hostLanguage_chars {w : List Char} (mem : w ∈ hostLanguage) :
    ∀ c ∈ w, labelChar c = true ∨ c = '.' := by
  refine forall_mem_fields (.inr rfl) ?_ ?_ mem
  · intro w label c found
    exact .inl ((mem_oneOrMore.mp label).2 c found)
  · intro w host c found
    exact .inl (by simp [labelChar, (mem_oneOrMore.mp host).2 c found])

theorem alphanumeric_iff {w : List Char} (label : ∀ c ∈ w, labelChar c = true) :
    (∀ c ∈ w, alphanumeric c = true) ↔ '_' ∉ w := by
  constructor
  · intro host found
    exact absurd (host '_' found) (by decide)
  · intro plain c mem
    rcases Bool.or_eq_true_iff.mp (label c mem) with host | underscore
    · exact host
    · obtain rfl := of_decide_eq_true underscore
      exact absurd mem plain

/-- A label that is begun and what follows it. -/
theorem hostLabels_iff (cs w : List Char) (label : ∀ c ∈ w, labelChar c = true) :
    hostLabels (w ≠ []) ('_' ∈ w) cs = true ↔ w ++ cs ∈ hostLanguage := by
  have free : '.' ∉ w := fun found => absurd (label '.' found) (by decide)
  induction cs generalizing w with
  | nil =>
    rw [List.append_nil, hostLanguage, mem_fields_of_notMem free, mem_oneOrMore,
      alphanumeric_iff label]
    simp [hostLabels]
  | cons c cs ih =>
    by_cases dot : c = '.'
    · subst dot
      have freeA : Free '.' (oneOrMore labelChar) := free_of_oneOrMore (by decide)
      have freeB : Free '.' (oneOrMore alphanumeric) := free_of_oneOrMore (by decide)
      have next : hostLabels false false cs = true ↔ cs ∈ hostLanguage :=
        ih [] (by simp) (by simp)
      rw [hostLanguage, append_mem_fields freeA freeB free, mem_oneOrMore, ← hostLanguage, ← next,
        and_iff_left label]
      simp [hostLabels]
    · have unfolded : hostLabels (w ≠ []) ('_' ∈ w) (c :: cs) =
          (labelChar c && hostLabels true ('_' ∈ w || c = '_') cs) := by
        simp [hostLabels, labelChar]
      rw [unfolded, Bool.and_eq_true]
      by_cases char : labelChar c = true
      · have next := ih (w ++ [c]) (by grind) (by grind)
        have same : decide ('_' ∈ w ++ [c]) = ('_' ∈ w || c = '_') := by grind
        rw [same, List.append_assoc] at next
        simpa [char] using next
      · have outside : w ++ c :: cs ∉ hostLanguage := fun mem =>
          (hostLanguage_chars mem c (by simp)).elim char dot
        simp [char, outside]

theorem hostLabels_iff_mem {cs : List Char} :
    hostLabels false false cs = true ↔ cs ∈ hostLanguage :=
  hostLabels_iff cs [] (by simp)

/-- What `domainPattern` and `acmeDomainPattern` make of the text that may begin with a wildcard. -/
def wildcardLabels : List Char → Bool
  | '*' :: '.' :: cs => hostLabels false false cs
  | cs => hostLabels false false cs

theorem wildcardLabels_iff {cs : List Char} :
    wildcardLabels cs = true ↔ cs ∈ domainLanguage := by
  have split : cs ∈ domainLanguage ↔
      cs ∈ hostLanguage ∨ ∃ rest ∈ hostLanguage, '*' :: '.' :: rest = cs := by
    rw [domainLanguage, add_mul, one_mul, Language.mem_add, Language.mem_mul]
    refine or_congr_right ⟨?_, ?_⟩
    · rintro ⟨_, rfl, rest, mem, rfl⟩
      exact ⟨rest, mem, rfl⟩
    · rintro ⟨rest, mem, rfl⟩
      exact ⟨['*', '.'], rfl, rest, mem, rfl⟩
  rw [split]
  fun_cases wildcardLabels cs with
  | case1 rest =>
    have starred : '*' :: '.' :: rest ∉ hostLanguage := fun mem =>
      absurd (hostLanguage_chars mem '*' List.mem_cons_self) (by decide)
    simp [starred, hostLabels_iff_mem]
  | case2 _ other =>
    rw [hostLabels_iff_mem]
    refine ⟨.inl, ?_⟩
    rintro (mem | ⟨rest, -, same⟩)
    · exact mem
    · exact absurd same.symm (other rest)

theorem domainPattern_eq (domain : String) :
    domainPattern domain = wildcardLabels domain.toList := by
  unfold domainPattern wildcardLabels
  rfl

theorem acmeDomainPattern_eq (domain : String) : acmeDomainPattern domain =
    (challengePrefix.toList <+: domain.toList &&
      wildcardLabels (domain.toList.drop challengePrefix.length)) := by
  unfold acmeDomainPattern wildcardLabels
  rfl

/-- The two functions decide the two regular expressions of the source. -/
theorem patterns_iff (domain : String) :
    (domainPattern domain = true ↔ domain.toList ∈ domainLanguage) ∧
      (acmeDomainPattern domain = true ↔ domain.toList ∈ acmeDomainLanguage) := by
  rw [domainPattern_eq, acmeDomainPattern_eq, Bool.and_eq_true, decide_eq_true_eq,
    wildcardLabels_iff, wildcardLabels_iff, acmeDomainLanguage, Language.mem_mul]
  refine ⟨Iff.rfl, ?_, ?_⟩
  · rintro ⟨⟨rest, split⟩, mem⟩
    rw [← split, List.drop_left' String.length_toList] at mem
    exact ⟨_, rfl, rest, mem, split⟩
  · rintro ⟨_, rfl, rest, mem, split⟩
    refine ⟨⟨rest, split⟩, ?_⟩
    rwa [← split, List.drop_left' String.length_toList]

end AcmeGitWebhook.Challenge
