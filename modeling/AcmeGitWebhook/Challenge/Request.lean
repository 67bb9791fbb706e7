import AcmeGitWebhook.Library.DnsName

/-!
# Requests for a challenge record

`AcmeRequest` of `app/models.py`, with the pattern of its domain.
-/

namespace AcmeGitWebhook.Challenge

open Library

def alphanumeric (c : Char) : Bool := c.isAlphanum || c = '-'

/-- `([a-zA-Z0-9_-]+\.)*[a-zA-Z0-9-]+`, one character at a time: whether the label so far has
a character, and whether it has an underscore, which the last label must not have. -/
def hostLabels : Bool → Bool → List Char → Bool
  | started, underscore, [] => started && !underscore
  | started, _, '.' :: cs => started && hostLabels false false cs
  | _, underscore, c :: cs =>
    (alphanumeric c || c = '_') && hostLabels true (underscore || c = '_') cs

def challengePrefix : String := "_acme-challenge."

/-- `_ACME_DOMAIN_PATTERN`. -/
def acmeDomainPattern (domain : String) : Bool :=
  challengePrefix.toList <+: domain.toList &&
    match domain.toList.drop challengePrefix.length with
    | '*' :: '.' :: cs => hostLabels false false cs
    | cs => hostLabels false false cs

/-- A request that passed validation. -/
structure AcmeRequest where
  domain : String
  validation : Option String := none
  accepted : acmeDomainPattern domain = true
  sized : ∀ v ∈ validation, 1 ≤ v.length ∧ v.length ≤ 255

theorem isAlphanum_lt {c : Char} (h : c.isAlphanum = true) : c.toNat < 128 := by
  rcases Bool.or_eq_true_iff.mp h with letter | digit
  · rcases Bool.or_eq_true_iff.mp letter with upper | lower
    · have high : c.val ≤ 'Z'.val := (of_decide_eq_true upper).2
      exact Nat.lt_of_le_of_lt high (by decide)
    · have high : c.val ≤ 'z'.val := of_decide_eq_true (Bool.and_eq_true_iff.mp lower).2
      exact Nat.lt_of_le_of_lt high (by decide)
  · have high : c.val ≤ '9'.val := of_decide_eq_true (Bool.and_eq_true_iff.mp digit).2
    exact Nat.lt_of_le_of_lt high (by decide)

theorem labelChar_plain {c : Char} (h : (alphanumeric c || c = '_') = true) :
    c.toNat < 128 ∧ c ≠ '\\' := by
  constructor
  · simp only [alphanumeric, Bool.or_eq_true, decide_eq_true_eq] at h
    rcases h with (h | rfl) | rfl
    · exact isAlphanum_lt h
    · decide
    · decide
  · rintro rfl
    exact absurd h (by decide)

theorem hostLabels_plain {started underscore : Bool} {cs : List Char}
    (h : hostLabels started underscore cs = true) : DnsName.plain cs = true := by
  fun_induction hostLabels started underscore cs with
  | case1 => rfl
  | case2 started underscore cs ih =>
    have rest := ih (Bool.and_eq_true_iff.mp h).2
    simpa [DnsName.plain] using rest
  | case3 started underscore c cs undotted ih =>
    obtain ⟨letter, tail⟩ := Bool.and_eq_true_iff.mp h
    have rest := ih tail
    have small := labelChar_plain letter
    simpa [DnsName.plain, small] using rest

theorem AcmeRequest.domain_eq (req : AcmeRequest) :
    ∃ rest, req.domain.toList = challengePrefix.toList ++ rest ∧ DnsName.plain rest = true := by
  obtain ⟨starts, matched⟩ := Bool.and_eq_true_iff.mp req.accepted
  obtain ⟨rest, split⟩ := of_decide_eq_true starts
  refine ⟨rest, split.symm, ?_⟩
  rw [← split, List.drop_left' String.length_toList] at matched
  split at matched
  · next cs => simpa [DnsName.plain] using hostLabels_plain matched
  · exact hostLabels_plain matched

/-- An accepted domain is plain text. -/
theorem AcmeRequest.plain (req : AcmeRequest) : DnsName.plain req.domain.toList = true := by
  obtain ⟨rest, split, text⟩ := req.domain_eq
  rw [split, DnsName.plain, List.all_append, ← DnsName.plain, ← DnsName.plain, text]
  decide

theorem AcmeRequest.nonempty (req : AcmeRequest) : req.domain.toList ≠ [] := by
  obtain ⟨rest, split, -⟩ := req.domain_eq
  rw [split]
  simp [challengePrefix]

end AcmeGitWebhook.Challenge
