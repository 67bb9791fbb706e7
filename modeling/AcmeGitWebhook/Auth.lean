import AcmeGitWebhook.Library.Search
import AcmeGitWebhook.Vault.Endpoints
import Mathlib.Data.List.Perm.Subperm

/-!
# Authentication

`verify_api_key` of `app/auth.py`, and how `app/main.py` comes to the keys it passes: `_auth_dep`,
and the key from the environment that `lifespan` adds at start-up. The comparison fails on
characters beyond ASCII, so the keys before the token's own decide as well
(`decidesMembership_iff`).
-/

namespace AcmeGitWebhook.Auth

open Library Vault

structure AuthConfig where
  apiKeys : List String

/-- `text.isascii()`. -/
def isAscii (text : String) : Bool := text.toList.all fun c => c.toNat < 128

/-- `secrets.compare_digest`. -/
def compareDigest (a b : String) : Except PyError Bool :=
  if isAscii a && isAscii b then .ok (a = b) else .error .typeError

def verifyApiKey (credentials : String) (validKeys : Option (List String)) :
    Except Failure String :=
  match validKeys with
  | none => .error (.http 500 "Auth not configured")
  | some validKeys =>
    match validKeys.anyM (compareDigest credentials) with
    | .ok true => .ok credentials
    | .ok false => .error (.http 401 "Invalid API key")
    | .error err => .error (.raised err)

def authDep (config : Option AuthConfig) (credentials : String) : Except Failure String :=
  match config with
  | none => .error (.http 500 "Config not loaded")
  | some cfg => verifyApiKey credentials (some cfg.apiKeys)

/-- The part of `lifespan` that adds the key of `ACME_WEBHOOK_API_KEY`, when it is not empty. -/
def AuthConfig.withEnvKey (cfg : AuthConfig) (envKey : Option String) : AuthConfig :=
  match envKey.filter (· ≠ "") with
  | none => cfg
  | some key => { cfg with apiKeys := cfg.apiKeys ++ [key] }

/-! ## What is promised of it -/

/-- The token is returned just when it is one of the keys; nothing but a 401 is raised; and more
keys, or the keys in another order, refuse no listed token. -/
structure DecidesMembership (token : String) (keys later : List String) : Prop where
  returns : verifyApiKey token (some keys) = .ok token ↔ token ∈ keys
  refuses : token ∉ keys → verifyApiKey token (some keys) = .error (.http 401 "Invalid API key")
  nothingElse : ∀ failure, verifyApiKey token (some keys) = .error failure →
    ∃ detail, failure = .http 401 detail
  stays : keys.Subperm later → token ∈ keys → verifyApiKey token (some later) = .ok token

/-- There is no key; or the token is ASCII, and so is every key that the token itself does not
precede. -/
def Comparable (token : String) (keys : List String) : Prop :=
  keys = [] ∨ isAscii token = true ∧ ∀ key, Reached (token = ·) keys key → isAscii key = true

variable {token key : String} {keys later : List String}

theorem compareDigest_tells : TellsWanted (compareDigest token) (token = ·) := by
  intro key found compared
  rw [compareDigest] at compared
  split_ifs at compared
  obtain rfl : decide (token = key) = found := Except.ok.inj compared
  exact decide_eq_true_iff

theorem compareDigest_ok_iff : (∃ found, compareDigest token key = .ok found) ↔
    isAscii token = true ∧ isAscii key = true := by
  rw [compareDigest, ← Bool.and_eq_true]
  split_ifs with ascii <;> simp [ascii]

/-- The search through the keys ends without an exception. -/
theorem search_ok_iff :
    (∃ found, keys.anyM (compareDigest token) = .ok found) ↔ Comparable token keys := by
  rw [anyM_ok_iff compareDigest_tells, Comparable]
  simp only [compareDigest_ok_iff]
  constructor
  · intro all
    cases keys with
    | nil => exact Or.inl rfl
    | cons key keys =>
      exact Or.inr ⟨(all key (.here key keys)).1, fun key reached => (all key reached).2⟩
  · rintro (rfl | ⟨ascii, all⟩) key reached
    · exact absurd reached not_reached_nil
    · exact ⟨ascii, all key reached⟩

theorem verifyApiKey_of_comparable (comparable : Comparable token keys) :
    verifyApiKey token (some keys) =
      if token ∈ keys then .ok token else .error (.http 401 "Invalid API key") := by
  obtain ⟨found, searched⟩ := search_ok_iff.mpr comparable
  have found_iff := anyM_found_iff compareDigest_tells searched
  rw [exists_eq_right'] at found_iff
  rw [verifyApiKey]
  cases found <;> simp [searched, ← found_iff]

/-- Otherwise a comparison raises, and the request ends in neither answer. -/
theorem verifyApiKey_of_not_comparable (incomparable : ¬ Comparable token keys) :
    ∃ err, verifyApiKey token (some keys) = .error (.raised err) := by
  rw [← search_ok_iff] at incomparable
  cases searched : keys.anyM (compareDigest token) with
  | error err => exact ⟨err, by simp only [verifyApiKey, searched]⟩
  | ok found => exact absurd ⟨found, searched⟩ incomparable

theorem verifyApiKey_ok_iff :
    verifyApiKey token (some keys) = .ok token ↔ token ∈ keys ∧ Comparable token keys := by
  by_cases comparable : Comparable token keys
  · rw [verifyApiKey_of_comparable comparable]
    by_cases listed : token ∈ keys <;> simp [listed, comparable]
  · obtain ⟨err, raised⟩ := verifyApiKey_of_not_comparable comparable
    simp [raised, comparable]

theorem decidesMembership_iff (token : String) (keys later : List String) :
    DecidesMembership token keys later ↔ Comparable token keys ∧
      (keys.Subperm later → token ∈ keys → Comparable token later) := by
  constructor
  · rintro ⟨returns, refuses, nothingElse, stays⟩
    constructor
    · by_contra incomparable
      obtain ⟨err, raised⟩ := verifyApiKey_of_not_comparable incomparable
      obtain ⟨detail, refused⟩ := nothingElse _ raised
      cases refused
    · intro more listed
      exact (verifyApiKey_ok_iff.mp (stays more listed)).2
  · rintro ⟨comparable, kept⟩
    have verified := verifyApiKey_of_comparable comparable
    refine ⟨?_, fun unlisted => ?_, fun failure failed => ?_, fun more listed => ?_⟩
    · exact verifyApiKey_ok_iff.trans (and_iff_left comparable)
    · rw [verified, if_neg unlisted]
    · rw [verified] at failed
      split_ifs at failed
      exact ⟨_, (Except.error.inj failed).symm⟩
    · exact verifyApiKey_ok_iff.mpr ⟨more.subset listed, kept more listed⟩

/-- A key beyond ASCII in front of it keeps a listed token out. -/
theorem refuses_listed : ¬ DecidesMembership "my-key" ["clé", "my-key"] ["clé", "my-key"] := by
  intro decides
  have returned := decides.returns.mpr (by decide)
  revert returned
  decide +kernel

/-- The key of the environment comes last, so it refuses no token that was accepted without
it. -/
theorem authDep_withEnvKey (cfg : AuthConfig) (envKey : Option String)
    (accepted : authDep (some cfg) token = .ok token) :
    authDep (some (cfg.withEnvKey envKey)) token = .ok token := by
  rw [AuthConfig.withEnvKey]
  split
  · exact accepted
  · obtain ⟨listed, comparable⟩ := verifyApiKey_ok_iff.mp accepted
    refine verifyApiKey_ok_iff.mpr ⟨List.mem_append_left _ listed, ?_⟩
    obtain empty | ⟨ascii, all⟩ := comparable
    · exact absurd listed (empty ▸ List.not_mem_nil)
    · refine Or.inr ⟨ascii, fun key reached => all key ?_⟩
      exact reached.of_append ⟨token, listed, rfl⟩

end AcmeGitWebhook.Auth
