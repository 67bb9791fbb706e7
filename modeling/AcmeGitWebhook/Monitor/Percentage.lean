import AcmeGitWebhook.Library.Rounding
import AcmeGitWebhook.Monitor.Check

/-!
# Renewal by percentage

`_should_renew_by_percentage` of `app/cert_monitor.py` compares `days_left / total * 100` with a
percentage, in double arithmetic. Against the exact comparison it is right but for a tie
(`renewsByPercentage`), and a certificate that is due once is due at every later instant
(`due_later`).
-/

namespace AcmeGitWebhook.Monitor

open Library

/-! ## Double arithmetic -/

theorem roundDouble_eq (q : ℚ) : Python.roundDouble q = Rounding.toBits 52 q := by
  unfold Python.roundDouble Rounding.toBits Rounding.halfEven Rounding.scale
  split_ifs <;> push_cast <;> simp_all

theorem scaledRatio_mono {a a' b c : ℤ} (hb : 0 < b) (hc : 0 ≤ c) (h : a ≤ a') :
    Python.scaledRatio a b c ≤ Python.scaledRatio a' b c := by
  have hb' : (0 : ℚ) ≤ b := by exact_mod_cast hb.le
  have hc' : (0 : ℚ) ≤ c := by exact_mod_cast hc
  have h' : (a : ℚ) ≤ a' := by exact_mod_cast h
  simp only [Python.scaledRatio, roundDouble_eq]
  exact Rounding.toBits_mono 52 (mul_le_mul_of_nonneg_right
    (Rounding.toBits_mono 52 (div_le_div_of_nonneg_right h' hb')) hc')

/-- Two roundings cost at most one in `2 ^ 51`. -/
theorem scaledRatio_error (a b c : ℤ) :
    |Python.scaledRatio a b c - a / b * c| ≤ |(a : ℚ) / b * c| / 2 ^ 51 := by
  simp only [Python.scaledRatio, roundDouble_eq]
  have first := Rounding.toBits_error 52 ((a : ℚ) / b)
  have second := Rounding.toBits_error 52 (Rounding.toBits 52 ((a : ℚ) / b) * c)
  set q := (a : ℚ) / b
  set r := Rounding.toBits 52 q
  have scaled : |r * c - q * c| ≤ |q * c| / 2 ^ 53 := by
    rw [← sub_mul, abs_mul, abs_mul, mul_div_right_comm]
    exact mul_le_mul_of_nonneg_right first (abs_nonneg _)
  have size : |r * c| ≤ |q * c| + |q * c| / 2 ^ 53 := by
    calc |r * c| = |q * c + (r * c - q * c)| := by rw [add_sub_cancel]
      _ ≤ |q * c| + |r * c - q * c| := abs_add_le _ _
      _ ≤ |q * c| + |q * c| / 2 ^ 53 := by linarith
  have nonneg := abs_nonneg (q * c)
  calc |Rounding.toBits 52 (r * c) - q * c|
      = |(Rounding.toBits 52 (r * c) - r * c) + (r * c - q * c)| := by rw [sub_add_sub_cancel]
    _ ≤ |Rounding.toBits 52 (r * c) - r * c| + |r * c - q * c| := abs_add_le _ _
    _ ≤ (|q * c| + |q * c| / 2 ^ 53) / 2 ^ 53 + |q * c| / 2 ^ 53 := by
        have := div_le_div_of_nonneg_right size (by positivity : (0 : ℚ) ≤ 2 ^ 53)
        linarith
    _ ≤ |q * c| / 2 ^ 51 := by linarith

/-- For numbers of days the roundings cost less than one in `b`. -/
theorem scaledRatio_near {a b : ℤ} (hb : 0 < b) (small : 100 * |a| < 2 ^ 51) :
    |Python.scaledRatio a b 100 - 100 * a / b| < 1 / b := by
  have hb' : (0 : ℚ) < b := by exact_mod_cast hb
  have small' : 100 * |(a : ℚ)| < 2 ^ 51 := by exact_mod_cast small
  have error := scaledRatio_error a b 100
  have exact : (a : ℚ) / b * (100 : ℤ) = 100 * a / b := by push_cast; ring
  rw [exact, abs_div, abs_mul, abs_of_pos hb', Nat.abs_ofNat] at error
  calc |Python.scaledRatio a b 100 - 100 * a / b| ≤ 100 * |(a : ℚ)| / b / 2 ^ 51 := error
    _ = 100 * |(a : ℚ)| / 2 ^ 51 / b := div_right_comm _ _ _
    _ < 1 / b := by
      have := (div_lt_one (by positivity : (0 : ℚ) < 2 ^ 51)).mpr small'
      exact div_lt_div_of_pos_right this hb'

/-- Short of a tie the ratio is on the right side of the percentage: it is off by one in `b`. -/
theorem scaledRatio_lt {a b pct : ℤ} (hb : 0 < b) (small : 100 * |a| < 2 ^ 51)
    (h : 100 * a < pct * b) : Python.scaledRatio a b 100 < pct := by
  have hb' : (0 : ℚ) < b := by exact_mod_cast hb
  have gap : 100 * (a : ℚ) + 1 ≤ pct * b := by exact_mod_cast h
  have near := (abs_lt.mp (scaledRatio_near hb small)).2
  calc Python.scaledRatio a b 100 < 100 * a / b + 1 / b := by linarith
    _ = (100 * a + 1) / b := (add_div _ _ _).symm
    _ ≤ pct := (div_le_iff₀ hb').mpr gap

theorem lt_scaledRatio {a b pct : ℤ} (hb : 0 < b) (small : 100 * |a| < 2 ^ 51)
    (h : pct * b < 100 * a) : pct < Python.scaledRatio a b 100 := by
  have hb' : (0 : ℚ) < b := by exact_mod_cast hb
  have gap : pct * b + 1 ≤ 100 * (a : ℚ) := by exact_mod_cast h
  have near := (abs_lt.mp (scaledRatio_near hb small)).1
  calc (pct : ℚ) ≤ (100 * a - 1) / b := (le_div_iff₀ hb').mpr (by linarith)
    _ = 100 * a / b - 1 / b := sub_div _ _ _
    _ < Python.scaledRatio a b 100 := by linarith

/-! ## The rule -/

variable {fromisoformat : String → Option IsoTime} {config : MonitorConfig} {daysLeft : Int}
  {metadata : Dict String Json}

/-- The whole days between the two dates of a certificate, if both are known. -/
def lifetimeDays (fromisoformat : String → Option IsoTime) (metadata : Dict String Json) :
    Option Int :=
  match metadata.get? "not_before", metadata.get? "expiry" with
  | some (.string notBefore), some (.string expiry) =>
    if notBefore = "" ∨ expiry = "" ∨ notBefore = "unknown" ∨ expiry = "unknown" then none
    else
      let lifetime := do
        let expires ← fromisoformat expiry
        let begins ← fromisoformat notBefore
        expires.sub? begins
      lifetime.map (· / usPerDay)
  | _, _ => none

theorem shouldRenewByPercentage_iff :
    shouldRenewByPercentage fromisoformat config daysLeft metadata = true ↔
      ∃ pct total, config.renewPercentage = some pct ∧
        lifetimeDays fromisoformat metadata = some total ∧ 0 < total ∧
          Python.scaledRatio daysLeft total 100 ≤ pct := by
  unfold shouldRenewByPercentage lifetimeDays
  cases config.renewPercentage with
  | none => simp
  | some pct =>
    rcases metadata.get? "not_before" with _ | _ | _ | _ | notBefore | _ | _ <;> try (simp; done)
    rcases metadata.get? "expiry" with _ | _ | _ | _ | expiry | _ | _ <;> try (simp; done)
    dsimp only
    split_ifs with unknown
    · simp
    · generalize (do
        let expires ← fromisoformat expiry
        let begins ← fromisoformat notBefore
        expires.sub? begins) = lifetime
      cases lifetime <;> simp

/-- What the rule decides, against the exact comparison of the days left with the percentage of
the lifetime: only a tie may go either way. -/
structure Decides (daysLeft pct total : Int) (decision : Bool) : Prop where
  sound : decision = true → 0 < total ∧ 100 * daysLeft ≤ pct * total
  complete : 0 < total → 100 * daysLeft < pct * total → decision = true

/-- In double arithmetic the rule starts no renewal early, and none later than at the first whole
day below the percentage. -/
theorem renewsByPercentage (fromisoformat : String → Option IsoTime) (config : MonitorConfig)
    (daysLeft pct total : Int) (metadata : Dict String Json)
    (configured : config.renewPercentage = some pct)
    (known : lifetimeDays fromisoformat metadata = some total)
    (small : 100 * |daysLeft| < 2 ^ 51) :
    Decides daysLeft pct total
      (shouldRenewByPercentage fromisoformat config daysLeft metadata) := by
  constructor
  · intro decision
    obtain ⟨pct', total', configured', known', positive, ratio⟩ :=
      shouldRenewByPercentage_iff.mp decision
    obtain rfl := Option.some.inj (configured.symm.trans configured')
    obtain rfl := Option.some.inj (known.symm.trans known')
    refine ⟨positive, ?_⟩
    by_contra early
    exact absurd ratio (not_le.mpr (lt_scaledRatio positive small (not_le.mp early)))
  · intro positive below
    exact shouldRenewByPercentage_iff.mpr
      ⟨pct, total, configured, known, positive, (scaledRatio_lt positive small below).le⟩

def hundredDays : Dict String Json :=
  [("not_before", .string "1970-01-01T00:00:00"), ("expiry", .string "1970-04-11T00:00:00")]

def hundredDaysIso (text : String) : Option IsoTime :=
  if text = "1970-01-01T00:00:00" then some ⟨0, none⟩
  else if text = "1970-04-11T00:00:00" then some ⟨100 * usPerDay, none⟩ else none

theorem renewsByPercentage_third : Decides 32 33 100
    (shouldRenewByPercentage hundredDaysIso { renewPercentage := some 33 } 32 hundredDays) :=
  renewsByPercentage hundredDaysIso { renewPercentage := some 33 } 32 33 100 hundredDays rfl
    (by decide +kernel) (by decide)

/-- A tie that goes the wrong way: seven days of a hundred are not seven per cent. -/
example : Python.scaledRatio 7 100 100 > 7 := by decide +kernel

/-! ## Later checks -/

theorem shouldRenew_mono {daysLeft' : Int} (le : daysLeft' ≤ daysLeft)
    (should : shouldRenew fromisoformat config daysLeft metadata = true) :
    shouldRenew fromisoformat config daysLeft' metadata = true := by
  simp only [shouldRenew, Bool.or_eq_true, decide_eq_true_eq] at should ⊢
  rcases should with threshold | percentage
  · exact .inl (le.trans threshold)
  · obtain ⟨pct, total, configured, known, positive, ratio⟩ :=
      shouldRenewByPercentage_iff.mp percentage
    have smaller := scaledRatio_mono positive (by norm_num : (0 : ℤ) ≤ 100) le
    exact .inr (shouldRenewByPercentage_iff.mpr
      ⟨pct, total, configured, known, positive, smaller.trans ratio⟩)

variable {s : Setting} {now now' : Int}

/-- The expiry that is read does not depend on the clock, and the days left only go down. -/
theorem expiryOf_later (le : now ≤ now') {read : Option (IsoTime × Int)}
    (h : expiryOf s metadata now = .ok read) :
    ∃ read', expiryOf s metadata now' = .ok read' ∧ read'.map Prod.fst = read.map Prod.fst ∧
      ∀ days ∈ read.map Prod.snd, ∃ days' ∈ read'.map Prod.snd, days' ≤ days := by
  unfold expiryOf at h ⊢
  cases known : knownDate metadata "expiry" with
  | none =>
    rw [known] at h
    obtain rfl := Except.ok.inj h
    exact ⟨none, rfl, rfl, by simp⟩
  | some date =>
    rw [known] at h
    dsimp only [bind, Except.bind] at h ⊢
    cases parsed : parseDate s date with
    | error err => simp [parsed] at h
    | ok expiry =>
      rw [parsed] at h
      dsimp only at h ⊢
      cases reached : expiry.instant? with
      | none => simp [reached] at h
      | some instant =>
        rw [reached] at h
        obtain rfl := Except.ok.inj h
        refine ⟨_, rfl, rfl, ?_⟩
        have fewer : (instant - now') / usPerDay ≤ (instant - now) / usPerDay :=
          Int.ediv_le_ediv (by decide) (by omega)
        simpa using fewer

/-- What a secret that loads consists of. -/
theorem loadCert_ok {key : String} {read : Except PyError Json} {c : CertStatus}
    (loaded : loadCert s ⟨key, now, read⟩ = .ok c) :
    ∃ data metadata expiry, read = .ok (.object data) ∧
      Vault.metadataOf s.loads data = .ok (.object metadata) ∧
      expiryOf s metadata now = .ok expiry ∧
      c = ⟨⟨domainOf key, expiry.map Prod.snd, metadata⟩, expiry.map Prod.fst,
        (Dict.get? metadata "stored_at").getD .null⟩ := by
  unfold loadCert at loaded
  rcases read with err | data
  · cases loaded
  cases data with
  | object data =>
    dsimp only [bind, Except.bind] at loaded
    cases parsed : Vault.metadataOf s.loads data with
    | error err => simp [parsed] at loaded
    | ok metadata =>
      rw [parsed] at loaded
      cases metadata with
      | object metadata =>
        dsimp only at loaded
        cases found : expiryOf s metadata now with
        | error err => simp [found] at loaded
        | ok expiry =>
          rw [found] at loaded
          exact ⟨data, metadata, expiry, rfl, parsed, found, (Except.ok.inj loaded).symm⟩
      | _ => cases loaded
  | _ => cases loaded

/-- A stored certificate that a check finds due is due at every later instant, until its secret
changes: it loads as before, with the same expiry and no more days left. -/
theorem due_later (s : Setting) (key : String) (read : Except PyError Json) (now now' : Int)
    (le : now ≤ now') (c : CertStatus) (loaded : loadCert s ⟨key, now, read⟩ = .ok c)
    (isDue : due s c.toCert = true) :
    ∃ c', loadCert s ⟨key, now', read⟩ = .ok c' ∧ c'.expiry = c.expiry ∧
      due s c'.toCert = true := by
  obtain ⟨data, metadata, expiry, rfl, parsed, found, rfl⟩ := loadCert_ok loaded
  obtain ⟨expiry', found', same, fewer⟩ := expiryOf_later le found
  refine ⟨⟨⟨domainOf key, expiry'.map Prod.snd, metadata⟩, expiry'.map Prod.fst,
    (Dict.get? metadata "stored_at").getD .null⟩, ?_, same, ?_⟩
  · simp only [loadCert, bind, Except.bind, parsed, found']
    rfl
  · simp only [due, Option.any_eq_true] at isDue ⊢
    obtain ⟨config, configured, days, left, should⟩ := isDue
    obtain ⟨days', left', le⟩ := fewer days left
    exact ⟨config, configured, days', left', shouldRenew_mono le should⟩

theorem goodSecret_due_later : ∃ c', loadCert exampleSetting
      ⟨"example.com", 55 * usPerDay, goodSecret.read⟩ = .ok c' ∧
    c'.expiry = some ⟨59 * usPerDay, some 0⟩ ∧ due exampleSetting c'.toCert = true :=
  due_later exampleSetting "example.com" goodSecret.read (50 * usPerDay) (55 * usPerDay)
    (by decide) ⟨⟨"example.com", some 9, [("expiry", .string "1970-03-01T00:00:00+00:00")]⟩,
      some ⟨59 * usPerDay, some 0⟩, .null⟩ rfl (by decide +kernel)

end AcmeGitWebhook.Monitor
