import AcmeGitWebhook.Monitor.Percentage
import AcmeGitWebhook.Vault.Board

/-!
# From stored certificates to monitored ones

A check that gets an answer to every access lists one certificate for each card of the board
that the requests have left, with the dates on the card: those of a certificate, or none after a
change of routing that found nothing to go on from. `check_reports_board` says so of every
history of requests.
-/

namespace AcmeGitWebhook.Monitor

open Library

/-- The keys that Vault lists under the path: one for each secret. -/
structure Lists (cfg : Vault.VaultConfig) (kv : Vault.Kv) (keys : List String) : Prop where
  nodup : keys.Nodup
  complete : ∀ key, key ∈ keys ↔ (kv.secrets.get? (Vault.secretPath cfg key)).isSome

/-- What a check gets when every read works; `clock` is when it reads each secret. -/
def listing (cfg : Vault.VaultConfig) (kv : Vault.Kv) (keys : List String) (clock : String → Int) :
    List Listed :=
  keys.map fun key =>
    ⟨key, clock key, (Vault.readSecret cfg (domainOf key) .done kv).map .object⟩

variable (s : Setting)

/-- The expiry on a card, if one is known. -/
def expiryOn (card : Vault.Card) : Option IsoTime :=
  card.dates.bind fun dates => if dates.2 = "unknown" then none else s.fromisoformat dates.2

/-- The status says what is on the card, with the days left at that instant. -/
structure Reports (card : Vault.Card) (now : Int) (c : CertStatus) : Prop where
  storedAt : c.storedAt = .string card.storedAt
  expiry : c.expiry = expiryOn s card
  daysLeft : c.daysLeft = ((expiryOn s card).bind IsoTime.instant?).map fun instant =>
    (instant - now) / usPerDay

/-- A text that stands for a time with an offset. -/
def Aware (text : String) : Prop :=
  text ≠ "" ∧ ∃ date instant, s.fromisoformat text = some date ∧ date.instant? = some instant

/-- The domains on the board are names without a slash, and the dates are aware ones. -/
def Kept (b : Vault.Board) : Prop :=
  ∀ domain card, b domain = some card → '/' ∉ domain.toList ∧
    ∀ dates, card.dates = some dates → dates.2 = "unknown" ∨ Aware s dates.2

variable {s} {b : Vault.Board} {x509 : String → Option (String × String)} {app : Vault.App}
  {cfg : Vault.VaultConfig} {kv : Vault.Kv} {card : Vault.Card} {domain : String} {now : Int}

/-- A card was there before, or is new and has no dates, or those of a certificate. -/
theorem card_after (c : Vault.Change) (h : Vault.Board.step x509 app b c domain = some card) :
    b domain = some card ∨ c.domain? = some domain ∧ ∀ dates, card.dates = some dates →
      ∃ certPem, dates = (x509 certPem).getD ("unknown", "unknown") := by
  cases c with
  | delete domain' auth write =>
    simp only [Vault.Board.step] at h
    split_ifs at h
    · by_cases same : domain = domain'
      · simp [same] at h
      · exact .inl (by simpa [same] using h)
    · exact .inl h
  | request event =>
    cases event with
    | deploy _ _ _ _ _ _ | login | restart => exact .inl h
    | store req now auth write =>
      simp only [Vault.Board.step] at h
      split_ifs at h
      · by_cases same : domain = req.domain
        · subst same
          rw [Function.update_self] at h
          obtain rfl := Option.some.inj h
          exact .inr ⟨rfl, fun dates here => ⟨req.certPem, (Option.some.inj here).symm⟩⟩
        · exact .inl (by simpa [same] using h)
      · exact .inl h
    | route domain' targets now auth read write =>
      simp only [Vault.Board.step] at h
      split_ifs at h
      · by_cases same : domain = domain'
        · subst same
          rw [Function.update_self] at h
          rcases Vault.routedCard_cases now read (b domain) with same | fresh
          · exact .inl (same.symm.trans h)
          · obtain rfl := Option.some.inj (fresh.symm.trans h)
            exact .inr ⟨rfl, by simp⟩
        · exact .inl (by simpa [same] using h)
      · exact .inl h

theorem Kept.step (h : Kept s b) (dates : ∀ certPem dates, x509 certPem = some dates →
      Aware s dates.2) (c : Vault.Change) (plain : ∀ domain ∈ c.domain?, '/' ∉ domain.toList) :
    Kept s (Vault.Board.step x509 app b c) := by
  intro domain card after
  rcases card_after c after with before | ⟨named, new⟩
  · exact h domain card before
  · refine ⟨plain domain named, fun texts here => ?_⟩
    obtain ⟨certPem, rfl⟩ := new texts here
    cases known : x509 certPem with
    | none => exact .inl rfl
    | some _ => exact .inr (dates certPem _ known)

theorem kept_none (s : Setting) : Kept s fun _ => none := fun _ _ known => nomatch known

theorem domainOf_plain (plain : '/' ∉ domain.toList) : domainOf domain = domain := by
  have kept : domain.toList.reverse.dropWhile (· = '/') = domain.toList.reverse := by
    cases last : domain.toList.reverse with
    | nil => rfl
    | cons char rest =>
      have other : char ≠ '/' := by
        rintro rfl
        exact plain (List.mem_reverse.mp (last ▸ List.mem_cons_self))
      simp [other]
  rw [domainOf, kept, List.reverse_reverse, String.ofList_toList]

theorem expiryOf_card {fields : Dict String Json} (describes : card.Describes fields)
    (aware : ∀ dates, card.dates = some dates → dates.2 = "unknown" ∨ Aware s dates.2) (now : Int) :
    ∃ expiry, expiryOf s fields now = .ok expiry ∧ expiry.map Prod.fst = expiryOn s card ∧
      expiry.map Prod.snd = ((expiryOn s card).bind IsoTime.instant?).map fun instant =>
        (instant - now) / usPerDay := by
  have field := describes.expiry
  cases known : card.dates with
  | none => exact ⟨none, by simp [expiryOf, knownDate, field, known], by simp [expiryOn, known]⟩
  | some dates =>
    rw [known] at field
    rcases aware dates known with unknown | ⟨nonempty, date, instant, reads, reached⟩
    · exact ⟨none, by simp [expiryOf, knownDate, field, unknown],
        by simp [expiryOn, known, unknown]⟩
    · by_cases unknown : dates.2 = "unknown"
      · exact ⟨none, by simp [expiryOf, knownDate, field, unknown],
          by simp [expiryOn, known, unknown]⟩
      · refine ⟨some (date, (instant - now) / usPerDay), ?_, ?_⟩
        · simp [expiryOf, knownDate, field, nonempty, unknown, parseDate, reads, bind, Except.bind,
            reached, pure, Except.pure]
        · simp [expiryOn, known, unknown, reads, reached]

/-- Each key that is listed loads as the certificate on its card. -/
theorem loadCert_card (shows : Vault.Shows s.loads cfg kv b) (kept : Kept s b) {key : String}
    (present : (kv.secrets.get? (Vault.secretPath cfg key)).isSome) (now : Int) :
    ∃ c card, loadCert s ⟨key, now, (Vault.readSecret cfg (domainOf key) .done kv).map .object⟩ =
      .ok c ∧ c.domain = key ∧ b key = some card ∧ Reports s card now c := by
  have shown := shows key
  cases known : b key with
  | none =>
    rw [known] at shown
    rw [show kv.secrets.get? _ = none from shown] at present
    cases present
  | some card =>
    rw [known] at shown
    obtain ⟨data, fields, found, object, describes⟩ := shown
    obtain ⟨plain, aware⟩ := kept key card known
    obtain ⟨expiry, read, date, days⟩ := expiryOf_card describes aware now
    have reads : Vault.readSecret cfg (domainOf key) .done kv = .ok data := by
      simp [domainOf_plain plain, Vault.readSecret, found]
    refine ⟨⟨⟨domainOf key, expiry.map Prod.snd, fields⟩, expiry.map Prod.fst,
      (Dict.get? fields "stored_at").getD .null⟩, card, ?_, domainOf_plain plain, rfl, ?_⟩
    · simp only [reads, Except.map, loadCert, bind, Except.bind, object, read]
      rfl
    · exact ⟨by rw [describes.storedAt]; rfl, date, days⟩

theorem map_domain_loaded (entry : String → Listed) {keys : List String}
    (loads : ∀ key ∈ keys, ∃ c, loadCert s (entry key) = .ok c ∧ c.domain = key) :
    (loadCertsFromVault s (.ok (keys.map entry))).map (·.domain) = keys := by
  induction keys with
  | nil => rfl
  | cons key keys ih =>
    obtain ⟨c, loaded, named⟩ := loads key List.mem_cons_self
    have rest := ih fun key' mem => loads key' (List.mem_cons_of_mem _ mem)
    simp only [loadCertsFromVault, List.map_cons, List.filterMap_cons, loaded] at rest ⊢
    simpa [Except.toOption, named] using rest

variable (dumps : Json → String) (tzdata : String → Option Zone)

/-- A whole history, on the secrets and on the board. -/
theorem run_kept (handler : app.handler = some cfg)
    (dates : ∀ certPem dates, x509 certPem = some dates → Aware s dates.2)
    (changes : List Vault.Change) {st : Vault.State}
    (plain : ∀ c ∈ changes, ∀ domain ∈ c.domain?, '/' ∉ domain.toList)
    (text : EveryStep (Vault.change dumps s.loads x509 tzdata app)
      (Vault.ReadsBack dumps s.loads x509 app) st changes)
    (shows : Vault.Shows s.loads cfg st.kv b) (kept : Kept s b) :
    Vault.Shows s.loads cfg (run (Vault.change dumps s.loads x509 tzdata app) st changes).kv
        (run (Vault.Board.step x509 app) b changes) ∧
      Kept s (run (Vault.Board.step x509 app) b changes) := by
  induction changes generalizing st b with
  | nil => exact ⟨shows, kept⟩
  | cons c changes ih =>
    obtain ⟨here, rest⟩ := (everyStep_cons _ _ _).mp text
    exact ih (fun c' mem => plain c' (List.mem_cons_of_mem _ mem)) rest
      (Vault.change_shows tzdata shows handler c here)
      (kept.step dates c (plain c List.mem_cons_self))

/-- After every history of requests, a check that gets all its answers lists exactly the domains
on the board, each once, with the expiry on its card and the days left. -/
theorem check_reports_board (s : Setting) (x509 : String → Option (String × String))
    (app : Vault.App) (cfg : Vault.VaultConfig) (handler : app.handler = some cfg)
    (dates : ∀ certPem dates, x509 certPem = some dates → Aware s dates.2)
    (changes : List Vault.Change)
    (plain : ∀ c ∈ changes, ∀ domain ∈ c.domain?, '/' ∉ domain.toList)
    (text : EveryStep (Vault.change dumps s.loads x509 tzdata app)
      (Vault.ReadsBack dumps s.loads x509 app) .initial changes)
    (keys : List String) (clock : String → Int)
    (lists : Lists cfg (run (Vault.change dumps s.loads x509 tzdata app) .initial changes).kv
      keys) :
    let b := run (Vault.Board.step x509 app) (fun _ => none) changes
    let kv := (run (Vault.change dumps s.loads x509 tzdata app) .initial changes).kv
    let certs := loadCertsFromVault s (.ok (listing cfg kv keys clock))
    certs.map (·.domain) = keys ∧ (∀ domain, domain ∈ keys ↔ (b domain).isSome) ∧
      ∀ c ∈ certs, ∃ card, b c.domain = some card ∧ Reports s card (clock c.domain) c := by
  intro b kv certs
  obtain ⟨shows, kept⟩ := run_kept dumps tzdata handler dates changes plain text
    (b := fun _ => none) (fun _ => rfl) (kept_none s)
  have loads : ∀ key ∈ keys, _ := fun key mem =>
    loadCert_card shows kept ((lists.complete key).mp mem) (clock key)
  refine ⟨map_domain_loaded _ fun key mem => ?_, fun domain => ?_, fun c mem => ?_⟩
  · obtain ⟨c, -, loaded, named, -⟩ := loads key mem
    exact ⟨c, loaded, named⟩
  · rw [lists.complete, shows.isSome_iff]
  · obtain ⟨l, listed, loaded⟩ := mem_loadCertsFromVault.mp mem
    obtain ⟨key, mem, rfl⟩ := List.mem_map.mp listed
    obtain ⟨c', card, loaded', rfl, known, reports⟩ := loads key mem
    obtain rfl : c' = c := Except.ok.inj (loaded'.symm.trans loaded)
    exact ⟨card, known, reports⟩

/-! ## A certificate that is stored and routed -/

def marchX509 (_ : String) : Option (String × String) :=
  some ("1970-01-01T00:00:00+00:00", "1970-03-01T00:00:00+00:00")

def marchFields : Dict String Json :=
  [("domain", .string "example.com"), ("issuer", .string "Let's Encrypt"),
    ("stored_at", .string (isoformat 0)), ("not_before", .string "1970-01-01T00:00:00+00:00"),
    ("expiry", .string "1970-03-01T00:00:00+00:00")]

def marchRouted : Json := .object (marchFields.set "targets" (.array [.string "f5"]))

/-- `json.loads` on the texts of the metadata before and after the change of routing. -/
def marchLoads (text : String) : Option Json :=
  if text = Vault.textDumps (.object marchFields) then some (.object marchFields)
  else if text = Vault.textDumps marchRouted then some marchRouted else none

def marchSetting : Setting := { exampleSetting with loads := marchLoads }

def marchChanges : List Vault.Change :=
  [.request Vault.renewalStore, .request Vault.renewalRoute]

def marchChange : Vault.State → Vault.Change → Vault.State :=
  Vault.change Vault.textDumps marchLoads marchX509 onlyUtc Vault.renewalApp

theorem march_loads :
    marchLoads (Vault.textDumps (.object marchFields)) = some (.object marchFields) ∧
      marchLoads (Vault.textDumps marchRouted) = some marchRouted := by
  have other : Vault.textDumps marchRouted ≠ Vault.textDumps (.object marchFields) := by
    decide +kernel
  exact ⟨if_pos rfl, (if_neg other).trans (if_pos rfl)⟩

theorem march_readsBack : EveryStep marchChange
    (Vault.ReadsBack Vault.textDumps marchLoads marchX509 Vault.renewalApp) .initial
      marchChanges := by
  refine (everyStep_cons _ _ _).mpr
    ⟨march_loads.1, (everyStep_cons _ _ _).mpr ⟨?_, everyStep_nil _⟩⟩
  intro cfg handler metadata set
  obtain rfl : {} = cfg := Option.some.inj handler
  have found : Vault.foundMetadata marchLoads {} "example.com" Vault.routeCall.now .done
      (marchChange .initial (.request Vault.renewalStore)).kv = .object marchFields :=
    Vault.foundMetadata_done rfl (Vault.metadataOf_text rfl march_loads.1)
  rw [found] at set
  obtain rfl : marchRouted = metadata := Except.ok.inj set
  exact march_loads.2

theorem march_aware : ∀ certPem dates, marchX509 certPem = some dates →
    Aware marchSetting dates.2 := by
  rintro certPem dates ⟨⟩
  have read : marchSetting.fromisoformat "1970-03-01T00:00:00+00:00" =
    some ⟨59 * usPerDay, some 0⟩ := by simp [marchSetting, exampleSetting]
  exact ⟨by decide, _, _, read, rfl⟩

theorem march_plain : ∀ c ∈ marchChanges, ∀ domain ∈ c.domain?,
    '/' ∉ domain.toList := by
  decide +kernel

def marchBoard : Vault.Board :=
  run (Vault.Board.step marchX509 Vault.renewalApp) (fun _ => none) marchChanges

theorem marchBoard_eq : marchBoard = Function.update (fun _ => none) "example.com"
    (some ⟨isoformat 0, marchX509 "CERT"⟩) := by
  simp only [marchBoard, run_cons, run_nil, marchChanges, Vault.renewalStore, Vault.renewalRoute,
    Vault.Board.step]
  rw [if_pos (by decide), if_pos (by decide)]
  simp [Vault.routedCard, marchX509]

theorem march_lists :
    Lists {} (run marchChange .initial marchChanges).kv ["example.com"] := by
  have shows : Vault.Shows marchLoads {} (run marchChange .initial marchChanges).kv
      marchBoard := (run_kept Vault.textDumps onlyUtc (s := marchSetting) (b := fun _ => none) rfl
    march_aware _ march_plain march_readsBack (fun _ => rfl) (kept_none _)).1
  refine ⟨List.nodup_singleton _, fun key => ?_⟩
  rw [shows.isSome_iff, marchBoard_eq, Function.update_apply]
  split_ifs with here <;> simp [here]

theorem check_reports_board_march :
    let certs := loadCertsFromVault marchSetting (.ok (listing {}
      (run marchChange .initial marchChanges).kv ["example.com"] fun _ => usPerDay))
    certs.map (·.domain) = ["example.com"] ∧
      (∀ domain, domain ∈ ["example.com"] ↔ (marchBoard domain).isSome) ∧
      ∀ c ∈ certs, ∃ card, marchBoard c.domain = some card ∧
        Reports marchSetting card usPerDay c :=
  check_reports_board Vault.textDumps onlyUtc marchSetting marchX509 Vault.renewalApp {} rfl
    march_aware marchChanges march_plain march_readsBack ["example.com"]
    (fun _ => usPerDay) march_lists

end AcmeGitWebhook.Monitor
