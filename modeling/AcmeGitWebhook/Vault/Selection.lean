import AcmeGitWebhook.Targets.Results
import AcmeGitWebhook.Vault.Routing

/-!
# Which targets a deployment is for

The request's names come first, then those stored for the domain, then every target. The rule
is spread over three places with three tests for what is absent, and an empty list of names
passes the first of them: `selects_iff`.
-/

namespace AcmeGitWebhook.Vault

open Library

/-- A JSON list of texts. -/
def textList : Json → Option (List String)
  | .array items => items.mapM fun
      | .string text => some text
      | _ => none
  | _ => none

/-- The list of target names in the domain's metadata, if there is one. -/
def storedList (loads : String → Option Json) (app : App) (domain : String) (kv : Kv) :
    Option (List String) :=
  match app.handler with
  | none => none
  | some cfg =>
    match (readSecret cfg domain .done kv).bind (metadataOf loads) with
    | .ok (.object fields) =>
      (Dict.get? fields "targets").bind textList
    | _ => none

/-- The targets that the certificate is to go to. -/
def wanted (loads : String → Option Json) (app : App) (mgr : Targets.DeployManager)
    (domain : String) (req : DeployRequest) (kv : Kv) : List String :=
  match req.targetNames with
  | some (name :: names) => name :: names
  | some [] | none =>
    match storedList loads app domain kv with
    | some names => names
    | none => mgr.targets.map Prod.fst

/-- The name is registered, and its window can be read. -/
def Deployable (tzdata : String → Option Zone) (mgr : Targets.DeployManager) (name : String) :
    Prop :=
  (mgr.targets.get? name).isSome ∧ mgr.Readable tzdata name

variable {loads : String → Option Json} {tzdata : String → Option Zone} {app : App}
  {cfg : VaultConfig} {kv : Kv} {st : State} {domain : String} {req : DeployRequest}
  {pemRead : ReadOutcome} {now : Int} {mgr : Targets.DeployManager} {names : List String}
  {fullchainPem privkeyPem : Json} {outcome : Nat → Except String Targets.DeployResult}

/-- A call touches exactly the names it is for if all of them can be deployed to. -/
theorem touches_requested_iff (tzdata : String → Option Zone) (mgr : Targets.DeployManager)
    (domain : String) (fullchainPem privkeyPem : Json) (targetNames : Option (List String))
    (now : Int) (outcome : Nat → Except String Targets.DeployResult) :
    ((mgr.actions tzdata ⟨domain, fullchainPem, privkeyPem, targetNames, now, outcome⟩).map
        fun a => a.1.name) = mgr.requested targetNames ↔
      ∀ name ∈ mgr.requested targetNames, Deployable tzdata mgr name := by
  cases selected : mgr.select targetNames with
  | error err =>
    have unregistered : ¬ ∀ name ∈ mgr.requested targetNames, (mgr.targets.get? name).isSome := by
      intro registered
      obtain ⟨ts, selected'⟩ := Targets.select_registered_ok registered
      rw [selected] at selected'
      cases selected'
    simp only [Targets.DeployManager.actions, selected, List.map_nil]
    constructor
    · intro none
      simp [← none] at unregistered
    · exact fun deployable => absurd (fun name mem => (deployable name mem).1) unregistered
  | ok ts =>
    have names := Targets.select_requested selected
    have registered := Targets.select_registered selected
    simp only [Targets.DeployManager.actions, selected]
    constructor
    · intro touched name mem
      refine ⟨?_, ?_⟩
      · rw [← names, List.mem_map] at mem
        obtain ⟨t, mem, rfl⟩ := mem
        exact registered t mem
      · rw [← touched, List.mem_map] at mem
        obtain ⟨a, handled, rfl⟩ := mem
        exact (Targets.deferral_isOk_iff tzdata mgr a.1.name now).mp
          ⟨a.2, (Targets.mem_handled handled).2⟩
    · intro deployable
      have readable : ∀ t ∈ ts, mgr.Readable tzdata t.name := fun t mem =>
        (deployable t.name (names ▸ List.mem_map_of_mem mem)).2
      have all : (mgr.handled tzdata now ts).map Prod.fst = ts := Targets.handled_all readable
      rw [← names]
      nth_rewrite 2 [← all]
      rw [List.map_map]
      rfl

theorem mem_actions_readable {call : Targets.DeployCall Json} {name : String}
    (mem : name ∈ (mgr.actions tzdata call).map fun a => a.1.name) : mgr.Readable tzdata name := by
  obtain ⟨a, acted, rfl⟩ := List.mem_map.mp mem
  exact (Targets.deferral_isOk_iff tzdata mgr a.1.name call.now).mp
    ⟨a.2, Targets.mem_actions acted⟩

/-! ## What is stored -/

theorem eq_map_of_texts {items : List Json} (h : (items.mapM fun
      | .string text => some text
      | _ => none) = some names) : items = names.map .string := by
  induction items generalizing names with
  | nil =>
    obtain rfl : [] = names := by simpa using h
    rfl
  | cons item items ih =>
    rw [List.mapM_cons] at h
    cases item with
    | string text =>
      obtain ⟨rest, found, eq⟩ := Option.bind_eq_some_iff.mp h
      obtain ⟨texts, found', eq'⟩ := Option.bind_eq_some_iff.mp eq
      cases found
      cases eq'
      rw [List.map_cons, ih found']
    | null | bool _ | number _ | array _ | object _ => simp at h

theorem namesOf_of_textList {json : Json} (h : textList json = some names) :
    namesOf json = .ok names := by
  cases json with
  | array items =>
    rw [eq_map_of_texts h, namesOf_strings]
  | null | bool _ | number _ | string _ | object _ => simp [textList] at h

/-- With a client, the routing lookup finds what is stored under `targets`, unless it is null. -/
theorem storedList_eq (loads : String → Option Json) (domain : String)
    (client : app.handler.isSome → kv.client = true) :
    storedList loads app domain kv =
      (storedTargets loads app domain .done kv).1.bind textList := by
  rw [storedList, storedTargets_fst]
  cases handler : app.handler with
  | none => rfl
  | some cfg =>
    simp only [client (by simp [handler]), if_true]
    rcases (readSecret cfg domain .done kv).bind (metadataOf loads) with err | metadata
    · rfl
    · cases metadata with
      | object fields =>
        dsimp only [targetsField]
        rcases Dict.get? fields "targets" with _ | (_ | _ | _ | _ | _ | _) <;> rfl
      | null | bool _ | number _ | string _ | array _ => rfl

/-! ## The rule -/

/-- A request whose stored targets cannot be iterated over, or looked up, touches nothing. -/
theorem touched_of_unroutable {pair : Json × Json} {err : PyError}
    (managed : app.manager = some mgr) (found : (pemsFor app domain req pemRead st.kv).1 = .ok pair)
    (unroutable : (targetNamesFor loads app domain req .done st.kv).1 = .error err) :
    touched st (deployCertToTargets loads tzdata app domain req pemRead .done now
      outcome st).2 = [] := by
  simp [touched, deploy_manager, managed, found, unroutable]

/-- Names that are not all the targets come to all of them only if there are none. -/
theorem touches_others {pair : Json × Json} (other : names ≠ mgr.targets.map Prod.fst) :
    ((mgr.actions tzdata ⟨domain, pair.1, pair.2, some names, now, outcome⟩).map
        fun a => a.1.name) = mgr.targets.map Prod.fst ↔ mgr.targets.map Prod.fst = [] := by
  have touches := touches_requested_iff tzdata mgr domain pair.1 pair.2 (some names) now outcome
  rw [Targets.requested_some] at touches
  constructor
  · intro all
    by_contra some_
    refine other ((touches.mpr fun name mem => ?_).symm.trans all)
    cases selected : mgr.select (some names) with
    | error err =>
      simp only [Targets.DeployManager.actions, selected, List.map_nil] at all
      exact absurd all.symm some_
    | ok ts =>
      rw [← Targets.requested_some (m := mgr) names, ← Targets.select_requested selected,
        List.mem_map] at mem
      obtain ⟨t, mem, rfl⟩ := mem
      have registered := Targets.select_registered selected t mem
      obtain ⟨t', found⟩ := Option.isSome_iff_exists.mp registered
      have known : t.name ∈ mgr.targets.map Prod.fst :=
        List.mem_map_of_mem (Dict.mem_of_get? found)
      exact ⟨registered, mem_actions_readable (all ▸ known)⟩
  · intro none
    rw [none, List.map_eq_nil_iff, List.eq_nil_iff_forall_not_mem]
    intro a acted
    have registered := Targets.actions_registered acted
    rw [List.map_eq_nil_iff.mp none] at registered
    cases registered

section

variable {pair : Json × Json} (tzdata : String → Option Zone) (now : Int)
  (outcome : Nat → Except String Targets.DeployResult) (managed : app.manager = some mgr)
  (found : (pemsFor app domain req pemRead st.kv).1 = .ok pair)

include managed found

/-- The request's names, or those stored, if it gets as far as the manager with them. -/
theorem touched_routed_iff {targetNames : Option (List String)}
    (routed : (targetNamesFor loads app domain req .done st.kv).1 = .ok targetNames) :
    touched st (deployCertToTargets loads tzdata app domain req pemRead .done now outcome st).2 =
        mgr.requested targetNames ↔
      ∀ name ∈ mgr.requested targetNames, Deployable tzdata mgr name := by
  rw [touched_eq managed found routed]
  exact touches_requested_iff tzdata mgr domain pair.1 pair.2 targetNames now outcome

/-- An empty list selects no target. -/
theorem touched_empty_iff (given : req.targetNames = some []) :
    touched st (deployCertToTargets loads tzdata app domain req pemRead .done now outcome st).2 =
        wanted loads app mgr domain req st.kv ↔ wanted loads app mgr domain req st.kv = [] := by
  have routed : (targetNamesFor loads app domain req .done st.kv).1 = .ok (some []) := by
    simp [targetNamesFor_fst, given]
  have idle := (touched_routed_iff tzdata now outcome managed found routed).mpr (by simp)
  rw [idle, eq_comm, Targets.requested_some]

/-- What is stored has to be the list that is wanted. -/
theorem touched_stored_iff {json : Json} (client : app.handler.isSome → st.kv.client = true)
    (given : req.targetNames = none)
    (lookup : (storedTargets loads app domain .done st.kv).1 = some json) :
    touched st (deployCertToTargets loads tzdata app domain req pemRead .done now outcome st).2 =
        wanted loads app mgr domain req st.kv ↔
      wanted loads app mgr domain req st.kv = [] ∨
        (namesOf json = .ok (wanted loads app mgr domain req st.kv) ∧
          ∀ name ∈ wanted loads app mgr domain req st.kv, Deployable tzdata mgr name) := by
  have stored := storedList_eq loads domain client
  cases iterated : namesOf json with
  | error err =>
    have unroutable : (targetNamesFor loads app domain req .done st.kv).1 = .error err := by
      simp [targetNamesFor_fst, given, lookup, iterated, Except.map]
    rw [touched_of_unroutable managed found unroutable, eq_comm]
    simp
  | ok names =>
    have routed : (targetNamesFor loads app domain req .done st.kv).1 = .ok (some names) := by
      simp [targetNamesFor_fst, given, lookup, iterated, Except.map]
    by_cases same : names = wanted loads app mgr domain req st.kv
    · have deploys := touched_routed_iff tzdata now outcome managed found routed
      rw [Targets.requested_some] at deploys
      rw [← same, deploys]
      refine ⟨fun deployable => Or.inr ⟨rfl, deployable⟩, ?_⟩
      rintro (nothing | ⟨-, deployable⟩)
      · simp [nothing]
      · exact deployable
    · -- what is stored is no list of names, so every target is wanted
      have unlisted : textList json = none := by
        by_contra listed
        obtain ⟨names', listed⟩ := Option.ne_none_iff_exists'.mp listed
        obtain rfl := Except.ok.inj (iterated.symm.trans (namesOf_of_textList listed))
        exact same (by simp [wanted, given, stored, lookup, listed])
      have wants : wanted loads app mgr domain req st.kv = mgr.targets.map Prod.fst := by
        simp [wanted, given, stored, lookup, unlisted]
      rw [wants] at same ⊢
      rw [touched_eq managed found routed, touches_others same]
      simp [same]

end

/-- The targets that a request deploys to or defers are those wanted, exactly if none are, or
if the request does not name an empty list, what is stored in its stead comes to the wanted
names, and all of these can be deployed to. -/
theorem selects_iff (loads : String → Option Json) (tzdata : String → Option Zone)
    (domain : String) (req : DeployRequest) (pemRead : ReadOutcome) (now : Int)
    (outcome : Nat → Except String Targets.DeployResult) (st : State) {pair : Json × Json}
    (managed : app.manager = some mgr) (client : app.handler.isSome → st.kv.client = true)
    (found : (pemsFor app domain req pemRead st.kv).1 = .ok pair) :
    touched st (deployCertToTargets loads tzdata app domain req pemRead .done now outcome st).2 =
        wanted loads app mgr domain req st.kv ↔
      wanted loads app mgr domain req st.kv = [] ∨
        (req.targetNames ≠ some [] ∧
          (req.targetNames = none → ∀ json,
            (storedTargets loads app domain .done st.kv).1 = some json →
            namesOf json = .ok (wanted loads app mgr domain req st.kv)) ∧
          ∀ name ∈ wanted loads app mgr domain req st.kv, Deployable tzdata mgr name) := by
  have deployed : ∀ {targetNames},
      (targetNamesFor loads app domain req .done st.kv).1 = .ok targetNames →
      wanted loads app mgr domain req st.kv = mgr.requested targetNames →
      (touched st (deployCertToTargets loads tzdata app domain req pemRead .done now outcome
        st).2 = wanted loads app mgr domain req st.kv ↔
          wanted loads app mgr domain req st.kv = [] ∨
            ∀ name ∈ wanted loads app mgr domain req st.kv, Deployable tzdata mgr name) := by
    intro targetNames routed wants
    rw [wants, touched_routed_iff tzdata now outcome managed found routed]
    refine ⟨Or.inr, ?_⟩
    rintro (nothing | deployable)
    · simp [nothing]
    · exact deployable
  rcases given : req.targetNames with _ | _ | ⟨name, names⟩
  · cases lookup : (storedTargets loads app domain .done st.kv).1 with
    | none =>
      have wants : wanted loads app mgr domain req st.kv = mgr.requested none := by
        simp [wanted, given, storedList_eq loads domain client, lookup]
      rw [deployed (by simp [targetNamesFor_fst, given, lookup]) wants]
      simp
    | some json =>
      rw [touched_stored_iff tzdata now outcome managed found client given lookup]
      simp
  · rw [touched_empty_iff tzdata now outcome managed found given]
    simp
  · have wants : wanted loads app mgr domain req st.kv = mgr.requested (some (name :: names)) := by
      simp [wanted, given]
    rw [deployed (by simp [targetNamesFor_fst, given]) wants]
    simp

/-! ## An empty list of names -/

def routedManager : Targets.DeployManager := .init [⟨"f5", .f5, none⟩, ⟨"ex", .exchange, none⟩]

/-- A request that brings its own certificate. -/
def requestFor (targetNames : Option (List String)) : DeployRequest :=
  ⟨targetNames, some "CHAIN", some "KEY"⟩

theorem selects_iff_named :
    touched (routedState true) (deployCertToTargets exampleLoads onlyUtc routedApp "example.com"
        (requestFor (some ["ex"])) .done .done 0 (fun _ => .error "") (routedState true)).2 =
        wanted exampleLoads routedApp routedManager "example.com" (requestFor (some ["ex"]))
          (routedState true).kv ↔
      wanted exampleLoads routedApp routedManager "example.com" (requestFor (some ["ex"]))
          (routedState true).kv = [] ∨
        ((requestFor (some ["ex"])).targetNames ≠ some [] ∧
          ((requestFor (some ["ex"])).targetNames = none → ∀ json,
            (storedTargets exampleLoads routedApp "example.com" .done (routedState true).kv).1 =
              some json →
            namesOf json = .ok (wanted exampleLoads routedApp routedManager "example.com"
              (requestFor (some ["ex"])) (routedState true).kv)) ∧
          ∀ name ∈ wanted exampleLoads routedApp routedManager "example.com"
            (requestFor (some ["ex"])) (routedState true).kv,
              Deployable onlyUtc routedManager name) :=
  selects_iff exampleLoads onlyUtc "example.com" (requestFor (some ["ex"])) .done 0
    (fun _ => .error "") (routedState true) rfl (fun _ => rfl) rfl

set_option maxRecDepth 3000 in
/-- The domain is routed to `f5`, and a request for an empty list of targets reaches none. -/
theorem selects_none :
    touched (routedState true) (deployCertToTargets exampleLoads onlyUtc routedApp "example.com"
        (requestFor (some [])) .done .done 0 (fun _ => .error "") (routedState true)).2 ≠
      wanted exampleLoads routedApp routedManager "example.com" (requestFor (some []))
        (routedState true).kv := by
  decide

end AcmeGitWebhook.Vault
