import Ployz.Config.Sync.RowText
import Ployz.Config.Sync.Validity
import Mathlib.Data.List.Dedup

/-!
# Service setting changes

A Service's settings compared with a baseline, row by row, and one row restored to what the baseline
has. The source is a row but for its git branch, each custom domain is a row of its own, and
environment values and mounts are shown but not restored.

Main theorem: `restore_clears_exactly`. A restored setting reads as the baseline's and no other row
reads it (`compareSetting_restoreField`); restored routes are the baseline's route and the others
(`restoreRoute_perm`).
-/

namespace Ployz

open Validation

/-- Settings are normalized one by one, environment and mounts taken as they are. -/
def ServiceConfig.parse (config : ServiceConfig) : Except ConfigError ServiceConfig :=
  (fun settings => { config with settings }) <$> parseServiceConfig config.settings

/-- A configuration as validation returns it. -/
def ServiceConfig.Valid (config : ServiceConfig) : Prop :=
  ∃ raw : ServiceConfig, raw.parse = .ok config

end Ployz

namespace Ployz.ServiceChanges

open Run Validation Keyed

/-! ## Rows -/

inductive ChangeKind
  | add
  | update
  | remove
deriving DecidableEq, Repr

inductive Shown
  | setting (value : Value)
  | route (route : ServiceRoute)
  | mount (mount : ServiceDeployMount)
  | secret
  | literal (value : String)
deriving DecidableEq

def Shown.null : Shown := .setting .null

structure ServiceSettingChange where
  path : String
  kind : ChangeKind
  before : Shown
  after : Shown
  canRestore : Bool
deriving DecidableEq

/-- A change with where in its node its row is; none for a mount. -/
abbrev Row := ServiceSettingChange × Option At

def change (path : String) (place : Option At) (before after : Shown) (canRestore : Bool) : Row :=
  (⟨path, if before = .null then .add else if after = .null then .remove else .update, before,
    after, canRestore⟩, place)

def fields : List Setting :=
  [.branch, .preDeployCommand, .startCommand, .restartPolicy, .maxRetries, .replicas, .cpuLimit,
    .memLimit, .privateDns, .managedHostnames, .buildMethod, .dockerfilePath, .buildCommand]

def authored : List Setting := .source :: .healthcheck :: fields

/-- A setting as its document has it; the source as its row holds it. -/
def fieldValue (config : AuthoredServiceConfig) : Setting → Value
  | .managedHostnames => .managedHostnames config.managedHostnames
  | setting => settingValue config "" setting

/-- The source as its row shows it: nothing where it is the default. -/
def sourceValue (config : AuthoredServiceConfig) : Value :=
  let value := fieldValue config .source
  if value = defaultValue .source then .null else value

/-- Whether two sources are of one type. -/
def sameType : ServiceSource → ServiceSource → Bool
  | .empty .., .empty .. | .git .., .git .. | .image .., .image .. => true
  | _, _ => false

section

variable (current : AuthoredServiceConfig) (baseline : Option AuthoredServiceConfig)

def settingChange (setting : Setting) (before after : Value) : Row :=
  change setting.path (some (.setting setting)) (.setting before) (.setting after) baseline.isSome

def compareSource : Option Row :=
  let before := baseline.elim .null sourceValue
  let after := sourceValue current
  if before = after then none else some (settingChange baseline .source before after)

/-- One row, whichever of its parts changed. -/
def compareHealthcheck : Option Row :=
  let before := baseline.elim .null (fieldValue · .healthcheck)
  let after := fieldValue current .healthcheck
  if before ≠ after ∧ (baseline.isSome ∨ current.healthcheck ≠ .none) then
    some (settingChange baseline .healthcheck before after)
  else none

def compareField (setting : Setting) : Option Row :=
  let before := baseline.elim .null (fieldValue · setting)
  let after := fieldValue current setting
  -- A git branch that comes or goes with its source is the source's change.
  let switched := baseline.any fun baseline => !sameType baseline.source current.source
  if before = after ∨ (switched ∧ setting = .branch) then none
  else if baseline.isNone ∧ after = defaultValue setting then none
  else some (settingChange baseline setting before after)

def compareSetting : Setting → Option Row
  | .source => compareSource current baseline
  | .healthcheck => compareHealthcheck current baseline
  | setting => compareField current baseline setting

end

/-! ## Routes, mounts and environment -/

/-- A family's member of an identity, the last. -/
def indexed {α : Type} (identity : α → String) (family : List α) (id : String) : Option α :=
  family.reverse.find? (identity · == id)

/-- The identities of either side in order. -/
def identities (before after : List String) : List String :=
  (before ++ after).dedup.insertionSort (· ≤ ·)

/-- The rows of a family, by identity. -/
def compareFamily {α : Type} (identity : α → String)
    (row : String → Option α → Option α → Option Row) (before after : List α) : List Row :=
  (identities (before.map identity) (after.map identity)).filterMap fun id =>
    row id (indexed identity before id) (indexed identity after id)

def compareRoute (canRestore : Bool) (id : String) (before after : Option ServiceRoute) :
    Option Row :=
  if before = after then none
  else some (change ("routes." ++ id) (some (.setting .routes)) (before.elim .null .route)
    (after.elim .null .route) canRestore)

def compareMount (id : String) (before after : Option ServiceDeployMount) : Option Row :=
  if before.map (·.mountPath) = after.map (·.mountPath) then none
  else some (change ("mounts." ++ id) none (before.elim .null .mount) (after.elim .null .mount)
    false)

inductive ComparableEnv
  | secret (variableId : Option String) (fingerprint : String)
  | template (parts : List ValuePart)
  | literal (value : String)
deriving DecidableEq

def comparableEnv : ServiceEnvValue → ComparableEnv
  | .secret variableId _ fingerprint _ => .secret variableId fingerprint
  | .literal _ (some parts) => .template parts
  | .literal value none => .literal value

/-- A plain text reads escaped, unlike a reference. -/
def redactedEnv : ServiceEnvValue → Shown
  | .secret .. => .secret
  | .literal value (some _) => .literal value
  | .literal value none => .literal (value.replace "$\x7b\x7b" "$$\x7b\x7b")

def compareEnv (key : String) (before after : Option (String × ServiceEnvValue)) : Option Row :=
  if before.map (comparableEnv ·.2) = after.map (comparableEnv ·.2) then none
  else some (change ("env." ++ key) (some (.var key)) (before.elim .null (redactedEnv ·.2))
    (after.elim .null (redactedEnv ·.2)) false)

/-- Compare settings against an available authored baseline. -/
def compareServiceSettings (current : ServiceConfig) (baseline : Option ServiceConfig) : List Row :=
  authored.filterMap (compareSetting current.settings (baseline.map (·.settings))) ++
  compareFamily (·.id) (compareRoute baseline.isSome) (baseline.elim [] (·.settings.routes))
    current.settings.routes ++
  compareFamily (·.volumeResourceId) compareMount (baseline.elim [] (·.mounts)) current.mounts ++
  compareFamily (·.1) compareEnv (baseline.elim [] (·.env)) current.env

/-! ## Restoring -/

/-- The routes with that of an identity as the baseline has it. -/
def restoreRoute (baseline routes : List ServiceRoute) (id : String) : List ServiceRoute :=
  match baseline.find? (·.id == id) with
  | some restored =>
    if routes.any (·.id == id) then modifyFirst (·.id == id) (fun _ => restored) routes
    else
      -- Before later baseline routes and newly linked domains.
      let index := baseline.findIdx (·.id == id)
      let position := routes.findIdx fun route =>
        (baseline.findIdx? (·.id == route.id)).all fun prior => index < prior
      routes.insertIdx position restored
  | none => routes.filter (·.id != id)

/-- The settings with one as the baseline has it; none where the document would not decode. -/
def restoreField (current baseline : AuthoredServiceConfig) :
    Setting → Option AuthoredServiceConfig
  | .source => some { current with source := keepBranch current.source baseline.source }
  | .branch => match baseline.source.branch?, current.source.branch? with
    | none, _ => some current
    | some branch, some _ => some { current with source := current.source.withBranch branch }
    | some _, none => none
  | .privateDns => some { current with privateDns := baseline.privateDns }
  | .managedHostnames => some { current with managedHostnames := baseline.managedHostnames }
  | .preDeployCommand => some { current with preDeployCommand := baseline.preDeployCommand }
  | .startCommand => some { current with startCommand := baseline.startCommand }
  | .healthcheck => some { current with healthcheck := baseline.healthcheck }
  | .restartPolicy => some { current with restartPolicy := baseline.restartPolicy }
  | .maxRetries => some { current with maxRetries := baseline.maxRetries }
  | .replicas => some { current with replicas := baseline.replicas }
  | .cpuLimit => some { current with cpuLimit := baseline.cpuLimit }
  | .memLimit => some { current with memLimit := baseline.memLimit }
  | .buildMethod =>
    some { current with build := { current.build with buildMethod := baseline.build.buildMethod } }
  | .dockerfilePath => some { current with
      build := { current.build with dockerfilePath := baseline.build.dockerfilePath } }
  | .buildCommand =>
    some { current with build := { current.build with command := baseline.build.command } }
  -- Routes are restored one by one.
  | .routes => none

/-- Restore one setting from the supplied configuration baseline. -/
def restoreServiceSetting (current baseline : ServiceConfig) (path : String) :
    Except ConfigError ServiceConfig :=
  match stripStart path "routes." with
  | some id =>
    ServiceConfig.parse { current with settings := { current.settings with
      routes := restoreRoute baseline.settings.routes current.settings.routes id } }
  | none =>
    match authored.find? (·.path == path) with
    | none => throw ⟨"path", "Setting has no authored restore operation"⟩
    | some setting =>
      match restoreField current.settings baseline.settings setting with
      | none => throw ⟨"service", "Invalid service configuration"⟩
      | some settings => ServiceConfig.parse { current with settings }

/-! ## Settings -/

section

variable {current baseline restored : AuthoredServiceConfig} {setting other : Setting} {row : Row}

def shownValue (config : AuthoredServiceConfig) : Setting → Value
  | .source => sourceValue config
  | setting => fieldValue config setting

/-- Two configurations differ in a setting, which a branch does with its source only. -/
def Differs (current baseline : AuthoredServiceConfig) (setting : Setting) : Prop :=
  fieldValue baseline setting ≠ fieldValue current setting ∧
    (setting = .branch → sameType baseline.source current.source = true)

instance : Decidable (Differs current baseline setting) :=
  inferInstanceAs (Decidable (_ ∧ _))

theorem sourceValue_eq_iff : sourceValue baseline = sourceValue current ↔
    fieldValue baseline .source = fieldValue current .source := by
  simp only [sourceValue]
  constructor
  · intro h
    split_ifs at h with hb hc hc
    · rw [hb, hc]
    · cases h
    · cases h
    · exact h
  · intro h
    rw [h]

/-- A setting with a baseline has a row exactly if it differs. -/
theorem compareSetting_some :
    compareSetting current (some baseline) setting =
      if Differs current baseline setting then
        some (settingChange (some baseline) setting (shownValue baseline setting)
          (shownValue current setting))
      else none := by
  cases setting with
  | source =>
    simp [compareSetting, compareSource, Differs, shownValue, sourceValue_eq_iff]
  | healthcheck => simp [compareSetting, compareHealthcheck, Differs, shownValue]
  | branch =>
    simp only [compareSetting, compareField, Differs, shownValue, Option.elim_some, Option.any_some,
      Option.isNone_some, Bool.not_eq_true', forall_const, and_true]
    grind
  | _ => simp [compareSetting, compareField, Differs, shownValue]

theorem compareSetting_congr (hvalue : fieldValue restored other = fieldValue current other)
    (hsource : other = .branch → restored.source = current.source) :
    compareSetting restored (some baseline) other =
      compareSetting current (some baseline) other := by
  have hshown : shownValue restored other = shownValue current other := by
    cases other with
    | source => exact sourceValue_eq_iff.mpr hvalue
    | _ => exact hvalue
  have hdiffers : Differs restored baseline other ↔ Differs current baseline other := by
    rw [Differs, Differs, hvalue]
    refine and_congr_right fun _ => forall_congr' fun hbranch => ?_
    rw [hsource hbranch]
  simp only [compareSetting_some, hshown, hdiffers]

variable {own source : ServiceSource}

theorem keepBranch_of_not_sameType (h : ¬ sameType source own = true) :
    keepBranch own source = source := by
  cases own <;> cases source <;> first | rfl | exact absurd rfl h

/-- A source that is restored shows or hides no branch. -/
theorem compareSetting_keepBranch :
    compareSetting { current with source := keepBranch current.source baseline.source }
      (some baseline) .branch = compareSetting current (some baseline) .branch := by
  by_cases hsame : sameType baseline.source current.source = true
  · have hbranch : (keepBranch current.source baseline.source).branch? =
        current.source.branch? := by
      revert hsame
      cases baseline.source <;> cases current.source <;> simp [sameType, keepBranch,
        ServiceSource.branch?]
    have hvalue : fieldValue { current with source := keepBranch current.source baseline.source }
        .branch = fieldValue current .branch := congrArg (optional .branch) hbranch
    have htype : sameType baseline.source (keepBranch current.source baseline.source) = true := by
      revert hsame
      cases baseline.source <;> cases current.source <;> simp [sameType, keepBranch]
    simp only [compareSetting_some, Differs, shownValue, hvalue, hsame, htype]
  · rw [keepBranch_of_not_sameType hsame, compareSetting_some, compareSetting_some, if_neg, if_neg]
    · exact fun hdiffers => hsame (hdiffers.2 rfl)
    · exact fun hdiffers => hdiffers.1 rfl

theorem sourceCell_keepBranch_self (own source : ServiceSource) :
    sourceCell (keepBranch own source) = sourceCell source := by
  cases own <;> cases source <;> rfl

theorem restoreField_branch (h : restoreField current baseline .branch = some restored) :
    restored = current ∧ baseline.source.branch? = none ∨
      ∃ branch, baseline.source.branch? = some branch ∧ current.source.branch?.isSome ∧
        restored = { current with source := current.source.withBranch branch } := by
  simp only [restoreField] at h
  split at h
  · exact .inl ⟨(Option.some.inj h).symm, by assumption⟩
  · rename_i branch own hbranch hown
    exact .inr ⟨branch, hbranch, by rw [hown]; rfl, (Option.some.inj h).symm⟩
  · cases h

theorem branch?_withBranch {source : ServiceSource} (h : source.branch?.isSome)
    (branch : ServiceGitBranch) : (source.withBranch branch).branch? = some branch := by
  cases source with
  | git => rfl
  | _ => cases h

/-- A setting that is restored reads as the baseline's. -/
theorem not_differs_restoreField (h : restoreField current baseline setting = some restored) :
    ¬ Differs restored baseline setting := by
  cases setting with
  | source =>
    cases h
    exact fun hdiffers => hdiffers.1 (congrArg Value.source (sourceCell_keepBranch_self ..).symm)
  | branch =>
    rintro ⟨hvalue, htype⟩
    rcases restoreField_branch h with ⟨rfl, hnone⟩ | ⟨branch, hbranch, hown, rfl⟩
    · have hother : restored.source.branch? = none := by
        have htype := htype rfl
        revert htype hnone
        cases baseline.source <;> cases restored.source <;> simp [sameType, ServiceSource.branch?]
      exact hvalue (congrArg (optional .branch) (hnone.trans hother.symm))
    · exact hvalue (congrArg (optional .branch)
        (hbranch.trans (branch?_withBranch hown branch).symm))
  | routes => cases h
  | _ =>
    cases h
    exact fun hdiffers => hdiffers.1 rfl

/-- Restoring a setting leaves what other settings read. -/
theorem fieldValue_restoreField (h : restoreField current baseline setting = some restored)
    (hne : other ≠ setting) (hbranch : setting = .source → other ≠ .branch) :
    fieldValue restored other = fieldValue current other := by
  cases setting with
  | source =>
    cases h
    cases other <;> first | rfl | exact absurd rfl hne | exact absurd rfl (hbranch rfl)
  | branch =>
    rcases restoreField_branch h with ⟨rfl, -⟩ | ⟨branch, -, hown, rfl⟩
    · rfl
    · cases other with
      | branch => exact absurd rfl hne
      | source =>
        revert hown
        cases hsource : current.source <;> simp [fieldValue, settingValue, hsource,
          ServiceSource.withBranch, ServiceSource.branch?, sourceCell]
      | _ => rfl
  | routes => cases h
  | _ =>
    cases h
    cases other <;> first | rfl | exact absurd rfl hne

theorem source_restoreField (h : restoreField current baseline setting = some restored)
    (hsource : setting ≠ .source) (hbranch : setting ≠ .branch) :
    restored.source = current.source := by
  cases setting <;> first | contradiction | (cases h; rfl)

/-- Restoring a setting removes its row and no other. -/
theorem compareSetting_restoreField (h : restoreField current baseline setting = some restored) :
    compareSetting restored (some baseline) other =
      if other = setting then none else compareSetting current (some baseline) other := by
  split_ifs with heq
  · subst heq
    rw [compareSetting_some, if_neg (not_differs_restoreField h)]
  by_cases hpair : setting = .source ∧ other = .branch
  · obtain ⟨rfl, rfl⟩ := hpair
    cases h
    exact compareSetting_keepBranch
  · refine compareSetting_congr (fieldValue_restoreField h heq fun hs ho => hpair ⟨hs, ho⟩) ?_
    rintro rfl
    exact source_restoreField h (fun hs => hpair ⟨hs, rfl⟩) (Ne.symm heq)

theorem sourceHolds_keepBranch (h : SourceHolds .normal source) :
    SourceHolds .normal (keepBranch own source) := by
  cases own <;> cases source <;> exact h

theorem sourceHolds_withBranch {source : ServiceSource} (h : SourceHolds .normal source)
    (branch : ServiceGitBranch) : SourceHolds .normal (source.withBranch branch) := by
  cases source <;> exact h

theorem branch_keepBranch_or :
    (keepBranch own source).branch? = own.branch? ∨
      (keepBranch own source).branch? = source.branch? := by
  cases own <;> cases source <;> simp [keepBranch, ServiceSource.branch?]

/-- Each setting of a restored configuration passes its check in one of the two. -/
theorem settingHolds_restoreField (hcurrent : ∀ setting, SettingHolds .normal current setting)
    (hbaseline : ∀ setting, SettingHolds .normal baseline setting)
    (h : restoreField current baseline setting = some restored) :
    SettingHolds .normal restored other := by
  have hc := hcurrent other
  have hb := hbaseline other
  cases setting with
  | source =>
    cases h
    cases other with
    | source => exact sourceHolds_keepBranch hb
    | branch =>
      intro branch hbranch
      rcases @branch_keepBranch_or current.source baseline.source with heq | heq
      · exact hc branch (heq ▸ hbranch)
      · exact hb branch (heq ▸ hbranch)
    | _ => exact hc
  | branch =>
    rcases restoreField_branch h with ⟨rfl, -⟩ | ⟨branch, hbranch, hown, rfl⟩
    · exact hc
    · cases other with
      | source => exact sourceHolds_withBranch hc branch
      | branch =>
        intro named hnamed
        rw [branch?_withBranch hown branch] at hnamed
        exact hb named (hbranch.trans hnamed)
      | _ => exact hc
  | routes => cases h
  | _ =>
    cases h
    cases other <;> first | exact hc | exact hb

end

/-! ## Routes -/

section

variable {baseline routes_ : List ServiceRoute} {id : String}

/-- One route's own check. -/
def RouteHolds (route : ServiceRoute) : Prop :=
  isUuid route.id = true ∧ toLowercase (trim route.hostname) = route.hostname ∧
    isHostname route.hostname = true ∧ route.targetPort ≠ some 0

/-- Routes are in normal form exactly if each is and no identity comes twice. -/
theorem routes_self_iff {ids : List String} : routes ids routes_ = .ok routes_ ↔
    (∀ route ∈ routes_, RouteHolds route ∧ route.id ∉ ids) ∧ (routes_.map (·.id)).Nodup := by
  induction routes_ generalizing ids with
  | nil => simp [routes, pure_eq_ok]
  | cons route rest ih =>
    simp only [routes, bind_eq_ok, range_eq_ok, pure_eq_ok, exists_const, Bool.and_eq_true,
      Bool.not_eq_true', List.contains_eq_mem, decide_eq_false_iff_not, bne_iff_ne, List.map_cons,
      List.nodup_cons, List.forall_mem_cons]
    constructor
    · rintro ⟨⟨huuid, hfresh⟩, hhost, hport, rest', hrest, heq⟩
      obtain ⟨hroute, rfl⟩ := List.cons.inj heq
      have hlower := congrArg ServiceRoute.hostname hroute
      dsimp only at hlower
      obtain ⟨hall, hnodup⟩ := ih.mp hrest
      rw [hlower] at hhost
      refine ⟨⟨⟨⟨huuid, hlower, hhost, hport⟩, hfresh⟩, fun other hother => ?_⟩, ?_, hnodup⟩
      · exact (hall other hother).imp_right fun h hmem => h (List.mem_cons_of_mem _ hmem)
      · rw [List.mem_map]
        rintro ⟨other, hother, hid⟩
        exact (hall other hother).2 (hid ▸ List.mem_cons_self)
    · rintro ⟨⟨⟨⟨huuid, hlower, hhost, hport⟩, hfresh⟩, hall⟩, hunique, hnodup⟩
      rw [hlower]
      refine ⟨⟨huuid, hfresh⟩, hhost, hport, rest, ih.mpr ⟨fun other hother => ?_, hnodup⟩, rfl⟩
      refine ⟨(hall other hother).1, fun hmem => ?_⟩
      rcases List.mem_cons.mp hmem with hid | hmem
      · exact hunique (List.mem_map.mpr ⟨other, hother, hid⟩)
      · exact (hall other hother).2 hmem

theorem modifyFirst_perm {restored : ServiceRoute} (hnodup : (routes_.map (·.id)).Nodup)
    (hmem : id ∈ routes_.map (·.id)) :
    (modifyFirst (·.id == id) (fun _ => restored) routes_).Perm
      (restored :: routes_.filter (·.id != id)) := by
  induction routes_ with
  | nil => cases hmem
  | cons route rest ih =>
    obtain ⟨hroute, hrest⟩ := List.nodup_cons.mp hnodup
    rw [modifyFirst]
    by_cases hid : route.id = id
    · have hself : rest.filter (·.id != id) = rest := by
        rw [List.filter_eq_self]
        intro other hother
        rw [bne_iff_ne]
        exact fun heq => hroute (List.mem_map.mpr ⟨other, hother, heq.trans hid.symm⟩)
      simp [hid, hself]
    · have hmem' : id ∈ rest.map (·.id) := by simpa [Ne.symm hid] using hmem
      simpa [hid] using ((ih hrest hmem').cons route).trans (List.Perm.swap ..)

/-- Restored routes are the baseline's route, if it has one, and the others. -/
theorem restoreRoute_perm (hnodup : (routes_.map (·.id)).Nodup) :
    (restoreRoute baseline routes_ id).Perm
      ((baseline.find? (·.id == id)).toList ++ routes_.filter (·.id != id)) := by
  rw [restoreRoute]
  cases hfind : baseline.find? (·.id == id) with
  | none => exact List.Perm.refl _
  | some restored =>
    dsimp only
    split_ifs with hany
    · exact modifyFirst_perm hnodup (by simpa using hany)
    · have hself : routes_.filter (·.id != id) = routes_ := by
        rw [List.filter_eq_self]
        simpa using hany
      rw [hself]
      exact List.perm_insertIdx _ _ List.findIdx_le_length

theorem nodup_restoreRoute (hnodup : (routes_.map (·.id)).Nodup) :
    ((restoreRoute baseline routes_ id).map (·.id)).Nodup := by
  rw [((restoreRoute_perm hnodup).map _).nodup_iff, List.map_append, List.nodup_append]
  refine ⟨?_, hnodup.sublist (List.filter_sublist.map _), ?_⟩
  · cases baseline.find? (·.id == id) <;> simp
  · simp only [List.mem_map, Option.mem_toList, List.mem_filter, bne_iff_ne]
    rintro _ ⟨restored, hfound, rfl⟩ _ ⟨other, ⟨-, hother⟩, rfl⟩ heq
    have hid : restored.id = id := by simpa using List.find?_some hfound
    exact hother (heq.symm.trans hid)

/-- Under an identity the restored routes have what the baseline has, under others what they had. -/
theorem indexed_restoreRoute (hnodup : (routes_.map (·.id)).Nodup)
    (hbaseline : (baseline.map (·.id)).Nodup) (other : String) :
    indexed (·.id) (restoreRoute baseline routes_ id) other =
      if other = id then indexed (·.id) baseline id else indexed (·.id) routes_ other := by
  have hperm := @restoreRoute_perm baseline routes_ id hnodup
  have hrestored := @nodup_restoreRoute baseline routes_ id hnodup
  have hmem : ∀ route, indexed (·.id) (restoreRoute baseline routes_ id) other = some route ↔
      (route ∈ baseline.find? (·.id == id) ∨ route ∈ routes_ ∧ route.id ≠ id) ∧
        route.id = other := by
    intro route
    rw [indexed, find_reverse hrestored, find_eq_some_iff hrestored, hperm.mem_iff]
    simp
  ext route
  rw [hmem]
  split_ifs with heq
  · subst heq
    rw [indexed, find_reverse hbaseline]
    constructor
    · rintro ⟨hfound | ⟨-, hne⟩, hid⟩
      · exact hfound
      · exact absurd hid hne
    · intro hfound
      exact ⟨.inl hfound, by simpa using List.find?_some hfound⟩
  · rw [indexed, find_reverse hnodup, find_eq_some_iff hnodup]
    constructor
    · rintro ⟨hfound | ⟨hroute, -⟩, hid⟩
      · exact absurd (hid.symm.trans (by simpa using List.find?_some hfound)) heq
      · exact ⟨hroute, hid⟩
    · rintro ⟨hroute, hid⟩
      exact ⟨.inr ⟨hroute, fun h => heq (hid.symm.trans h)⟩, hid⟩

theorem restoreRoute_holds (h : routes [] routes_ = .ok routes_)
    (hbaseline : routes [] baseline = .ok baseline) :
    routes [] (restoreRoute baseline routes_ id) = .ok (restoreRoute baseline routes_ id) := by
  obtain ⟨hall, hnodup⟩ := routes_self_iff.mp h
  refine routes_self_iff.mpr ⟨fun route hroute => ⟨?_, by simp⟩, nodup_restoreRoute hnodup⟩
  rcases List.mem_append.mp ((restoreRoute_perm hnodup).mem_iff.mp hroute) with hfound | hkept
  · have hmem := List.mem_of_find?_eq_some (Option.mem_toList.mp hfound)
    exact ((routes_self_iff.mp hbaseline).1 route hmem).1
  · exact (hall route (List.mem_of_mem_filter hkept)).1

end

/-! ## Lists of rows -/

section

variable {α : Type} {row : Row}

/-- Rows without the one of a place are the rows of the others. -/
theorem filterMap_without {κ : Type} [DecidableEq κ] {f g : κ → Option Row} {place : κ}
    {places : List κ} (hrow : ∀ other, f other = some row → other = place)
    (hplace : f place = some row)
    (hg : ∀ other, g other = if other = place then none else f other) :
    places.filterMap g = (places.filterMap f).filter (· ≠ row) := by
  rw [List.filter_filterMap]
  refine List.filterMap_congr fun other _ => ?_
  rw [hg]
  split_ifs with heq
  · rw [heq, hplace, Option.filter_some]
    simp
  · cases hother : f other with
    | none => rfl
    | some found =>
      have hne : found ≠ row := fun h => heq (hrow other (h ▸ hother))
      rw [Option.filter_some]
      simp [hne]

theorem mem_identities {before after : List String} {id : String} :
    id ∈ identities before after ↔ id ∈ before ∨ id ∈ after := by
  simp [identities]

/-- Only identities with a row matter. -/
theorem filterMap_identities {before after after' : List String} {f : String → Option Row}
    (h : ∀ id, f id ≠ none → (id ∈ before ∨ id ∈ after ↔ id ∈ before ∨ id ∈ after')) :
    (identities before after).filterMap f = (identities before after').filterMap f := by
  have hshown : ∀ ids : List String, ids.filterMap f = (ids.filter (f · ≠ none)).filterMap f := by
    intro ids
    rw [List.filterMap_filter]
    refine List.filterMap_congr fun id _ => ?_
    cases hid : f id <;> simp
  have hsame : (identities before after).filter (f · ≠ none) =
      (identities before after').filter (f · ≠ none) := by
    have hsorted : ∀ ids : List String,
        ((identities before ids).filter (f · ≠ none)).Pairwise (· ≤ ·) :=
      fun ids => (List.pairwise_insertionSort _ _).filter _
    have hnodup : ∀ ids : List String, ((identities before ids).filter (f · ≠ none)).Nodup :=
      fun ids => (((List.perm_insertionSort _ _).nodup_iff).mpr (List.nodup_dedup _)).filter _
    refine List.Perm.eq_of_pairwise' (hsorted _) (hsorted _) ?_
    refine (List.perm_ext_iff_of_nodup (hnodup _) (hnodup _)).mpr fun id => ?_
    simp only [List.mem_filter, mem_identities, decide_eq_true_eq]
    exact and_congr_left (h id)
  rw [hshown, hsame, ← hshown]

theorem mem_map_iff_indexed {identity : α → String} {family : List α} {id : String} :
    id ∈ family.map identity ↔ indexed identity family id ≠ none := by
  simp [indexed, List.find?_eq_none]

/-- A family that reads as the baseline under one identity has lost its row only. -/
theorem compareFamily_without {identity : α → String}
    {compareRow : String → Option α → Option α → Option Row} {before after after' : List α}
    {id : String} (hsame : ∀ id x, compareRow id x x = none)
    (hrow : ∀ other x y, compareRow other x y = some row → other = id)
    (hid : compareRow id (indexed identity before id) (indexed identity after id) = some row)
    (hindexed : ∀ other, indexed identity after' other =
      if other = id then indexed identity before id else indexed identity after other) :
    compareFamily identity compareRow before after' =
      (compareFamily identity compareRow before after).filter (· ≠ row) := by
  have hafter : ∀ other, compareRow other (indexed identity before other)
      (indexed identity after' other) = if other = id then none else
        compareRow other (indexed identity before other) (indexed identity after other) := by
    intro other
    rw [hindexed]
    split_ifs with heq
    · rw [heq, hsame]
    · rfl
  rw [compareFamily, compareFamily, ← filterMap_without (fun other => hrow other _ _) hid hafter]
  refine filterMap_identities fun other hother => or_congr_right ?_
  have hne : other ≠ id := by
    rintro rfl
    rw [hafter, if_pos rfl] at hother
    exact hother rfl
  rw [mem_map_iff_indexed, mem_map_iff_indexed, hindexed, if_neg hne]

theorem filter_ne_self {rows : List Row} (h : ∀ other ∈ rows, other.2 ≠ row.2) :
    rows.filter (· ≠ row) = rows := by
  rw [List.filter_eq_self]
  intro other hother
  rw [decide_eq_true_eq]
  rintro rfl
  exact h other hother rfl

end

/-! ## Places -/

section

variable {current baseline : AuthoredServiceConfig} {setting : Setting} {row : Row} {id : String}

theorem compareSetting_eq_some (h : compareSetting current (some baseline) setting = some row) :
    Differs current baseline setting ∧ row.1.path = setting.path ∧ row.1.canRestore = true ∧
      row.2 = some (.setting setting) := by
  rw [compareSetting_some] at h
  split_ifs at h with hdiffers
  cases h
  exact ⟨hdiffers, rfl, rfl, rfl⟩

theorem compareRoute_eq_some {canRestore : Bool} {before after : Option ServiceRoute}
    (h : compareRoute canRestore id before after = some row) :
    row.1.path = "routes." ++ id ∧ row.1.canRestore = canRestore ∧
      row.2 = some (.setting .routes) := by
  unfold compareRoute at h
  split_ifs at h
  cases h
  exact ⟨rfl, rfl, rfl⟩

theorem compareMount_eq_some {before after : Option ServiceDeployMount}
    (h : compareMount id before after = some row) : row.1.canRestore = false ∧ row.2 = none := by
  unfold compareMount at h
  split_ifs at h
  cases h
  exact ⟨rfl, rfl⟩

theorem compareEnv_eq_some {before after : Option (String × ServiceEnvValue)}
    (h : compareEnv id before after = some row) :
    row.1.canRestore = false ∧ row.2 = some (.var id) := by
  unfold compareEnv at h
  split_ifs at h
  cases h
  exact ⟨rfl, rfl⟩

section

variable {α : Type} {identity : α → String} {before after : List α}
  {compareRow : String → Option α → Option α → Option Row}

theorem mem_compareFamily (h : row ∈ compareFamily identity compareRow before after) :
    ∃ id, compareRow id (indexed identity before id) (indexed identity after id) = some row := by
  obtain ⟨id, -, hid⟩ := List.mem_filterMap.mp h
  exact ⟨id, hid⟩

theorem compareFamily_filter
    (h : ∀ id x y other, compareRow id x y = some other → other.2 ≠ row.2) :
    (compareFamily identity compareRow before after).filter (· ≠ row) =
      compareFamily identity compareRow before after := by
  refine filter_ne_self fun other hother => ?_
  obtain ⟨id, hid⟩ := mem_compareFamily hother
  exact h id _ _ other hid

theorem compareFamily_unrestorable
    (h : ∀ id x y row, compareRow id x y = some row → row.1.canRestore = false) :
    (compareFamily identity compareRow before after).filter (·.1.canRestore) = [] := by
  rw [List.filter_eq_nil_iff]
  intro row hrow
  obtain ⟨id, hid⟩ := mem_compareFamily hrow
  simp [h id _ _ row hid]

end

theorem compareMount_ne {place : At} (hplace : row.2 = some place) (id : String)
    (x y : Option ServiceDeployMount) (other : Row) (h : compareMount id x y = some other) :
    other.2 ≠ row.2 := by
  rw [(compareMount_eq_some h).2, hplace]
  simp

theorem compareEnv_ne (hplace : row.2 = some (.setting setting)) (id : String)
    (x y : Option (String × ServiceEnvValue)) (other : Row) (h : compareEnv id x y = some other) :
    other.2 ≠ row.2 := by
  rw [(compareEnv_eq_some h).2, hplace]
  simp

theorem restoreField_of_differs (hsetting : setting ∈ authored)
    (h : Differs current baseline setting) :
    ∃ restored, restoreField current baseline setting = some restored := by
  cases setting with
  | branch =>
    have htype := h.2 rfl
    simp only [restoreField]
    revert htype
    cases baseline.source <;> cases current.source <;> simp [sameType, ServiceSource.branch?]
  | routes => exact absurd hsetting (by decide)
  | _ => exact ⟨_, rfl⟩

theorem version_restoreField {restored : AuthoredServiceConfig}
    (h : restoreField current baseline setting = some restored) :
    restored.version = current.version ∧ restored.routes = current.routes := by
  cases setting with
  | branch =>
    rcases restoreField_branch h with ⟨rfl, -⟩ | ⟨_, -, -, rfl⟩ <;> exact ⟨rfl, rfl⟩
  | routes => cases h
  | _ =>
    cases h
    exact ⟨rfl, rfl⟩

theorem stripStart_path (hsetting : setting ∈ authored) :
    stripStart setting.path "routes." = none ∧
      authored.find? (·.path == setting.path) = some setting := by
  cases setting with
  | routes => exact absurd hsetting (by decide)
  | _ => decide +kernel

end

/-! ## Restored rows -/

section

variable {current baseline config : ServiceConfig} {row : Row}

theorem valid_iff : config.Valid ↔
    config.settings.version = 2 ∧ ∀ setting, SettingHolds .normal config.settings setting := by
  rw [← parseServiceConfig_self_iff]
  constructor
  · rintro ⟨raw, hraw⟩
    obtain ⟨settings, hsettings, rfl⟩ := map_eq_ok.mp hraw
    exact parseServiceConfig_normalizes hsettings
  · intro h
    exact ⟨config, map_eq_ok.mpr ⟨_, h, rfl⟩⟩

theorem parse_of_valid (h : config.Valid) : config.parse = .ok config :=
  map_eq_ok.mpr ⟨_, parseServiceConfig_self_iff.mpr (valid_iff.mp h), rfl⟩

/-- Restoring a row gives a valid configuration that has lost that row and no other. -/
def Clears (current baseline : ServiceConfig) (row : Row) : Prop :=
  ∃ restored, restoreServiceSetting current baseline row.1.path = .ok restored ∧ restored.Valid ∧
    compareServiceSettings restored (some baseline) =
      (compareServiceSettings current (some baseline)).filter (· ≠ row)

theorem restore_setting (hcurrent : current.Valid) (hbaseline : baseline.Valid) {setting : Setting}
    (hsetting : setting ∈ authored)
    (hrow : compareSetting current.settings (some baseline.settings) setting = some row) :
    Clears current baseline row := by
  obtain ⟨hdiffers, hpath, -, hplace⟩ := compareSetting_eq_some hrow
  obtain ⟨settings, hrestored⟩ := restoreField_of_differs hsetting hdiffers
  obtain ⟨hversion, hroutes⟩ := version_restoreField hrestored
  obtain ⟨hcversion, hcholds⟩ := valid_iff.mp hcurrent
  have hvalid : ServiceConfig.Valid { current with settings } :=
    valid_iff.mpr ⟨hversion.trans hcversion, fun _ =>
      settingHolds_restoreField hcholds (valid_iff.mp hbaseline).2 hrestored⟩
  refine ⟨{ current with settings }, ?_, hvalid, ?_⟩
  · obtain ⟨hstrip, hfind⟩ := stripStart_path hsetting
    rw [restoreServiceSetting, hpath, hstrip]
    dsimp only
    rw [hfind]
    dsimp only
    rw [hrestored]
    exact parse_of_valid hvalid
  · have hsettings : authored.filterMap (compareSetting settings (some baseline.settings)) =
        (authored.filterMap (compareSetting current.settings (some baseline.settings))).filter
          (· ≠ row) := by
      refine filterMap_without (fun other hother => ?_) hrow fun _ =>
        compareSetting_restoreField hrestored
      have hsame := (compareSetting_eq_some hother).2.2.2
      rw [hplace] at hsame
      cases hsame
      rfl
    have hne : setting ≠ .routes := fun heq => absurd (heq ▸ hsetting) (by decide)
    simp only [compareServiceSettings, List.filter_append, Option.map_some]
    rw [hsettings, hroutes, compareFamily_filter (compareMount_ne hplace),
      compareFamily_filter (compareEnv_ne hplace),
        compareFamily_filter fun id x y other hother => by
        rw [(compareRoute_eq_some hother).2.2, hplace]
        simpa using Ne.symm hne]

theorem restore_route (hcurrent : current.Valid) (hbaseline : baseline.Valid) {id : String}
    (hrow : compareRoute true id (indexed (·.id) baseline.settings.routes id)
      (indexed (·.id) current.settings.routes id) = some row) :
    Clears current baseline row := by
  obtain ⟨hpath, -, hplace⟩ := compareRoute_eq_some hrow
  obtain ⟨hversion, hholds⟩ := valid_iff.mp hcurrent
  have hroutes := hholds .routes
  have hroutes' := (valid_iff.mp hbaseline).2 .routes
  let settings := { current.settings with
    routes := restoreRoute baseline.settings.routes current.settings.routes id }
  have hvalid : ServiceConfig.Valid { current with settings } := by
    refine valid_iff.mpr ⟨hversion, fun setting => ?_⟩
    have hother := hholds setting
    cases setting with
    | routes => exact restoreRoute_holds hroutes hroutes'
    | _ => exact hother
  refine ⟨{ current with settings }, ?_, hvalid, ?_⟩
  · rw [restoreServiceSetting, hpath, stripStart_eq_some.mpr rfl]
    exact parse_of_valid hvalid
  · have hfamily : compareFamily (·.id) (compareRoute true) baseline.settings.routes
        settings.routes = (compareFamily (·.id) (compareRoute true) baseline.settings.routes
          current.settings.routes).filter (· ≠ row) := by
      refine compareFamily_without (fun id x => if_pos rfl) (fun other x y hother => ?_) hrow
        (indexed_restoreRoute (routes_self_iff.mp hroutes).2 (routes_self_iff.mp hroutes').2)
      have hsame := (compareRoute_eq_some hother).1
      rw [hpath] at hsame
      exact (String.append_right_inj _).mp hsame.symm
    have hsettings : authored.filterMap (compareSetting settings (some baseline.settings)) =
        (authored.filterMap (compareSetting current.settings (some baseline.settings))).filter
          (· ≠ row) := by
      rw [filter_ne_self]
      · exact List.filterMap_congr fun setting hsetting => compareSetting_congr
          (by cases setting <;> first | rfl | exact absurd hsetting (by decide)) fun _ => rfl
      · intro other hother
        obtain ⟨setting, hsetting, hsome⟩ := List.mem_filterMap.mp hother
        have hne : setting ≠ .routes := fun heq => absurd (heq ▸ hsetting) (by decide)
        rw [(compareSetting_eq_some hsome).2.2.2, hplace]
        simpa using hne
    simp only [compareServiceSettings, List.filter_append, Option.map_some, Option.isSome_some,
      Option.elim_some]
    rw [hsettings, hfamily, compareFamily_filter (compareMount_ne hplace),
      compareFamily_filter (compareEnv_ne hplace)]

theorem restore_row (hcurrent : current.Valid) (hbaseline : baseline.Valid)
    (hrow : row ∈ compareServiceSettings current (some baseline)) (hcan : row.1.canRestore = true) :
    Clears current baseline row := by
  simp only [compareServiceSettings, List.mem_append] at hrow
  rcases hrow with ((hsetting | hroute) | hmount) | henv
  · obtain ⟨setting, hsetting, hsome⟩ := List.mem_filterMap.mp hsetting
    exact restore_setting hcurrent hbaseline hsetting hsome
  · obtain ⟨id, hid⟩ := mem_compareFamily hroute
    exact restore_route hcurrent hbaseline hid
  · obtain ⟨id, hid⟩ := mem_compareFamily hmount
    rw [(compareMount_eq_some hid).1] at hcan
    cases hcan
  · obtain ⟨key, hkey⟩ := mem_compareFamily henv
    rw [(compareEnv_eq_some hkey).1] at hcan
    cases hcan

/-- Rows restored one after the other are all gone. -/
theorem restore_rows (hcurrent : current.Valid) (hbaseline : baseline.Valid) {order : List Row}
    (hnodup : order.Nodup)
    (hrows : ∀ row ∈ order, row ∈ compareServiceSettings current (some baseline) ∧
      row.1.canRestore = true) :
    ∃ restored, order.foldlM (fun config row => restoreServiceSetting config baseline row.1.path)
        current = .ok restored ∧ restored.Valid ∧
      compareServiceSettings restored (some baseline) =
        (compareServiceSettings current (some baseline)).filter (· ∉ order) := by
  induction order generalizing current with
  | nil => exact ⟨current, rfl, hcurrent, by simp⟩
  | cons row order ih =>
    obtain ⟨hrow, horder⟩ := List.nodup_cons.mp hnodup
    obtain ⟨hmem, hcan⟩ := hrows row List.mem_cons_self
    obtain ⟨next, hnext, hvalid, hcompare⟩ := restore_row hcurrent hbaseline hmem hcan
    have hrest : ∀ other ∈ order, other ∈ compareServiceSettings next (some baseline) ∧
        other.1.canRestore = true := by
      intro other hother
      obtain ⟨hshown, hrestorable⟩ := hrows other (List.mem_cons_of_mem _ hother)
      have hne : other ≠ row := fun heq => hrow (heq ▸ hother)
      rw [hcompare]
      exact ⟨List.mem_filter.mpr ⟨hshown, by simpa using hne⟩, hrestorable⟩
    obtain ⟨restored, hfold, hrestored, hleft⟩ := ih hvalid horder hrest
    refine ⟨restored, ?_, hrestored, ?_⟩
    · rw [List.foldlM_cons, hnext]
      exact hfold
    · rw [hleft, hcompare, List.filter_filter]
      refine List.filter_congr fun other _ => ?_
      simp [not_or, Bool.and_comm]

/-- No row is shown twice. -/
theorem nodup_restorable :
    ((compareServiceSettings current (some baseline)).filter (·.1.canRestore)).Nodup := by
  simp only [compareServiceSettings, List.filter_append, Option.elim_some, Option.map_some,
    compareFamily_unrestorable fun _ _ _ _ h => (compareMount_eq_some h).1,
    compareFamily_unrestorable fun _ _ _ _ h => (compareEnv_eq_some h).1, List.append_nil]
  rw [← List.filter_append]
  refine List.Nodup.filter _ (List.nodup_append.mpr ⟨?_, ?_, ?_⟩)
  · refine List.Nodup.filterMap (fun setting other row hsetting hother => ?_) (by decide)
    have hplace := (compareSetting_eq_some hsetting).2.2.2
    rw [(compareSetting_eq_some hother).2.2.2] at hplace
    cases hplace
    rfl
  · refine List.Nodup.filterMap (fun id other row hid hother => ?_)
      ((List.perm_insertionSort _ _).nodup_iff.mpr (List.nodup_dedup _))
    have hpath := (compareRoute_eq_some hid).1
    rw [(compareRoute_eq_some hother).1] at hpath
    exact ((String.append_right_inj _).mp hpath).symm
  · intro row hrow other hother heq
    obtain ⟨setting, hsetting, hsome⟩ := List.mem_filterMap.mp hrow
    obtain ⟨id, hid⟩ := mem_compareFamily hother
    have hplace := (compareSetting_eq_some hsome).2.2.2
    rw [heq, (compareRoute_eq_some hid).2.2] at hplace
    cases hplace
    exact absurd hsetting (by decide)

/-- Restoring a row that can be restored gives an accepted configuration that has lost that row and
no other, and restoring all of them in any order leaves the rows that cannot be. -/
theorem restore_clears_exactly (hcurrent : current.Valid) (hbaseline : baseline.Valid) :
    (∀ row ∈ compareServiceSettings current (some baseline), row.1.canRestore = true →
      ∃ restored, restoreServiceSetting current baseline row.1.path = .ok restored ∧
        restored.parse = .ok restored ∧
        compareServiceSettings restored (some baseline) =
          (compareServiceSettings current (some baseline)).filter (· ≠ row)) ∧
    ∀ order : List Row,
      order.Perm ((compareServiceSettings current (some baseline)).filter (·.1.canRestore)) →
      ∃ restored, order.foldlM (fun config row => restoreServiceSetting config baseline row.1.path)
          current = .ok restored ∧
        compareServiceSettings restored (some baseline) =
          (compareServiceSettings current (some baseline)).filter (!·.1.canRestore) := by
  constructor
  · intro row hrow hcan
    obtain ⟨restored, hok, hvalid, hcompare⟩ := restore_row hcurrent hbaseline hrow hcan
    exact ⟨restored, hok, parse_of_valid hvalid, hcompare⟩
  · intro order horder
    have hmem : ∀ row, row ∈ order ↔
        row ∈ compareServiceSettings current (some baseline) ∧ row.1.canRestore = true :=
      fun row => horder.mem_iff.trans List.mem_filter
    obtain ⟨restored, hfold, -, hcompare⟩ := restore_rows hcurrent hbaseline
      (horder.nodup_iff.mpr nodup_restorable) fun row hrow => (hmem row).mp hrow
    refine ⟨restored, hfold, hcompare.trans (List.filter_congr fun row hrow => ?_)⟩
    simp [hmem, hrow]

end

/-! ## A scaled Service -/

namespace Sample

def settings : AuthoredServiceConfig where
  version := 2
  source := .git 2 "acme/web" 1 .public_ "/" (.connected "main")
  preDeployCommand := none
  startCommand := none
  healthcheck := .none
  restartPolicy := .unlessStopped
  maxRetries := 10
  replicas := 1
  cpuLimit := none
  memLimit := none
  privateDns := ⟨"web", Eq.refl true⟩
  routes := [⟨"00000000-0000-0000-0000-000000000001", "shop.example", none⟩]
  managedHostnames := []
  build := ⟨.railpack, none, none⟩
  template := none

def baseline : ServiceConfig := ⟨settings, [], []⟩

/-- Another source, three replicas and no route. -/
def current : ServiceConfig :=
  ⟨{ settings with source := .empty 1 "/", replicas := 3, routes := [] },
    [("PORT", .literal "80" none)], []⟩

def rows : List Row := compareServiceSettings current (some baseline)

theorem valid_current : current.Valid := ⟨current, by decide +kernel⟩

theorem valid_baseline : baseline.Valid := ⟨baseline, by decide +kernel⟩

end Sample

theorem scaled_service_restored :
    Sample.rows.map (·.1.path) =
      ["source", "replicas", "routes.00000000-0000-0000-0000-000000000001", "env.PORT"] ∧
    ∃ restored, (Sample.rows.filter (·.1.canRestore)).reverse.foldlM (fun config row =>
        restoreServiceSetting config Sample.baseline row.1.path) Sample.current = .ok restored ∧
      compareServiceSettings restored (some Sample.baseline) =
        Sample.rows.filter (!·.1.canRestore) :=
  ⟨by decide +kernel, (restore_clears_exactly Sample.valid_current Sample.valid_baseline).2 _
    (List.reverse_perm _)⟩

end Ployz.ServiceChanges
