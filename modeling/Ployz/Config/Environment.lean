import Ployz.Config.Validation
import Mathlib.Data.List.Sort

/-!
# Authored Environment documents

The document an Environment holds: its Services, each with its settings, variables and
mounts, and its Volumes. `parseEnvironmentIntent` admits one, normalising each Service's
settings; `redactEnvironmentIntent` takes the ciphertext of its secrets away and
`canonicalizeEnvironmentIntent` orders it.

Main result: `parseEnvironmentIntent_eq_ok` says what admission asks and returns.
-/

namespace Ployz

open Run Validation

/-- A positive number of bytes. -/
structure ProvisionedVolumeMaximumBytes where
  bytes : UInt64
  ne_zero : bytes ≠ 0
deriving DecidableEq, Repr

/-- Storage chosen for a Volume: ordinary Docker storage or bounded, provisioned storage. -/
inductive VolumeKind
  | docker
  | provisioned (maximumBytes : ProvisionedVolumeMaximumBytes)
deriving DecidableEq, Repr

/-- Literal text, structured references, or a privately stored sealed value. -/
inductive SavedVariableValue
  | literal (value : String)
  | template (parts : List ValuePart)
  | secret (encryptedValue : Option EncryptedSecretValue)
  | secretWithoutValue
deriving DecidableEq, Repr

/-- An authored variable, including stable identity and comparison fingerprint. -/
structure SavedVariableIntent where
  id : String
  key : String
  description : Option String
  exported : Bool
  valueFingerprint : String
  value : SavedVariableValue
deriving DecidableEq, Repr

/-- A Volume owner reference and the Service path where it is mounted. -/
structure VolumeAttachment where
  volumeResourceId : String
  mountPath : String
deriving DecidableEq, Repr

/-- A Service owner with authored settings, variables, and resource relationships. -/
structure SavedServiceIntent where
  id : String
  lineageId : String
  slug : String
  config : AuthoredServiceConfig
  vars : List SavedVariableIntent
  volumeAttachments : List VolumeAttachment
deriving DecidableEq

/-- An authored Volume name attached to stable resource and lineage identities. -/
structure SavedVolumeIntent where
  resourceId : String
  resourceLineageId : String
  name : String
  storage : VolumeKind
  sharedWrites : Bool
deriving DecidableEq, Repr

/-- Complete authored Environment state. -/
structure SavedEnvironmentIntent where
  version : UInt8
  environmentSlug : String
  services : List SavedServiceIntent
  volumes : List SavedVolumeIntent
deriving DecidableEq

/-- The Service lineages a value reads through template references. -/
def SavedVariableValue.referencedLineages : SavedVariableValue → List String
  | .template parts => parts.filterMap fun
    | .ref (.service lineageId) _ => some lineageId
    | _ => none
  | _ => []

/-! ## Admission -/

/-- The identities' loop: `seen` are those before. -/
def uniqueFrom (path : String) (uuid : Bool) (seen : List String) :
    List String → Except ConfigError Unit
  | [] => pure ()
  | value :: rest => do
    range (!(value == "" || (uuid && !isUuid value) || seen.contains value)) path
      "Expected valid unique identities"
    uniqueFrom path uuid (value :: seen) rest

def unique (values : List String) (path : String) (uuid : Bool) : Except ConfigError Unit :=
  uniqueFrom path uuid [] values

def nonempty (value path : String) : Except ConfigError Unit :=
  range (value != "") path "Expected a non-empty value"

/-- Whether a sealed value is of the version this reads. -/
def SavedVariableValue.encryptedOk : SavedVariableValue → Bool
  | .secret (some value) => value.version == 1
  | _ => true

/-- One variable's check: only a secret without a value has no fingerprint, and it has
none. -/
def validateVariable (v : SavedVariableIntent) : Except ConfigError Unit := do
  range ((v.value == .secretWithoutValue) == (v.valueFingerprint == ""))
    "variables.valueFingerprint" "Only a secret without a value has no fingerprint"
  range v.value.encryptedOk "variables.value" "Invalid encrypted secret"

def validateVariables (vars : List SavedVariableIntent) : Except ConfigError Unit := do
  unique (vars.map (·.key)) "variables.key" false
  forM vars validateVariable

/-- What `parseEnvironmentIntent` does to one Service, whose document has `volumes`. -/
def parseService (volumes : List SavedVolumeIntent) (service : SavedServiceIntent) :
    Except ConfigError SavedServiceIntent := do
  let config ← parseServiceConfig service.config
  validateVariables service.vars
  unique (service.volumeAttachments.map (·.volumeResourceId)) "volumeAttachments" true
  unique (service.volumeAttachments.map (·.mountPath)) "volumeAttachments.mountPath" false
  range (service.volumeAttachments.all fun a => volumes.any (·.resourceId == a.volumeResourceId))
    "attachments" "Attachment must reference an authored resource"
  return { service with config }

/-- Normalize an authored document while validating owner identities and relationships. -/
def parseEnvironmentIntent (intent : SavedEnvironmentIntent) :
    Except ConfigError SavedEnvironmentIntent := do
  range (intent.version == 1 && intent.environmentSlug != "") "environment"
    "Invalid environment version or slug"
  unique (intent.services.map (·.id)) "services.id" true
  unique (intent.services.map (·.lineageId)) "services.lineageId" true
  unique (intent.services.map (·.slug)) "services.slug" false
  unique (intent.volumes.map (·.resourceId)) "resources.id" true
  unique (intent.volumes.map (·.resourceLineageId)) "resources.lineageId" true
  unique ((intent.services.flatMap (·.vars)).map (·.id)) "variables.id" true
  let services ← intent.services.mapM (parseService intent.volumes)
  forM intent.volumes fun volume => nonempty volume.name "volumes.name"
  return { intent with services }

/-! ## Redaction and order -/

def SavedVariableValue.redact : SavedVariableValue → SavedVariableValue
  | .secret _ => .secret none
  | value => value

def SavedServiceIntent.redact (service : SavedServiceIntent) : SavedServiceIntent :=
  { service with vars := service.vars.map fun v => { v with value := v.value.redact } }

/-- Remove private ciphertext while retaining comparison evidence. -/
def redactEnvironmentIntent (intent : SavedEnvironmentIntent) : SavedEnvironmentIntent :=
  { intent with services := intent.services.map (·.redact) }

/-- Order authored owners and relationships deterministically. -/
def canonicalizeEnvironmentIntent (intent : SavedEnvironmentIntent) : SavedEnvironmentIntent :=
  { intent with
    services := (intent.services.insertionSort fun a b => a.id ≤ b.id).map fun service =>
      { service with
        vars := service.vars.insertionSort fun a b => a.id ≤ b.id
        volumeAttachments := service.volumeAttachments.insertionSort fun a b =>
          a.mountPath < b.mountPath ∨
            (a.mountPath = b.mountPath ∧ a.volumeResourceId ≤ b.volumeResourceId) }
    volumes := intent.volumes.insertionSort fun a b => a.resourceId ≤ b.resourceId }

/-! ## What admission asks -/

/-- Distinct, non-empty identities, in UUID form where `uuid` says so. -/
structure Identities (uuid : Bool) (values : List String) : Prop where
  nodup : values.Nodup
  valid : ∀ value ∈ values, value ≠ "" ∧ (uuid = true → isUuid value = true)

variable {u : Unit}

theorem uniqueFrom_eq_ok {path : String} {uuid : Bool} {seen values : List String} :
    uniqueFrom path uuid seen values = .ok u ↔
      Identities uuid values ∧ ∀ value ∈ values, value ∉ seen := by
  induction values generalizing seen with
  | nil => simpa [uniqueFrom] using ⟨by simp, by simp⟩
  | cons value rest ih =>
    simp only [uniqueFrom, bind_eq_ok, range_eq_ok, exists_const, ih, Bool.not_eq_true',
      Bool.or_eq_false_iff, beq_eq_false_iff_ne, Bool.and_eq_false_iff, List.contains_eq_mem,
      decide_eq_false_iff_not, List.mem_cons, not_or]
    constructor
    · rintro ⟨⟨⟨hne, huuid⟩, hseen⟩, ⟨hnodup, hvalid⟩, hrest⟩
      refine ⟨⟨?_, ?_⟩, ?_⟩
      · exact List.nodup_cons.mpr ⟨fun h => (hrest value h).1 rfl, hnodup⟩
      · rintro v (_ | ⟨_, hv⟩)
        · exact ⟨hne, fun hu => by simpa [hu] using huuid⟩
        · exact hvalid v hv
      · rintro v (rfl | hv)
        · exact hseen
        · exact (hrest v hv).2
    · rintro ⟨⟨hnodup, hvalid⟩, hseen⟩
      obtain ⟨hnot, hnodup⟩ := List.nodup_cons.mp hnodup
      obtain ⟨hne, huuid⟩ := hvalid value (by simp)
      refine ⟨⟨⟨hne, ?_⟩, hseen value (.inl rfl)⟩,
        ⟨hnodup, fun v hv => hvalid v (by simp [hv])⟩, fun v hv => ⟨?_, hseen v (.inr hv)⟩⟩
      · cases uuid <;> simp_all
      · rintro rfl
        exact hnot hv

theorem unique_eq_ok {values : List String} {path : String} {uuid : Bool} :
    unique values path uuid = .ok u ↔ Identities uuid values := by
  simp [unique, uniqueFrom_eq_ok]

/-- What admission asks of a Service besides its settings, in a document of `volumes`. -/
structure AdmitsService (volumes : List SavedVolumeIntent) (service : SavedServiceIntent) :
    Prop where
  keys : Identities false (service.vars.map (·.key))
  fingerprints : ∀ v ∈ service.vars, v.value = .secretWithoutValue ↔ v.valueFingerprint = ""
  encrypted : ∀ v ∈ service.vars, v.value.encryptedOk = true
  attachments : Identities true (service.volumeAttachments.map (·.volumeResourceId))
  mountPaths : Identities false (service.volumeAttachments.map (·.mountPath))
  mounted : ∀ a ∈ service.volumeAttachments, ∃ v ∈ volumes, v.resourceId = a.volumeResourceId

/-- What admission asks of a document besides its Services' settings. -/
structure Admits (intent : SavedEnvironmentIntent) : Prop where
  version : intent.version = 1
  slug : intent.environmentSlug ≠ ""
  serviceIds : Identities true (intent.services.map (·.id))
  serviceLineages : Identities true (intent.services.map (·.lineageId))
  slugs : Identities false (intent.services.map (·.slug))
  volumeIds : Identities true (intent.volumes.map (·.resourceId))
  volumeLineages : Identities true (intent.volumes.map (·.resourceLineageId))
  variableIds : Identities true ((intent.services.flatMap (·.vars)).map (·.id))
  services : ∀ service ∈ intent.services, AdmitsService intent.volumes service
  volumeNames : ∀ volume ∈ intent.volumes, volume.name ≠ ""

theorem validateVariables_eq_ok {vars : List SavedVariableIntent} :
    validateVariables vars = .ok u ↔ Identities false (vars.map (·.key)) ∧
      (∀ v ∈ vars, v.value = .secretWithoutValue ↔ v.valueFingerprint = "") ∧
      ∀ v ∈ vars, v.value.encryptedOk = true := by
  have hb : ∀ v : SavedVariableIntent,
      (((v.value == .secretWithoutValue) == (v.valueFingerprint == "")) = true) ↔
        (v.value = .secretWithoutValue ↔ v.valueFingerprint = "") := fun v => by
    rw [beq_iff_eq, Bool.eq_iff_iff, beq_iff_eq, beq_iff_eq]
  simp only [validateVariables, bind_eq_ok, unique_eq_ok, exists_const, forM_eq_ok,
    validateVariable, range_eq_ok, hb]
  constructor
  · rintro ⟨hk, h⟩
    exact ⟨hk, fun v hv => (h v hv).1, fun v hv => (h v hv).2⟩
  · rintro ⟨hk, hf, he⟩
    exact ⟨hk, fun v hv => ⟨hf v hv, he v hv⟩⟩

variable {volumes : List SavedVolumeIntent}

theorem parseService_eq_ok {service out : SavedServiceIntent} :
    parseService volumes service = .ok out ↔ AdmitsService volumes service ∧
      ∃ config, parseServiceConfig service.config = .ok config ∧ out = { service with config } := by
  simp only [parseService, bind_eq_ok, unique_eq_ok, validateVariables_eq_ok, range_eq_ok,
    pure_eq_ok, exists_const, List.all_eq_true, List.any_eq_true, beq_iff_eq]
  constructor
  · rintro ⟨config, hconfig, ⟨hkeys, hprints, hsealed⟩, hids, hpaths, hmounted, rfl⟩
    exact ⟨⟨hkeys, hprints, hsealed, hids, hpaths, hmounted⟩, config, hconfig, rfl⟩
  · rintro ⟨h, config, hconfig, rfl⟩
    exact ⟨config, hconfig, ⟨h.keys, h.fingerprints, h.encrypted⟩, h.attachments, h.mountPaths,
      h.mounted, rfl⟩

def NormalizedService (service out : SavedServiceIntent) : Prop :=
  ∃ config, parseServiceConfig service.config = .ok config ∧ out = { service with config }

variable {intent : SavedEnvironmentIntent}

theorem parseEnvironmentIntent_eq_ok {out : SavedEnvironmentIntent} :
    parseEnvironmentIntent intent = .ok out ↔ Admits intent ∧ ∃ services,
      List.Forall₂ NormalizedService intent.services services ∧ out = { intent with services } := by
  simp only [parseEnvironmentIntent, bind_eq_ok, unique_eq_ok, range_eq_ok, pure_eq_ok,
    exists_const, mapM_eq_ok, forM_eq_ok, nonempty, parseService_eq_ok, List.forall₂_and_left,
    Bool.and_eq_true, beq_iff_eq, bne_iff_ne]
  constructor
  · rintro ⟨⟨hversion, hslug⟩, hids, hlineages, hslugs, hvids, hvlineages, hvars, services,
      ⟨hadmits, hservices⟩, hnames, rfl⟩
    exact ⟨⟨hversion, hslug, hids, hlineages, hslugs, hvids, hvlineages, hvars, hadmits, hnames⟩,
      services, hservices, rfl⟩
  · rintro ⟨h, services, hservices, rfl⟩
    exact ⟨⟨h.version, h.slug⟩, h.serviceIds, h.serviceLineages, h.slugs, h.volumeIds,
      h.volumeLineages, h.variableIds, services, ⟨h.services, hservices⟩, h.volumeNames, rfl⟩

/-- A document as admission leaves it: admitted, with settings already normal. -/
structure WellFormed (intent : SavedEnvironmentIntent) : Prop extends Admits intent where
  configs : ∀ service ∈ intent.services, parseServiceConfig service.config = .ok service.config

variable {services out : List SavedServiceIntent}

theorem NormalizedService.map_eq {α : Type*} {g : SavedServiceIntent → α}
    (hg : ∀ service config, g { service with config } = g service)
    (h : List.Forall₂ NormalizedService services out) : out.map g = services.map g := by
  induction h with
  | nil => rfl
  | cons hs _ ih =>
    obtain ⟨config, -, rfl⟩ := hs
    rw [List.map_cons, List.map_cons, hg, ih]

theorem NormalizedService.eq_self
    (h : List.Forall₂ NormalizedService services out)
    (hself : ∀ s ∈ services, ∀ config, parseServiceConfig s.config = .ok config →
      config = s.config) : out = services := by
  induction h with
  | nil => rfl
  | @cons s _ _ _ hs _ ih =>
    obtain ⟨config, hconfig, rfl⟩ := hs
    rw [ih fun t ht => hself t (by simp [ht]), hself s (by simp) config hconfig]

theorem NormalizedService.flatMap_vars (h : List.Forall₂ NormalizedService services out) :
    out.flatMap (·.vars) = services.flatMap (·.vars) := by
  rw [List.flatMap_def, List.flatMap_def, NormalizedService.map_eq (fun _ _ => rfl) h]

theorem NormalizedService.exists_of_mem (h : List.Forall₂ NormalizedService services out)
    {s : SavedServiceIntent} (hs : s ∈ out) :
    ∃ service ∈ services, NormalizedService service s := by
  induction h with
  | nil => simp at hs
  | cons hxy _ ih =>
    rcases List.mem_cons.mp hs with rfl | hs
    · exact ⟨_, by simp, hxy⟩
    · obtain ⟨service, hmem, hn⟩ := ih hs
      exact ⟨service, by simp [hmem], hn⟩

theorem AdmitsService.withConfig {service : SavedServiceIntent} (h : AdmitsService volumes service)
    (config : AuthoredServiceConfig) :
    AdmitsService volumes { service with config } :=
  ⟨h.keys, h.fingerprints, h.encrypted, h.attachments, h.mountPaths, h.mounted⟩

/-- Admission returns well-formed documents. -/
theorem wellFormed_of_parse {out : SavedEnvironmentIntent}
    (h : parseEnvironmentIntent intent = .ok out) : WellFormed out := by
  obtain ⟨ha, services, hservices, rfl⟩ := parseEnvironmentIntent_eq_ok.mp h
  have hmap := fun {α : Type} (g : SavedServiceIntent → α) hg =>
    NormalizedService.map_eq (g := g) hg hservices
  refine ⟨⟨ha.version, ha.slug, ?_, ?_, ?_, ha.volumeIds, ha.volumeLineages, ?_, ?_,
    ha.volumeNames⟩, ?_⟩
  · simpa [hmap (·.id) fun _ _ => rfl] using ha.serviceIds
  · simpa [hmap (·.lineageId) fun _ _ => rfl] using ha.serviceLineages
  · simpa [hmap (·.slug) fun _ _ => rfl] using ha.slugs
  · simpa [NormalizedService.flatMap_vars hservices] using ha.variableIds
  · intro s hs
    obtain ⟨service, hmem, config, -, rfl⟩ := NormalizedService.exists_of_mem hservices hs
    exact (ha.services service hmem).withConfig config
  · intro s hs
    obtain ⟨service, -, config, hconfig, rfl⟩ := NormalizedService.exists_of_mem hservices hs
    exact parseServiceConfig_normalizes hconfig

theorem parseEnvironmentIntent_eq_self_iff :
    parseEnvironmentIntent intent = .ok intent ↔ WellFormed intent := by
  refine ⟨wellFormed_of_parse, fun h => parseEnvironmentIntent_eq_ok.mpr ?_⟩
  refine ⟨h.toAdmits, intent.services, List.forall₂_same.mpr fun s hs => ?_, rfl⟩
  exact ⟨s.config, h.configs s hs, rfl⟩

/-! ## Small documents -/

/-- A configuration with every setting at its default. -/
def AuthoredServiceConfig.unset (privateDns : ServiceName) : AuthoredServiceConfig where
  version := 2
  source := .empty 1 "/"
  preDeployCommand := none
  startCommand := none
  healthcheck := .none
  restartPolicy := .unlessStopped
  maxRetries := 10
  replicas := 1
  cpuLimit := none
  memLimit := none
  privateDns := privateDns
  routes := []
  managedHostnames := []
  build := ⟨.railpack, none, none⟩
  template := none

def SavedServiceIntent.unset (id lineage : String) (name : ServiceName) : SavedServiceIntent :=
  ⟨id, lineage, name.value, .unset name, [], []⟩

def SavedVolumeIntent.docker (id lineage name : String) : SavedVolumeIntent :=
  ⟨id, lineage, name, .docker, false⟩

def SavedEnvironmentIntent.holding (services : List SavedServiceIntent)
    (volumes : List SavedVolumeIntent) : SavedEnvironmentIntent :=
  ⟨1, "production", services, volumes⟩

theorem parsed_of_check (h : succeeds (parseEnvironmentIntent intent) (· = intent) = true) :
    parseEnvironmentIntent intent = .ok intent := by
  obtain ⟨out, hout, rfl⟩ := exists_ok _ h
  exact hout

end Ployz
