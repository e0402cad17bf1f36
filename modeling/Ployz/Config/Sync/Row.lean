import Ployz.Config.Environment
import Mathlib.Data.Prod.Lex

/-!
# Rows and cells

A row's address, what it holds, and each Environment's cells by row. A row is a lineage
and a place in its node; what an Environment holds there is a cell. `Cells.of` projects a
whole document once, normalised so that copies compare with their originals: generated
addresses without their Environment's suffix, a source without its git branch and its
credentials by presence, custom domains by hostname, mounts by Volume lineage, secrets by
fingerprint.
-/

namespace Ployz

/-! ## Addresses -/

/-- A Service setting a row can address. Declaration order is landing order. -/
inductive Setting
  | source
  | branch
  | privateDns
  | managedHostnames
  | routes
  | preDeployCommand
  | startCommand
  | healthcheck
  | restartPolicy
  | maxRetries
  | replicas
  | cpuLimit
  | memLimit
  | buildMethod
  | dockerfilePath
  | buildCommand
deriving DecidableEq, Repr

namespace Setting

def all : List Setting :=
  [source, branch, privateDns, managedHostnames, routes, preDeployCommand, startCommand,
    healthcheck, restartPolicy, maxRetries, replicas, cpuLimit, memLimit, buildMethod,
    dockerfilePath, buildCommand]

/-- Where it is in a Service's configuration, as the review names it. -/
def path : Setting → String
  | source => "source"
  | branch => "source.branch"
  | privateDns => "privateDns"
  | managedHostnames => "managedHostnames"
  | routes => "routes"
  | preDeployCommand => "preDeployCommand"
  | startCommand => "startCommand"
  | healthcheck => "healthcheck"
  | restartPolicy => "restartPolicy"
  | maxRetries => "maxRetries"
  | replicas => "replicas"
  | cpuLimit => "cpuLimit"
  | memLimit => "memLimit"
  | buildMethod => "build.buildMethod"
  | dockerfilePath => "build.dockerfilePath"
  | buildCommand => "build.command"

/-- Whether a new node arrives with it on its node row rather than as a row. -/
def carried : Setting → Bool
  | source | branch | privateDns | managedHostnames | routes => true
  | _ => false

/-- Its place in the declaration order. -/
def index : Setting → Nat
  | source => 0
  | branch => 1
  | privateDns => 2
  | managedHostnames => 3
  | routes => 4
  | preDeployCommand => 5
  | startCommand => 6
  | healthcheck => 7
  | restartPolicy => 8
  | maxRetries => 9
  | replicas => 10
  | cpuLimit => 11
  | memLimit => 12
  | buildMethod => 13
  | dockerfilePath => 14
  | buildCommand => 15

theorem index_injective : Function.Injective index := by
  intro s t h
  cases s <;> cases t <;> first | rfl | cases h

theorem index_lt (s : Setting) : s.index < 16 := by
  cases s <;> decide

theorem mem_all (s : Setting) : s ∈ all := by
  cases s <;> decide

theorem nodup_all : all.Nodup := by
  decide

end Setting

/-- Where in its node a row is. Declaration order is row order, which is also landing
order within a node. -/
inductive At
  | node
  | data
  | name
  | storage
  | setting (setting : Setting)
  | mount (volume : String)
  | var (key : String)
deriving DecidableEq, Repr

namespace At

/-- Settings a new node arrives with on its node row rather than as rows of their own. -/
def carried : At → Bool
  | name | storage => true
  | setting s => s.carried
  | _ => false

/-- Whether a new node can't arrive without the row here: it needs what it is carried
with, but arrives without custom domains anyway. -/
def needed (place : At) : Bool := place.carried && place != setting .routes

def toString : At → String
  | node => "node"
  | data => "data"
  | name => "name"
  | storage => "storage"
  | setting s => s.path
  | mount volume => "mounts." ++ volume
  | var key => "variables." ++ key

/-- The declaration order as a lexicographic key. -/
def key : At → ℕ ×ₗ String
  | node => toLex (0, "")
  | data => toLex (1, "")
  | name => toLex (2, "")
  | storage => toLex (3, "")
  | setting s => toLex (4 + s.index, "")
  | mount volume => toLex (20, volume)
  | var key => toLex (21, key)

theorem key_injective : Function.Injective key := by
  intro a b h
  have hlt := Setting.index_lt
  cases a <;> cases b <;> simp only [key, EmbeddingLike.apply_eq_iff_eq, Prod.mk.injEq] at h <;>
    first
      | rfl
      | (rename_i s t; rw [Setting.index_injective (by omega : s.index = t.index)])
      | (obtain ⟨-, rfl⟩ := h; rfl)
      | (exfalso; grind)

instance : LinearOrder At := LinearOrder.lift' key key_injective

instance : Std.LawfulEqOrd At where
  eq_of_compare := compare_eq_iff_eq.mp

end At

/-- One row's address: a lineage and a place in its node. -/
structure RowId where
  lineage : String
  place : At
deriving DecidableEq, Repr

namespace RowId

def node (lineage : String) : RowId := ⟨lineage, .node⟩

def toString (row : RowId) : String := row.lineage ++ ":" ++ row.place.toString

def key (row : RowId) : String ×ₗ At := toLex (row.lineage, row.place)

theorem key_injective : Function.Injective key := by
  rintro ⟨l, a⟩ ⟨m, b⟩ h
  simpa [key] using h

instance : LinearOrder RowId := LinearOrder.lift' key key_injective

instance : Std.LawfulEqOrd RowId where
  eq_of_compare := compare_eq_iff_eq.mp

end RowId

/-! ## What a row holds -/

/-- A source as its row holds it: all of it but its git branch, its credentials by
presence. An undo carries the branch too. -/
inductive SourceCell
  | empty (version : UInt8) (rootDir : String)
  | git (version : UInt8) (repository : String) (repositoryId : UInt64)
      (access : ServiceGitAccess) (rootDir : String) (branch : Option ServiceGitBranch)
  | image (version : UInt8) (image : String) (credentials : Bool)
deriving DecidableEq, Repr

/-- What a node arrives with as a new node: a Service's name, and each setting it needs
by where it is. -/
structure NodeCell where
  name : Option String
  storage : Option VolumeKind
  source : Option SourceCell
  branch : Option ServiceGitBranch
  privateDns : Option String
  managedHostnames : Option (List ServiceManagedHostname)
deriving DecidableEq, Repr

/-- A plain value: the shapes of JSON that rows hold. -/
inductive Value
  | null
  | string (value : String)
  | number (value : Nat)
  | float (value : ℚ)
  | source (source : SourceCell)
  | branch (branch : ServiceGitBranch)
  | healthcheck (healthcheck : ServiceHealthcheck)
  | storage (storage : VolumeKind)
  | managedHostnames (hostnames : List ServiceManagedHostname)
  | domains (hostnames : List String)
  | var (value : SavedVariableValue) (fingerprint : String)
  | node (node : NodeCell)
deriving DecidableEq

/-- What one side holds at a row. A setting at its default is `absent`, so unsetting is a
removal. A secret is there by fingerprint only. -/
inductive Cell
  | absent
  | value (value : Value)
  | secret (fingerprint : String)
  | secretWithoutValue
deriving DecidableEq

/-- Whether it is a secret, with a value or without one. -/
def Cell.isSecret : Cell → Bool
  | .secret _ | .secretWithoutValue => true
  | _ => false

structure SealedSecret where
  fingerprint : String
  value : EncryptedSecretValue
deriving DecidableEq, Repr

/-- What a row holds with a secret's value: what lands, and what `unapply` puts back. -/
inductive SealedCell
  | cell (cell : Cell)
  | secret (secret : SealedSecret)
deriving DecidableEq

/-- What a plan compares it as. -/
def SealedCell.toRedacted : SealedCell → Cell
  | .cell plain => plain
  | .secret sealed => .secret sealed.fingerprint

/-! ## Finding a node -/

inductive NodeRef
  | service (service : SavedServiceIntent)
  | volume (volume : SavedVolumeIntent)

/-- An Environment's nodes by lineage. A Volume shows where a Service has its lineage. -/
def nodes (env : SavedEnvironmentIntent) : Std.TreeMap String NodeRef :=
  .ofList (env.services.map (fun s => (s.lineageId, NodeRef.service s)) ++
    env.volumes.map (fun v => (v.resourceLineageId, NodeRef.volume v)))

def service (env : SavedEnvironmentIntent) (lineage : String) : Option SavedServiceIntent :=
  env.services.find? (·.lineageId == lineage)

def volume (env : SavedEnvironmentIntent) (lineage : String) : Option SavedVolumeIntent :=
  env.volumes.find? (·.resourceLineageId == lineage)

/-! ## The projection -/

def sourceCell : ServiceSource → SourceCell
  | .empty version rootDir => .empty version rootDir
  | .git version repository repositoryId access rootDir _ =>
    .git version repository repositoryId access rootDir none
  | .image version image credentials =>
    .image version image (match credentials with | .configured _ => true | .none => false)

/-- What a setting reads as where it is not set. -/
def defaultValue : Setting → Value
  | .source => .source (.empty 1 "/")
  | .healthcheck => .healthcheck .none
  | .restartPolicy => .string "unless-stopped"
  | .maxRetries => .number 10
  | .replicas => .number 1
  | .buildMethod => .string "railpack"
  | _ => .null

def optional {α : Type} (f : α → Value) : Option α → Value
  | none => .null
  | some x => f x

/-- A managed hostname without the Environment's suffix. -/
def ServiceManagedHostname.unsuffixed (suffix : String) (hostname : ServiceManagedHostname) :
    ServiceManagedHostname :=
  { hostname with prefix_ := (stripSuffix hostname.prefix_ suffix).getD hostname.prefix_ }

def ServiceSource.branch? : ServiceSource → Option ServiceGitBranch
  | .git _ _ _ _ _ branch => some branch
  | _ => none

/-- A setting as its row reads it, in an Environment whose generated addresses end in
`suffix`. -/
def settingValue (config : AuthoredServiceConfig) (suffix : String) : Setting → Value
  | .source => .source (sourceCell config.source)
  | .branch => optional .branch config.source.branch?
  | .privateDns => .string config.privateDns.value
  | .managedHostnames => .managedHostnames (config.managedHostnames.map (·.unsuffixed suffix))
  | .routes => .domains ((config.routes.map (·.hostname)).insertionSort (· ≤ ·))
  | .preDeployCommand => optional .string config.preDeployCommand
  | .startCommand => optional .string config.startCommand
  | .healthcheck => .healthcheck config.healthcheck
  | .restartPolicy => .string config.restartPolicy.toString
  | .maxRetries => .number config.maxRetries.toNat
  | .replicas => .number config.replicas.toNat
  | .cpuLimit => optional .float config.cpuLimit
  | .memLimit => optional .float config.memLimit
  | .buildMethod => .string config.build.buildMethod.toString
  | .dockerfilePath => optional .string config.build.dockerfilePath
  | .buildCommand => optional .string config.build.command

/-- Whether a setting's value is no cell: nothing, its default, or an empty list. -/
def isUnset (setting : Setting) (value : Value) : Bool :=
  value == .null || value == defaultValue setting || value == .domains [] ||
    value == .managedHostnames []

def variableCell (v : SavedVariableIntent) : Cell :=
  match v.value with
  | .literal _ | .template _ => .value (.var v.value v.valueFingerprint)
  | .secret _ => .secret v.valueFingerprint
  | .secretWithoutValue => .secretWithoutValue

/-- The places of a Service that hold something: its settings, its mounts and its
variables. -/
def serviceEntries (env : SavedEnvironmentIntent) (service : SavedServiceIntent)
    (suffix : String) : List (At × Cell) :=
  (Setting.all.filterMap fun setting =>
    let value := settingValue service.config suffix setting
    if isUnset setting value then none else some (At.setting setting, Cell.value value)) ++
  (service.volumeAttachments.filterMap fun attachment =>
    (env.volumes.find? (·.resourceId == attachment.volumeResourceId)).map fun volume =>
      (At.mount volume.resourceLineageId, Cell.value (.string attachment.mountPath))) ++
  service.vars.map fun v => (At.var v.key, variableCell v)

/-- Every place in `node` that holds something. -/
def cells (env : SavedEnvironmentIntent) (node : NodeRef) (suffix : String) :
    Std.TreeMap At Cell :=
  match node with
  | .volume volume =>
    .ofList [(At.name, Cell.value (.string volume.name)),
      (At.storage, Cell.value (.storage volume.storage))]
  | .service service => .ofList (serviceEntries env service suffix)

/-- The value at `place`, where a new node needs it. -/
def neededValue (cells : Std.TreeMap At Cell) (place : At) : Option Value :=
  match place.needed, cells[place]? with
  | true, some (.value value) => some value
  | _, _ => none

/-- A node's cell from its name, a Service's slug, and the values it needs. -/
def nodeCellOf (slug : Option String) (get : At → Option Value) : Cell :=
  .value (.node {
    name := match slug, get .name with
      | some slug, _ => some slug
      | none, some (.string s) => some s
      | none, _ => none
    storage := match get .storage with | some (.storage k) => some k | _ => none
    source := match get (.setting .source) with | some (.source s) => some s | _ => none
    branch := match get (.setting .branch) with | some (.branch b) => some b | _ => none
    privateDns := match get (.setting .privateDns) with | some (.string s) => some s | _ => none
    managedHostnames := match get (.setting .managedHostnames) with
      | some (.managedHostnames hs) => some hs
      | _ => none })

/-- A node's cell is what it arrives with as a new node: its name and the settings it
carries (no custom domains), each by where it is. -/
def nodeCell (node : NodeRef) (cells : Std.TreeMap At Cell) : Cell :=
  let slug := match node with
    | .service service => some service.slug
    | .volume _ => none
  nodeCellOf slug (neededValue cells)

/-- Every row an Environment holds something at, with what it holds there, redacted. -/
structure Cells where
  rows : Std.TreeMap RowId Cell

namespace Cells

/-- Project `intent`, whose generated addresses end in `suffix`. -/
def of (intent : SavedEnvironmentIntent) (suffix : String) : Cells :=
  ⟨.ofList ((nodes intent).toList.flatMap fun (lineage, node) =>
    let cells := cells intent node suffix
    (RowId.node lineage, nodeCell node cells) ::
      cells.toList.map fun (place, cell) => (⟨lineage, place⟩, cell))⟩

/-- What it holds at `row`; a Volume's data reads as its node. -/
def at_ (cells : Cells) (row : RowId) : Cell :=
  let found := match row.place with
    | .data => cells.rows[RowId.node row.lineage]?
    | _ => cells.rows[row]?
  found.getD .absent

/-- The places in node `lineage`, without the node itself. -/
def places (cells : Cells) (lineage : String) : List (RowId × Cell) :=
  ((cells.rows.toList.dropWhile fun (id, _) => id < RowId.node lineage).takeWhile
    fun (id, _) => id.lineage == lineage).filter fun (id, _) => id.place != .node

end Cells

/-- The ciphertext `env` holds for variable `key` of Service `lineage`. -/
def encryptedValue (env : SavedEnvironmentIntent) (lineage key : String) :
    Option EncryptedSecretValue :=
  match (service env lineage).bind fun s => s.vars.find? (·.key == key) with
  | some v => match v.value with
    | .secret encryptedValue => encryptedValue
    | _ => none
  | none => none

/-- `env`'s cell at `row` as `cells` projects it, a secret with its value where `env`
holds one. -/
def sealedCell (env : SavedEnvironmentIntent) (cells : Cells) (row : RowId) : SealedCell :=
  match cells.at_ row, row.place with
  | .secret fingerprint, .var key =>
    match encryptedValue env row.lineage key with
    | some value => .secret ⟨fingerprint, value⟩
    | none => .cell (.secret fingerprint)
  | cell, _ => .cell cell

end Ployz
