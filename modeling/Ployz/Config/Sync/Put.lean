import Ployz.Config.Sync.Row
import Ployz.Lib.Keyed

/-!
# The writer

Puts a row's cell into a document, the inverse of its projection. A variable that is new
to its Service takes a fresh id, which the writer is handed.
-/

namespace Ployz

open Keyed

/-! ## Changing one node -/

def SavedEnvironmentIntent.modifyService (env : SavedEnvironmentIntent) (lineage : String)
    (f : SavedServiceIntent → SavedServiceIntent) : SavedEnvironmentIntent :=
  { env with services := modifyFirst (·.lineageId == lineage) f env.services }

def SavedEnvironmentIntent.modifyVolume (env : SavedEnvironmentIntent) (lineage : String)
    (f : SavedVolumeIntent → SavedVolumeIntent) : SavedEnvironmentIntent :=
  { env with volumes := modifyFirst (·.resourceLineageId == lineage) f env.volumes }

def SavedEnvironmentIntent.without (env : SavedEnvironmentIntent) (lineage : String) :
    SavedEnvironmentIntent :=
  { env with
    services := env.services.filter (·.lineageId != lineage)
    volumes := env.volumes.filter (·.resourceLineageId != lineage) }

def SavedServiceIntent.detach (service : SavedServiceIntent) (id : String) : SavedServiceIntent :=
  { service with volumeAttachments := service.volumeAttachments.filter (·.volumeResourceId != id) }

def SavedServiceIntent.attach (service : SavedServiceIntent) (id path : String) :
    SavedServiceIntent :=
  { service with
    volumeAttachments := service.volumeAttachments.filter (·.volumeResourceId != id) ++
      [⟨id, path⟩] }

def SavedServiceIntent.modifyVariable (service : SavedServiceIntent) (key : String)
    (f : SavedVariableIntent → SavedVariableIntent) : SavedServiceIntent :=
  { service with vars := modifyFirst (·.key == key) f service.vars }

def SavedServiceIntent.dropVariable (service : SavedServiceIntent) (key : String) :
    SavedServiceIntent :=
  { service with vars := service.vars.filter (·.key != key) }

def SavedVariableIntent.setValue (v : SavedVariableIntent) (value : SavedVariableValue)
    (fingerprint : String) : SavedVariableIntent :=
  { v with value := value, valueFingerprint := fingerprint }

def SavedVariableIntent.sealWith (v : SavedVariableIntent) (value : EncryptedSecretValue) :
    SavedVariableIntent :=
  { v with value := .secret (some value) }

/-- Give variable `key` its value, with a fresh id where the Service lacks it. -/
def SavedServiceIntent.setVariable (service : SavedServiceIntent) (uuid key : String)
    (value : SavedVariableValue) (fingerprint : String) : SavedServiceIntent :=
  match service.vars.find? (·.key == key) with
  | some _ => service.modifyVariable key (·.setValue value fingerprint)
  | none => { service with vars := service.vars ++ [{
      id := uuid, key := key, description := none, exported := false,
      valueFingerprint := fingerprint, value := value }] }

/-! ## Values back from their cells -/

namespace Value

def asOptionalString : Value → Option (Option String)
  | .null => some none
  | .string s => some (some s)
  | _ => none

def asUInt8 : Value → Option UInt8
  | .number n => if n < 256 then some (UInt8.ofNat n) else none
  | _ => none

def asOptionalFloat : Value → Option (Option ℚ)
  | .null => some none
  | .float x => some (some x)
  | .number n => some (some n)
  | _ => none

end Value

/-- `source` as a Service on `current` takes it: the git branch is the Service's own, so
it keeps the one it has, else the one `source` carries. -/
def keepBranch : ServiceSource → ServiceSource → ServiceSource
  | .git _ _ _ _ _ own, .git version repository repositoryId access rootDir _ =>
    .git version repository repositoryId access rootDir own
  | _, source => source

/-- A source cell parsed for the Service of `id`: a git source with the branch it carries,
else none yet; each Service's credential is its own. -/
def SourceCell.parse (id : String) : SourceCell → ServiceSource
  | .empty version rootDir => .empty version rootDir
  | .git version repository repositoryId access rootDir branch =>
    .git version repository repositoryId access rootDir (branch.getD (.disconnected none))
  | .image version reference credentials =>
    .image version reference (if credentials then .configured id else .none)

def ServiceSource.withBranch : ServiceSource → ServiceGitBranch → ServiceSource
  | .git version repository repositoryId access rootDir _, branch =>
    .git version repository repositoryId access rootDir branch
  | source, _ => source

/-- Write `setting` of `service` as `value` says it; `none` where it doesn't take the
value. Settings each Environment owns never move, so nothing writes their rows. -/
def putSetting (service : SavedServiceIntent) (setting : Setting) (value : Value) :
    Option SavedServiceIntent :=
  let config := service.config
  let set (config : AuthoredServiceConfig) : SavedServiceIntent := { service with config }
  match setting with
  | .routes | .managedHostnames => none
  | .source => match value with
    | .source cell =>
      some (set { config with source := keepBranch config.source (cell.parse service.id) })
    | _ => none
  | .branch => match config.source.branch?, value with
    | none, _ | some _, .null => some service
    | some _, .branch branch => some (set { config with source := config.source.withBranch branch })
    | some _, _ => none
  | .privateDns => match value with
    | .string name => (ServiceName.parse name).map fun name =>
      set { config with privateDns := name }
    | _ => none
  | .preDeployCommand =>
    value.asOptionalString.map fun command => set { config with preDeployCommand := command }
  | .startCommand =>
    value.asOptionalString.map fun command => set { config with startCommand := command }
  | .healthcheck => match value with
    | .healthcheck healthcheck => some (set { config with healthcheck := healthcheck })
    | _ => none
  | .restartPolicy => match value with
    | .string policy =>
      (ServiceRestartPolicy.parse policy).map fun policy =>
        set { config with restartPolicy := policy }
    | _ => none
  | .maxRetries => value.asUInt8.map fun n => set { config with maxRetries := n }
  | .replicas => value.asUInt8.map fun n => set { config with replicas := n }
  | .cpuLimit => value.asOptionalFloat.map fun limit => set { config with cpuLimit := limit }
  | .memLimit => value.asOptionalFloat.map fun limit => set { config with memLimit := limit }
  | .buildMethod => match value with
    | .string method => (BuildMethod.parse method).map fun method =>
        set { config with build := { config.build with buildMethod := method } }
    | _ => none
  | .dockerfilePath => value.asOptionalString.map fun path =>
      set { config with build := { config.build with dockerfilePath := path } }
  | .buildCommand => value.asOptionalString.map fun command =>
      set { config with build := { config.build with command := command } }

/-- A plain variable's cell back as its value and fingerprint. -/
def plain : Value → Option (SavedVariableValue × String)
  | .var (.literal value) fingerprint => some (.literal value, fingerprint)
  | .var (.template parts) fingerprint => some (.template parts, fingerprint)
  | _ => none

/-! ## Putting a cell -/

/-- What a variable's cell writes, `none` for a value no variable takes. -/
def variableValue : Cell → Option (SavedVariableValue × String)
  | .value value => plain value
  | .secret fingerprint => some (.secret none, fingerprint)
  | .secretWithoutValue => some (.secretWithoutValue, "")
  | .absent => none

def invalid (row : RowId) (message : String) : Except ConfigError SavedEnvironmentIntent :=
  throw ⟨row.toString, message⟩

/-- Clearing anything on a node that isn't there is already done. -/
def missing (env : SavedEnvironmentIntent) (row : RowId) (cell : Cell) :
    Except ConfigError SavedEnvironmentIntent :=
  match cell with
  | .absent => pure env
  | _ => invalid row "The node isn't in this configuration"

/-- A node row only adds or removes its node; a rename doesn't move. -/
def putNode (env : SavedEnvironmentIntent) (row : RowId) (cell : Cell) :
    Except ConfigError SavedEnvironmentIntent :=
  match cell with
  | .absent => pure (env.without row.lineage)
  | _ => if (nodes env).contains row.lineage then pure env
    else invalid row "A new node arrives whole, through a Sync"

def putName (env : SavedEnvironmentIntent) (row : RowId) (cell : Cell) :
    Except ConfigError SavedEnvironmentIntent :=
  match volume env row.lineage with
  | none => missing env row cell
  | some _ => match cell with
    | .value (.string name) => pure (env.modifyVolume row.lineage fun v => { v with name := name })
    | .value _ => invalid row "Not a value this holds"
    | _ => invalid row "A Volume always has a name and storage"

def putStorage (env : SavedEnvironmentIntent) (row : RowId) (cell : Cell) :
    Except ConfigError SavedEnvironmentIntent :=
  match volume env row.lineage with
  | none => missing env row cell
  | some _ => match cell with
    | .value (.storage storage) =>
      pure (env.modifyVolume row.lineage fun v => { v with storage := storage })
    | .value _ => invalid row "Not a value this holds"
    | _ => invalid row "A Volume always has a name and storage"

def putMount (env : SavedEnvironmentIntent) (row : RowId) (volumeLineage : String) (cell : Cell) :
    Except ConfigError SavedEnvironmentIntent :=
  match service env row.lineage with
  | none => missing env row cell
  | some _ => match cell, volume env volumeLineage with
    | .absent, some v => pure (env.modifyService row.lineage (·.detach v.resourceId))
    | .absent, none => pure env
    | .value (.string path), some v =>
      pure (env.modifyService row.lineage (·.attach v.resourceId path))
    | .value _, none => throw ⟨"picks", "Mounted Volume is not in the receiving configuration"⟩
    | _, _ => invalid row "Not a mount path"

/-- `uuid` is the id a new variable takes. -/
def putVariable (uuid : String) (env : SavedEnvironmentIntent) (row : RowId) (key : String)
    (cell : Cell) : Except ConfigError SavedEnvironmentIntent :=
  match service env row.lineage with
  | none => missing env row cell
  | some _ => match cell with
    | .absent => pure (env.modifyService row.lineage (·.dropVariable key))
    | _ => match variableValue cell with
      | some (value, fingerprint) =>
        pure (env.modifyService row.lineage (·.setVariable uuid key value fingerprint))
      | none => invalid row "Not a variable's value"

def putSettingValue (env : SavedEnvironmentIntent) (row : RowId) (target : SavedServiceIntent)
    (setting : Setting) (value : Value) : Except ConfigError SavedEnvironmentIntent :=
  match putSetting target setting value with
  | some _ => pure (env.modifyService row.lineage fun s => (putSetting s setting value).getD s)
  | none => invalid row "Not a value this setting takes"

def putSettingRow (env : SavedEnvironmentIntent) (row : RowId) (setting : Setting) (cell : Cell) :
    Except ConfigError SavedEnvironmentIntent :=
  match service env row.lineage with
  | none => missing env row cell
  | some target => match cell with
    | .absent => putSettingValue env row target setting (defaultValue setting)
    | .value value => putSettingValue env row target setting value
    | _ => invalid row "A setting is never secret"

/-- Give `env` `cell` at `row`; `uuid` is the id a new variable takes. -/
def putInto (uuid : String) (env : SavedEnvironmentIntent) (row : RowId) (cell : Cell) :
    Except ConfigError SavedEnvironmentIntent :=
  match row.place with
  | .node => putNode env row cell
  | .data => invalid row "A Volume's data never moves"
  | .name => putName env row cell
  | .storage => putStorage env row cell
  | .mount volumeLineage => putMount env row volumeLineage cell
  | .var key => putVariable uuid env row key cell
  | .setting setting => putSettingRow env row setting cell

/-- `put`: `putInto` a copy. -/
def put (uuid : String) (intent : SavedEnvironmentIntent) (row : RowId) (cell : Cell) :
    Except ConfigError SavedEnvironmentIntent :=
  putInto uuid intent row cell

/-- `putInto`, a secret with its value. -/
def putSealed (uuid : String) (env : SavedEnvironmentIntent) (row : RowId) (cell : SealedCell) :
    Except ConfigError SavedEnvironmentIntent := do
  let env ← putInto uuid env row cell.toRedacted
  match cell, row.place with
  | .secret sealed, .var key =>
    pure (env.modifyService row.lineage fun s => s.modifyVariable key (·.sealWith sealed.value))
  | _, _ => pure env

end Ployz
