import Ployz.Deploy.Ports
import Ployz.Lib.Run
import Mathlib.Data.List.Sort
import Mathlib.Data.Multiset.Basic
import Mathlib.Data.PNat.Defs

/-!
# Service specs

What a Deploy asks for and what a container carries: the requested and the resolved spec of a
Service, the Volumes it mounts, and the serving shape that tells whether a container can stay.

A `ServiceVolumeGraph` is as admission leaves it: references are unique, mounts name declared
Volumes, and two aliases of one Docker Volume have one source. A `ServingShape` is the
digest of its fields' text, which is `serde_json`'s and a parameter here (`ShapeText`).
-/

namespace Ployz.Deploy

abbrev MachineId := String
abbrev MachineName := String
abbrev ContainerId := String
abbrev ServiceId := String
abbrev DockerVolumeName := String
abbrev ServiceVolumeReference := String

/-- A map of texts, its keys in order. -/
abbrev Labels := List (String × String)

def Labels.insert (key value : String) (labels : Labels) : Labels :=
  (labels.filter (·.1 != key)).orderedInsert (fun a b => a.1 ≤ b.1) (key, value)

def managedLabel : String := "ployz.managed"
def namespaceLabel : String := "ployz.namespace"
def provisionedVolumeDriver : String := "ployz"

/-- Physical Docker Volume name for a declared Volume owned by this Namespace. -/
def volumeName (owner : Namespace) (logical : DockerVolumeName) : DockerVolumeName :=
  owner.value ++ "_" ++ logical

/-- Whether a Namespace is reserved for Ployz infrastructure. -/
def isReserved (owner : Namespace) : Bool := owner.value == "ployz-system"

/-- Logical Service identity: Namespace plus Service Name. -/
structure QualifiedService where
  owner : Namespace
  name : ServiceName
deriving DecidableEq, Repr

/-! ## Volumes -/

inductive BindPropagation
  | private_
  | rprivate
  | shared
  | rshared
  | slave
  | rslave
deriving DecidableEq, Repr

inductive BindRecursive
  | disabled
  | writable
  | readonly
deriving DecidableEq, Repr

structure VolumeDriver where
  name : String
  options : Labels
deriving DecidableEq, Repr

inductive RawVolumeSource
  | bind (machinePath : String) (createMachinePath : Bool) (propagation : Option BindPropagation)
      (recursive : Option BindRecursive)
  | external (name : DockerVolumeName)
  | ordinary (name : DockerVolumeName) (driver : VolumeDriver) (labels : Labels)
  | provisioned (name : DockerVolumeName) (maximumBytes : Nat) (labels : Labels)
  | tmpfs (sizeBytes : Option Nat) (mode : Option Nat) (options : List (List String))
deriving DecidableEq, Repr

structure ScopedVolumeSource where
  owner : Namespace
  logicalName : DockerVolumeName
deriving DecidableEq, Repr

/-- A source with the Namespace it was scoped to. -/
structure VolumeSource where
  kind : RawVolumeSource
  scope : Option ScopedVolumeSource
deriving DecidableEq, Repr

structure CreateVolumeRequest where
  name : DockerVolumeName
  driver : String
  options : Labels
  labels : Labels
deriving DecidableEq, Repr

structure DockerVolumeId where
  machineId : MachineId
  name : DockerVolumeName
deriving DecidableEq, Repr

inductive DockerVolumeStorageObservation
  | plain (driver : String)
  | provisioned (boundBytes : Nat)
deriving DecidableEq, Repr

structure DockerVolume where
  id : DockerVolumeId
  options : Labels
  labels : Labels
  storage : DockerVolumeStorageObservation
deriving DecidableEq, Repr

def DockerVolume.driver (volume : DockerVolume) : String :=
  match volume.storage with
  | .plain driver => driver
  | .provisioned _ => provisionedVolumeDriver

inductive StorageCapacityError
  | insufficientStorage (requiredGrowthBytes availableBytes reserveBytes : Nat)
  | poolCannotGrow (requiredBytes capacityBytes : Nat)
  | storageCapacityUnknown (message : String)
  | volumeSizeConflict (name : DockerVolumeName)
deriving DecidableEq, Repr

namespace VolumeSource

def dockerVolumeName (source : VolumeSource) : Option DockerVolumeName :=
  match source.kind with
  | .external name | .ordinary name _ _ | .provisioned name _ _ => some name
  | .bind _ _ _ _ | .tmpfs _ _ _ => none

def managedDockerVolumeName (source : VolumeSource) : Option DockerVolumeName :=
  match source.kind with
  | .ordinary name _ _ | .provisioned name _ _ => some name
  | .external _ | .bind _ _ _ _ | .tmpfs _ _ _ => none

def isProvisioned (source : VolumeSource) : Bool :=
  match source.kind with
  | .provisioned _ _ _ => true
  | _ => false

/-- Scope admitted declarations once; preserve imported observations' exact identity. -/
def scopeToNamespace (owner : Namespace) (source : VolumeSource) : VolumeSource :=
  if source.scope.isSome then source
  else match source.kind with
    | .ordinary name driver labels =>
      ⟨.ordinary (volumeName owner name) driver labels, some ⟨owner, name⟩⟩
    | .provisioned name maximumBytes labels =>
      ⟨.provisioned (volumeName owner name) maximumBytes labels, some ⟨owner, name⟩⟩
    | .external _ | .bind _ _ _ _ | .tmpfs _ _ _ => source

def isResolved (source : VolumeSource) : Bool :=
  source.managedDockerVolumeName.isNone || source.scope.isSome

/-- Ownership labels are derived, never taken from user declarations. -/
def creationLabels (source : VolumeSource) : Labels :=
  match source.kind with
  | .ordinary _ _ labels | .provisioned _ _ labels =>
    match source.scope with
    | some scope =>
      Labels.insert namespaceLabel scope.owner.value (Labels.insert managedLabel "" labels)
    | none => labels
  | .external _ | .bind _ _ _ _ | .tmpfs _ _ _ => []

def toCreateVolumeRequest (source : VolumeSource) : Option CreateVolumeRequest :=
  if !source.isResolved then none
  else match source.kind with
    | .ordinary name driver _ => some ⟨name, driver.name, driver.options, source.creationLabels⟩
    | .provisioned name maximumBytes _ =>
      some ⟨name, provisionedVolumeDriver, [("size", toString maximumBytes ++ "b")],
        source.creationLabels⟩
    | .external _ | .bind _ _ _ _ | .tmpfs _ _ _ => none

/-- Whether an observed Docker Volume exactly matches this managed source. -/
def matchesManagedVolume (source : VolumeSource) (observed : DockerVolume) : Bool :=
  match source.toCreateVolumeRequest with
  | none => false
  | some expected =>
    observed.id.name == expected.name && observed.driver == expected.driver &&
      observed.options == expected.options &&
      (expected.labels.all fun (key, value) => observed.labels.lookup key == some value) &&
      match source.kind, observed.storage with
      | .ordinary _ _ _, .plain _ => true
      | .provisioned _ maximumBytes _, .provisioned boundBytes => boundBytes == maximumBytes
      | _, _ => false

end VolumeSource

/-- A storage source declared under a service-local reference. -/
structure ServiceVolume where
  reference : ServiceVolumeReference
  source : VolumeSource
deriving DecidableEq, Repr

structure ServiceMount where
  volume : ServiceVolumeReference
  target : String
  readOnly : Bool
  noCopy : Bool
  subpath : Option String
deriving DecidableEq, Repr

def managedVolumeName (volume : ServiceVolume) : Option DockerVolumeName :=
  volume.source.managedDockerVolumeName

/-- Two declarations of one Docker Volume have one source. -/
def Compatible (v w : ServiceVolume) : Prop :=
  v.source.dockerVolumeName.isSome = true →
    v.source.dockerVolumeName = w.source.dockerVolumeName → v.source = w.source

/-- Service Volume definitions together with the mounts that refer to them. -/
structure ServiceVolumeGraph where
  volumes : List ServiceVolume
  mounts : List ServiceMount
  references : (volumes.map (·.reference)).Nodup
  aliases : ∀ v ∈ volumes, ∀ w ∈ volumes, Compatible v w
  declared : ∀ mount ∈ mounts, mount.volume ∈ volumes.map (·.reference)
deriving DecidableEq

inductive ServiceVolumeGraphError
  | duplicateVolumeReference (reference : ServiceVolumeReference)
  | unknownVolumeReference (reference : ServiceVolumeReference)
  | incompatibleVolumeAliases (name : DockerVolumeName)
deriving DecidableEq

namespace ServiceVolumeGraph

/-- What is wrong with the first of the declarations that repeats a reference or gives a Docker
Volume declared before it another source. -/
def declarationError (seen : List ServiceVolume) :
    List ServiceVolume → Option ServiceVolumeGraphError
  | [] => none
  | volume :: rest =>
    if volume.reference ∈ seen.map (·.reference) then
      some (.duplicateVolumeReference volume.reference)
    else
      match volume.source.dockerVolumeName with
      | none => declarationError (volume :: seen) rest
      | some name =>
        if ∀ other ∈ seen, other.source.dockerVolumeName = some name →
            other.source = volume.source then
          declarationError (volume :: seen) rest
        else some (.incompatibleVolumeAliases name)

/-- Declarations that pass have references of their own and agree on every Docker Volume. -/
theorem admitted_of_declarationError {seen volumes : List ServiceVolume}
    (h : declarationError seen volumes = none) (hseen : (seen.map (·.reference)).Nodup)
    (haliases : ∀ v ∈ seen, ∀ w ∈ seen, Compatible v w) :
    ((volumes.reverse ++ seen).map (·.reference)).Nodup ∧
      ∀ v ∈ volumes.reverse ++ seen, ∀ w ∈ volumes.reverse ++ seen, Compatible v w := by
  induction volumes generalizing seen with
  | nil => exact ⟨hseen, haliases⟩
  | cons volume rest ih =>
    rw [declarationError] at h
    split_ifs at h with hreference
    have hnodup : ((volume :: seen).map (·.reference)).Nodup := by
      rw [List.map_cons, List.nodup_cons]
      exact ⟨hreference, hseen⟩
    rw [List.reverse_cons, List.append_assoc, List.singleton_append]
    split at h
    · rename_i hname
      refine ih h hnodup fun v hv w hw hsome hsame => ?_
      rcases List.mem_cons.mp hv with rfl | hv
      · simp [hname] at hsome
      · rcases List.mem_cons.mp hw with rfl | hw
        · simp [hsame, hname] at hsome
        · exact haliases v hv w hw hsome hsame
    · rename_i name hname
      split_ifs at h with hagree
      refine ih h hnodup fun v hv w hw hsome hsame => ?_
      rcases List.mem_cons.mp hv with rfl | hv' <;> rcases List.mem_cons.mp hw with rfl | hw'
      · rfl
      · exact (hagree w hw' (hsame ▸ hname)).symm
      · exact hagree v hv' (hsame ▸ hname)
      · exact haliases v hv' w hw' hsome hsame

variable {volumes : List ServiceVolume}

theorem references_of_declarationError (h : declarationError [] volumes = none) :
    (volumes.map (·.reference)).Nodup := by
  have hnodup := (admitted_of_declarationError h (by simp) (by simp)).1
  rwa [List.append_nil, List.map_reverse, List.nodup_reverse] at hnodup

theorem aliases_of_declarationError (h : declarationError [] volumes = none) :
    ∀ v ∈ volumes, ∀ w ∈ volumes, Compatible v w := by
  simpa using (admitted_of_declarationError h (by simp) (by simp)).2

theorem declared_of_find {mounts : List ServiceMount}
    (h : (mounts.find? fun mount => !(volumes.map (·.reference)).contains mount.volume) = none) :
    ∀ mount ∈ mounts, mount.volume ∈ volumes.map (·.reference) := fun mount hmount => by
  simpa using List.find?_eq_none.mp h mount hmount

/-- Build a graph from Volume definitions and the mounts that refer to them. -/
def parse (volumes : List ServiceVolume) (mounts : List ServiceMount) :
    Except ServiceVolumeGraphError ServiceVolumeGraph :=
  match hdeclared : declarationError [] volumes,
      hmounts : mounts.find? fun mount => !(volumes.map (·.reference)).contains mount.volume with
  | some error, _ => .error error
  | none, some mount => .error (.unknownVolumeReference mount.volume)
  | none, none => .ok ⟨volumes, mounts, references_of_declarationError hdeclared,
      aliases_of_declarationError hdeclared, declared_of_find hmounts⟩

def empty : ServiceVolumeGraph := ⟨[], [], by simp, by simp, by simp⟩

/-- Scope managed declarations and revalidate aliases after physical names change. -/
def scopeToNamespace (graph : ServiceVolumeGraph) (owner : Namespace) :
    Except ServiceVolumeGraphError ServiceVolumeGraph :=
  parse (graph.volumes.map fun volume =>
    { volume with source := volume.source.scopeToNamespace owner }) graph.mounts

/-- Volume definitions used by mounts, including repeated mounts of one definition. -/
def mountedVolumes (graph : ServiceVolumeGraph) : List ServiceVolume :=
  graph.mounts.filterMap fun mount => graph.volumes.find? (·.reference == mount.volume)

def mountedProvisionedVolumes (graph : ServiceVolumeGraph) : List ServiceVolume :=
  graph.mountedVolumes.filter (·.source.isProvisioned)

def hasMountedProvisionedVolume (graph : ServiceVolumeGraph) : Bool :=
  !graph.mountedProvisionedVolumes.isEmpty

end ServiceVolumeGraph

structure ConfigSpec where
  name : String
  content : List UInt8
deriving DecidableEq, Repr

structure ConfigMount where
  configName : String
  target : Option String
  uid : Option Nat
  gid : Option Nat
  mode : Option Nat
deriving DecidableEq, Repr

/-- Volume and Config graphs admitted together. -/
structure ServiceMountGraph where
  volumeGraph : ServiceVolumeGraph
  configs : List ConfigSpec
  configMounts : List ConfigMount
deriving DecidableEq

/-! ## Specs -/

inductive ServiceMode
  | replicated (replicas : ℕ+)
  | global
deriving DecidableEq, Repr

def sameServiceModeKind : ServiceMode → ServiceMode → Bool
  | .replicated _, .replicated _ | .global, .global => true
  | _, _ => false

inductive HealthcheckSpec
  | disabled
  | configured (test : List String)
      (intervalMillis timeoutMillis startPeriodMillis startIntervalMillis retries : Option Nat)
  | http (path : String) (port timeoutSeconds : Nat)
deriving DecidableEq, Repr

structure LogDriver where
  name : String
  options : Labels
deriving DecidableEq, Repr

inductive PidMode
  | host
  | container (id : String)
deriving DecidableEq, Repr

inductive RestartPolicy
  | no
  | always
  | unlessStopped
  | onFailure (maximumRetryCount : Option Int)
deriving DecidableEq, Repr

inductive PullPolicy
  | always
  | missing
  | never
deriving DecidableEq, Repr

inductive UpdateOrder
  | startFirst
  | stopFirst
deriving DecidableEq, Repr

structure DeviceMapping where
  machinePath : String
  containerPath : String
  cgroupPermissions : String
deriving DecidableEq, Repr

structure DeviceReservation where
  driver : Option String
  count : Option Int
  deviceIds : List String
  capabilities : List (List String)
  options : Labels
deriving DecidableEq, Repr

structure Ulimit where
  soft : Int
  hard : Int
deriving DecidableEq, Repr

structure ContainerResources where
  cpuNanos : Option Nat := none
  memoryBytes : Option Nat := none
  memoryReservationBytes : Option Nat := none
  sharedMemoryBytes : Option Nat := none
  devices : List DeviceMapping := []
  deviceReservations : List DeviceReservation := []
  ulimits : List (String × Ulimit) := []
deriving DecidableEq, Repr

/-- Runtime configuration shared by requested and resolved Service specs. -/
structure ServiceContainerSpec where
  image : String
  command : List String := []
  entrypoint : List String := []
  environment : Labels := []
  labels : Labels := []
  hostname : Option String := none
  extraHosts : List String := []
  capAdd : List String := []
  capDrop : List String := []
  healthcheck : Option HealthcheckSpec := none
  pullPolicy : PullPolicy
  init : Option Bool := none
  user : Option String := none
  workingDirectory : Option String := none
  tty : Bool := false
  openStdin : Bool := false
  privileged : Bool := false
  pidMode : Option PidMode := none
  logDriver : Option LogDriver := none
  resources : ContainerResources := {}
  stopTimeoutSecs : Option Int := none
  sysctls : Labels := []
  restart : RestartPolicy := .unlessStopped
deriving DecidableEq, Repr

/-- What a constraint looks at. -/
inductive PlacementSelector
  | id
  | label (key : String)
deriving DecidableEq, Repr

/-- A canonical placement constraint: what it looks at, the value, and whether it must be that. -/
structure PlacementConstraint where
  selector : PlacementSelector
  equal : Bool
  value : String
deriving DecidableEq, Repr

structure Placement where
  constraints : List PlacementConstraint
deriving DecidableEq, Repr

structure PreDeployHook where
  command : List String
  environment : Labels := []
  privileged : Option Bool := none
  timeoutMillis : Option Nat := none
  user : Option String := none
deriving DecidableEq, Repr

structure UpdateConfig where
  /-- Absence means derive the order from the deploy snapshot. -/
  order : Option UpdateOrder
  monitorMillis : Option Nat
deriving DecidableEq, Repr

structure ResolvedUpdateConfig where
  order : UpdateOrder
  monitorMillis : Option Nat
deriving DecidableEq, Repr

/-- Normalized deploy input before placement and container-specific resolution. -/
structure RequestedServiceSpec where
  name : ServiceName
  mode : ServiceMode
  container : ServiceContainerSpec
  placement : Placement
  ports : List PortPublication
  mountGraph : ServiceMountGraph
  preDeploy : Option PreDeployHook
  update : UpdateConfig
deriving DecidableEq

/-- The exact, fully resolved Service spec attached to one created container. -/
structure ResolvedServiceSpec where
  serviceId : ServiceId
  name : ServiceName
  mode : ServiceMode
  container : ServiceContainerSpec
  placement : Placement
  ports : List PortPublication
  mountGraph : ServiceMountGraph
  preDeploy : Option PreDeployHook
  update : ResolvedUpdateConfig
deriving DecidableEq

def RequestedServiceSpec.volumeGraph (spec : RequestedServiceSpec) : ServiceVolumeGraph :=
  spec.mountGraph.volumeGraph

def ResolvedServiceSpec.volumeGraph (spec : ResolvedServiceSpec) : ServiceVolumeGraph :=
  spec.mountGraph.volumeGraph

/-- Copy this spec onto a Service Container after placement. -/
def RequestedServiceSpec.toResolved (spec : RequestedServiceSpec) (serviceId : ServiceId)
    (update : ResolvedUpdateConfig) : ResolvedServiceSpec where
  serviceId := serviceId
  name := spec.name
  mode := spec.mode
  container := spec.container
  placement := spec.placement
  ports := spec.ports
  mountGraph := spec.mountGraph
  preDeploy := spec.preDeploy
  update := update

/-- A spec whose Volumes are bound to a Namespace. -/
def RequestedServiceSpec.scopeToNamespace (spec : RequestedServiceSpec) (owner : Namespace) :
    Except ServiceVolumeGraphError RequestedServiceSpec :=
  (fun volumeGraph => { spec with mountGraph := { spec.mountGraph with volumeGraph } }) <$>
    spec.volumeGraph.scopeToNamespace owner

variable {spec bound : RequestedServiceSpec}

theorem RequestedServiceSpec.name_of_scope {owner : Namespace}
    (h : spec.scopeToNamespace owner = .ok bound) : bound.name = spec.name := by
  obtain ⟨graph, -, rfl⟩ := Run.map_eq_ok.mp h
  rfl

theorem RequestedServiceSpec.ports_of_scope {owner : Namespace}
    (h : spec.scopeToNamespace owner = .ok bound) : bound.ports = spec.ports := by
  obtain ⟨graph, -, rfl⟩ := Run.map_eq_ok.mp h
  rfl

/-! ## Comparing specs -/

inductive ServiceModeKind
  | replicated
  | global
deriving DecidableEq, Repr

def ServiceMode.kind : ServiceMode → ServiceModeKind
  | .replicated _ => .replicated
  | .global => .global

theorem sameServiceModeKind_iff {left right : ServiceMode} :
    sameServiceModeKind left right = true ↔ left.kind = right.kind := by
  cases left <;> cases right <;> simp [sameServiceModeKind, ServiceMode.kind]

/-- The spec fields whose change requires a new container. What is written sorted is a multiset. -/
structure ShapeFields where
  name : ServiceName
  mode : ServiceModeKind
  container : ServiceContainerSpec
  capAdd : Multiset String
  capDrop : Multiset String
  placement : Placement
  ports : Multiset PortPublication
  volumes : Multiset (ServiceVolumeReference × RawVolumeSource × Labels)
  mounts : Multiset ServiceMount
  configs : Multiset ConfigSpec
  configMounts : Multiset ConfigMount
deriving DecidableEq

/-- The container settings of a shape: pull policy, resources and what is sorted apart are not. -/
def ServiceContainerSpec.recreateFields (container : ServiceContainerSpec) : ServiceContainerSpec :=
  { container with pullPolicy := .missing, resources := {}, capAdd := [], capDrop := [] }

def recreateFields (name : ServiceName) (mode : ServiceMode)
    (container : ServiceContainerSpec) (placement : Placement) (ports : List PortPublication)
    (mountGraph : ServiceMountGraph) : ShapeFields where
  name := name
  mode := mode.kind
  container := container.recreateFields
  capAdd := container.capAdd
  capDrop := container.capDrop
  placement := placement
  ports := ports
  volumes := mountGraph.volumeGraph.volumes.map fun volume =>
    (volume.reference, volume.source.kind, volume.source.creationLabels)
  mounts := mountGraph.volumeGraph.mounts
  configs := mountGraph.configs
  configMounts := mountGraph.configMounts

def fieldsOfResolved (spec : ResolvedServiceSpec) : ShapeFields :=
  recreateFields spec.name spec.mode spec.container spec.placement spec.ports spec.mountGraph

def fieldsOfRequested (spec : RequestedServiceSpec) : ShapeFields :=
  recreateFields spec.name spec.mode spec.container spec.placement spec.ports spec.mountGraph

/-- How `serde_json` writes the fields of a shape. -/
abbrev ShapeText := ShapeFields → List UInt8

def fnv1a64 (bytes : List UInt8) : UInt64 :=
  bytes.foldl (fun hash byte => (hash ^^^ byte.toUInt64) * 0x100000001b3) 0xcbf29ce484222325

/-- Content identity of the spec fields whose change requires a new container: a digest of their
text, so that specs of one shape have the same fields only where no two texts collide. -/
structure ServingShape where
  digest : UInt64
deriving DecidableEq

def ServingShape.fromFields (text : ShapeText) (fields : ShapeFields) : ServingShape :=
  ⟨fnv1a64 (text fields)⟩

def ResolvedServiceSpec.servingShape (text : ShapeText) (spec : ResolvedServiceSpec) :
    ServingShape :=
  .fromFields text (fieldsOfResolved spec)

def RequestedServiceSpec.servingShape (text : ShapeText) (spec : RequestedServiceSpec) :
    ServingShape :=
  .fromFields text (fieldsOfRequested spec)

inductive SpecChange
  | upToDate
  | needsUpdate
  | needsRecreate
deriving DecidableEq, Repr

def resourceChange (current requested : ContainerResources) : SpecChange :=
  if current.devices ≠ requested.devices ∨
      current.deviceReservations ≠ requested.deviceReservations ∨
      current.ulimits ≠ requested.ulimits then .needsRecreate
  else if current.cpuNanos ≠ requested.cpuNanos ∨ current.memoryBytes ≠ requested.memoryBytes ∨
      current.memoryReservationBytes ≠ requested.memoryReservationBytes ∨
      current.sharedMemoryBytes ≠ requested.sharedMemoryBytes then .needsUpdate
  else .upToDate

/-- The runtime action needed to reconcile the requested serving shape. -/
def compareSpecs (text : ShapeText) (current : ResolvedServiceSpec)
    (requested : RequestedServiceSpec) : SpecChange :=
  if requested.container.pullPolicy = .always ∨
      current.servingShape text ≠ requested.servingShape text ∨
      current.preDeploy ≠ requested.preDeploy then .needsRecreate
  else resourceChange current.container.resources requested.container.resources

/-- Two specs whose texts have one digest have the same fields. -/
def NoCollision (text : ShapeText) (current : ResolvedServiceSpec)
    (requested : RequestedServiceSpec) : Prop :=
  current.servingShape text = requested.servingShape text →
    fieldsOfResolved current = fieldsOfRequested requested

instance decidableNoCollision (text : ShapeText) (current : ResolvedServiceSpec)
    (requested : RequestedServiceSpec) : Decidable (NoCollision text current requested) :=
  inferInstanceAs (Decidable (_ → _))

theorem ports_of_upToDate {text : ShapeText} {current : ResolvedServiceSpec}
    {requested : RequestedServiceSpec} (hdigest : NoCollision text current requested)
    (h : compareSpecs text current requested = .upToDate) :
    current.ports.Perm requested.ports := by
  unfold compareSpecs at h
  split_ifs at h with hchange
  have hshape : current.servingShape text = requested.servingShape text := by
    by_contra hne
    exact hchange (.inr (.inl hne))
  exact Multiset.coe_eq_coe.mp (congrArg ShapeFields.ports (hdigest hshape))

end Ployz.Deploy
