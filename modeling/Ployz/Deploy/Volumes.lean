import Ployz.Deploy.Machines
import Ployz.Deploy.Placement

/-!
# Volume planning

Where the Volumes of a Deploy live. Choosing a Machine for a Service assigns it the Service's whole
Volume definition; locality and budgets read those assignments. Services that share Volumes form
components, and each component gets one Machine ahead of Deploy order (`reserveShared`); other
Services are constrained one by one (`place`). What is prepared is derived at the end (`finish`).
-/

namespace Ployz.Deploy

/-! ## Storage -/

/-- The bounds of provisioned Volumes by name, in the order of names. -/
def bounds (volumes : List ServiceVolume) : List (DockerVolumeName × Nat) :=
  volumes.foldl (fun bounds volume =>
    match volume.source.kind with
    | .provisioned name maximumBytes _ =>
      (bounds.filter (·.1 != name)).orderedInsert (fun a b => a.1 ≤ b.1) (name, maximumBytes)
    | _ => bounds) []

/-- Dataset inventory must be known before absence can authorize a new placement. -/
def storageCapacityOf (snapshot : DeploySnapshot) (machine : MachineObservation) :
    Except PlanError StorageCapacity :=
  let unknown := fun message => Except.error
    (PlanError.storage machine.id machine.machine.name (.storageCapacityUnknown message))
  match snapshot.storageCapacity.lookup machine.id with
  | some (.ok capacity) => .ok capacity
  | some (.error message) => unknown message
  | none => unknown "the Machine did not return fresh storage capacity"

def storageBudgetOf (snapshot : DeploySnapshot) (machine : MachineObservation)
    (volumes : List (DockerVolumeName × Nat)) : Except PlanError StorageBudget := do
  let capacity ← storageCapacityOf snapshot machine
  (capacity.budget volumes).mapError (.storage machine.id machine.machine.name)

/-! ## Assignments -/

/-- One Service's storage assigned to one Machine. -/
structure Assignment where
  machineId : MachineId
  service : ServiceName
  spec : ServiceStorageSpec

/-- The order of assignments: by Machine, then by Service. -/
def Assignment.before (a b : Assignment) : Bool :=
  a.machineId < b.machineId || (a.machineId == b.machineId && a.service.value ≤ b.service.value)

structure VolumePlan where
  snapshot : DeploySnapshot
  owner : Namespace
  assignments : List Assignment

/-- A copy of a Volume seen on a Machine: a Docker Volume, or a dataset without one. -/
structure VolumePresence where
  machineId : MachineId
  name : DockerVolumeName
  dockerVolume : Option DockerVolume

/-- Whether what was seen is a copy of the Volume. A bound mismatch of a dataset must fail
admission on the data's owner, not erase locality. -/
def VolumePresence.matches (presence : VolumePresence) (volume : ServiceVolume) : Bool :=
  managedVolumeName volume == some presence.name &&
    match presence.dockerVolume with
    | some observed => volume.source.matchesManagedVolume observed
    | none => volume.source.isProvisioned

inductive VolumeLocality
  | absent
  | located (first : MachineId) (others : List MachineId)

def machineSet (machineIds : List MachineId) : List MachineId :=
  machineIds.dedup.insertionSort fun a b => a ≤ b

/-- The Volumes of a snapshot, and the datasets of its storage. -/
def observedLocations (snapshot : DeploySnapshot) : List VolumePresence :=
  (snapshot.volumeSnapshot.observations.map fun observed =>
    ⟨observed.id.machineId, observed.id.name, some observed⟩) ++
    snapshot.storageCapacity.flatMap fun (machineId, capacity) =>
      match capacity with
      | .ok capacity => capacity.volumes.map fun (name, _) => ⟨machineId, name, none⟩
      | .error _ => []

namespace VolumePlan

def assignedVolumes (plan : VolumePlan) : List (MachineId × ServiceVolume) :=
  (plan.assignments.insertionSort fun a b => a.before b = true).flatMap fun assignment =>
    assignment.spec.volumes.mountedVolumes.map (assignment.machineId, ·)

def assign (plan : VolumePlan) (machineId : MachineId) (spec : RequestedServiceSpec) : VolumePlan :=
  if plan.assignments.any fun assignment =>
      assignment.machineId == machineId && assignment.service == spec.name then plan
  else { plan with assignments := plan.assignments ++ [⟨machineId, spec.name, spec.storageSpec⟩] }

def storageBudget (plan : VolumePlan) (machine : MachineObservation)
    (volumes : List ServiceVolume) :
    Except PlanError (Option StorageBudget) :=
  let requested := bounds
    (((plan.assignedVolumes.filter (·.1 == machine.id)).map (·.2)) ++ volumes)
  if requested.isEmpty then .ok none else some <$> storageBudgetOf plan.snapshot machine requested

def incompatibleOn (plan : VolumePlan) (machineId : MachineId) (volume : ServiceVolume) : Bool :=
  (plan.assignedVolumes.any fun (id, assigned) =>
    id == machineId && managedVolumeName volume == managedVolumeName assigned &&
      assigned.source.toCreateVolumeRequest != volume.source.toCreateVolumeRequest) ||
  (observedLocations plan.snapshot).any fun located =>
    located.machineId == machineId && managedVolumeName volume == some located.name &&
      !located.matches volume

/-- The Machines a Volume is assigned to, or those it was seen on. -/
def locations (plan : VolumePlan) (volume : ServiceVolume) : List MachineId :=
  let assigned := (plan.assignedVolumes.filter fun (_, assigned) =>
    managedVolumeName volume == managedVolumeName assigned).map (·.1)
  machineSet (if assigned.isEmpty then
    ((observedLocations plan.snapshot).filter (·.matches volume)).map (·.machineId) else assigned)

def locality (plan : VolumePlan) (volume : ServiceVolume) : Except PlanError VolumeLocality :=
  match plan.locations volume with
  | first :: others => .ok (.located first others)
  | [] => do
    if volume.source.isProvisioned then
      for machine in plan.snapshot.machines do
        let _ ← storageCapacityOf plan.snapshot machine
    pure .absent

end VolumePlan

/-! ## Constraints -/

/-- The managed Volumes a graph mounts, one for each Docker name, in the order of names. -/
def mountedManagedVolumes (graph : ServiceVolumeGraph) : List ServiceVolume :=
  ((graph.mountedVolumes.filterMap managedVolumeName).dedup.insertionSort
    fun a b => a ≤ b).filterMap fun name =>
      graph.mountedVolumes.find? (managedVolumeName · == some name)

def volumeAnchor (plan : VolumePlan) (name : DockerVolumeName)
    (requested : List PlacementConstraint) : Option EliminatingConstraint :=
  let locatedOn := ((observedLocations plan.snapshot).filter (·.name == name)).filterMap
    (fun located => (plan.snapshot.machines.find? (·.id == located.machineId)).map (·.machine.name))
    |>.foldl (fun names name => if names.contains name then names else names ++ [name]) []
  let hitsLocated := plan.snapshot.machines.any fun machine =>
    locatedOn.contains machine.machine.name && requested.all (·.matches machine.machine)
  if locatedOn.isEmpty then
    if requested.isEmpty then none else some (.sharedVolumeNoCommonMachine name requested)
  else if requested.isEmpty || hitsLocated then some (.volumeAlreadyOn name locatedOn)
  else some (.volumeConflictsWithPlacement name locatedOn requested)

/-- Keep the Machines one Volume allows, and note it where it is nowhere yet. -/
def constrainByVolume (spec : RequestedServiceSpec) (plan : VolumePlan)
    (state : List MachineObservation × List ServiceVolume) (volume : ServiceVolume) :
    Except PlanError (List MachineObservation × List ServiceVolume) := do
  let machines := state.1.filter fun machine => !plan.incompatibleOn machine.id volume
  match spec.mode with
  | .global => pure (machines, state.2)
  | .replicated _ =>
    match ← plan.locality volume with
    | .located first others =>
      pure (machines.filter fun machine => machine.id == first || others.contains machine.id,
        state.2)
    | .absent => pure (machines, state.2 ++ [volume])

/-- The Machines a Service's Volumes allow, the managed Volumes it mounts, and those of them that
are nowhere yet. -/
def volumeConstraints (spec : RequestedServiceSpec) (plan : VolumePlan)
    (machines : List MachineObservation) :
    Except PlanError (List MachineObservation × List ServiceVolume × List ServiceVolume) := do
  let volumes := plan.snapshot.volumeSnapshot
  let mounted := mountedManagedVolumes spec.volumeGraph
  let incomplete := machines.findSome? fun machine =>
    (volumes.machineGap machine.id).map fun message => (machine, message)
  let machines := if mounted.isEmpty then machines
    else machines.filter fun machine => (volumes.machineGap machine.id).isNone
  match machines, incomplete, mounted.head?.bind managedVolumeName with
  | [], some (machine, message), some name =>
    .error (.dockerVolumeUnavailable ⟨machine.id, name⟩
      ("Machine '" ++ machine.machine.name ++ "' " ++ message))
  | _, _, _ =>
    match volumes.namedGap fun id => machines.any (·.id == id.machineId) &&
        (mounted.filterMap managedVolumeName).contains id.name with
    | some (id, message) => .error (.dockerVolumeUnavailable id message)
    | none => do
      let (machines, missing) ← mounted.foldlM (constrainByVolume spec plan) (machines, [])
      if machines.isEmpty then
        .error (.noEligible ((mounted.filterMap managedVolumeName).filterMap
          (volumeAnchor plan · spec.placement.constraints)))
      else pure (machines, mounted, missing)

/-- An existing provisioned Volume must be the one that is asked for. -/
def validateProvisionedVolumes (spec : RequestedServiceSpec) (plan : VolumePlan)
    (machines : List MachineObservation) : Except PlanError Unit :=
  spec.volumeGraph.mountedProvisionedVolumes.forM fun volume =>
    match volume.source.kind with
    | .provisioned name maximumBytes _ =>
      machines.forM fun machine =>
        match plan.snapshot.volumeSnapshot.observations.find? fun existing =>
            existing.id.machineId == machine.id && existing.id.name == name with
        | none => pure ()
        | some existing =>
          match existing.storage with
          | .plain _ => .error (.existingPlainVolume name machine.machine.name)
          | .provisioned _ =>
            if volume.source.matchesManagedVolume existing then pure ()
            else .error (.existingProvisionedVolumeMismatch name machine.machine.name maximumBytes)
    | _ => pure ()

def plannedVolumeConstraints (spec : RequestedServiceSpec) (plan : VolumePlan)
    (machines : List MachineObservation) :
    Except PlanError (List MachineObservation × List ServiceVolume × List ServiceVolume) := do
  validateProvisionedVolumes spec plan machines
  volumeConstraints spec plan machines

namespace VolumePlan

/-- Apply existing Volume locality before reserving container endpoints. -/
def constrainCandidates (plan : VolumePlan) (spec : RequestedServiceSpec)
    (machines : List MachineObservation) : Except PlanError (List MachineObservation) :=
  (·.1) <$> plannedVolumeConstraints spec plan machines

/-- Select legal Volume locations and reserve every mounted commitment together. -/
def place (plan : VolumePlan) (spec : RequestedServiceSpec) (machines : List MachineObservation) :
    Except PlanError (VolumePlan × List MachineObservation) := do
  let (machines, mounted, missing) ← plannedVolumeConstraints spec plan machines
  let machines := match spec.mode with
    | .global => machines
    | .replicated _ =>
      let fitting := machines.filter fun machine => (plan.storageBudget machine mounted).isOk
      let machines := if fitting.isEmpty then machines else fitting
      if missing.isEmpty then machines
      else match machines.head? with
        | some first => machines.filter (·.id == first.id)
        | none => machines
  pure (machines.foldl (fun plan machine => plan.assign machine.id spec) plan, machines)

end VolumePlan

/-! ## Definitions -/

/-- The Docker name of a managed Volume the spec mounts. -/
def mountsManaged (spec : RequestedServiceSpec) (name : DockerVolumeName) : Bool :=
  (spec.volumeGraph.mountedVolumes.filterMap managedVolumeName).contains name

/-- The Services that mount each managed Volume, in the order of Volume names. -/
def managedVolumeUses (requested : List RequestedServiceSpec) :
    List (DockerVolumeName × List RequestedServiceSpec) :=
  ((requested.flatMap fun spec =>
    spec.volumeGraph.mountedVolumes.filterMap managedVolumeName).dedup.insertionSort
      fun a b => a ≤ b).map fun name => (name, requested.filter (mountsManaged · name))

def RequestedServiceSpec.isGlobal (spec : RequestedServiceSpec) : Bool := spec.mode == .global

def rejectMixedVolumeModes (uses : List (DockerVolumeName × List RequestedServiceSpec)) :
    Except PlanError Unit :=
  uses.forM fun (name, uses) =>
    match uses.find? (·.isGlobal), uses.find? (!·.isGlobal) with
    | some everywhere, some replicated =>
      .error (.mixedVolumeModes name everywhere.name.value replicated.name.value)
    | _, _ => pure ()

/-- The source of a Volume on a Machine, unless another was recorded there. -/
def recordProvisioned (spec : RequestedServiceSpec) (machines : List MachineObservation)
    (definitions : List (DockerVolumeId × VolumeSource)) :
    Except PlanError (List (DockerVolumeId × VolumeSource)) :=
  spec.volumeGraph.mountedProvisionedVolumes.foldlM (fun definitions volume =>
    machines.foldlM (fun definitions machine =>
      let name := (managedVolumeName volume).getD ""
      match definitions.lookup ⟨machine.id, name⟩ with
      | some existing =>
        if existing ≠ volume.source then .error (.conflictingDockerVolumeDefinitions name)
        else pure definitions
      | none => pure ((⟨machine.id, name⟩, volume.source) :: definitions)) definitions) definitions

/-- Check one Service's provisioned Volumes against those recorded. -/
def validateDefinition (given : Given) (plan : VolumePlan)
    (definitions : List (DockerVolumeId × VolumeSource)) (spec : RequestedServiceSpec) :
    Except PlanError (List (DockerVolumeId × VolumeSource)) := do
  let candidates ← placementCandidates given spec plan.owner plan.snapshot
  let definitions ← recordProvisioned spec candidates definitions
  let machines := candidates.filter fun machine =>
    placementEligibility given plan.owner spec machine == .eligible
  if machines.isEmpty then pure definitions
  else do
    validateProvisionedVolumes spec plan machines
    let _ ← volumeConstraints spec plan machines
    pure definitions

def validateProvisionedVolumeDefinitions (given : Given) (plan : VolumePlan)
    (target : List RequestedServiceSpec) : Except PlanError Unit := do
  let _ ← target.foldlM (fun definitions spec =>
    if !spec.volumeGraph.hasMountedProvisionedVolume then pure definitions
    else (validateDefinition given plan definitions spec).mapError
      (serviceError (1 < target.length) spec.name.value)) []
  pure ()

/-- Validate all declared definitions before choosing any locations. -/
def VolumePlan.new (given : Given) (snapshot : DeploySnapshot) (owner : Namespace)
    (target requested : List RequestedServiceSpec) : Except PlanError VolumePlan := do
  rejectMixedVolumeModes (managedVolumeUses requested)
  let plan : VolumePlan := ⟨snapshot, owner, []⟩
  validateProvisionedVolumeDefinitions given plan target
  pure plan

/-! ## Shared Volumes -/

/-- Volumes with the Services that mount them. -/
abbrev VolumeUses := List (DockerVolumeName × List RequestedServiceSpec)

def sharesAService (component : VolumeUses) (candidate : List RequestedServiceSpec) : Bool :=
  candidate.any fun candidate => component.any fun (_, uses) =>
    uses.any (·.name == candidate.name)

/-- Move Volumes that share a Service with a component into it, until none is left that does. -/
def gather : Nat → VolumeUses → VolumeUses → VolumeUses × VolumeUses
  | 0, component, remaining => (component, remaining)
  | steps + 1, component, remaining =>
    match remaining.findIdx? fun (_, uses) => sharesAService component uses with
    | none => (component, remaining)
    | some index =>
      gather steps (component ++ (remaining[index]?).toList) (remaining.eraseIdx index)

def components : Nat → VolumeUses → List VolumeUses
  | 0, _ => []
  | _ + 1, [] => []
  | steps + 1, first :: remaining =>
    let (component, remaining) := gather remaining.length [first] remaining
    component :: components steps remaining

def sharedVolumeComponents (uses : VolumeUses) : List VolumeUses :=
  let shared := uses.filter fun (_, uses) => 1 < uses.length && uses.all (!·.isGlobal)
  components shared.length shared

/-- The Services of a component, in the order of their names. -/
def componentServices (component : VolumeUses) : List RequestedServiceSpec :=
  ((component.flatMap (·.2)).map (·.name.value)).dedup.insertionSort (fun a b => a ≤ b)
    |>.filterMap fun name => (component.flatMap (·.2)).find? (·.name.value == name)

/-- Shared Docker Volume trials own their budget and commit only accepted anchors. -/
structure PlacementReservations where
  capacity : CapacityBudget
  sockets : HostSockets
  reservations : ServiceName → Option ReplicatedReservation

def PlacementReservations.new (snapshot : DeploySnapshot) : PlacementReservations :=
  ⟨⟨snapshot.capacity⟩, .fromSnapshot snapshot, fun _ => none⟩

/-- Whether a choice keeps or replaces a container. -/
def ReplicaAction.takes (containerId : ContainerId) : ReplicaAction → Bool
  | .unchanged id | .replace id _ => id == containerId
  | .create => false

def reserveReplicatedServiceDemand (options : PlanOptions) (machineId : MachineId)
    (observed : List ServiceObservation) (ledgers : CapacityBudget × HostSockets)
    (requested : RequestedServiceSpec) :
    Except PlanError ((CapacityBudget × HostSockets) × ReplicatedReservation) := do
  let service := observed.find? (·.identity.name == requested.name)
  let current := (service.map (·.containers)).getD []
  let upToDate := current.countP fun container =>
    container.machineId == machineId && isUpToDate container requested options
  let capacity := match requested.mode with
    | .replicated replicas =>
      if requested.preDeploy.isSome && upToDate < replicas then
        releaseHooks ledgers.1 ((service.map (·.hookContainers)).getD [])
      else ledgers.1
    | .global => ledgers.1
  let (reservation, capacity, sockets) ← selectReplicated requested options current [machineId]
    (fun _ => 0) capacity ledgers.2 (capacity.errorFor [machineId])
  let sockets := (current.filter fun container =>
      !reservation.choices.any fun choice => choice.action.takes container.containerId).foldl
    (fun sockets container => sockets.release container.machineId container.containerId) sockets
  pure ((capacity, sockets), reservation)

/-- Reserve Services on one Machine, or none of them. -/
def PlacementReservations.reserveOn (placement : PlacementReservations) (options : PlanOptions)
    (machineId : MachineId) (requested : List RequestedServiceSpec)
    (observed : List ServiceObservation) : Except PlanError PlacementReservations :=
  requested.foldlM (fun placement spec => do
    let ((capacity, sockets), reservation) ← reserveReplicatedServiceDemand options machineId
      observed (placement.capacity, placement.sockets) spec
    pure ⟨capacity, sockets, Function.update placement.reservations spec.name (some reservation)⟩)
    placement

def volumeEligibleMachineIds (given : Given) (plan : VolumePlan) (options : PlanOptions)
    (spec : RequestedServiceSpec) : Except PlanError (List MachineId) := do
  let machines ← eligibleMachines given spec plan.owner plan.snapshot options
  let (machines, _, _) ← plannedVolumeConstraints spec plan machines
  pure (machines.map (·.id))

def noEligibleShared (component : VolumeUses) (plan : VolumePlan) : PlanError :=
  .noEligible (component.filterMap fun (name, uses) =>
    let requested := (uses.flatMap (·.placement.constraints)).dedup
    if requested.isEmpty then volumeAnchor plan name requested
    else some (.sharedVolumeNoCommonMachine name requested))

/-- The first Machine that takes the Services, or why the last one tried did not. -/
def tryAnchors (reserve : MachineId → Except PlanError PlacementReservations) :
    List MachineId → PlanError → Except PlanError (MachineId × PlacementReservations)
  | [], error => .error error
  | machineId :: rest, _ =>
    match reserve machineId with
    | .ok placement => .ok (machineId, placement)
    | .error error => tryAnchors reserve rest error

def sharedComponentAnchor (given : Given) (options : PlanOptions)
    (requested : List RequestedServiceSpec) (observed : List ServiceObservation)
    (component : VolumeUses) (plan : VolumePlan) (placement : PlacementReservations) :
    Except PlanError (MachineId × PlacementReservations) := do
  let services := componentServices component
  let firstName := ((services.head?).map (·.name.value)).getD ""
  let eligible ← services.mapM fun service =>
    (volumeEligibleMachineIds given plan options service).mapError
      (serviceError true service.name.value)
  let eligible := (eligible.head?.getD []).filter fun machineId =>
    eligible.tail.all (·.contains machineId)
  if eligible.isEmpty then .error (serviceError true firstName (noEligibleShared component plan))
  else
    let requested := requested.filter fun spec => services.any (·.name == spec.name)
    let fitting := eligible.filter fun id =>
      match plan.snapshot.machines.find? (·.id == id) with
      | some machine => (plan.storageBudget machine
          (requested.flatMap (·.volumeGraph.mountedVolumes))).isOk
      | none => false
    let eligible := if fitting.isEmpty then eligible else fitting
    (tryAnchors (placement.reserveOn options · requested observed) eligible
      .insufficientCapacity).mapError (serviceError true firstName)

def assignSharedComponent (component : VolumeUses) (machineId : MachineId) (plan : VolumePlan) :
    VolumePlan :=
  (component.flatMap (·.2)).foldl (fun plan spec => plan.assign machineId spec) plan

/-- Reserve shared placement and its full mounted commitments together. -/
def reserveShared (given : Given) (options : PlanOptions) (requested : List RequestedServiceSpec)
    (observed : List ServiceObservation) (plan : VolumePlan) (placement : PlacementReservations) :
    Except PlanError (VolumePlan × PlacementReservations) :=
  (sharedVolumeComponents (managedVolumeUses requested)).foldlM
    (fun (plan, placement) component => do
    let (anchor, placement) ←
      sharedComponentAnchor given options requested observed component plan placement
    pure (assignSharedComponent component anchor plan, placement)) (plan, placement)

/-- Socket effects are applied in Deploy order, including unreserved Services. -/
def PlacementReservations.intoPlacement (placement : PlacementReservations)
    (snapshot : DeploySnapshot) : PlacementState :=
  ⟨fun _ => 0, placement.capacity, .fromSnapshot snapshot, placement.reservations⟩

/-! ## What is prepared -/

structure MachineStorageBudget where
  machineId : MachineId
  machineName : MachineName
  budget : StorageBudget

/-- Projections derived from one completed assignment ledger. -/
structure PlannedVolumes where
  creates : List (MachineId × ServiceVolume)
  budgets : List MachineStorageBudget

def DeployOperation.mountsProvisioned (operation : DeployOperation) : Bool :=
  operation.spec.any (·.volumeGraph.hasMountedProvisionedVolume)

/-- The order of Docker Volumes: by Machine, then by name. -/
def DockerVolumeId.before (a b : DockerVolumeId) : Bool :=
  a.machineId < b.machineId || (a.machineId == b.machineId && a.name ≤ b.name)

namespace VolumePlan

/-- The storage assigned to a Machine that has provisioned Volumes. -/
def provisionedSpecs (plan : VolumePlan) (machineId : MachineId) : List ServiceStorageSpec :=
  (((plan.assignments.insertionSort fun a b => a.before b = true).filter
    (·.machineId == machineId)).map (·.spec)).filter (·.volumes.hasMountedProvisionedVolume)

/-- Managed Volumes the operations use, in the order of Machine and name. Preparation can recreate
Docker metadata for unchanged assigned Services too. -/
def used (plan : VolumePlan) (operations : List DeployOperation) (activeMachines : List MachineId) :
    List (DockerVolumeId × ServiceVolume) :=
  plan.assignedVolumes.foldl (fun used (machineId, volume) =>
    match managedVolumeName volume with
    | none => used
    | some name =>
      if (activeMachines.contains machineId && volume.source.isProvisioned) ||
          operations.any fun operation => operation.machineId == machineId &&
            operation.spec.any fun spec =>
              (spec.volumeGraph.mountedVolumes.filterMap managedVolumeName).contains name then
        (used.filter (·.1 != ⟨machineId, name⟩)).orderedInsert
          (fun a b => a.1.before b.1 = true) (⟨machineId, name⟩, volume)
      else used) []

/-- Derive preparations, creation rows and complete budgets from the same assigned Volumes. -/
def finish (plan : VolumePlan) (operations : List DeployOperation) :
    Except PlanError (PlannedVolumes × List DeployOperation) := do
  let activeMachines := machineSet ((operations.filter (·.mountsProvisioned)).map (·.machineId))
  let creates := ((plan.used operations activeMachines).filter fun (id, volume) =>
    !plan.snapshot.volumeSnapshot.observations.any fun observed =>
      observed.id == id && volume.source.matchesManagedVolume observed).map
        fun (id, volume) => (id.machineId, volume)
  let budgets ← activeMachines.mapM fun id => do
    let requested := bounds ((plan.provisionedSpecs id).flatMap (·.volumes.mountedVolumes))
    match plan.snapshot.machines.find? (·.id == id) with
    | some machine => do
      let budget ← storageBudgetOf plan.snapshot machine requested
      pure (⟨id, machine.machine.name, budget⟩ : MachineStorageBudget)
    -- An assigned Machine belongs to the snapshot.
    | none => .error .capacityUnknown
  pure (⟨creates, budgets⟩,
    activeMachines.map (fun id => .prepareVolumes id (plan.provisionedSpecs id)) ++ operations)

end VolumePlan

end Ployz.Deploy
