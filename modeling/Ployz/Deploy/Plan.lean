import Ployz.Deploy.Volumes

/-!
# Deploy plans

A plan is made Service by Service in Deploy order: each is placed, its hook runs before its
containers change, and its dependents wait for its health. Volumes are prepared before everything,
and Services the target no longer declares are removed after everything.
-/

namespace Ployz.Deploy

open Run

inductive DeployWarning
  | storageObservationUnknown (machineId : MachineId)
  | observerRelativeHostnameConflict
  | skippedDependencyHealth (dependent dependency : QualifiedService)
deriving DecidableEq

structure PreservedVolume where
  id : DockerVolumeId
  machineName : Option MachineName
deriving DecidableEq

/-- Operations and prune results before pending rows are attached. -/
structure Planned where
  operations : List DeployOperation
  volumes : PlannedVolumes
  wouldRemove : List QualifiedService
  preservedVolumes : List PreservedVolume
  pruneRefusal : Option PruneRefusal
  warnings : List DeployWarning

/-! ## Hostnames -/

/-- Reject a hostname another Service owns or claims. A full Deploy may transfer a hostname from a
Service it retires after desired work succeeds. -/
def claimHostname (snapshot : DeploySnapshot) (retiring : List QualifiedService)
    (identity : QualifiedService) (claimed : List (String × QualifiedService)) (hostname : String) :
    Except PlanError (List (String × QualifiedService)) :=
  let owner := (claimed.lookup hostname).or (hostnameOwner
    (snapshot.containers.filter fun container => !retiring.contains container.identity) hostname)
  match owner with
  | some owner =>
    if owner ≠ identity then .error (.hostnameConflict hostname owner)
    else pure (if (claimed.lookup hostname).isSome then claimed else claimed ++
      [(hostname, identity)])
  | none => pure (claimed ++ [(hostname, identity)])

def rejectHostnameConflicts (owner : Namespace) (requested : List RequestedServiceSpec)
    (snapshot : DeploySnapshot) (retiring : List QualifiedService) : Except PlanError Unit := do
  let _ ← requested.foldlM (fun claimed spec =>
    (explicitIngressHosts spec.ports).foldlM
      (claimHostname snapshot retiring ⟨owner, spec.name⟩) claimed) []
  pure ()

def hostnamePolicyFor (owner : Namespace) (requested : List RequestedServiceSpec)
    (snapshot : DeploySnapshot) (retiring : List QualifiedService) :
    Except PlanError (List DeployWarning) := do
  rejectHostnameConflicts owner requested snapshot retiring
  pure (if !snapshot.isObserverComplete &&
      requested.any fun spec => !(explicitIngressHosts spec.ports).isEmpty then
    [.observerRelativeHostnameConflict] else [])

/-! ## Services no longer declared -/

/-- Find observed Services absent from the full target, excluding reserved Namespaces. -/
def obsoleteServices (intent : DeployIntent) (services : List ServiceObservation) :
    List QualifiedService :=
  if isReserved intent.owner then []
  else (services.filter fun service =>
    !(intent.target.map (·.name)).contains service.identity.name).map (·.identity)

def removalOperations (services : List ServiceObservation) (obsolete : List QualifiedService) :
    List DeployOperation :=
  ((services.filter fun service => obsolete.contains service.identity).flatMap
    (·.containersForRemove)).map fun container =>
      .removeContainer container.machineId container.containerId

def storageEligibilityWarnings (given : Given) (requested : List RequestedServiceSpec)
    (owner : Namespace) (snapshot : DeploySnapshot) : List DeployWarning :=
  ((requested.flatMap fun spec => snapshot.machines.filter fun machine =>
    machine.membership != .down &&
      placementEligibility given owner spec machine == .missingStorageEvidence).map (·.id)).foldl
    (fun warned id => if warned.contains id then warned else warned ++ [id]) []
    |>.map .storageObservationUnknown

/-- Owned declared Docker Volumes omitted from this Deploy's target. -/
def preservedOwnedVolumes (owner : Namespace) (target : List RequestedServiceSpec)
    (snapshot : DeploySnapshot) : List PreservedVolume :=
  ((snapshot.volumeSnapshot.observations.filter fun volume =>
    volume.labels.lookup namespaceLabel == some owner.value &&
      !target.any (mountsManaged · volume.id.name)).map fun volume =>
        (⟨volume.id, (snapshot.machines.find? (·.id == volume.id.machineId)).map (·.machine.name)⟩ :
          PreservedVolume)).insertionSort fun a b =>
    a.id.name < b.id.name ∨ (a.id.name = b.id.name ∧ a.id.machineId ≤ b.id.machineId)

/-! ## One Service -/

/-- The Machine and spec of the first container a Service's operations start on the hook Machine. -/
def hookTarget (hookMachine : Option MachineId) : List DeployOperation →
    Option (MachineId × ResolvedServiceSpec)
  | [] => none
  | .runContainer machineId spec _ :: rest | .replaceContainer machineId _ spec _ :: rest =>
    if hookMachine = some machineId then some (machineId, spec) else hookTarget hookMachine rest
  | _ :: rest => hookTarget hookMachine rest

def preDeployOperations (requested : RequestedServiceSpec) (hooks : List ContainerObservation)
    (operations : List DeployOperation) (hookMachine : Option MachineId) : List DeployOperation :=
  if requested.preDeploy.isNone then []
  else match hookTarget hookMachine operations with
    | none => []
    | some (machineId, spec) =>
      ((hooks.filter (·.isActive)).map fun container =>
        .stopHook container.machineId container.containerId) ++
      [.runHook machineId spec (hooks.map fun container =>
        (container.machineId, container.containerId))]

/-- The state a plan goes through. -/
structure Planning where
  volumePlan : VolumePlan
  placement : PlacementState

/-- The Machines a replicated Service without a reservation may go to: those its Volumes allow that
have an endpoint free, or a container that is up to date. -/
def candidateMachines (requested : RequestedServiceSpec) (replicas : ℕ+)
    (current hooks : List ContainerObservation) (options : PlanOptions) (planning : Planning)
    (machines : List MachineObservation) :
    Except PlanError (PlacementState × List MachineObservation × PlanError) := do
  let machines ← planning.volumePlan.constrainCandidates requested machines
  let upToDate := current.countP fun container =>
    (machines.any (·.id == container.machineId)) && isUpToDate container requested options
  let capacity := if requested.preDeploy.isSome && upToDate < replicas then
    releaseHooks planning.placement.capacity hooks else planning.placement.capacity
  let error := capacity.errorFor (machines.map (·.id))
  let machines := machines.filter fun machine =>
    (current.any fun container =>
      container.machineId == machine.id && isUpToDate container requested options) ||
    capacity.fits machine.id 1
  if machines.isEmpty then .error error
  else pure ({ planning.placement with capacity }, machines, error)

def planOneService (given : Given) (owner : Namespace) (snapshot : DeploySnapshot)
    (services : List ServiceObservation) (options : PlanOptions) (planning : Planning)
    (requested : RequestedServiceSpec) :
    Except PlanError (Planning × List DeployOperation) := do
  let machines ← eligibleMachines given requested owner snapshot options
  let existing := services.find? (·.identity == ⟨owner, requested.name⟩)
  let serviceId := (existing.map (·.serviceId)).getD (given.newServiceId requested.name)
  let current := (existing.map (·.containers)).getD []
  let hooks := (existing.map (·.hookContainers)).getD []
  if (current ++ hooks).any fun container =>
      !sameServiceModeKind container.resolvedSpec.mode requested.mode then
    .error .serviceModeCannotChange
  else do
    let reservation := planning.placement.reservations requested.name
    let placement := { planning.placement with
      reservations := Function.update planning.placement.reservations requested.name none }
    let (placement, machines, admission) ← match requested.mode, reservation with
      | .replicated replicas, none => do
        let (placement, machines, error) ← candidateMachines requested replicas current hooks
          options
          ⟨planning.volumePlan, placement⟩ machines
        pure (placement, machines, CapacityAdmission.pending error)
      | _, some reservation => pure (placement, machines, .reserved reservation)
      | .global, none => pure (placement, machines, .pending .insufficientCapacity)
    let (volumePlan, machines) ← planning.volumePlan.place requested machines
    let (placement, operations, hookMachine) ← match requested.mode with
      | .replicated _ =>
        planReplicated requested options serviceId current machines admission placement
      | .global => planGlobal requested options serviceId current hooks machines placement
    pure (⟨volumePlan, placement⟩,
      preDeployOperations requested hooks operations hookMachine ++ operations)

/-! ## The whole plan -/

/-- The Machine of the first container operations start. -/
def startMachine : List DeployOperation → Option MachineId
  | [] => none
  | .runContainer machineId _ _ :: _ | .replaceContainer machineId _ _ _ :: _ => some machineId
  | _ :: rest => startMachine rest

/-- What a Service waits for: the dependencies that must be healthy, or warnings in their place. -/
def dependencyWaits (intent : DeployIntent) (spec : RequestedServiceSpec)
    (operations : List DeployOperation) : List DeployOperation × List DeployWarning :=
  match startMachine operations with
  | none => ([], [])
  | some machineId =>
    let dependent : QualifiedService := ⟨intent.owner, spec.name⟩
    let healthy := (intent.dependenciesOf spec.name).filter (·.condition == .serviceHealthy)
    if intent.options.skipHealthMonitor then
      ([], healthy.map fun dependency =>
        .skippedDependencyHealth dependent ⟨intent.owner, dependency.service⟩)
    else (healthy.map fun dependency =>
      .waitHealthy machineId dependent ⟨intent.owner, dependency.service⟩, [])

/-- The plan as its Services are planned one after another. -/
structure Assembling where
  planning : Planning
  operations : List DeployOperation
  warnings : List DeployWarning

def assembleService (given : Given) (intent : DeployIntent) (snapshot : DeploySnapshot)
    (services : List ServiceObservation) (nameErrorsWithService : Bool) (state : Assembling)
    (spec : RequestedServiceSpec) : Except PlanError Assembling := do
  let (planning, operations) ← (planOneService given intent.owner snapshot services intent.options
    state.planning spec).mapError (serviceError nameErrorsWithService spec.name.value)
  let (waits, warnings) := dependencyWaits intent spec operations
  pure ⟨planning, state.operations ++ waits ++ operations, state.warnings ++ warnings⟩

def assemblePlan (given : Given) (intent : DeployIntent) (bound : BoundIntent)
    (snapshot : DeploySnapshot) : Except PlanError Planned := do
  let services := snapshot.servicesIn intent.owner
  let wouldRemove := obsoleteServices intent services
  let pruneRefusal := intent.pruneRefusal snapshot.isObserverComplete
  let retiring := if pruneRefusal.isNone then wouldRemove else []
  let warnings ← hostnamePolicyFor intent.owner bound.requested snapshot retiring
  let warnings := warnings ++
    storageEligibilityWarnings given bound.requested intent.owner snapshot
  bound.requested.forM validateHostPorts
  let volumePlan ← VolumePlan.new given snapshot intent.owner bound.target bound.requested
  let (volumePlan, reservations) ← reserveShared given intent.options bound.requested services
    volumePlan (.new snapshot)
  let state ← bound.requested.foldlM
    (assembleService given intent snapshot services (1 < bound.requested.length))
    ⟨⟨volumePlan, reservations.intoPlacement snapshot⟩, [], warnings⟩
  let (volumes, operations) ← state.planning.volumePlan.finish state.operations
  pure
    { operations := operations ++
        if pruneRefusal.isNone then removalOperations services retiring else []
      volumes := volumes
      wouldRemove := wouldRemove
      preservedVolumes := preservedOwnedVolumes intent.owner bound.target snapshot
      pruneRefusal := pruneRefusal
      warnings := state.warnings }

def planOperations (given : Given) (intent : DeployIntent) (snapshot : DeploySnapshot) :
    Except PlanError Planned := do
  let bound ← bind intent
  assemblePlan given intent bound snapshot

end Ployz.Deploy
