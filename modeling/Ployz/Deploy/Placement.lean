import Ployz.Deploy.Intent
import Ployz.Deploy.Operation
import Mathlib.Logic.Function.Basic
import Mathlib.Algebra.GroupWithZero.Nat

/-!
# Machine placement and replacement planning

Which containers of a Service stay, are replaced, or are created on which Machines. Placement
keeps two ledgers: the endpoints still free on each Machine (`CapacityBudget`) and the host sockets
that containers claim (`HostSockets`). A replicated Service takes its Machines in turn
(`selectReplicated`), a global one takes them all (`planGlobal`).
-/

namespace Ployz.Deploy

/-! ## Endpoint capacity -/

inductive EndpointOperation
  | unchanged
  | create
  | replace
deriving DecidableEq, Repr

/-- Endpoints an operation needs at once, and those it keeps. -/
structure EndpointDemand where
  peak : Nat
  persistent : Nat
  usesHook : Bool

def EndpointDemand.forOperation (operation : EndpointOperation) (hookPending : Bool) :
    EndpointDemand :=
  let changes := operation != .unchanged
  let usesHook := changes && hookPending
  ⟨changes.toNat + usesHook.toNat, (operation == .create).toNat + usesHook.toNat, usesHook⟩

/-- Free endpoints by Machine, unless nothing was measured. -/
structure CapacityBudget where
  free : Option (MachineId → Option Nat)

def u64Max : Nat := 2 ^ 64 - 1

namespace CapacityBudget

def fits (budget : CapacityBudget) (machineId : MachineId) (peak : Nat) : Bool :=
  peak == 0 ||
    match budget.free with
    | none => true
    | some free => (free machineId).any (peak ≤ ·)

def fitsDemand (budget : CapacityBudget) (machineId : MachineId) (demand : EndpointDemand) : Bool :=
  budget.fits machineId demand.peak

/-- The budget with a demand taken, where it fits. -/
def reserve (budget : CapacityBudget) (machineId : MachineId) (demand : EndpointDemand) :
    Option CapacityBudget :=
  if !budget.fitsDemand machineId demand then none
  else if 0 < demand.persistent then
    some ⟨budget.free.map fun free =>
      Function.update free machineId ((free machineId).map (· - demand.persistent))⟩
  else some budget

/-- The budget with one endpoint more, saturating, where the Machine was measured. -/
def release (budget : CapacityBudget) (machineId : MachineId) : CapacityBudget :=
  ⟨budget.free.map fun free =>
    Function.update free machineId ((free machineId).map fun free => min (free + 1) u64Max)⟩

def errorFor (budget : CapacityBudget) (machineIds : List MachineId) : PlanError :=
  if budget.free.any fun free => machineIds.any fun machineId => (free machineId).isNone then
    .capacityUnknown
  else .insufficientCapacity

/-- Whether the Machines together have `required` endpoints, counted until they do. -/
def supplies (free : MachineId → Option Nat) (required : Nat) : List MachineId → Nat → Bool
  | [], _ => false
  | machineId :: rest, available =>
    match free machineId with
    | none => supplies free required rest available
    | some more =>
      let available := min (available + more) u64Max
      required ≤ available || supplies free required rest available

def canSupplyPersistent (budget : CapacityBudget) (machineIds : List MachineId) (required : Nat) :
    Bool :=
  required == 0 ||
    match budget.free with
    | none => true
    | some free => supplies free (min required u64Max) machineIds 0

end CapacityBudget

def releaseHooks (budget : CapacityBudget) (hooks : List ContainerObservation) : CapacityBudget :=
  hooks.foldl (fun budget hook => budget.release hook.machineId) budget

/-! ## Containers against what is requested -/

def isUpToDate (container : ContainerObservation) (requested : RequestedServiceSpec)
    (options : PlanOptions) : Bool :=
  !options.forceRecreate && isRunning container.runtime &&
    compareSpecs options.shapeText container.resolvedSpec requested == .upToDate

def determineUpdateOrder (current : Option ContainerObservation)
    (requested : RequestedServiceSpec) :
    UpdateOrder :=
  match requested.update.order with
  | some order => order
  | none =>
    if current.any fun current => portsConflict current.resolvedSpec.ports requested.ports then
      .stopFirst
    else if requested.volumeGraph.mountedVolumes.any (·.source.dockerVolumeName.isSome) then
      .stopFirst
    else .startFirst

def resolve (requested : RequestedServiceSpec) (serviceId : ServiceId) (order : UpdateOrder) :
    ResolvedServiceSpec :=
  requested.toResolved serviceId ⟨order, requested.update.monitorMillis⟩

/-! ## Host sockets -/

/-- The ports a container has claimed on a Machine, or one this Deploy will create. -/
structure SocketClaim where
  machineId : MachineId
  owner : Option ContainerId
  ports : List PortPublication

/-- Snapshot-local claims, retained per owner so releasing one container never releases another's
overlapping publication. Hooks bind no ports. -/
structure HostSockets where
  claims : List SocketClaim

def socketError (requested : RequestedServiceSpec) : PlanError := .hostPortConflict requested.name

namespace HostSockets

def fromSnapshot (snapshot : DeploySnapshot) : HostSockets :=
  ⟨(snapshot.containers.filter fun container => container.isService && container.isActive).map
    fun container =>
      ⟨container.machineId, some container.containerId, container.resolvedSpec.ports⟩⟩

def release (sockets : HostSockets) (machine : MachineId) (container : ContainerId) : HostSockets :=
  ⟨sockets.claims.filter fun claim => claim.machineId != machine || claim.owner != some container⟩

/-- Whether starting `requested` meets no claim but those that are stopped before. -/
def fits (sockets : HostSockets) (machine : MachineId) (requested : RequestedServiceSpec)
    (existing : Option ContainerObservation) (operation : EndpointOperation)
    (preStops : List ContainerId) : Bool :=
  operation == .unchanged ||
    let released := (existing.filter fun container =>
      determineUpdateOrder (some container) requested == .stopFirst).map (·.containerId)
    !sockets.claims.any fun claim =>
      claim.machineId == machine && (released.isNone || claim.owner != released) &&
        !claim.owner.any preStops.contains && portsConflict claim.ports requested.ports

def admitPorts (sockets : HostSockets) (machine : MachineId) (requested : RequestedServiceSpec)
    (existing : Option ContainerObservation) (operation : EndpointOperation) :
    Except PlanError HostSockets :=
  if !sockets.fits machine requested existing operation [] then .error (socketError requested)
  else if operation != .unchanged then
    let released := match existing with
      | some container => sockets.release machine container.containerId
      | none => sockets
    .ok ⟨released.claims ++ [⟨machine, none, requested.ports⟩]⟩
  else .ok sockets

end HostSockets

def validateHostPorts (requested : RequestedServiceSpec) : Except PlanError Unit :=
  if requested.ports.Pairwise fun port other => hostPortsConflict port other = false then .ok ()
  else .error (.conflictingHostPublications requested.name)

/-! ## Replicated Services -/

inductive ReplicaAction
  | unchanged (containerId : ContainerId)
  | replace (containerId : ContainerId) (preStops : List ContainerId)
  | create
deriving DecidableEq

structure ReplicaChoice where
  machineId : MachineId
  action : ReplicaAction
deriving DecidableEq

structure ReplicatedReservation where
  choices : List ReplicaChoice
  hookMachine : Option MachineId

inductive CapacityAdmission
  | pending (error : PlanError)
  | reserved (reservation : ReplicatedReservation)

structure PlacementState where
  occupancy : MachineId → Nat
  capacity : CapacityBudget
  sockets : HostSockets
  reservations : ServiceName → Option ReplicatedReservation

def replicatedOperation (existing : Option ContainerObservation) (requested : RequestedServiceSpec)
    (options : PlanOptions) : EndpointOperation :=
  match existing with
  | some container => if isUpToDate container requested options then .unchanged else .replace
  | none => .create

/-- Only unselected siblings of the Service can be retired to free a replacement's ports. -/
def conflictingSiblings (requested : RequestedServiceSpec) (existing : Option ContainerObservation)
    (operation : EndpointOperation) (remaining : List ContainerObservation) : List ContainerId :=
  match existing with
  | none => []
  | some existing =>
    if operation != .replace then []
    else (remaining.filter fun container =>
      container.containerId != existing.containerId && container.isActive &&
        portsConflict container.resolvedSpec.ports requested.ports).map (·.containerId)

/-- A selection under way: the containers not yet chosen by Machine, the ledgers, and the choices
so far. -/
structure Selecting where
  remaining : MachineId → List ContainerObservation
  capacity : CapacityBudget
  sockets : HostSockets
  cursor : Nat
  hookPending : Bool
  hookMachine : Option MachineId
  choices : List ReplicaChoice

structure Candidate where
  machineId : MachineId
  existing : Option ContainerObservation
  operation : EndpointOperation
  preStops : List ContainerId
  demand : EndpointDemand
  capacity : CapacityBudget
  cursor : Nat

inductive Probe
  | selected (candidate : Candidate)
  | failed (socketBlocked : Bool)

section

variable (requested : RequestedServiceSpec) (options : PlanOptions)

/-- Try the Machines in turn from `cursor` until one has the sockets and the endpoints. -/
def probe (machines : List MachineId) (state : Selecting) : Nat → Nat → Bool → Probe
  | 0, _, socketBlocked => .failed socketBlocked
  | tries + 1, cursor, socketBlocked =>
    match machines[cursor % machines.length]? with
    | none => .failed socketBlocked
    | some machineId =>
      let remaining := state.remaining machineId
      let existing := remaining.getLast?
      let operation := replicatedOperation existing requested options
      let preStops := conflictingSiblings requested existing operation remaining
      if !state.sockets.fits machineId requested existing operation preStops then
        probe machines state tries (cursor + 1) true
      else
        let demand := EndpointDemand.forOperation operation state.hookPending
        match state.capacity.reserve machineId demand with
        | some capacity =>
          .selected ⟨machineId, existing, operation, preStops, demand, capacity, cursor + 1⟩
        | none => probe machines state tries (cursor + 1) socketBlocked

def Candidate.action (candidate : Candidate) : ReplicaAction :=
  match candidate.existing with
  | some container =>
    if candidate.operation = .unchanged then .unchanged container.containerId
    else .replace container.containerId candidate.preStops
  | none => .create

def selectReplica (machines : List MachineId) (capacityError : PlanError) (state : Selecting) :
    Except PlanError Selecting :=
  match probe requested options machines state machines.length state.cursor false with
  | .failed socketBlocked =>
    .error (if socketBlocked then socketError requested else capacityError)
  | .selected candidate => do
    let remaining := (state.remaining candidate.machineId).dropLast.filter fun container =>
      !candidate.preStops.contains container.containerId
    let released := candidate.preStops.foldl
      (fun sockets containerId => sockets.release candidate.machineId containerId) state.sockets
    let sockets ← released.admitPorts candidate.machineId requested candidate.existing
      candidate.operation
    pure
      { remaining := Function.update state.remaining candidate.machineId remaining
        capacity := candidate.capacity
        sockets := sockets
        cursor := candidate.cursor
        hookPending := state.hookPending && !candidate.demand.usesHook
        hookMachine := if candidate.demand.usesHook then some candidate.machineId
          else state.hookMachine
        choices := state.choices ++ [⟨candidate.machineId, candidate.action⟩] }

/-- Choose `replicas` replicas, one after another. -/
def selectReplicas (machines : List MachineId) (capacityError : PlanError) :
    Nat → Selecting → Except PlanError Selecting
  | 0, state => .ok state
  | replicas + 1, state => do
    let state ← selectReplica requested options machines capacityError state
    selectReplicas machines capacityError replicas state

/-- The Service's containers on a Machine, those up to date last. -/
def byMachine (current : List ContainerObservation) (machineId : MachineId) :
    List ContainerObservation :=
  let containers := current.filter (·.machineId == machineId)
  containers.filter (!isUpToDate · requested options) ++
    containers.filter (isUpToDate · requested options)

/-- How many of the Service's containers on a Machine are up to date. -/
def upToDateOn (current : List ContainerObservation) (machineId : MachineId) : Nat :=
  (byMachine requested options current machineId).countP (isUpToDate · requested options)

/-- Machines with the most containers up to date come first, then those with the most containers,
then the least occupied. -/
def rankedBefore (current : List ContainerObservation) (occupancy : MachineId → Nat)
    (a b : MachineId) : Bool :=
  let upToDate := upToDateOn requested options current
  let count := fun machineId => (byMachine requested options current machineId).length
  upToDate b < upToDate a || (upToDate a == upToDate b &&
    (count b < count a || (count a == count b && occupancy a ≤ occupancy b)))

/-- The same container selection and admission for ordinary placement and shared Volume trials. -/
def selectReplicated (current : List ContainerObservation) (machines : List MachineId)
    (occupancy : MachineId → Nat) (capacity : CapacityBudget) (sockets : HostSockets)
    (capacityError : PlanError) :
    Except PlanError (ReplicatedReservation × CapacityBudget × HostSockets) :=
  match requested.mode with
  | .global => .error capacityError
  | .replicated replicas =>
    let existing := (machines.map fun id => (byMachine requested options current id).length).sum
    let upToDate := (machines.map (upToDateOn requested options current)).sum
    let required := (replicas - existing) +
      (requested.preDeploy.isSome && decide (upToDate < replicas)).toNat
    if !capacity.canSupplyPersistent machines required then .error capacityError
    else do
      let machines := machines.insertionSort fun a b =>
        rankedBefore requested options current occupancy a b = true
      let state ← selectReplicas requested options machines capacityError replicas
        { remaining := byMachine requested options current
          capacity := capacity
          sockets := sockets
          cursor := 0
          hookPending := requested.preDeploy.isSome
          hookMachine := none
          choices := [] }
      pure (⟨state.choices, state.hookMachine⟩, state.capacity, state.sockets)

/-- A Service being placed: the ledgers, the containers it keeps or replaces, and its operations. -/
structure Placing where
  placement : PlacementState
  used : List ContainerId
  operations : List DeployOperation

def PlacementState.occupy (placement : PlacementState) (machineId : MachineId) : PlacementState :=
  { placement with
    occupancy := Function.update placement.occupancy machineId (placement.occupancy machineId + 1) }

/-- Stop containers on a Machine to free their ports. -/
def freeHostPorts (machineId : MachineId) (containers : List ContainerId) (sockets : HostSockets) :
    HostSockets × List DeployOperation :=
  (containers.foldl (fun sockets containerId => sockets.release machineId containerId) sockets,
    containers.map fun containerId => .stopContainer machineId containerId .freeHostPorts)

def applyChoice (serviceId : ServiceId) (current : List ContainerObservation) (state : Placing)
    (choice : ReplicaChoice) : Except PlanError Placing :=
  let placement := state.placement.occupy choice.machineId
  match choice.action with
  | .unchanged containerId => pure { state with placement, used := state.used ++ [containerId] }
  | .replace containerId preStops => do
    let existing := (current.filter (·.containerId == containerId)).getLast?
    let (sockets, stops) := freeHostPorts choice.machineId preStops placement.sockets
    let sockets ← sockets.admitPorts choice.machineId requested existing .replace
    pure ⟨{ placement with sockets }, state.used ++ [containerId], state.operations ++ stops ++
      [.replaceContainer choice.machineId containerId
        (resolve requested serviceId (determineUpdateOrder existing requested))
        options.skipHealthMonitor]⟩
  | .create => do
    let sockets ← placement.sockets.admitPorts choice.machineId requested none .create
    pure ⟨{ placement with sockets }, state.used, state.operations ++
      [.runContainer choice.machineId
        (resolve requested serviceId (determineUpdateOrder none requested))
        options.skipHealthMonitor]⟩

def removeContainer (state : PlacementState × List DeployOperation)
    (container : ContainerObservation) : PlacementState × List DeployOperation :=
  ({ state.1 with
      capacity := state.1.capacity.release container.machineId
      sockets := state.1.sockets.release container.machineId container.containerId },
    state.2 ++ [.removeContainer container.machineId container.containerId])

def removeUnused (operations : List DeployOperation) (current : List ContainerObservation)
    (used : List ContainerId) (placement : PlacementState) :
    PlacementState × List DeployOperation :=
  (current.filter fun container => !used.contains container.containerId).foldl removeContainer
    (placement, operations)

def planReplicated (serviceId : ServiceId) (current : List ContainerObservation)
    (machines : List MachineObservation) (admission : CapacityAdmission)
    (placement : PlacementState) :
    Except PlanError (PlacementState × List DeployOperation × Option MachineId) := do
  let (reservation, capacity) ← match admission with
    | .reserved reservation => pure (reservation, placement.capacity)
    | .pending error => do
      -- Selection uses trial socket claims; the accepted choices are applied below.
      let (reservation, capacity, _) ← selectReplicated requested options current
        (machines.map (·.id)) placement.occupancy placement.capacity placement.sockets error
      pure (reservation, capacity)
  let state ← reservation.choices.foldlM (applyChoice requested options serviceId current)
    ⟨{ placement with capacity }, [], []⟩
  let (placement, operations) := removeUnused state.operations current state.used state.placement
  pure (placement, operations, reservation.hookMachine)

/-! ## Global Services -/

def onMachine (current : List ContainerObservation) (machineId : MachineId) :
    List ContainerObservation :=
  current.filter (·.machineId == machineId)

/-- Whether a stopped container can be started again as it is. -/
def reusableGlobal (container : ContainerObservation) : Bool :=
  !options.forceRecreate && !container.isActive &&
    (container.labels.lookup "ployz.creation.key").isSome &&
    container.resolvedSpec ==
      resolve requested container.serviceId container.resolvedSpec.update.order

def globalEndpointOperation (current : List ContainerObservation) (machineId : MachineId) :
    EndpointOperation :=
  if (onMachine current machineId).any fun container =>
      isUpToDate container requested options || reusableGlobal requested options container then
    .unchanged
  else if (onMachine current machineId).any (·.isActive) then .replace
  else .create

/-- The siblings on the Machine of a container whose replacement needs their ports. -/
def globalSiblings (current : List ContainerObservation) (machineId : MachineId)
    (container : ContainerObservation) : List ContainerId :=
  ((onMachine current machineId).filter fun other =>
    other.containerId != container.containerId && other.isActive &&
      portsConflict other.resolvedSpec.ports requested.ports).map (·.containerId)

def placeGlobal (serviceId : ServiceId) (current : List ContainerObservation)
    (hookMachine : Option MachineId) (capacityError : PlanError) (state : Placing)
    (machine : MachineObservation) : Except PlanError Placing :=
  let machineId := machine.id
  let placement := state.placement.occupy machineId
  match (onMachine current machineId).find? (isUpToDate · requested options) with
  | some kept => pure { state with placement, used := state.used ++ [kept.containerId] }
  | none =>
    match (onMachine current machineId).find? (reusableGlobal requested options) with
    | some container => do
      let sockets ← placement.sockets.admitPorts machineId requested none .create
      pure ⟨{ placement with sockets }, state.used ++ [container.containerId], state.operations ++
        [.runContainer machineId container.resolvedSpec options.skipHealthMonitor]⟩
    | none =>
      match (onMachine current machineId).find? (·.isActive) with
      | some container =>
        match placement.capacity.reserve machineId
            (.forOperation .replace (hookMachine == some machineId)) with
        | none => .error capacityError
        | some capacity => do
          let (sockets, stops) := freeHostPorts machineId
            (globalSiblings requested current machineId container) placement.sockets
          let sockets ← sockets.admitPorts machineId requested (some container) .replace
          pure ⟨{ placement with capacity, sockets }, state.used ++ [container.containerId],
            state.operations ++ stops ++ [.replaceContainer machineId container.containerId
              (resolve requested serviceId (determineUpdateOrder (some container) requested))
              options.skipHealthMonitor]⟩
      | none =>
        match placement.capacity.reserve machineId
            (.forOperation .create (hookMachine == some machineId)) with
        | none => .error capacityError
        | some capacity => do
          let sockets ← placement.sockets.admitPorts machineId requested none .create
          pure ⟨{ placement with capacity, sockets }, state.used, state.operations ++
            [.runContainer machineId
              (resolve requested serviceId (determineUpdateOrder none requested))
              options.skipHealthMonitor]⟩

def planGlobal (serviceId : ServiceId) (current hooks : List ContainerObservation)
    (machines : List MachineObservation) (placement : PlacementState) :
    Except PlanError (PlacementState × List DeployOperation × Option MachineId) :=
  let changes := fun machine : MachineObservation =>
    globalEndpointOperation requested options current machine.id != .unchanged
  let hasChanges := machines.any changes
  let placement := if requested.preDeploy.isSome && hasChanges then
    { placement with capacity := releaseHooks placement.capacity hooks } else placement
  let capacityError := placement.capacity.errorFor ((machines.filter changes).map (·.id))
  let hookMachine := if requested.preDeploy.isSome then
      (machines.find? fun machine => changes machine && placement.capacity.fitsDemand machine.id
        (.forOperation (globalEndpointOperation requested options current machine.id) true)).map
          (·.id)
    else none
  if requested.preDeploy.isSome && hookMachine.isNone && hasChanges then .error capacityError
  else do
    let state ← machines.foldlM
      (placeGlobal requested options serviceId current hookMachine capacityError)
        ⟨placement, [], []⟩
    let (placement, operations) := removeUnused state.operations current state.used state.placement
    pure (placement, operations, hookMachine)

end

end Ployz.Deploy
