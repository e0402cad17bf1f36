import Ployz.Deploy.Spec

/-!
# Operations and outcomes

The steps of a Deploy Plan, the rows that offer them before they run, and what executing them left:
the operations that completed, the one that failed and those that never ran.
-/

namespace Ployz.Deploy

/-! ## Operations -/

/-- One Service's placement constraints and mounted storage requirements. -/
structure ServiceStorageSpec where
  placement : Placement
  volumes : ServiceVolumeGraph
deriving DecidableEq

def RequestedServiceSpec.storageSpec (spec : RequestedServiceSpec) : ServiceStorageSpec :=
  ⟨spec.placement, spec.volumeGraph⟩

inductive StopContainerPurpose
  | lifecycle
  | freeHostPorts
deriving DecidableEq, Repr

/-- One step in a Deploy Plan. -/
inductive DeployOperation
  | prepareVolumes (machineId : MachineId) (specs : List ServiceStorageSpec)
  | waitHealthy (machineId : MachineId) (dependent dependency : QualifiedService)
  | runContainer (machineId : MachineId) (spec : ResolvedServiceSpec) (skipHealthMonitor : Bool)
  | stopContainer (machineId : MachineId) (containerId : ContainerId)
      (purpose : StopContainerPurpose)
  | removeContainer (machineId : MachineId) (containerId : ContainerId)
  | replaceContainer (machineId : MachineId) (oldContainerId : ContainerId)
      (spec : ResolvedServiceSpec) (skipHealthMonitor : Bool)
  | stopHook (machineId : MachineId) (containerId : ContainerId)
  | runHook (machineId : MachineId) (spec : ResolvedServiceSpec)
      (oldHookContainers : List (MachineId × ContainerId))
  | removeVolume (id : DockerVolumeId)
deriving DecidableEq

namespace DeployOperation

def machineId : DeployOperation → MachineId
  | prepareVolumes machineId _ | waitHealthy machineId _ _ | runContainer machineId _ _
  | stopContainer machineId _ _ | removeContainer machineId _ | replaceContainer machineId _ _ _
  | stopHook machineId _ | runHook machineId _ _ => machineId
  | removeVolume id => id.machineId

/-- Resolved Service spec carried by a container-creation operation. -/
def spec : DeployOperation → Option ResolvedServiceSpec
  | runContainer _ spec _ | runHook _ spec _ | replaceContainer _ _ spec _ => some spec
  | waitHealthy _ _ _ | stopContainer _ _ _ | removeContainer _ _ | stopHook _ _
  | prepareVolumes _ _ | removeVolume _ => none

/-- Service Name when this operation carries a spec. -/
def serviceName : DeployOperation → Option ServiceName
  | waitHealthy _ dependent _ => some dependent.name
  | runContainer _ spec _ | runHook _ spec _ | replaceContainer _ _ spec _ => some spec.name
  | stopContainer .. | removeContainer .. | stopHook .. | prepareVolumes .. | removeVolume .. =>
    none

/-- Container ID when this operation names an existing container. -/
def containerId : DeployOperation → Option ContainerId
  | stopContainer _ containerId _ | removeContainer _ containerId | stopHook _ containerId
  | replaceContainer _ containerId _ _ => some containerId
  | waitHealthy .. | runContainer .. | runHook .. | prepareVolumes .. | removeVolume .. => none

/-- Whether an operation works on Volumes, which belong to no Service. -/
def onVolumes : DeployOperation → Bool
  | prepareVolumes .. | removeVolume _ => true
  | _ => false

end DeployOperation

/-! ## Previews -/

/-- One planned operation of a preview. -/
structure OperationRow where
  machineId : MachineId
  operation : DeployOperation
  serviceName : Option ServiceName
deriving DecidableEq

/-- A not-yet-started row for one planned operation. -/
def OperationRow.pending (operation : DeployOperation) (serviceName : Option ServiceName) :
    OperationRow :=
  ⟨operation.machineId, operation, serviceName.or operation.serviceName⟩

/-- The Service this operation belongs to: the row's, else its operation's. -/
def OperationRow.service (row : OperationRow) : Option ServiceName :=
  row.serviceName.or row.operation.serviceName

/-- The plan offered before one Deploy executes. -/
structure DeployPreview where
  owner : Namespace
  operations : List OperationRow
deriving DecidableEq

/-! ## Outcomes -/

inductive RuntimeFailureKind
  | machine
  | health
  | dependencyHealth
  | hook
  | cancelled
deriving DecidableEq, Repr

/-- An error of one Deploy Operation, with the text it shows. -/
structure ExecutionError where
  kind : RuntimeFailureKind
  text : String
deriving DecidableEq, Repr

/-- Why a Deploy Operation did not complete. -/
inductive FailedOperation
  | operation (operation : DeployOperation) (error : ExecutionError)
  | replacement (machineId : MachineId) (oldContainerId : ContainerId) (spec : ResolvedServiceSpec)
      (skipHealthMonitor : Bool) (error : ExecutionError)
deriving DecidableEq

def FailedOperation.deployOperation : FailedOperation → DeployOperation
  | .operation failed _ => failed
  | .replacement machineId oldContainerId spec skipHealthMonitor _ =>
    .replaceContainer machineId oldContainerId spec skipHealthMonitor

def FailedOperation.error : FailedOperation → ExecutionError
  | .operation _ error | .replacement _ _ _ _ error => error

/-- Evidence from executing a Deploy Plan. -/
inductive DeployOutcome
  /-- Every planned operation completed. -/
  | success (completed : List DeployOperation)
  /-- The plan failed at `failed`; `unexecuted` contains every operation not attempted. -/
  | failed (completed : List DeployOperation) (failed : FailedOperation)
      (unexecuted : List DeployOperation)
deriving DecidableEq

namespace DeployOutcome

def isSuccess : DeployOutcome → Bool
  | success _ => true
  | failed .. => false

def completed : DeployOutcome → List DeployOperation
  | success completed | failed completed _ _ => completed

/-- The completed, failed and unexecuted operations. -/
def operations : DeployOutcome → List DeployOperation
  | success completed => completed
  | failed completed stopped unexecuted => completed ++ stopped.deployOperation :: unexecuted

end DeployOutcome

end Ployz.Deploy
