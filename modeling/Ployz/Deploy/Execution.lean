import Ployz.Deploy.Placement
import Ployz.Store.Error

/-!
# Executing a plan

The operations of a plan are executed one after another until one fails or the Deploy is seen
cancelled. Everything a Machine may answer, and when the Deploy is cancelled, is a `Machines`: the
calls go from one of its states to another.

`executeOperationSequence_ends` says how every execution ends, and
`executeOperationSequence_of_cancelled` that a cancellation seen between two operations ends it
there.
-/

namespace Ployz.Deploy

/-- Calls from a state of the Machines, which answer or fail and leave another state. -/
abbrev Exec (σ ε : Type) := ExceptT ε (StateM σ)

inductive ContainerObservationCondition
  | dropped
  | serving
deriving DecidableEq, Repr

/-- What the Machines answer a Deploy, and whether it is cancelled. A call that lost its Machine is
tried again on the way to its answer. The waits poll until a deadline. -/
structure Machines (σ : Type) where
  isCancelled : σ → Bool
  prepareVolumes : MachineId → List ServiceStorageSpec → Exec σ RpcError Unit
  waitForContainerObservations : List ContainerId → ContainerObservationCondition →
    Exec σ RpcError Unit
  createContainer : MachineId → ContainerKind → Namespace → ResolvedServiceSpec →
    Option ContainerId → Exec σ RpcError ContainerId
  startContainer : MachineId → ContainerId → Exec σ RpcError Unit
  inspectContainer : MachineId → ContainerId → Exec σ RpcError ContainerObservation
  stopContainer : MachineId → ContainerId → Option Int → Exec σ RpcError Unit
  removeContainer : MachineId → ContainerId → Exec σ RpcError Unit
  removeVolume : DockerVolumeId → Exec σ RpcError Unit
  waitHealthy : QualifiedService → Exec σ ExecutionError Unit
  monitorContainer : MachineId → ContainerId → ResolvedServiceSpec → Exec σ ExecutionError Unit
  waitForHook : MachineId → ContainerId → ResolvedServiceSpec → Exec σ ExecutionError Unit

inductive MachineAction
  | prepareVolumes
  | createContainer
  | startContainer
  | inspectContainer
  | stopContainer
  | removeContainer
  | removeVolume
deriving DecidableEq, Repr

def MachineAction.text : MachineAction → String
  | prepareVolumes => "prepare Volumes"
  | createContainer => "create Container"
  | startContainer => "start Container"
  | inspectContainer => "inspect Container"
  | stopContainer => "stop Container"
  | removeContainer => "remove Container"
  | removeVolume => "remove Volume"

def machineError (action : MachineAction) (error : RpcError) : ExecutionError :=
  ⟨.machine, action.text ++ " failed: " ++ error.message⟩

def cancelledError : ExecutionError := ⟨.cancelled, "deploy cancelled"⟩

/-- The stop attempt on the new container during compensation. -/
inductive StopAttempt
  | stopped
  | failed (error : ExecutionError)
deriving DecidableEq, Repr

def StopAttempt.ofResult : Except ExecutionError Unit → StopAttempt
  | .ok _ => .stopped
  | .error error => .failed error

/-- The attempt to restore the old container after a failed stop-first replacement. -/
inductive RestartAttempt
  | restarted
  | failed (error : ExecutionError)
deriving DecidableEq, Repr

def RestartAttempt.ofResult : Except ExecutionError Unit → RestartAttempt
  | .ok _ => .restarted
  | .error error => .failed error

inductive ReplacementCompensation
  | oldUntouched (stopNewContainer : StopAttempt)
  | oldStopped (stopNewContainer : Option StopAttempt) (restartOldContainer : RestartAttempt)
deriving DecidableEq, Repr

/-- What one operation failed with. A failed replacement that was compensated says how. -/
inductive OperationFailure
  | ordinary (error : ExecutionError)
  | replacement (error : ExecutionError) (compensation : ReplacementCompensation)
deriving DecidableEq, Repr

section

variable {σ : Type} {α : Type}

/-- A call whose failure names what the Machine was asked. -/
def asked (action : MachineAction) (call : Exec σ RpcError α) : Exec σ ExecutionError α :=
  call.adapt (machineError action)

def ordinary (call : Exec σ ExecutionError α) : Exec σ OperationFailure α :=
  call.adapt .ordinary

def attempt (call : Exec σ ExecutionError α) : Exec σ OperationFailure (Except ExecutionError α) :=
  (call.run : StateM σ _)

/-- A container that is gone is as good as stopped or removed. -/
def ignoreNotFound (call : Exec σ RpcError Unit) : Exec σ RpcError Unit :=
  tryCatch call fun error => if error.code = .notFound then pure () else throw error

variable (machines : Machines σ)

def stopGracePeriod (spec : ResolvedServiceSpec) : Option Int :=
  spec.container.stopTimeoutSecs.map fun secs =>
    if -2 ^ 31 ≤ secs ∧ secs < 2 ^ 31 then secs else 2 ^ 31 - 1

/-- Remove a container a failed start leaves. A keyed create can return a container owned by an
earlier attempt, which stays. -/
def discard (machineId : MachineId) (kind : ContainerKind) (spec : ResolvedServiceSpec)
    (containerId : ContainerId) : Exec σ ExecutionError Unit :=
  if kind ≠ .serviceContainer ∨ spec.mode ≠ .global then
    tryCatch (asked .removeContainer (machines.removeContainer machineId containerId))
      fun _ => pure ()
  else pure ()

def createAndStart (machineId : MachineId) (kind : ContainerKind) (owner : Namespace)
    (spec : ResolvedServiceSpec) (replacing : Option ContainerId) :
    Exec σ ExecutionError ContainerId := do
  let created ← tryCatch
    (asked .createContainer (machines.createContainer machineId kind owner spec replacing))
    fun error => do
      if machines.isCancelled (← get) then throw cancelledError
      throw error
  if machines.isCancelled (← get) then
    discard machines machineId kind spec created
    throw cancelledError
  tryCatch (asked .startContainer (machines.startContainer machineId created)) fun error => do
    discard machines machineId kind spec created
    throw error
  return created

def waitServing (containerId : ContainerId) : Exec σ ExecutionError Unit :=
  asked .inspectContainer (machines.waitForContainerObservations [containerId] .serving)

def waitDropped (containerId : ContainerId) : Exec σ ExecutionError Unit :=
  asked .inspectContainer (machines.waitForContainerObservations [containerId] .dropped)

/-- A new Service Container succeeds once it serves, not merely once it is healthy. -/
def serve (machineId : MachineId) (containerId : ContainerId) (spec : ResolvedServiceSpec)
    (skipHealthMonitor : Bool) : Exec σ ExecutionError Unit := do
  if !skipHealthMonitor then machines.monitorContainer machineId containerId spec
  waitServing machines containerId

def runContainer (machineId : MachineId) (owner : Namespace) (spec : ResolvedServiceSpec)
    (skipHealthMonitor : Bool) : Exec σ ExecutionError Unit := do
  let created ← createAndStart machines machineId .serviceContainer owner spec none
  serve machines machineId created spec skipHealthMonitor

def stopOld (machineId : MachineId) (oldContainerId : ContainerId) :
    Exec σ ExecutionError Bool := do
  let old ← asked .inspectContainer (tryCatch
    (some <$> machines.inspectContainer machineId oldContainerId)
    fun error => if error.code = .notFound then pure none else throw error)
  if old.any (·.isActive) then
    asked .stopContainer (tryCatch
      ((fun _ => true) <$> machines.stopContainer machineId oldContainerId none)
      fun error => if error.code = .notFound then pure false else throw error)
  else return false

/-- Bring back the old container a replacement stopped. -/
def restoreOldContainer (machineId : MachineId) (oldContainerId : ContainerId) :
    Exec σ ExecutionError Unit := do
  asked .startContainer (machines.startContainer machineId oldContainerId)
  waitServing machines oldContainerId

/-- A failure after the old container stopped restores it; otherwise only a health failure is
compensated, by stopping the new container. -/
def compensate (machineId : MachineId) (oldContainerId : ContainerId) (spec : ResolvedServiceSpec)
    (oldStopped : Bool) (newContainer : Option ContainerId) (error : ExecutionError) :
    Exec σ OperationFailure Unit := do
  if !oldStopped && error.kind != .health then throw (.ordinary error)
  let stopNewContainer ← match newContainer with
    | some containerId => some <$> attempt (asked .stopContainer (ignoreNotFound
        (machines.stopContainer machineId containerId (some ((stopGracePeriod spec).getD 0)))))
    | none => pure none
  match oldStopped, stopNewContainer with
  | true, stopNewContainer => do
    let restored ← attempt (restoreOldContainer machines machineId oldContainerId)
    throw (.replacement error (.oldStopped (stopNewContainer.map .ofResult) (.ofResult restored)))
  | false, some stopped => throw (.replacement error (.oldUntouched (.ofResult stopped)))
  -- A health failure always follows a started container.
  | false, none => throw (.ordinary error)

/-- The new container of a replacement, or the one that started before the failure. -/
def startNew (machineId : MachineId) (owner : Namespace) (oldContainerId : ContainerId)
    (spec : ResolvedServiceSpec) (skipHealthMonitor : Bool) :
    Exec σ (Option ContainerId × ExecutionError) Unit := do
  let created ← (createAndStart machines machineId .serviceContainer owner spec
    (some oldContainerId)).adapt (none, ·)
  (serve machines machineId created spec skipHealthMonitor).adapt (some created, ·)

def replaceContainer (machineId : MachineId) (owner : Namespace) (oldContainerId : ContainerId)
    (spec : ResolvedServiceSpec) (skipHealthMonitor : Bool) : Exec σ OperationFailure Unit := do
  let stopFirst := spec.update.order == .stopFirst
  let oldStopped ← if stopFirst then ordinary (stopOld machines machineId oldContainerId)
    else pure false
  let started ← ((startNew machines machineId owner oldContainerId spec skipHealthMonitor).run :
    StateM σ _)
  if let .error (newContainer, error) := started then
    compensate machines machineId oldContainerId spec oldStopped newContainer error
  if !stopFirst then
    ordinary (asked .stopContainer (ignoreNotFound
      (machines.stopContainer machineId oldContainerId none)))
  ordinary (asked .removeContainer (ignoreNotFound
    (machines.removeContainer machineId oldContainerId)))
  ordinary (waitDropped machines oldContainerId)

def runHook (machineId : MachineId) (owner : Namespace) (spec : ResolvedServiceSpec)
    (oldHookContainers : List (MachineId × ContainerId)) : Exec σ ExecutionError Unit := do
  oldHookContainers.forM fun old =>
    asked .removeContainer (ignoreNotFound (machines.removeContainer old.1 old.2))
  let created ← createAndStart machines machineId .preDeployHook owner spec none
  machines.waitForHook machineId created spec

def executeOperation (owner : Namespace) : DeployOperation → Exec σ OperationFailure Unit
  | .prepareVolumes machineId specs =>
    ordinary (asked .prepareVolumes (machines.prepareVolumes machineId specs))
  | .waitHealthy _ _ dependency => ordinary (machines.waitHealthy dependency)
  | .runContainer machineId spec skipHealthMonitor =>
    ordinary (runContainer machines machineId owner spec skipHealthMonitor)
  | .stopContainer machineId containerId purpose => ordinary do
    asked .stopContainer (ignoreNotFound (machines.stopContainer machineId containerId none))
    if purpose = .lifecycle then waitDropped machines containerId
  | .removeContainer machineId containerId => ordinary do
    asked .stopContainer (ignoreNotFound (machines.stopContainer machineId containerId none))
    asked .removeContainer (ignoreNotFound (machines.removeContainer machineId containerId))
    waitDropped machines containerId
  | .replaceContainer machineId oldContainerId spec skipHealthMonitor =>
    replaceContainer machines machineId owner oldContainerId spec skipHealthMonitor
  | .stopHook machineId containerId =>
    ordinary (asked .stopContainer (ignoreNotFound
      (machines.stopContainer machineId containerId none)))
  | .runHook machineId spec oldHookContainers =>
    ordinary (runHook machines machineId owner spec oldHookContainers)
  | .removeVolume id =>
    ordinary (asked .removeVolume (ignoreNotFound (machines.removeVolume id)))

end

/-! ## The sequence -/

def failureOutcomeFrom (operations : List DeployOperation) (completedCount : Nat)
    (error : ExecutionError) : Option DeployOutcome :=
  match operations.drop completedCount with
  | [] => none
  | failed :: unexecuted =>
    some (.failed (operations.take completedCount) (.operation failed error) unexecuted)

def replacementFailureOutcomeFrom (operations : List DeployOperation) (completedCount : Nat)
    (error : ExecutionError) : Option DeployOutcome :=
  match operations.drop completedCount with
  | .replaceContainer machineId oldContainerId spec skipHealthMonitor :: unexecuted =>
    some (.failed (operations.take completedCount)
      (.replacement machineId oldContainerId spec skipHealthMonitor error) unexecuted)
  | _ => none

/-- What an execution reports, and how many operations it began. -/
structure Ran where
  outcome : DeployOutcome
  started : Nat

section

variable {σ : Type} (machines : Machines σ) (owner : Namespace)

/-- The operations from `index` on, or nothing where the source would panic. -/
def executeFrom (operations : List DeployOperation) :
    List DeployOperation → Nat → σ → Option Ran
  | [], _, _ => some ⟨.success operations, operations.length⟩
  | operation :: rest, index, state =>
    if machines.isCancelled state then
      (failureOutcomeFrom operations index cancelledError).map (⟨·, index⟩)
    else
      match (executeOperation machines owner operation).run state with
      | (.ok _, state) => executeFrom operations rest (index + 1) state
      | (.error (.ordinary error), _) =>
        (failureOutcomeFrom operations index error).map (⟨·, index + 1⟩)
      | (.error (.replacement error _), _) =>
        (replacementFailureOutcomeFrom operations index error).map (⟨·, index + 1⟩)

def executeOperationSequence (operations : List DeployOperation) (state : σ) : Option Ran :=
  executeFrom machines owner operations operations 0 state

/-- The state once operations completed in turn, none after a cancellation. -/
def completing : List DeployOperation → σ → Option σ
  | [], state => some state
  | operation :: rest, state =>
    if machines.isCancelled state then none
    else
      match (executeOperation machines owner operation).run state with
      | (.ok _, state) => completing rest state
      | (.error _, _) => none

/-- How an execution ends: it completes, it sees a cancellation before an operation, or an operation
that it began fails. -/
inductive Ends (operations : List DeployOperation) (state : σ) : Ran → Prop
  | success : Ends operations state ⟨.success operations, operations.length⟩
  | cancelled {before after : List DeployOperation} {operation : DeployOperation} {later : σ}
      (hsplit : operations = before ++ operation :: after)
      (hbefore : completing machines owner before state = some later)
      (hcancelled : machines.isCancelled later = true) :
      Ends operations state ⟨.failed before (.operation operation cancelledError) after,
        before.length⟩
  | failed {before after : List DeployOperation} {operation : FailedOperation}
      (hsplit : operations = before ++ operation.deployOperation :: after) :
      Ends operations state ⟨.failed before operation after, before.length + 1⟩

end

section

variable {σ : Type} {machines : Machines σ} {owner : Namespace}

theorem fst_run_ordinary {α : Type} (call : Exec σ ExecutionError α) (state : σ) :
    ((ordinary call).run state).1 = (call.run state).1.mapError OperationFailure.ordinary := rfl

/-- Only a replacement fails as one. -/
theorem replacement_of_run {operation : DeployOperation} {state : σ} {error : ExecutionError}
    {compensation : ReplacementCompensation}
    (h : ((executeOperation machines owner operation).run state).1 =
      .error (.replacement error compensation)) :
    ∃ machineId oldContainerId spec skipHealthMonitor,
      operation = .replaceContainer machineId oldContainerId spec skipHealthMonitor := by
  have hordinary : ∀ call : Exec σ ExecutionError Unit,
      ((ordinary call).run state).1 ≠ .error (.replacement error compensation) := by
    intro call hfailed
    rw [fst_run_ordinary] at hfailed
    cases hcall : (call.run state).1 <;> rw [hcall] at hfailed <;> cases hfailed
  cases operation with
  | replaceContainer => exact ⟨_, _, _, _, rfl⟩
  | _ => exact absurd h (hordinary _)

theorem completing_concat {before : List DeployOperation} {operation : DeployOperation}
    {state between later : σ} {done : Unit}
    (hbefore : completing machines owner before state = some between)
    (hcancelled : machines.isCancelled between = false)
    (hrun : (executeOperation machines owner operation).run between = (.ok done, later)) :
    completing machines owner (before ++ [operation]) state = some later := by
  induction before generalizing state with
  | nil =>
    obtain rfl := Option.some.inj hbefore
    simp [completing, hcancelled, hrun]
  | cons first rest ih =>
    rw [completing] at hbefore
    rw [List.cons_append, completing]
    split_ifs at hbefore ⊢
    split at hbefore
    · exact ih hbefore
    · cases hbefore

theorem executeFrom_ends {operations before rest : List DeployOperation} {state between : σ}
    (hsplit : operations = before ++ rest)
    (hbefore : completing machines owner before state = some between) :
    ∃ ran, executeFrom machines owner operations rest before.length between = some ran ∧
      Ends machines owner operations state ran := by
  induction rest generalizing before between with
  | nil => exact ⟨_, rfl, .success⟩
  | cons operation rest ih =>
    have hdrop : operations.drop before.length = operation :: rest := by
      rw [hsplit, List.drop_left]
    have htake : operations.take before.length = before := by
      rw [hsplit, List.take_left]
    have hfailure : ∀ error, failureOutcomeFrom operations before.length error =
        some (.failed before (.operation operation error) rest) := by
      intro error
      simp only [failureOutcomeFrom, hdrop, htake]
    rw [executeFrom]
    by_cases hcancelled : machines.isCancelled between = true
    · rw [if_pos hcancelled, hfailure]
      exact ⟨_, rfl, .cancelled hsplit hbefore hcancelled⟩
    · rw [if_neg hcancelled]
      split
      · next hrun =>
        have hdone := completing_concat hbefore (by simpa using hcancelled) hrun
        have hrest := ih (by simp [hsplit] : operations = (before ++ [operation]) ++ rest) hdone
        rwa [List.length_append] at hrest
      · next error _ hrun =>
        rw [hfailure]
        exact ⟨_, rfl, .failed
          (show operations = before ++
            (FailedOperation.operation operation error).deployOperation :: rest
            from hsplit)⟩
      · next error _ _ hrun =>
        obtain ⟨machineId, oldContainerId, spec, skipHealthMonitor, rfl⟩ :=
          replacement_of_run (congrArg Prod.fst hrun)
        simp only [replacementFailureOutcomeFrom, hdrop, htake]
        exact ⟨_, rfl, .failed (show operations = before ++ (FailedOperation.replacement machineId
          oldContainerId spec skipHealthMonitor error).deployOperation :: rest from hsplit)⟩

/-- Every execution ends, and the operations it reports are those of the plan in order. -/
theorem executeOperationSequence_ends (machines : Machines σ) (owner : Namespace)
    (operations : List DeployOperation) (state : σ) :
    ∃ ran, executeOperationSequence machines owner operations state = some ran ∧
      Ends machines owner operations state ran :=
  executeFrom_ends (List.nil_append operations).symm rfl

theorem executeFrom_of_completing {operations before after : List DeployOperation} {index : Nat}
    {state later : σ} (hbefore : completing machines owner before state = some later) :
    executeFrom machines owner operations (before ++ after) index state =
      executeFrom machines owner operations after (index + before.length) later := by
  induction before generalizing state index with
  | nil =>
    obtain rfl := Option.some.inj hbefore
    rfl
  | cons first rest ih =>
    rw [completing] at hbefore
    rw [List.cons_append, executeFrom]
    split_ifs at hbefore ⊢
    split at hbefore
    · next hfirst =>
      simp only [hfirst]
      rw [ih hbefore, List.length_cons]
      congr 1
      omega
    · cases hbefore

/-- A cancellation seen between two operations ends the execution at the second, which was not
begun. -/
theorem executeOperationSequence_of_cancelled (operation : DeployOperation)
    {before : List DeployOperation} (after : List DeployOperation) {state later : σ}
    (hbefore : completing machines owner before state = some later)
    (hcancelled : machines.isCancelled later = true) :
    executeOperationSequence machines owner (before ++ operation :: after) state =
      some ⟨.failed before (.operation operation cancelledError) after, before.length⟩ := by
  rw [executeOperationSequence, executeFrom_of_completing hbefore, executeFrom, if_pos hcancelled]
  simp [failureOutcomeFrom]

theorem Ends.operations {operations : List DeployOperation} {state : σ} {ran : Ran}
    (h : Ends machines owner operations state ran) : ran.outcome.operations = operations := by
  cases h with
  | success => rfl
  | cancelled hsplit => exact hsplit.symm
  | failed hsplit => exact hsplit.symm

end

end Ployz.Deploy
