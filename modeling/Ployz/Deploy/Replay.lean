import Ployz.Deploy.Stages
import Ployz.Lib.Trace

/-!
# Replaying a plan

What executing the operations of a plan does to the containers of the cluster. An operation is a few
actions: a replacement stops the old container before or after it starts the new one, and a hook
takes the place of the hooks before it. `World.replay` runs actions from a snapshot, and
`origin_of_replay` says where a container that is left came from.
-/

namespace Ployz.Deploy

open Trace

inductive Action
  | stop (machineId : MachineId) (containerId : ContainerId)
  | remove (machineId : MachineId) (containerId : ContainerId)
  /-- Create a container and start it. -/
  | create (machineId : MachineId) (kind : ContainerKind) (spec : ResolvedServiceSpec)
  /-- Start the container a spec has, or create one. -/
  | run (machineId : MachineId) (spec : ResolvedServiceSpec)
deriving DecidableEq

namespace DeployOperation

/-- What executing an operation does. -/
def actions : DeployOperation → List Action
  | runContainer machineId spec _ => [.run machineId spec]
  | stopContainer machineId containerId _ => [.stop machineId containerId]
  | removeContainer machineId containerId =>
    [.stop machineId containerId, .remove machineId containerId]
  | replaceContainer machineId oldContainerId spec _ =>
    match spec.update.order with
    | .stopFirst => [.stop machineId oldContainerId, .create machineId .serviceContainer spec,
        .remove machineId oldContainerId]
    | .startFirst => [.create machineId .serviceContainer spec, .stop machineId oldContainerId,
        .remove machineId oldContainerId]
  | stopHook machineId containerId => [.stop machineId containerId]
  | runHook machineId spec oldHookContainers =>
    (oldHookContainers.map fun old => .remove old.1 old.2) ++
    [.create machineId .preDeployHook spec]
  | prepareVolumes _ _ | waitHealthy _ _ _ | removeVolume _ => []

/-- The container an operation is about, where it stops, replaces or removes one. -/
def touches : DeployOperation → List (MachineId × ContainerId)
  | stopContainer machineId containerId _ | removeContainer machineId containerId
  | replaceContainer machineId containerId _ _ | stopHook machineId containerId =>
    [(machineId, containerId)]
  | runHook _ _ oldHookContainers => oldHookContainers
  | prepareVolumes _ _ | waitHealthy _ _ _ | runContainer _ _ _ | removeVolume _ => []

end DeployOperation

namespace Action

/-- The Machine on which an action starts a container, with the ports it publishes. A hook publishes
none. -/
def publishes : Action → Option (MachineId × List PortPublication)
  | create machineId .serviceContainer spec | run machineId spec => some (machineId, spec.ports)
  | create machineId .preDeployHook _ => some (machineId, [])
  | stop _ _ | remove _ _ => none

end Action

/-- What a Machine gives a new container. -/
structure Birth where
  containerId : ContainerId
  createdAtUnixNanos : Int
  labels : Labels

/-- The containers of the cluster, and how many were created. -/
structure World where
  containers : List ContainerObservation
  created : Nat

def ContainerObservation.isAt (container : ContainerObservation) (machineId : MachineId)
    (containerId : ContainerId) : Bool :=
  container.machineId == machineId && container.containerId == containerId

def ContainerObservation.stopped (container : ContainerObservation) : ContainerObservation :=
  if container.isActive then { container with runtime := .exited 0 } else container

def ContainerObservation.started (container : ContainerObservation) : ContainerObservation :=
  { container with runtime := .running }

namespace World

def ofSnapshot (snapshot : DeploySnapshot) : World := ⟨snapshot.containers, 0⟩

section

variable (owner : Namespace) (births : Nat → Birth)

/-- The next container of a spec. A hook has run to its end. -/
def newborn (world : World) (machineId : MachineId) (kind : ContainerKind)
    (spec : ResolvedServiceSpec) : ContainerObservation where
  containerId := (births world.created).containerId
  createdAtUnixNanos := (births world.created).createdAtUnixNanos
  machineId := machineId
  owner := owner
  kind := kind
  runtime := if kind = .serviceContainer then .running else .exited 0
  resolvedSpec := spec
  labels := (births world.created).labels

def create (world : World) (machineId : MachineId) (kind : ContainerKind)
    (spec : ResolvedServiceSpec) : World :=
  ⟨world.containers ++ [world.newborn owner births machineId kind spec], world.created + 1⟩

/-- The container a global Service's spec already has on a Machine. -/
def keyed (world : World) (machineId : MachineId) (spec : ResolvedServiceSpec) :
    Option ContainerObservation :=
  if spec.mode = .global then
    world.containers.find? fun container =>
      container.machineId == machineId && container.isService && container.owner == owner &&
        container.resolvedSpec == spec && (container.labels.lookup "ployz.creation.key").isSome
  else none

def step (world : World) : Action → World
  | .stop machineId containerId =>
    ⟨world.containers.map fun container =>
      if container.isAt machineId containerId then container.stopped else container, world.created⟩
  | .remove machineId containerId =>
    ⟨world.containers.filter fun container => !container.isAt machineId containerId, world.created⟩
  | .create machineId kind spec => world.create owner births machineId kind spec
  | .run machineId spec =>
    match world.keyed owner machineId spec with
    | some found =>
      ⟨world.containers.map fun container =>
        if container = found then container.started else container, world.created⟩
    | none => world.create owner births machineId .serviceContainer spec

def replay (world : World) (actions : List Action) : World :=
  actions.foldl (step owner births) world

end

end World

/-! ## Where containers come from -/

/-- One container as another was, but for its runtime. -/
structure ContainerObservation.Was (container earlier : ContainerObservation) : Prop where
  containerId : container.containerId = earlier.containerId
  createdAt : container.createdAtUnixNanos = earlier.createdAtUnixNanos
  machineId : container.machineId = earlier.machineId
  owner : container.owner = earlier.owner
  kind : container.kind = earlier.kind
  resolvedSpec : container.resolvedSpec = earlier.resolvedSpec
  labels : container.labels = earlier.labels

namespace ContainerObservation.Was

variable {a b c : ContainerObservation}

theorem refl (a : ContainerObservation) : a.Was a := ⟨rfl, rfl, rfl, rfl, rfl, rfl, rfl⟩

theorem trans (h : a.Was b) (h' : b.Was c) : a.Was c :=
  ⟨h.containerId.trans h'.containerId, h.createdAt.trans h'.createdAt,
    h.machineId.trans h'.machineId, h.owner.trans h'.owner, h.kind.trans h'.kind,
    h.resolvedSpec.trans h'.resolvedSpec, h.labels.trans h'.labels⟩

theorem stopped (a : ContainerObservation) : a.stopped.Was a := by
  unfold ContainerObservation.stopped
  split_ifs
  · exact ⟨rfl, rfl, rfl, rfl, rfl, rfl, rfl⟩
  · exact refl a

theorem started (a : ContainerObservation) : a.started.Was a := ⟨rfl, rfl, rfl, rfl, rfl, rfl, rfl⟩

theorem identity (h : a.Was b) : a.identity = b.identity := by
  unfold ContainerObservation.identity
  rw [h.owner, h.resolvedSpec]

theorem isService (h : a.Was b) : a.isService = b.isService := by
  unfold ContainerObservation.isService
  rw [h.kind]

theorem hosts (h : a.Was b) : a.hosts = b.hosts := by
  unfold ContainerObservation.hosts
  rw [h.isService, h.resolvedSpec]

theorem isAt (h : a.Was b) (machineId : MachineId) (containerId : ContainerId) :
    a.isAt machineId containerId = b.isAt machineId containerId := by
  unfold ContainerObservation.isAt
  rw [h.machineId, h.containerId]

end ContainerObservation.Was

/-- Whether an action starts a container of this Machine, kind and spec. -/
def Action.Starts (action : Action) (machineId : MachineId) (kind : ContainerKind)
    (spec : ResolvedServiceSpec) : Prop :=
  action = .create machineId kind spec ∨ kind = .serviceContainer ∧ action = .run machineId spec

section

variable {owner : Namespace} {births : Nat → Birth}

variable {container : ContainerObservation}

theorem mem_create {world : World} {machineId : MachineId} {kind : ContainerKind}
    {spec : ResolvedServiceSpec} :
    container ∈ (world.create owner births machineId kind spec).containers ↔
      container ∈ world.containers ∨
        container = world.newborn owner births machineId kind spec := by
  simp [World.create]

/-- One action leaves what was there, or what it started. -/
theorem mem_step {world : World} {action : Action}
    (h : container ∈ (world.step owner births action).containers) :
    (∃ earlier ∈ world.containers, container.Was earlier ∧
      ∀ machineId containerId, action = .remove machineId containerId →
        earlier.isAt machineId containerId = false) ∨
      (container.owner = owner ∧
        action.Starts container.machineId container.kind container.resolvedSpec) := by
  cases action with
  | stop machineId containerId =>
    obtain ⟨earlier, hearlier, rfl⟩ := List.mem_map.mp h
    refine .inl ⟨earlier, hearlier, ?_, by simp⟩
    split_ifs
    · exact .stopped earlier
    · exact .refl earlier
  | remove machineId containerId =>
    obtain ⟨hmem, hstays⟩ := List.mem_filter.mp h
    refine .inl ⟨container, hmem, .refl container, ?_⟩
    rintro _ _ ⟨rfl, rfl⟩
    simpa using hstays
  | create machineId kind spec =>
    rcases mem_create.mp h with hmem | rfl
    · exact .inl ⟨container, hmem, .refl container, by simp⟩
    · exact .inr ⟨rfl, .inl rfl⟩
  | run machineId spec =>
    unfold World.step at h
    dsimp only at h
    split at h
    · obtain ⟨earlier, hearlier, rfl⟩ := List.mem_map.mp h
      refine .inl ⟨earlier, hearlier, ?_, by simp⟩
      split_ifs
      · exact .started earlier
      · exact .refl earlier
    · rcases mem_create.mp h with hmem | rfl
      · exact .inl ⟨container, hmem, .refl container, by simp⟩
      · exact .inr ⟨rfl, .inr ⟨rfl, rfl⟩⟩

/-- A container that is left was there and never removed, or an action started it. -/
theorem origin_of_replay {world : World} {actions : List Action}
    (h : container ∈ (world.replay owner births actions).containers) :
    (∃ earlier ∈ world.containers, container.Was earlier ∧
      .remove earlier.machineId earlier.containerId ∉ actions) ∨
      (container.owner = owner ∧ ∃ action ∈ actions,
        action.Starts container.machineId container.kind container.resolvedSpec) := by
  induction actions using List.reverseRecOn generalizing container with
  | nil => exact .inl ⟨container, h, .refl container, by simp⟩
  | append_singleton actions action ih =>
    unfold World.replay at h
    rw [List.foldl_append] at h
    rcases mem_step h with ⟨between, hbetween, hwas, hstays⟩ | ⟨howner, hstarts⟩
    · rcases ih hbetween with ⟨earlier, hearlier, hsame, hkept⟩ | ⟨howner, other, hother, hstarts⟩
      · refine .inl ⟨earlier, hearlier, hwas.trans hsame, fun hremoved => ?_⟩
        rcases List.mem_append.mp hremoved with h | h
        · exact hkept h
        · have hgone := hstays _ _ (List.mem_singleton.mp h).symm
          rw [hsame.isAt] at hgone
          simp [ContainerObservation.isAt] at hgone
      · refine .inr ⟨hwas.owner.trans howner, other, List.mem_append_left _ hother, ?_⟩
        rw [hwas.machineId, hwas.kind, hwas.resolvedSpec]
        exact hstarts
    · exact .inr ⟨howner, action, by simp, hstarts⟩

end

/-! ## A small cluster -/

namespace Sample

def shop : Namespace := ⟨"shop", Eq.refl true⟩
def other : Namespace := ⟨"other", by decide⟩
def web : ServiceName := ⟨"web", Eq.refl true⟩
def api : ServiceName := ⟨"api", Eq.refl true⟩

def spec (name : ServiceName) (mode : ServiceMode) (image : String) (ports : List PortPublication) :
    RequestedServiceSpec where
  name := name
  mode := mode
  container := { image := image, pullPolicy := .missing }
  placement := ⟨[]⟩
  ports := ports
  mountGraph := ⟨.empty, [], []⟩
  preDeploy := none
  update := ⟨none, none⟩

def single : ServiceMode := .replicated ⟨1, Nat.one_pos⟩

def tcp (port : Nat) : PortPublication := .host .all port port .tcp

def machine (id : MachineId) : MachineObservation := ⟨⟨id, id, [], true, true⟩, .up, some .ready⟩

def running (id : ContainerId) (machineId : MachineId) (owner : Namespace) (createdAt : Int)
    (spec : RequestedServiceSpec) : ContainerObservation where
  containerId := id
  createdAtUnixNanos := createdAt
  machineId := machineId
  owner := owner
  kind := .serviceContainer
  runtime := .running
  resolvedSpec := resolve spec spec.name.value .startFirst
  labels := []

def cluster (machines : List MachineObservation) (containers : List ContainerObservation) :
    DeploySnapshot where
  machines := machines
  storageCapacity := []
  containers := containers
  volumeSnapshot := ⟨[], [], [], []⟩
  containerFailures := []
  containerOmissions := []
  capacity := none

/-- A text of a shape that tells images and numbers of ports apart. -/
def shapeText (fields : ShapeFields) : List UInt8 :=
  fields.ports.card.toUInt8 :: fields.container.image.toList.map fun c => c.toNat.toUInt8

def applying (selected : List ServiceName) : PlanOptions := ⟨false, true, 0, selected, shapeText⟩

def deploy (target : List RequestedServiceSpec) : DeployIntent where
  owner := shop
  target := target
  options := applying []
  dependencies := []

def given : Given := ⟨fun _ => false, fun name => name.value⟩

def births (n : Nat) : Birth := ⟨String.ofList ('n' :: List.replicate n 'n'), 100 + n, []⟩

end Sample

end Ployz.Deploy
