import Ployz.Deploy.Spec
import Mathlib.Data.List.Dedup

/-!
# What a Deploy observes

The Machines, containers, Docker Volumes and capacities one observer sees. Containers group into
Services by their Namespace and name (`servicesIn`), and the oldest container that publishes a
hostname gives it its owner (`hostnameOwner`).
-/

namespace Ployz.Deploy

/-! ## Machines -/

inductive MembershipObservation
  | unknown
  | up
  | suspect
  | down
  | unrecognized (raw : String)
deriving DecidableEq, Repr

/-- Up and Suspect invite one peer RPC. -/
def MembershipObservation.invitesRpc : MembershipObservation → Bool
  | .up | .suspect => true
  | _ => false

inductive MachineStorageObservation
  | stateless
  | ready
  | pool
deriving DecidableEq, Repr

structure Machine where
  id : MachineId
  name : MachineName
  labels : Labels
  acceptsServices : Bool
  acceptsIngress : Bool
deriving DecidableEq, Repr

structure MachineObservation where
  machine : Machine
  membership : MembershipObservation
  storage : Option MachineStorageObservation
deriving DecidableEq, Repr

def MachineObservation.id (machine : MachineObservation) : MachineId := machine.machine.id

/-- Match values case-insensitively; label keys remain case-sensitive. -/
def PlacementConstraint.matches (constraint : PlacementConstraint) (machine : Machine) : Bool :=
  let actual := match constraint.selector with
    | .id => machine.id
    | .label key => (machine.labels.lookup key).getD ""
  (actual.toList.map Char.toLower == constraint.value.toList.map Char.toLower) == constraint.equal

/-- Empty Placement is every Machine; otherwise every constraint must match. -/
def machineMatchesPlacement (machine : Machine) (placement : Placement) : Bool :=
  placement.constraints.all (·.matches machine)

/-- What planning takes from code the model leaves out: whether a spec is a valid trusted Ingress,
and the identity a new Service gets. -/
structure Given where
  validIngress : RequestedServiceSpec → Bool
  newServiceId : ServiceName → ServiceId

inductive ServicePlacementEligibility
  | eligible
  | placementMismatch
  | workNotAccepted
  | provisionedStorageUnsupported
  | missingStorageEvidence
deriving DecidableEq, Repr

/-- Whether one Machine can host a Service under current placement and storage evidence. -/
def placementEligibility (given : Given) (owner : Namespace) (spec : RequestedServiceSpec)
    (observed : MachineObservation) : ServicePlacementEligibility :=
  let ingress := isReserved owner && given.validIngress spec
  if !machineMatchesPlacement observed.machine spec.placement then .placementMismatch
  else if !(if ingress then observed.machine.acceptsIngress
    else observed.machine.acceptsServices) then .workNotAccepted
  else if !spec.volumeGraph.hasMountedProvisionedVolume then .eligible
  else match observed.storage with
    | some .ready | some .pool => .eligible
    | some .stateless => .provisionedStorageUnsupported
    | none => .missingStorageEvidence

/-! ## Containers -/

inductive ContainerKind
  | serviceContainer
  | preDeployHook
deriving DecidableEq, Repr

inductive ContainerRuntimeObservation
  | created
  | running
  | paused
  | restarting
  | exited (code : Int)
  | removing
  | dead
  | unknown
deriving DecidableEq, Repr

def isActiveRuntime : ContainerRuntimeObservation → Bool
  | .running | .paused | .restarting => true
  | _ => false

def isRunning : ContainerRuntimeObservation → Bool
  | .running => true
  | _ => false

structure ContainerObservation where
  containerId : ContainerId
  createdAtUnixNanos : Int
  machineId : MachineId
  owner : Namespace
  kind : ContainerKind
  runtime : ContainerRuntimeObservation
  resolvedSpec : ResolvedServiceSpec
  labels : Labels
deriving DecidableEq

namespace ContainerObservation

def identity (container : ContainerObservation) : QualifiedService :=
  ⟨container.owner, container.resolvedSpec.name⟩

def serviceId (container : ContainerObservation) : ServiceId := container.resolvedSpec.serviceId

def isService (container : ContainerObservation) : Bool := container.kind == .serviceContainer

def isActive (container : ContainerObservation) : Bool := isActiveRuntime container.runtime

/-- The hostnames a container publishes. Hooks publish none. -/
def hosts (container : ContainerObservation) : List String :=
  if container.isService then explicitIngressHosts container.resolvedSpec.ports else []

end ContainerObservation

/-- One observer-derived grouping. Every container keeps its own historical spec. -/
structure ServiceObservation where
  identity : QualifiedService
  serviceId : ServiceId
  containers : List ContainerObservation
  hookContainers : List ContainerObservation

namespace ServiceObservation

def containersForRemove (service : ServiceObservation) : List ContainerObservation :=
  service.containers ++ service.hookContainers

end ServiceObservation

/-- The container created last, by its ID among those created at one time. -/
def newest : List ContainerObservation → Option ContainerObservation
  | [] => none
  | container :: rest =>
    match newest rest with
    | none => some container
    | some best =>
      if best.createdAtUnixNanos < container.createdAtUnixNanos ∨
          (best.createdAtUnixNanos = container.createdAtUnixNanos ∧
            best.containerId < container.containerId) then some container
      else some best

/-- The Service of `identity` among `containers`. -/
def observationOf (containers : List ContainerObservation) (identity : QualifiedService) :
    ServiceObservation :=
  let members := containers.filter (·.identity == identity)
  let services := members.filter (·.isService)
  let hooks := members.filter (!·.isService)
  ⟨identity, ((newest (services ++ hooks)).map (·.serviceId)).getD "", services, hooks⟩

/-- The order of Qualified Services: by Namespace, then by name. -/
def QualifiedService.before (a b : QualifiedService) : Bool :=
  a.owner.value < b.owner.value || (a.owner.value == b.owner.value && a.name.value ≤ b.name.value)

/-- Services in the order of their Qualified Service. -/
def deriveServices (containers : List ContainerObservation) : List ServiceObservation :=
  ((containers.map (·.identity)).dedup.insertionSort fun a b => a.before b = true).map
    (observationOf containers)

variable {containers : List ContainerObservation}

theorem mem_deriveServices {service : ServiceObservation} :
    service ∈ deriveServices containers ↔
      ∃ container ∈ containers, service = observationOf containers container.identity := by
  simp only [deriveServices, List.mem_map, List.mem_insertionSort, List.mem_dedup]
  constructor
  · rintro ⟨-, ⟨container, hcontainer, rfl⟩, rfl⟩
    exact ⟨container, hcontainer, rfl⟩
  · rintro ⟨container, hcontainer, rfl⟩
    exact ⟨_, ⟨container, hcontainer, rfl⟩, rfl⟩

theorem find_deriveServices (containers : List ContainerObservation) (identity : QualifiedService) :
    (deriveServices containers).find? (·.identity == identity) =
      if identity ∈ containers.map (·.identity) then some (observationOf containers identity)
      else none := by
  split_ifs with hmem
  · obtain ⟨container, hcontainer, rfl⟩ := List.mem_map.mp hmem
    have hservice : observationOf containers container.identity ∈ deriveServices containers :=
      mem_deriveServices.mpr ⟨container, hcontainer, rfl⟩
    have hsome : ((deriveServices containers).find? (·.identity == container.identity)).isSome =
        true :=
      List.find?_isSome.mpr ⟨_, hservice, beq_self_eq_true container.identity⟩
    obtain ⟨found, hfound⟩ := Option.isSome_iff_exists.mp hsome
    have hsame : found.identity = container.identity := by simpa using List.find?_some hfound
    obtain ⟨other, -, rfl⟩ := mem_deriveServices.mp (List.mem_of_find?_eq_some hfound)
    rw [hfound]
    exact congrArg (fun identity => some (observationOf containers identity)) hsame
  · rw [List.find?_eq_none]
    intro service hservice hsame
    obtain ⟨container, hcontainer, rfl⟩ := mem_deriveServices.mp hservice
    exact hmem (List.mem_map.mpr ⟨container, hcontainer, eq_of_beq hsame⟩)

/-! ## Snapshots -/

/-- Docker Volume evidence: what was seen, and what could not be. -/
structure VolumeSnapshot where
  observations : List DockerVolume
  namedFailures : List (DockerVolumeId × String)
  machineFailures : List (MachineId × String)
  omissions : List MachineId

/-- Capacity required by the complete set of requested Volumes on one Machine. -/
structure StorageBudget where
  requestedBytes : Nat
  additionalCommitmentBytes : Nat
  requiredGrowthBytes : Nat
  availableBytes : Nat
  reserveBytes : Nat
deriving DecidableEq, Repr

/-- Storage evidence: every managed dataset commitment, and the budget the backing leaves for a
set of bounds. -/
structure StorageCapacity where
  volumes : List (DockerVolumeName × Nat)
  budget : List (DockerVolumeName × Nat) → Except StorageCapacityError StorageBudget

structure DeploySnapshot where
  machines : List MachineObservation
  storageCapacity : List (MachineId × Except String StorageCapacity)
  containers : List ContainerObservation
  volumeSnapshot : VolumeSnapshot
  containerFailures : List MachineId
  containerOmissions : List MachineId
  /-- Free endpoints by Machine, or none for snapshot paths that cannot create endpoints. -/
  capacity : Option (MachineId → Option Nat)

namespace VolumeSnapshot

def machineGap (snapshot : VolumeSnapshot) (machineId : MachineId) : Option String :=
  ((snapshot.machineFailures.find? (·.1 == machineId)).map
    ("Docker Volume inventory failed: " ++ ·.2)).or
    (if snapshot.omissions.contains machineId then
      some "Docker Volume inventory produced no terminal response" else none)

def namedGap (snapshot : VolumeSnapshot) (relevant : DockerVolumeId → Bool) :
    Option (DockerVolumeId × String) :=
  snapshot.namedFailures.find? fun failure => relevant failure.1

end VolumeSnapshot

namespace DeploySnapshot

/-- Observer-derived Services owned by `owner`. Other Namespaces are excluded. -/
def servicesIn (snapshot : DeploySnapshot) (owner : Namespace) : List ServiceObservation :=
  deriveServices (snapshot.containers.filter (·.owner == owner))

/-- Completeness relative to this Machine's current visible required fan-out. -/
def isObserverComplete (snapshot : DeploySnapshot) : Bool :=
  let required := (snapshot.machines.filter (·.membership.invitesRpc)).map (·.id)
  !(snapshot.containerFailures.any required.contains ||
      snapshot.containerOmissions.any required.contains) &&
    !((snapshot.volumeSnapshot.machineFailures.any fun failure => required.contains failure.1) ||
      snapshot.volumeSnapshot.omissions.any required.contains ||
      snapshot.volumeSnapshot.namedFailures.any fun failure =>
        required.contains failure.1.machineId)

def serviceOf (snapshot : DeploySnapshot) (identity : QualifiedService) :
    Option ServiceObservation :=
  (snapshot.servicesIn identity.owner).find? (·.identity == identity)

end DeploySnapshot

/-! ## Hostnames -/

/-- Whether `a` precedes `b`: an older container, then its Service, then its Service ID. -/
def claimsBefore (a b : ContainerObservation) : Bool :=
  a.createdAtUnixNanos < b.createdAtUnixNanos ||
    (a.createdAtUnixNanos == b.createdAtUnixNanos &&
      (a.owner.value < b.owner.value ||
        (a.owner.value == b.owner.value &&
          (a.resolvedSpec.name.value < b.resolvedSpec.name.value ||
            (a.resolvedSpec.name.value == b.resolvedSpec.name.value &&
              decide (a.serviceId < b.serviceId))))))

/-- The container that gives `hostname` its owner. -/
def hostnameWinner (containers : List ContainerObservation) (hostname : String) :
    Option ContainerObservation :=
  containers.foldl (fun winner container =>
    if container.hosts.contains hostname then
      match winner with
      | some best => if claimsBefore container best then some container else winner
      | none => some container
    else winner) none

/-- Hostname owner for an explicit Ingress hostname in these observations. -/
def hostnameOwner (containers : List ContainerObservation) (hostname : String) :
    Option QualifiedService :=
  (hostnameWinner containers hostname).map (·.identity)

/-- A winner publishes the hostname, and there is one where some container does. -/
theorem hostnameWinner_spec (containers : List ContainerObservation) (hostname : String) :
    match hostnameWinner containers hostname with
    | some winner => winner ∈ containers ∧ hostname ∈ winner.hosts
    | none => ∀ container ∈ containers, hostname ∉ container.hosts := by
  unfold hostnameWinner
  induction containers using List.reverseRecOn with
  | nil => simp
  | append_singleton containers container ih =>
    rw [List.foldl_append]
    simp only [List.foldl_cons, List.foldl_nil]
    generalize containers.foldl _ none = winner at ih ⊢
    by_cases hhost : container.hosts.contains hostname = true
    · have hhosts : hostname ∈ container.hosts := by simpa using hhost
      rw [if_pos hhost]
      cases winner with
      | none => exact ⟨by simp, hhosts⟩
      | some best =>
        dsimp only
        split_ifs
        · exact ⟨by simp, hhosts⟩
        · exact ⟨List.mem_append_left _ ih.1, ih.2⟩
    · have hhosts : hostname ∉ container.hosts := by simpa using hhost
      rw [if_neg hhost]
      cases winner with
      | none =>
        intro other hother
        rcases List.mem_append.mp hother with h | h
        · exact ih other h
        · rw [List.mem_singleton.mp h]
          exact hhosts
      | some best => exact ⟨List.mem_append_left _ ih.1, ih.2⟩

theorem exists_of_hostnameOwner {hostname : String} {owner : QualifiedService}
    (h : hostnameOwner containers hostname = some owner) :
    ∃ container ∈ containers, hostname ∈ container.hosts ∧ container.identity = owner := by
  obtain ⟨winner, hwinner, rfl⟩ := Option.map_eq_some_iff.mp h
  have hspec := hostnameWinner_spec containers hostname
  rw [hwinner] at hspec
  exact ⟨winner, hspec.1, hspec.2, rfl⟩

theorem exists_hostnameOwner {hostname : String} {container : ContainerObservation}
    (hmem : container ∈ containers) (hhost : hostname ∈ container.hosts) :
    ∃ owner, hostnameOwner containers hostname = some owner := by
  have hspec := hostnameWinner_spec containers hostname
  unfold hostnameOwner
  cases hwinner : hostnameWinner containers hostname with
  | none =>
    rw [hwinner] at hspec
    exact absurd hhost (hspec container hmem)
  | some winner => exact ⟨winner.identity, rfl⟩

end Ployz.Deploy
