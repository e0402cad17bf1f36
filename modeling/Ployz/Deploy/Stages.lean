import Ployz.Deploy.Acts

/-!
# The stages of a plan

A plan that succeeds went through stages: the apply set was bound and checked, the Services that
share Volumes got their Machines, each Service was planned in Deploy order, and Volumes are prepared
before and undeclared Services removed after. `Stages` has what each stage left, `PlansService` says
in which of three ways a Service was planned, and `stages_of_plan` finds them in every plan.
-/

namespace Ployz.Deploy

open Run

/-! ## The containers of a Service -/

def containersOf (snapshot : DeploySnapshot) (identity : QualifiedService) :
    List ContainerObservation :=
  snapshot.containers.filter fun container => container.identity == identity && container.isService

def hooksOf (snapshot : DeploySnapshot) (identity : QualifiedService) : List ContainerObservation :=
  snapshot.containers.filter fun container => container.identity == identity && !container.isService

/-- The identity a Service has, or the one it gets. -/
def serviceIdOf (given : Given) (snapshot : DeploySnapshot) (identity : QualifiedService) :
    ServiceId :=
  ((snapshot.serviceOf identity).map (·.serviceId)).getD (given.newServiceId identity.name)

variable {identity : QualifiedService} {requested : RequestedServiceSpec}
  {operations : List DeployOperation} {operation : DeployOperation}

variable {container : ContainerObservation}

theorem mem_containersOf {snapshot : DeploySnapshot} :
    container ∈ containersOf snapshot identity ↔
      container ∈ snapshot.containers ∧ container.identity = identity ∧
        container.isService = true := by
  simp [containersOf]

theorem mem_hooksOf {snapshot : DeploySnapshot} :
    container ∈ hooksOf snapshot identity ↔
      container ∈ snapshot.containers ∧ container.identity = identity ∧
        container.isService = false := by
  simp [hooksOf]

theorem serviceOf_eq (snapshot : DeploySnapshot) (identity : QualifiedService) :
    snapshot.serviceOf identity =
      if identity ∈ snapshot.containers.map (·.identity) then
        some (observationOf (snapshot.containers.filter (·.owner == identity.owner)) identity)
      else none := by
  unfold DeploySnapshot.serviceOf DeploySnapshot.servicesIn
  rw [find_deriveServices]
  refine if_congr ⟨fun h => ?_, fun h => ?_⟩ rfl rfl
  · obtain ⟨container, hcontainer, hsame⟩ := List.mem_map.mp h
    exact List.mem_map.mpr ⟨container, (List.mem_filter.mp hcontainer).1, hsame⟩
  · obtain ⟨container, hcontainer, rfl⟩ := List.mem_map.mp h
    exact List.mem_map.mpr ⟨container, List.mem_filter.mpr ⟨hcontainer, beq_self_eq_true _⟩, rfl⟩

/-- A role of a Service's containers, out of the containers of its Namespace. -/
theorem filter_of_identity (containers : List ContainerObservation) (identity : QualifiedService)
    (role : ContainerObservation → Bool) :
    ((containers.filter (·.owner == identity.owner)).filter (·.identity == identity)).filter role =
      containers.filter fun container => container.identity == identity && role container := by
  rw [List.filter_filter, List.filter_filter]
  refine List.filter_congr fun container _ => ?_
  by_cases hsame : container.identity = identity
  · have howner : container.owner = identity.owner := congrArg QualifiedService.owner hsame
    simp [hsame, howner]
  · have hne : (container.identity == identity) = false := beq_eq_false_iff_ne.mpr hsame
    simp [hne]

theorem filter_of_absent {containers : List ContainerObservation}
    (role : ContainerObservation → Bool) (h : identity ∉ containers.map (·.identity)) :
    (containers.filter fun container => container.identity == identity && role container) = [] := by
  rw [List.filter_eq_nil_iff]
  intro container hcontainer hrole
  have hsame : container.identity = identity := by simp_all
  exact h (List.mem_map.mpr ⟨container, hcontainer, hsame⟩)

theorem containers_of_serviceOf (snapshot : DeploySnapshot) (identity : QualifiedService) :
    ((snapshot.serviceOf identity).map (·.containers)).getD [] =
    containersOf snapshot identity := by
  rw [serviceOf_eq]
  split_ifs with h
  · exact filter_of_identity _ _ _
  · exact (filter_of_absent _ h).symm

theorem hooks_of_serviceOf (snapshot : DeploySnapshot) (identity : QualifiedService) :
    ((snapshot.serviceOf identity).map (·.hookContainers)).getD [] = hooksOf snapshot identity := by
  rw [serviceOf_eq]
  split_ifs with h
  · exact filter_of_identity _ _ _
  · exact (filter_of_absent _ h).symm

/-! ## One Service -/

section

variable (given : Given) (owner : Namespace) (snapshot : DeploySnapshot) (options : PlanOptions)

/-- The reservations that are left once a Service took its own. -/
def PlacementState.without (placement : PlacementState) (name : ServiceName) : PlacementState :=
  { placement with reservations := Function.update placement.reservations name none }

/-- The ways a Service is planned: on the Machine reserved for it, on Machines selected now, or on
all of them. -/
inductive PlansService (planning : Planning) (requested : RequestedServiceSpec) :
    Planning → List DeployOperation → Option MachineId → Prop
  | reserved {replicas : ℕ+} {eligible machines : List MachineObservation}
      {reservation : ReplicatedReservation} {volumePlan : VolumePlan} {placement : PlacementState}
      {operations : List DeployOperation} {hookMachine : Option MachineId}
      (hmode : requested.mode = .replicated replicas)
      (heligible : eligibleMachines given requested owner snapshot options = .ok eligible)
      (hreservation : planning.placement.reservations requested.name = some reservation)
      (hplace : planning.volumePlan.place requested eligible = .ok (volumePlan, machines))
      (hplan : planReplicated requested options (serviceIdOf given snapshot ⟨owner, requested.name⟩)
        (containersOf snapshot ⟨owner, requested.name⟩) machines (.reserved reservation)
        (planning.placement.without requested.name) = .ok (placement, operations, hookMachine)) :
      PlansService planning requested ⟨volumePlan, placement⟩ operations hookMachine
  | selected {replicas : ℕ+} {eligible candidates machines : List MachineObservation}
      {error : PlanError} {volumePlan : VolumePlan} {between placement : PlacementState}
      {operations : List DeployOperation} {hookMachine : Option MachineId}
      (hmode : requested.mode = .replicated replicas)
      (heligible : eligibleMachines given requested owner snapshot options = .ok eligible)
      (hreservation : planning.placement.reservations requested.name = none)
      (hcandidates : candidateMachines requested replicas
        (containersOf snapshot ⟨owner, requested.name⟩) (hooksOf snapshot ⟨owner, requested.name⟩)
        options ⟨planning.volumePlan, planning.placement.without requested.name⟩ eligible =
          .ok (between, candidates, error))
      (hplace : planning.volumePlan.place requested candidates = .ok (volumePlan, machines))
      (hplan : planReplicated requested options (serviceIdOf given snapshot ⟨owner, requested.name⟩)
        (containersOf snapshot ⟨owner, requested.name⟩) machines (.pending error) between =
          .ok (placement, operations, hookMachine)) :
      PlansService planning requested ⟨volumePlan, placement⟩ operations hookMachine
  | everywhere {eligible machines : List MachineObservation} {volumePlan : VolumePlan}
      {placement : PlacementState} {operations : List DeployOperation}
        {hookMachine : Option MachineId}
      (hmode : requested.mode = .global)
      (heligible : eligibleMachines given requested owner snapshot options = .ok eligible)
      (hplace : planning.volumePlan.place requested eligible = .ok (volumePlan, machines))
      (hplan : planGlobal requested options (serviceIdOf given snapshot ⟨owner, requested.name⟩)
        (containersOf snapshot ⟨owner, requested.name⟩) (hooksOf snapshot ⟨owner, requested.name⟩)
        machines (planning.placement.without requested.name) =
          .ok (placement, operations, hookMachine)) :
      PlansService planning requested ⟨volumePlan, placement⟩ operations hookMachine

end

section

variable {given : Given} {owner : Namespace} {snapshot : DeploySnapshot} {options : PlanOptions}

/-- A Service's operations are those of its hook and those of its placement, and its containers keep
their mode. -/
theorem plansService_of_planOneService {planning later : Planning}
    (h : planOneService given owner snapshot (snapshot.servicesIn owner) options planning
        requested = .ok (later, operations)) :
    (∀ container ∈ snapshot.containers, container.identity = ⟨owner, requested.name⟩ →
      container.resolvedSpec.mode.kind = requested.mode.kind) ∧
    ∃ placed hookMachine,
      PlansService given owner snapshot options planning requested later placed hookMachine ∧
        operations = preDeployOperations requested (hooksOf snapshot ⟨owner, requested.name⟩) placed
          hookMachine ++ placed := by
  obtain ⟨eligible, heligible, h⟩ := bind_eq_ok.mp h
  have hservice : (snapshot.servicesIn owner).find? (·.identity == ⟨owner, requested.name⟩) =
    snapshot.serviceOf ⟨owner, requested.name⟩ := rfl
  simp only [hservice, containers_of_serviceOf, hooks_of_serviceOf] at h
  split_ifs at h with hchanged
  have hmodes : ∀ container ∈ snapshot.containers, container.identity = ⟨owner, requested.name⟩ →
      container.resolvedSpec.mode.kind = requested.mode.kind := by
    intro container hcontainer hidentity
    by_contra hne
    refine hchanged (List.any_eq_true.mpr ⟨container, List.mem_append.mpr ?_, ?_⟩)
    · cases hkind : container.isService with
      | true => exact .inl (mem_containersOf.mpr ⟨hcontainer, hidentity, hkind⟩)
      | false => exact .inr (mem_hooksOf.mpr ⟨hcontainer, hidentity, hkind⟩)
    · rw [← sameServiceModeKind_iff] at hne
      simpa using hne
  refine ⟨hmodes, ?_⟩
  cases hmode : requested.mode with
  | replicated replicas =>
    rw [hmode] at h
    cases hreservation : planning.placement.reservations requested.name with
    | none =>
      rw [hreservation] at h
      obtain ⟨⟨between, candidates, error⟩, hcandidates, h⟩ := bind_eq_ok.mp h
      obtain ⟨_, hsame, h⟩ := bind_eq_ok.mp h
      obtain rfl := pure_eq_ok.mp hsame
      obtain ⟨⟨volumePlan, machines⟩, hplace, h⟩ := bind_eq_ok.mp h
      obtain ⟨⟨placement, placed, hookMachine⟩, hplan, h⟩ := bind_eq_ok.mp h
      obtain ⟨rfl, rfl⟩ := Prod.mk.inj (pure_eq_ok.mp h)
      exact ⟨placed, hookMachine,
        .selected hmode heligible hreservation hcandidates hplace hplan, rfl⟩
    | some reservation =>
      rw [hreservation] at h
      obtain ⟨_, hsame, h⟩ := bind_eq_ok.mp h
      obtain rfl := pure_eq_ok.mp hsame
      obtain ⟨⟨volumePlan, machines⟩, hplace, h⟩ := bind_eq_ok.mp h
      obtain ⟨⟨placement, placed, hookMachine⟩, hplan, h⟩ := bind_eq_ok.mp h
      obtain ⟨rfl, rfl⟩ := Prod.mk.inj (pure_eq_ok.mp h)
      exact ⟨placed, hookMachine, .reserved hmode heligible hreservation hplace hplan, rfl⟩
  | «global» =>
    rw [hmode] at h
    cases hreservation : planning.placement.reservations requested.name <;>
    · rw [hreservation] at h
      obtain ⟨_, hsame, h⟩ := bind_eq_ok.mp h
      obtain rfl := pure_eq_ok.mp hsame
      obtain ⟨⟨volumePlan, machines⟩, hplace, h⟩ := bind_eq_ok.mp h
      obtain ⟨⟨placement, placed, hookMachine⟩, hplan, h⟩ := bind_eq_ok.mp h
      obtain ⟨rfl, rfl⟩ := Prod.mk.inj (pure_eq_ok.mp h)
      exact ⟨placed, hookMachine, .everywhere hmode heligible hplace hplan, rfl⟩

theorem candidateMachines_placement {replicas : ℕ+}
    {current hooks : List ContainerObservation} {planning : Planning}
    {machines candidates : List MachineObservation} {placement : PlacementState} {error : PlanError}
    (h : candidateMachines requested replicas current hooks options planning machines =
      .ok (placement, candidates, error)) :
    placement.sockets = planning.placement.sockets ∧
      placement.occupancy = planning.placement.occupancy ∧
      placement.reservations = planning.placement.reservations := by
  obtain ⟨constrained, -, h⟩ := bind_eq_ok.mp h
  dsimp only at h
  split_ifs at h <;>
  · obtain ⟨rfl, -, -⟩ : _ ∧ _ ∧ _ := by simpa using h
    exact ⟨rfl, rfl, rfl⟩

/-- However a Service is planned, it is placed by a list of acts. -/
theorem PlansService.laid {planning later : Planning} {hookMachine : Option MachineId}
    (h : PlansService given owner snapshot options planning requested later operations
      hookMachine) :
    ∃ acts, Laid requested options (serviceIdOf given snapshot ⟨owner, requested.name⟩)
        (containersOf snapshot ⟨owner, requested.name⟩) acts planning.placement.sockets operations
        later.placement.sockets ∧
      later.placement.reservations =
        (planning.placement.without requested.name).reservations := by
  cases h with
  | reserved _ _ _ _ hplan =>
    obtain ⟨reservation, -, -, hlaid, hreservations⟩ := laid_of_planReplicated hplan
    exact ⟨_, hlaid, hreservations⟩
  | selected _ _ _ hcandidates _ hplan =>
    obtain ⟨hsockets, -, hsame⟩ := candidateMachines_placement hcandidates
    obtain ⟨reservation, -, -, hlaid, hreservations⟩ := laid_of_planReplicated hplan
    rw [hsockets] at hlaid
    exact ⟨_, hlaid, hreservations.trans hsame⟩
  | everywhere _ _ _ hplan =>
    obtain ⟨hlaid, hreservations⟩ := laid_of_planGlobal hplan
    exact ⟨_, hlaid, hreservations⟩

end

/-- A hook's operations stop the hooks before it, and run it where a container starts. -/
theorem mem_preDeployOperations {hooks : List ContainerObservation}
    {placed : List DeployOperation} {hookMachine : Option MachineId}
    (h : operation ∈ preDeployOperations requested hooks placed hookMachine) :
    (∃ hook ∈ hooks, operation = .stopHook hook.machineId hook.containerId) ∨
      ∃ machineId spec, hookTarget hookMachine placed = some (machineId, spec) ∧
        operation = .runHook machineId spec
          (hooks.map fun hook => (hook.machineId, hook.containerId)) := by
  unfold preDeployOperations at h
  split_ifs at h
  · cases h
  · split at h
    · cases h
    · rename_i machineId spec htarget
      rcases List.mem_append.mp h with hstop | hrun
      · obtain ⟨hook, hhook, rfl⟩ := List.mem_map.mp hstop
        exact .inl ⟨hook, (List.mem_filter.mp hhook).1, rfl⟩
      · exact .inr ⟨machineId, spec, htarget, List.mem_singleton.mp hrun⟩

theorem mem_dependencyWaits {intent : DeployIntent} {spec : RequestedServiceSpec}
    (h : operation ∈ (dependencyWaits intent spec operations).1) :
    ∃ machineId dependent dependency, operation = .waitHealthy machineId dependent dependency := by
  unfold dependencyWaits at h
  split at h
  · cases h
  · dsimp only at h
    split_ifs at h
    · cases h
    · obtain ⟨dependency, -, rfl⟩ := List.mem_map.mp h
      exact ⟨_, _, _, rfl⟩

/-! ## The whole plan -/

/-- Services planned one after another. -/
inductive PlansServices (given : Given) (intent : DeployIntent) (snapshot : DeploySnapshot) :
    Planning → List RequestedServiceSpec → List DeployOperation → Planning → Prop
  | nil (planning : Planning) : PlansServices given intent snapshot planning [] [] planning
  | cons {planning between later : Planning} {spec : RequestedServiceSpec}
      {specs : List RequestedServiceSpec} {operations rest : List DeployOperation}
      (hspec : planOneService given intent.owner snapshot (snapshot.servicesIn intent.owner)
        intent.options planning spec = .ok (between, operations))
      (hspecs : PlansServices given intent snapshot between specs rest later) :
      PlansServices given intent snapshot planning (spec :: specs)
        ((dependencyWaits intent spec operations).1 ++ operations ++ rest) later

theorem plansServices_of_assemble {given : Given} {intent : DeployIntent}
    {snapshot : DeploySnapshot}
    {named : Bool} {specs : List RequestedServiceSpec} {state later : Assembling}
    (h : specs.foldlM (assembleService given intent snapshot (snapshot.servicesIn intent.owner)
      named)
      state = .ok later) :
    ∃ desired, PlansServices given intent snapshot state.planning specs desired later.planning ∧
      later.operations = state.operations ++ desired := by
  induction specs generalizing state with
  | nil =>
    obtain rfl := pure_eq_ok.mp h
    exact ⟨[], .nil _, by simp⟩
  | cons spec specs ih =>
    rw [List.foldlM_cons, bind_eq_ok] at h
    obtain ⟨between, hstep, h⟩ := h
    obtain ⟨⟨planning, operations⟩, hplan, hstep⟩ := bind_eq_ok.mp hstep
    obtain rfl := pure_eq_ok.mp hstep
    obtain ⟨rest, hrest, hoperations⟩ := ih h
    refine ⟨_, .cons (mapError_eq_ok.mp hplan) hrest, hoperations.trans ?_⟩
    show state.operations ++ (dependencyWaits intent spec operations).1 ++ operations ++ rest = _
    simp only [List.append_assoc]

/-- One Service of a plan: the state it was planned from, with an invariant that holds before and
after, its operations, and the plan of the Services after it. -/
structure ServiceStage (given : Given) (intent : DeployIntent) (snapshot : DeploySnapshot)
    (I : List RequestedServiceSpec → Planning → Prop) (desired : List DeployOperation)
    (final : Planning) (spec : RequestedServiceSpec) where
  left : List RequestedServiceSpec
  planning : Planning
  later : Planning
  placed : List DeployOperation
  hookMachine : Option MachineId
  rest : List DeployOperation
  hbefore : I (spec :: left) planning
  hplans : PlansService given intent.owner snapshot intent.options planning spec later placed
    hookMachine
  hafter : I left later
  hrest : PlansServices given intent snapshot later left rest final
  hhooks : preDeployOperations spec (hooksOf snapshot ⟨intent.owner, spec.name⟩) placed
    hookMachine ⊆ desired
  hplaced : placed ⊆ desired

section

variable {given : Given} {intent : DeployIntent} {snapshot : DeploySnapshot}
  {I : List RequestedServiceSpec → Planning → Prop} {desired : List DeployOperation}
  {specs : List RequestedServiceSpec} {planning final : Planning}

def ServiceStage.weaken {spec : RequestedServiceSpec} {more : List DeployOperation}
    (stage : ServiceStage given intent snapshot I desired final spec) (h : desired ⊆ more) :
    ServiceStage given intent snapshot I more final spec :=
  { stage with
    hhooks := fun _ hmem => h (stage.hhooks hmem)
    hplaced := fun _ hmem => h (stage.hplaced hmem) }

def ServiceStage.first {spec : RequestedServiceSpec} {left : List RequestedServiceSpec}
    {later : Planning} {placed rest : List DeployOperation} {hookMachine : Option MachineId}
    (waits : List DeployOperation) (hbefore : I (spec :: left) planning)
    (hplans : PlansService given intent.owner snapshot intent.options planning spec later placed
      hookMachine) (hafter : I left later)
    (hrest : PlansServices given intent snapshot later left rest final) :
    ServiceStage given intent snapshot I
      (waits ++ (preDeployOperations spec (hooksOf snapshot ⟨intent.owner, spec.name⟩) placed
        hookMachine ++ placed) ++ rest) final spec :=
  ⟨left, planning, later, placed, hookMachine, rest, hbefore, hplans, hafter, hrest,
    fun _ hmem => List.mem_append_left _ (List.mem_append_right _ (List.mem_append_left _ hmem)),
    fun _ hmem => List.mem_append_left _ (List.mem_append_right _ (List.mem_append_right _ hmem))⟩

/-- Every Service of a plan has its stage. -/
theorem PlansServices.stage
    (step : ∀ {spec left planning later placed hookMachine}, I (spec :: left) planning →
      PlansService given intent.owner snapshot intent.options planning spec later placed
        hookMachine → I left later)
    (h : PlansServices given intent snapshot planning specs desired final)
    (hI : I specs planning) {spec : RequestedServiceSpec} (hspec : spec ∈ specs) :
    Nonempty (ServiceStage given intent snapshot I desired final spec) := by
  induction h with
  | nil => cases hspec
  | @cons planning between final first left operations rest hfirst hrest ih =>
    obtain ⟨-, placed, hookMachine, hplans, rfl⟩ := plansService_of_planOneService hfirst
    rcases List.mem_cons.mp hspec with rfl | hspec
    · exact ⟨.first _ hI hplans (step hI hplans) hrest⟩
    · obtain ⟨stage⟩ := ih (step hI hplans) hspec
      exact ⟨stage.weaken fun _ hmem => List.mem_append_right _ hmem⟩

/-- Every operation of a plan's Services waits for one, or belongs to a stage. -/
theorem PlansServices.stage_of_operation
    (step : ∀ {spec left planning later placed hookMachine}, I (spec :: left) planning →
      PlansService given intent.owner snapshot intent.options planning spec later placed
        hookMachine → I left later)
    (h : PlansServices given intent snapshot planning specs desired final)
    (hI : I specs planning) (hoperation : operation ∈ desired) :
    (∃ machineId dependent dependency, operation = .waitHealthy machineId dependent dependency) ∨
      ∃ spec ∈ specs, ∃ stage : ServiceStage given intent snapshot I desired final spec,
        operation ∈ preDeployOperations spec (hooksOf snapshot ⟨intent.owner, spec.name⟩)
          stage.placed stage.hookMachine ∨ operation ∈ stage.placed := by
  induction h with
  | nil => cases hoperation
  | @cons planning between final first left operations rest hfirst hrest ih =>
    obtain ⟨-, placed, hookMachine, hplans, rfl⟩ := plansService_of_planOneService hfirst
    rcases List.mem_append.mp hoperation with hhere | hlater
    · rcases List.mem_append.mp hhere with hwait | hplaced
      · exact .inl (mem_dependencyWaits hwait)
      · exact .inr ⟨first, List.mem_cons_self, .first _ hI hplans (step hI hplans) hrest,
          List.mem_append.mp hplaced⟩
    · rcases ih (step hI hplans) hlater with hwait | ⟨spec, hspec, stage, hmem⟩
      · exact .inl hwait
      · exact .inr ⟨spec, List.mem_cons_of_mem _ hspec,
          stage.weaken fun _ hmem => List.mem_append_right _ hmem, hmem⟩

end

def retiring (intent : DeployIntent) (snapshot : DeploySnapshot) : List QualifiedService :=
  if (intent.pruneRefusal snapshot.isObserverComplete).isNone then
    obsoleteServices intent (snapshot.servicesIn intent.owner) else []

/-- What the stages of a plan left. -/
structure Stages (given : Given) (intent : DeployIntent) (snapshot : DeploySnapshot)
    (planned : Planned) where
  bound : BoundIntent
  hbound : bind intent = .ok bound
  hhostnames : rejectHostnameConflicts intent.owner bound.requested snapshot
    (retiring intent snapshot) = .ok ()
  hhostPorts : bound.requested.forM validateHostPorts = .ok ()
  volumePlan : VolumePlan
  hvolumePlan : VolumePlan.new given snapshot intent.owner bound.target bound.requested =
    .ok volumePlan
  shared : VolumePlan × PlacementReservations
  hshared : reserveShared given intent.options bound.requested (snapshot.servicesIn intent.owner)
    volumePlan (.new snapshot) = .ok shared
  desired : List DeployOperation
  later : Planning
  hservices : PlansServices given intent snapshot ⟨shared.1, shared.2.intoPlacement snapshot⟩
    bound.requested desired later
  prepared : List DeployOperation
  hprepared : later.volumePlan.finish desired = .ok (planned.volumes, prepared)
  hoperations : planned.operations = prepared ++
    removalOperations (snapshot.servicesIn intent.owner) (retiring intent snapshot)

theorem finish_eq_ok {plan : VolumePlan} {prepared : List DeployOperation}
    {volumes : PlannedVolumes} (h : plan.finish operations = .ok (volumes, prepared)) :
    prepared = (machineSet ((operations.filter (·.mountsProvisioned)).map (·.machineId))).map
      (fun id => .prepareVolumes id (plan.provisionedSpecs id)) ++ operations := by
  obtain ⟨budgets, -, h⟩ := bind_eq_ok.mp h
  exact (Prod.mk.inj (pure_eq_ok.mp h)).2.symm

theorem mem_finish {plan : VolumePlan} {prepared : List DeployOperation}
    {volumes : PlannedVolumes} (h : plan.finish operations = .ok (volumes, prepared))
    (hoperation : operation ∈ prepared) :
    operation ∈ operations ∨ ∃ machineId specs, operation = .prepareVolumes machineId specs := by
  rw [finish_eq_ok h] at hoperation
  rcases List.mem_append.mp hoperation with hprepare | hmem
  · obtain ⟨id, -, rfl⟩ := List.mem_map.mp hprepare
    exact .inr ⟨_, _, rfl⟩
  · exact .inl hmem

theorem removalOperations_nil (services : List ServiceObservation) :
    removalOperations services [] = [] := by
  simp [removalOperations]

theorem stages_of_plan {given : Given} {intent : DeployIntent} {snapshot : DeploySnapshot}
    {planned : Planned} (h : planOperations given intent snapshot = .ok planned) :
    Nonempty (Stages given intent snapshot planned) := by
  obtain ⟨bound, hbound, h⟩ := bind_eq_ok.mp h
  obtain ⟨warnings, hwarnings, h⟩ := bind_eq_ok.mp h
  obtain ⟨_, hhostnames, -⟩ := bind_eq_ok.mp hwarnings
  obtain ⟨_, hhostPorts, h⟩ := bind_eq_ok.mp h
  obtain ⟨volumePlan, hvolumePlan, h⟩ := bind_eq_ok.mp h
  obtain ⟨shared, hshared, h⟩ := bind_eq_ok.mp h
  obtain ⟨state, hstate, h⟩ := bind_eq_ok.mp h
  obtain ⟨⟨volumes, prepared⟩, hprepared, h⟩ := bind_eq_ok.mp h
  obtain rfl := pure_eq_ok.mp h
  obtain ⟨desired, hservices, hdesired⟩ := plansServices_of_assemble hstate
  have hsame : state.operations = desired := by simpa using hdesired
  rw [hsame] at hprepared
  refine ⟨⟨bound, hbound, hhostnames, hhostPorts, volumePlan, hvolumePlan, shared, hshared, desired,
    state.planning, hservices, prepared, hprepared, ?_⟩⟩
  unfold retiring
  dsimp only
  split_ifs <;> simp [removalOperations_nil]

end Ployz.Deploy
