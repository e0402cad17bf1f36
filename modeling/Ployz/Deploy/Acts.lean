import Ployz.Deploy.Plan

/-!
# What placing a Service does

Both ways of placing a Service come down to a list of acts, each keeping, replacing, starting
again or creating one container, and to removing the containers no act takes. An act has its
operations and its effect on the socket claims, and `Laid` says that a Service was placed by a list
of acts (`laid_of_planReplicated`, `laid_of_planGlobal`).
-/

namespace Ployz.Deploy

open Run

/-- What is done for one container of a Service. -/
inductive Act
  | keep (machineId : MachineId) (containerId : ContainerId)
  | replace (machineId : MachineId) (containerId : ContainerId)
      (existing : Option ContainerObservation) (preStops : List ContainerId)
  | create (machineId : MachineId)
  | reuse (machineId : MachineId) (container : ContainerObservation)

namespace Act

def machineId : Act → MachineId
  | keep machineId _ | replace machineId _ _ _ | create machineId | reuse machineId _ => machineId

def containerId? : Act → Option ContainerId
  | keep _ containerId | replace _ containerId _ _ => some containerId
  | reuse _ container => some container.containerId
  | create _ => none

/-- What an act replaces is the container it names, and what it starts again has the spec that is
requested. -/
def IsFor (requested : RequestedServiceSpec) : Act → Prop
  | replace _ containerId existing _ =>
    ∀ container, existing = some container → container.containerId = containerId
  | reuse _ container =>
    ∃ serviceId order, container.resolvedSpec = resolve requested serviceId order
  | keep _ _ | create _ => True

section

variable (requested : RequestedServiceSpec) (options : PlanOptions) (serviceId : ServiceId)

def spec : Act → ResolvedServiceSpec
  | reuse _ container => container.resolvedSpec
  | replace _ _ existing _ => resolve requested serviceId (determineUpdateOrder existing requested)
  | keep _ _ | create _ => resolve requested serviceId (determineUpdateOrder none requested)

/-- The operation that starts an act's container. -/
def start (act : Act) : List DeployOperation :=
  match act with
  | keep _ _ => []
  | replace machineId containerId _ _ =>
    [.replaceContainer machineId containerId (act.spec requested serviceId)
      options.skipHealthMonitor]
  | create machineId | reuse machineId _ =>
    [.runContainer machineId (act.spec requested serviceId) options.skipHealthMonitor]

/-- The operations that free an act's ports. -/
def stops : Act → List DeployOperation
  | replace machineId _ _ preStops =>
    preStops.map fun containerId => .stopContainer machineId containerId .freeHostPorts
  | _ => []

def operations (act : Act) : List DeployOperation :=
  act.stops ++ act.start requested options serviceId

/-- The socket claims after an act, where they allow it. -/
def admitPorts (sockets : HostSockets) : Act → Except PlanError HostSockets
  | keep _ _ => .ok sockets
  | replace machineId _ existing preStops =>
    (preStops.foldl (fun sockets containerId => sockets.release machineId containerId)
      sockets).admitPorts
      machineId requested existing .replace
  | create machineId | reuse machineId _ => sockets.admitPorts machineId requested none .create

end

def ofChoice (current : List ContainerObservation) (choice : ReplicaChoice) : Act :=
  match choice.action with
  | .unchanged containerId => keep choice.machineId containerId
  | .replace containerId preStops =>
    replace choice.machineId containerId (current.filter (·.containerId == containerId)).getLast?
      preStops
  | .create => create choice.machineId

/-- The act of a global Service on a Machine. -/
def onGlobal (requested : RequestedServiceSpec) (options : PlanOptions)
    (current : List ContainerObservation) (machineId : MachineId) : Act :=
  match (onMachine current machineId).find? (isUpToDate · requested options) with
  | some kept => keep machineId kept.containerId
  | none =>
    match (onMachine current machineId).find? (reusableGlobal requested options) with
    | some container => reuse machineId container
    | none =>
      match (onMachine current machineId).find? (·.isActive) with
      | some container => replace machineId container.containerId (some container)
          (globalSiblings requested current machineId container)
      | none => create machineId

theorem ofChoice_isFor (requested : RequestedServiceSpec) (current : List ContainerObservation)
    (choice : ReplicaChoice) : (ofChoice current choice).IsFor requested := by
  obtain ⟨machineId, action⟩ := choice
  cases action with
  | unchanged => trivial
  | create => trivial
  | replace containerId preStops =>
    intro container hcontainer
    have hmem := List.mem_of_getLast? hcontainer
    simpa using (List.mem_filter.mp hmem).2

theorem onGlobal_isFor (requested : RequestedServiceSpec) (options : PlanOptions)
    (current : List ContainerObservation) (machineId : MachineId) :
    (onGlobal requested options current machineId).IsFor requested := by
  unfold onGlobal
  repeat' split
  · trivial
  · rename_i container hreused
    have hreusable := List.find?_some hreused
    unfold reusableGlobal at hreusable
    simp only [Bool.and_eq_true, beq_iff_eq] at hreusable
    exact ⟨_, _, hreusable.2⟩
  · rintro container ⟨rfl⟩
    rfl
  · trivial

end Act

/-- The containers no act takes. -/
def unused (current : List ContainerObservation) (acts : List Act) : List ContainerObservation :=
  current.filter fun container => !(acts.filterMap Act.containerId?).contains container.containerId

def removal (container : ContainerObservation) : DeployOperation :=
  .removeContainer container.machineId container.containerId

/-- A Service placed by a list of acts. -/
structure Laid (requested : RequestedServiceSpec) (options : PlanOptions) (serviceId : ServiceId)
    (current : List ContainerObservation) (acts : List Act) (sockets : HostSockets)
    (operations : List DeployOperation) (later : HostSockets) : Prop where
  isFor : ∀ act ∈ acts, act.IsFor requested
  operations : operations = acts.flatMap (·.operations requested options serviceId) ++
    (unused current acts).map removal
  sockets : ∃ between, acts.foldlM (Act.admitPorts requested) sockets = .ok between ∧
    later = (unused current acts).foldl
      (fun sockets container => sockets.release container.machineId container.containerId) between

section

variable {requested : RequestedServiceSpec} {options : PlanOptions} {serviceId : ServiceId}
  {current hooks : List ContainerObservation}

/-! ## Removing what is not used -/

theorem foldl_removeContainer (containers : List ContainerObservation)
    (placement : PlacementState) (operations : List DeployOperation) :
    containers.foldl removeContainer (placement, operations) =
      ({ placement with
          capacity := containers.foldl (fun capacity container =>
            capacity.release container.machineId)
            placement.capacity
          sockets := containers.foldl (fun sockets container =>
            sockets.release container.machineId container.containerId) placement.sockets },
        operations ++ containers.map removal) := by
  induction containers generalizing placement operations with
  | nil => simp
  | cons container containers ih =>
    rw [List.foldl_cons, removeContainer, ih]
    simp [removal]

/-! ## Replicated Services -/

variable {state later : Placing} {placement : PlacementState} {machines : List MachineObservation}
  {hookMachine : Option MachineId}

/-- One choice is its act. -/
theorem applyChoice_eq_ok {choice : ReplicaChoice} :
    applyChoice requested options serviceId current state choice = .ok later ↔
      ∃ sockets, (Act.ofChoice current choice).admitPorts requested state.placement.sockets =
        .ok sockets ∧
        later = ⟨{ state.placement.occupy choice.machineId with sockets },
          state.used ++ (Act.ofChoice current choice).containerId?.toList,
          state.operations ++ (Act.ofChoice current choice).operations requested options
            serviceId⟩ := by
  obtain ⟨machineId, action⟩ := choice
  cases action with
  | unchanged containerId =>
    simp only [applyChoice, pure_eq_ok, Act.ofChoice, Act.admitPorts, Except.ok.injEq]
    constructor
    · rintro rfl
      exact ⟨_, rfl, by simp [Act.operations, Act.stops, Act.start, Act.containerId?,
        PlacementState.occupy]⟩
    · rintro ⟨sockets, rfl, rfl⟩
      simp [Act.operations, Act.stops, Act.start, Act.containerId?, PlacementState.occupy]
  | replace containerId preStops =>
    simp only [applyChoice, freeHostPorts, bind_eq_ok, pure_eq_ok, Act.ofChoice, Act.admitPorts]
    refine exists_congr fun sockets => and_congr_right fun _ => ?_
    rw [eq_comm]
    simp [Act.operations, Act.stops, Act.start, Act.containerId?, Act.spec]
  | create =>
    simp only [applyChoice, bind_eq_ok, pure_eq_ok, Act.ofChoice, Act.admitPorts]
    refine exists_congr fun sockets => and_congr_right fun _ => ?_
    rw [eq_comm]
    simp [Act.operations, Act.stops, Act.start, Act.containerId?, Act.spec]

/-- What a list of acts leaves of a placement under way. -/
structure Done (requested : RequestedServiceSpec) (options : PlanOptions) (serviceId : ServiceId)
    (acts : List Act) (state later : Placing) : Prop where
  used : later.used = state.used ++ acts.filterMap Act.containerId?
  operations : later.operations =
    state.operations ++ acts.flatMap (·.operations requested options serviceId)
  sockets : acts.foldlM (Act.admitPorts requested) state.placement.sockets =
    .ok later.placement.sockets
  reservations : later.placement.reservations = state.placement.reservations

theorem Done.nil (state : Placing) : Done requested options serviceId [] state state :=
  ⟨by simp, by simp, rfl, rfl⟩

theorem Done.cons {act : Act} {acts : List Act} {state between later : Placing}
    (h : Done requested options serviceId acts between later)
    (hused : between.used = state.used ++ act.containerId?.toList)
    (hoperations : between.operations =
      state.operations ++ act.operations requested options serviceId)
    (hsockets : act.admitPorts requested state.placement.sockets = .ok between.placement.sockets)
    (hreservations : between.placement.reservations = state.placement.reservations) :
    Done requested options serviceId (act :: acts) state later where
  used := by
    rw [h.used, hused, List.append_assoc]
    cases hid : act.containerId? <;> simp [hid]
  operations := by simp [h.operations, hoperations]
  sockets := by
    rw [List.foldlM_cons, bind_eq_ok]
    exact ⟨_, hsockets, h.sockets⟩
  reservations := h.reservations.trans hreservations

theorem done_of_choices {choices : List ReplicaChoice}
    (h : choices.foldlM (applyChoice requested options serviceId current) state = .ok later) :
    Done requested options serviceId (choices.map (Act.ofChoice current)) state later ∧
      later.placement.capacity = state.placement.capacity := by
  induction choices generalizing state with
  | nil =>
    obtain rfl := pure_eq_ok.mp h
    exact ⟨.nil state, rfl⟩
  | cons choice choices ih =>
    rw [List.foldlM_cons, bind_eq_ok] at h
    obtain ⟨between, hstep, h⟩ := h
    obtain ⟨sockets, hsockets, rfl⟩ := applyChoice_eq_ok.mp hstep
    obtain ⟨hdone, hcapacity⟩ := ih h
    exact ⟨hdone.cons rfl rfl hsockets rfl, hcapacity⟩

/-- The containers that stay out of a list of used ones are removed. -/
theorem laid_of_done {acts : List Act} (current : List ContainerObservation)
    (hisFor : ∀ act ∈ acts, act.IsFor requested)
    (h : Done requested options serviceId acts ⟨placement, [], []⟩ state) :
    Laid requested options serviceId current acts placement.sockets
      (removeUnused state.operations current state.used state.placement).2
      (removeUnused state.operations current state.used state.placement).1.sockets := by
  have hused : state.used = acts.filterMap Act.containerId? := by simpa using h.used
  have hoperations : state.operations =
      acts.flatMap (·.operations requested options serviceId) := by
    simpa using h.operations
  unfold removeUnused
  rw [foldl_removeContainer, hused, hoperations]
  exact ⟨hisFor, rfl, _, h.sockets, rfl⟩

theorem removeUnused_reservations (operations : List DeployOperation) (used : List ContainerId)
    (placement : PlacementState) :
    (removeUnused operations current used placement).1.reservations = placement.reservations := by
  unfold removeUnused
  rw [foldl_removeContainer]

/-- Choices that went through are laid as their acts, and what they leave unused is removed. -/
theorem laid_of_choices {choices : List ReplicaChoice} {capacity : CapacityBudget}
    {state : Placing}
    (hstate : choices.foldlM (applyChoice requested options serviceId current)
      ⟨{ placement with capacity }, [], []⟩ = .ok state) :
    Laid requested options serviceId current (choices.map (Act.ofChoice current)) placement.sockets
        (removeUnused state.operations current state.used state.placement).2
        (removeUnused state.operations current state.used state.placement).1.sockets ∧
      (removeUnused state.operations current state.used state.placement).1.reservations =
        placement.reservations := by
  obtain ⟨hdone, -⟩ := done_of_choices hstate
  have hlaid := laid_of_done current (by simp [Act.ofChoice_isFor]) hdone
  refine ⟨hlaid, ?_⟩
  rw [removeUnused_reservations, hdone.reservations]

/-- A replicated Service is placed by the acts of its choices, those of its reservation or those
selected now. -/
theorem laid_of_planReplicated {admission : CapacityAdmission}
    {later : PlacementState} {operations : List DeployOperation}
    (h : planReplicated requested options serviceId current machines admission placement =
      .ok (later, operations, hookMachine)) :
    ∃ reservation : ReplicatedReservation, hookMachine = reservation.hookMachine ∧
      (admission = .reserved reservation ∨ ∃ error capacity sockets, admission = .pending error ∧
        selectReplicated requested options current (machines.map (·.id)) placement.occupancy
          placement.capacity placement.sockets error = .ok (reservation, capacity, sockets)) ∧
      Laid requested options serviceId current (reservation.choices.map (Act.ofChoice current))
        placement.sockets operations later.sockets ∧
      later.reservations = placement.reservations := by
  unfold planReplicated at h
  cases admission with
  | reserved reservation =>
    obtain ⟨_, hsame, h⟩ := bind_eq_ok.mp h
    obtain rfl := pure_eq_ok.mp hsame
    obtain ⟨state, hstate, h⟩ := bind_eq_ok.mp h
    obtain ⟨rfl, rfl, rfl⟩ : _ ∧ _ ∧ _ := by simpa using h
    exact ⟨reservation, rfl, .inl rfl, laid_of_choices hstate⟩
  | pending error =>
    obtain ⟨⟨reservation, capacity, sockets⟩, hselected, h⟩ := bind_eq_ok.mp h
    obtain ⟨_, hsame, h⟩ := bind_eq_ok.mp h
    obtain rfl := pure_eq_ok.mp hsame
    obtain ⟨state, hstate, h⟩ := bind_eq_ok.mp h
    obtain ⟨rfl, rfl, rfl⟩ : _ ∧ _ ∧ _ := by simpa using h
    exact ⟨reservation, rfl, .inr ⟨error, capacity, sockets, rfl, hselected⟩,
      laid_of_choices hstate⟩

/-! ## Global Services -/

/-- Placing a global Service on a Machine is its act there. -/
theorem placeGlobal_act {capacityError : PlanError} {machine : MachineObservation}
    (h : placeGlobal requested options serviceId current hookMachine capacityError state machine =
      .ok later) :
    ∃ act, act = Act.onGlobal requested options current machine.id ∧
      act.admitPorts requested state.placement.sockets = .ok later.placement.sockets ∧
      later.used = state.used ++ act.containerId?.toList ∧
      later.operations = state.operations ++ act.operations requested options serviceId ∧
      later.placement.reservations = state.placement.reservations := by
  refine ⟨_, rfl, ?_⟩
  unfold placeGlobal at h
  unfold Act.onGlobal
  cases hkept : (onMachine current machine.id).find? (isUpToDate · requested options) with
  | some kept =>
    simp only [hkept, pure_eq_ok] at h
    subst h
    simp [Act.admitPorts, Act.containerId?, Act.operations, Act.stops, Act.start,
      PlacementState.occupy]
  | none =>
    simp only [hkept] at h ⊢
    cases hreused : (onMachine current machine.id).find? (reusableGlobal requested options) with
    | some container =>
      simp only [hreused, bind_eq_ok, pure_eq_ok] at h
      obtain ⟨sockets, hsockets, rfl⟩ := h
      exact ⟨hsockets, rfl, rfl, rfl⟩
    | none =>
      simp only [hreused] at h ⊢
      cases hactive : (onMachine current machine.id).find? (·.isActive) with
      | some container =>
        simp only [hactive] at h
        split at h
        · cases h
        · simp only [freeHostPorts, bind_eq_ok, pure_eq_ok] at h
          obtain ⟨sockets, hsockets, rfl⟩ := h
          refine ⟨hsockets, rfl, ?_, rfl⟩
          simp [Act.operations, Act.stops, Act.start, Act.spec]
      | none =>
        simp only [hactive] at h
        split at h
        · cases h
        · simp only [bind_eq_ok, pure_eq_ok] at h
          obtain ⟨sockets, hsockets, rfl⟩ := h
          exact ⟨hsockets, by simp [Act.containerId?], rfl, rfl⟩

theorem done_of_global {capacityError : PlanError}
    (h : machines.foldlM (placeGlobal requested options serviceId current hookMachine capacityError)
      state = .ok later) :
    Done requested options serviceId
      (machines.map fun machine => Act.onGlobal requested options current machine.id) state
      later := by
  induction machines generalizing state with
  | nil =>
    obtain rfl := pure_eq_ok.mp h
    exact .nil state
  | cons machine machines ih =>
    rw [List.foldlM_cons, bind_eq_ok] at h
    obtain ⟨between, hstep, h⟩ := h
    obtain ⟨act, rfl, hsockets, hused, hoperations, hreservations⟩ := placeGlobal_act hstep
    exact (ih h).cons hused hoperations hsockets hreservations

/-- A global Service is placed by its acts on its Machines. -/
theorem laid_of_planGlobal {later : PlacementState}
    {operations : List DeployOperation}
    (h : planGlobal requested options serviceId current hooks machines placement =
      .ok (later, operations, hookMachine)) :
    Laid requested options serviceId current
        (machines.map fun machine => Act.onGlobal requested options current machine.id)
        placement.sockets operations later.sockets ∧
      later.reservations = placement.reservations := by
  unfold planGlobal at h
  dsimp only at h
  split_ifs at h <;>
  · obtain ⟨state, hstate, h⟩ := bind_eq_ok.mp h
    obtain ⟨rfl, rfl, rfl⟩ : _ ∧ _ ∧ _ := by simpa using h
    have hdone := done_of_global hstate
    have hlaid := laid_of_done current (by simp [Act.onGlobal_isFor]) hdone
    exact ⟨hlaid, by rw [removeUnused_reservations, hdone.reservations]⟩

end

end Ployz.Deploy
