import Ployz.Deploy.Stages

/-!
# What a selection chooses

Every choice of a selection keeps or replaces a container the Service has on that Machine, or
creates one there, and there are as many choices as replicas (`chosen_of_selectReplicated`). The
choices reserved ahead of Deploy order are of the same kind, all on one Machine
(`reserved_of_reserveShared`).
-/

namespace Ployz.Deploy

open Run

variable {error : PlanError} {machineId : MachineId} {reservation : ReplicatedReservation}

section

variable {requested : RequestedServiceSpec} {options : PlanOptions}

/-! ## Choosing -/

/-- What makes a candidate the next replica. -/
structure Candidate.Fits (requested : RequestedServiceSpec) (options : PlanOptions)
    (machines : List MachineId) (state : Selecting) (candidate : Candidate) : Prop where
  machine : candidate.machineId ∈ machines
  existing : candidate.existing = (state.remaining candidate.machineId).getLast?
  operation : candidate.operation = replicatedOperation candidate.existing requested options
  preStops : candidate.preStops = conflictingSiblings requested candidate.existing
    candidate.operation (state.remaining candidate.machineId)
  sockets : state.sockets.fits candidate.machineId requested candidate.existing candidate.operation
    candidate.preStops = true
  demand : candidate.demand = .forOperation candidate.operation state.hookPending
  capacity : state.capacity.reserve candidate.machineId candidate.demand = some candidate.capacity

variable {machines : List MachineId} {current : List ContainerObservation} {state : Selecting}

theorem fits_of_probe {tries cursor : Nat} {socketBlocked : Bool} {candidate : Candidate}
    (h : probe requested options machines state tries cursor socketBlocked = .selected candidate) :
    candidate.Fits requested options machines state := by
  induction tries generalizing cursor socketBlocked with
  | zero => cases h
  | succ tries ih =>
    unfold probe at h
    split at h
    · cases h
    · rename_i machineId hmachine
      dsimp only at h
      split_ifs at h with hsockets
      · exact ih h
      · split at h
        · rename_i capacity hcapacity
          obtain rfl := Probe.selected.inj h
          exact ⟨List.mem_of_getElem? hmachine, rfl, rfl, rfl, by simpa using hsockets, rfl,
            hcapacity⟩
        · exact ih h

/-- The selection after a candidate was chosen, with the sockets it leaves. -/
def Selecting.choose (state : Selecting) (candidate : Candidate) (sockets : HostSockets) :
    Selecting where
  remaining := Function.update state.remaining candidate.machineId
    ((state.remaining candidate.machineId).dropLast.filter fun container =>
      !candidate.preStops.contains container.containerId)
  capacity := candidate.capacity
  sockets := sockets
  cursor := candidate.cursor
  hookPending := state.hookPending && !candidate.demand.usesHook
  hookMachine := if candidate.demand.usesHook then some candidate.machineId else state.hookMachine
  choices := state.choices ++ [⟨candidate.machineId, candidate.action⟩]

theorem selectReplica_eq_ok {later : Selecting}
    (h : selectReplica requested options machines error state = .ok later) :
    ∃ candidate sockets,
      probe requested options machines state machines.length state.cursor false =
        .selected candidate ∧
      candidate.Fits requested options machines state ∧
      (candidate.preStops.foldl (fun sockets containerId =>
        sockets.release candidate.machineId containerId) state.sockets).admitPorts
          candidate.machineId
          requested candidate.existing candidate.operation = .ok sockets ∧
      later = state.choose candidate sockets := by
  unfold selectReplica at h
  split at h
  · cases h
  · rename_i candidate hprobe
    obtain ⟨sockets, hsockets, h⟩ := bind_eq_ok.mp h
    exact ⟨candidate, sockets, hprobe, fits_of_probe hprobe, hsockets, (pure_eq_ok.mp h).symm⟩

/-- What is left to choose from are containers of the Service on their Machines. -/
def Selecting.Remains (current : List ContainerObservation) (state : Selecting) : Prop :=
  ∀ machineId, ∀ container ∈ state.remaining machineId,
    container ∈ current ∧ container.machineId = machineId

/-- A choice of one of the Service's containers, or of a new one. -/
inductive Chosen (requested : RequestedServiceSpec) (options : PlanOptions)
    (current : List ContainerObservation) : ReplicaChoice → Prop
  | unchanged {container : ContainerObservation} (hmem : container ∈ current)
      (hupToDate : isUpToDate container requested options = true) :
      Chosen requested options current ⟨container.machineId, .unchanged container.containerId⟩
  | replace {container : ContainerObservation} {preStops : List ContainerId}
      (hmem : container ∈ current) (hupToDate : isUpToDate container requested options = false)
      (hpreStops : ∀ id ∈ preStops, ∃ sibling ∈ current,
        sibling.machineId = container.machineId ∧ sibling.containerId = id) :
      Chosen requested options current
        ⟨container.machineId, .replace container.containerId preStops⟩
  | create (machineId : MachineId) : Chosen requested options current ⟨machineId, .create⟩

/-- A candidate is a choice of the Service's containers. -/
theorem Candidate.Fits.chosen (hremains : state.Remains current) {candidate : Candidate}
    (h : candidate.Fits requested options machines state) :
    Chosen requested options current ⟨candidate.machineId, candidate.action⟩ := by
  unfold Candidate.action
  split
  · rename_i container hexisting
    have hlast : (state.remaining candidate.machineId).getLast? = some container :=
      h.existing.symm.trans hexisting
    obtain ⟨hmem, hmachine⟩ := hremains _ container (List.mem_of_getLast? hlast)
    have hoperation := h.operation
    rw [hexisting] at hoperation
    unfold replicatedOperation at hoperation
    dsimp only at hoperation
    rw [← hmachine]
    split_ifs at hoperation with hupToDate
    · rw [if_pos hoperation]
      exact .unchanged hmem hupToDate
    · rw [if_neg (by rw [hoperation]; decide)]
      refine .replace hmem (by simpa using hupToDate) fun id hid => ?_
      rw [h.preStops, hexisting] at hid
      unfold conflictingSiblings at hid
      dsimp only at hid
      split_ifs at hid
      · cases hid
      · obtain ⟨sibling, hsibling, rfl⟩ := List.mem_map.mp hid
        obtain ⟨hsame, hplace⟩ := hremains _ sibling (List.mem_filter.mp hsibling).1
        exact ⟨sibling, hsame, hplace.trans hmachine.symm, rfl⟩
  · exact .create _

theorem Selecting.Remains.choose (h : state.Remains current) (candidate : Candidate)
    (sockets : HostSockets) : (state.choose candidate sockets).Remains current := by
  intro machineId container hcontainer
  by_cases hsame : machineId = candidate.machineId
  · subst hsame
    change container ∈ Function.update state.remaining candidate.machineId _
      candidate.machineId at hcontainer
    rw [Function.update_self] at hcontainer
    exact h _ container (List.dropLast_subset _ (List.mem_filter.mp hcontainer).1)
  · change container ∈ Function.update state.remaining candidate.machineId _ machineId at hcontainer
    rw [Function.update_of_ne hsame] at hcontainer
    exact h machineId container hcontainer

theorem chosen_of_selectReplicas {replicas : Nat} {later : Selecting}
    (hremains : state.Remains current)
    (h : selectReplicas requested options machines error replicas state = .ok later) :
    ∃ choices, later.choices = state.choices ++ choices ∧ choices.length = replicas ∧
      ∀ choice ∈ choices, Chosen requested options current choice ∧
        choice.machineId ∈ machines := by
  induction replicas generalizing state with
  | zero =>
    obtain rfl := Except.ok.inj h
    exact ⟨[], by simp, rfl, by simp⟩
  | succ replicas ih =>
    obtain ⟨between, hstep, h⟩ := bind_eq_ok.mp h
    obtain ⟨candidate, sockets, -, hfits, -, rfl⟩ := selectReplica_eq_ok hstep
    obtain ⟨choices, hchoices, hlength, hall⟩ := ih (hremains.choose candidate sockets) h
    refine ⟨⟨candidate.machineId, candidate.action⟩ :: choices, ?_, by simp [hlength], ?_⟩
    · rw [hchoices]
      simp [Selecting.choose]
    · intro choice hchoice
      rcases List.mem_cons.mp hchoice with rfl | hchoice
      · exact ⟨hfits.chosen hremains, hfits.machine⟩
      · exact hall choice hchoice

theorem mem_byMachine {container : ContainerObservation} :
    container ∈ byMachine requested options current machineId ↔
      container ∈ current ∧ container.machineId = machineId := by
  simp only [byMachine, List.mem_append, List.mem_filter, beq_iff_eq]
  cases isUpToDate container requested options <;> simp

/-- A selection makes as many choices as replicas, on the Machines it is given. -/
theorem chosen_of_selectReplicated
    {occupancy : MachineId → Nat} {capacity later : CapacityBudget} {sockets rest : HostSockets}
    (h : selectReplicated requested options current machines occupancy capacity sockets error =
      .ok (reservation, later, rest)) :
    ∃ replicas, requested.mode = .replicated replicas ∧ reservation.choices.length = replicas ∧
      ∀ choice ∈ reservation.choices,
        Chosen requested options current choice ∧ choice.machineId ∈ machines := by
  unfold selectReplicated at h
  split at h
  · cases h
  · rename_i replicas hmode
    dsimp only at h
    split_ifs at h
    obtain ⟨state, hstate, h⟩ := bind_eq_ok.mp h
    obtain ⟨rfl, -⟩ := Prod.mk.inj (pure_eq_ok.mp h)
    have hremains : Selecting.Remains current
        { remaining := byMachine requested options current
          capacity := capacity
          sockets := sockets
          cursor := 0
          hookPending := requested.preDeploy.isSome
          hookMachine := none
          choices := [] } := fun _ _ => mem_byMachine.mp
    obtain ⟨choices, hchoices, hlength, hall⟩ := chosen_of_selectReplicas hremains hstate
    have hsame : state.choices = choices := hchoices
    refine ⟨replicas, hmode, hsame ▸ hlength, fun choice hchoice => ?_⟩
    obtain ⟨hchosen, hmachine⟩ := hall choice (hsame ▸ hchoice)
    exact ⟨hchosen, (List.mem_insertionSort _).mp hmachine⟩

end

/-! ## Reserving -/

theorem find_servicesIn_name (snapshot : DeploySnapshot) (owner : Namespace) (name : ServiceName) :
    (snapshot.servicesIn owner).find? (·.identity.name == name) =
      snapshot.serviceOf ⟨owner, name⟩ := by
  unfold DeploySnapshot.serviceOf
  rw [← List.head?_filter, ← List.head?_filter]
  refine congrArg List.head? (List.filter_congr fun service hservice => ?_)
  obtain ⟨container, hcontainer, rfl⟩ := mem_deriveServices.mp hservice
  have howner : container.owner = owner := by simpa using (List.mem_filter.mp hcontainer).2
  show (container.identity.name == name) = (container.identity == ⟨owner, name⟩)
  rw [Bool.eq_iff_iff, beq_iff_eq, beq_iff_eq]
  constructor
  · rintro rfl
    exact congrArg (QualifiedService.mk · _) howner
  · intro h
    rw [h]

section

variable {options : PlanOptions} {snapshot : DeploySnapshot} {owner : Namespace}

/-- A reservation of one Service on one Machine. -/
structure ReservedOn (options : PlanOptions) (snapshot : DeploySnapshot) (owner : Namespace)
    (requested : RequestedServiceSpec) (anchor : MachineId) (reservation : ReplicatedReservation) :
    Prop where
  chosen : ∀ choice ∈ reservation.choices,
    Chosen requested options (containersOf snapshot ⟨owner, requested.name⟩) choice
  anchored : ∀ choice ∈ reservation.choices, choice.machineId = anchor
  length : ∃ replicas, requested.mode = .replicated replicas ∧ reservation.choices.length = replicas

theorem reservedOn_of_demand {ledgers later : CapacityBudget × HostSockets}
    {requested : RequestedServiceSpec}
    (h : reserveReplicatedServiceDemand options machineId (snapshot.servicesIn owner) ledgers
      requested = .ok (later, reservation)) :
    ReservedOn options snapshot owner requested machineId reservation := by
  unfold reserveReplicatedServiceDemand at h
  simp only [find_servicesIn_name, containers_of_serviceOf] at h
  obtain ⟨⟨selected, capacity, sockets⟩, hselected, h⟩ := bind_eq_ok.mp h
  obtain ⟨-, rfl⟩ := Prod.mk.inj (pure_eq_ok.mp h)
  obtain ⟨replicas, hmode, hlength, hall⟩ := chosen_of_selectReplicated hselected
  exact ⟨fun choice hchoice => (hall choice hchoice).1,
    fun choice hchoice => by simpa using (hall choice hchoice).2, replicas, hmode, hlength⟩

/-- Every reservation is of a Service of `specs`, on some Machine. -/
def Reserved (options : PlanOptions) (snapshot : DeploySnapshot) (owner : Namespace)
    (specs : List RequestedServiceSpec)
    (reservations : ServiceName → Option ReplicatedReservation) : Prop :=
  ∀ name reservation, reservations name = some reservation →
    ∃ spec ∈ specs, spec.name = name ∧
      ∃ anchor, ReservedOn options snapshot owner spec anchor reservation

variable {specs : List RequestedServiceSpec} {anchor : MachineId}
  {placement : PlacementReservations}

theorem Reserved.update {reservations : ServiceName → Option ReplicatedReservation}
    (h : Reserved options snapshot owner specs reservations) {spec : RequestedServiceSpec}
    (hspec : spec ∈ specs) (hreserved : ReservedOn options snapshot owner spec anchor reservation) :
    Reserved options snapshot owner specs
      (Function.update reservations spec.name (some reservation)) := by
  intro name other hother
  by_cases hname : name = spec.name
  · subst hname
    rw [Function.update_self] at hother
    obtain rfl := Option.some.inj hother
    exact ⟨spec, hspec, rfl, anchor, hreserved⟩
  · rw [Function.update_of_ne hname] at hother
    exact h name other hother

theorem Reserved.without {placement : PlacementState}
    (h : Reserved options snapshot owner specs placement.reservations) (name : ServiceName) :
    Reserved options snapshot owner specs (placement.without name).reservations := by
  intro other reservation hreservation
  change Function.update placement.reservations name none other = _ at hreservation
  by_cases hname : other = name
  · subst hname
    rw [Function.update_self] at hreservation
    cases hreservation
  · rw [Function.update_of_ne hname] at hreservation
    exact h other reservation hreservation

theorem reserved_of_reserveOn {all : List RequestedServiceSpec} (hsub : specs ⊆ all)
    {later : PlacementReservations}
    (hreserved : Reserved options snapshot owner all placement.reservations)
    (h : placement.reserveOn options machineId specs (snapshot.servicesIn owner) = .ok later) :
    Reserved options snapshot owner all later.reservations := by
  unfold PlacementReservations.reserveOn at h
  induction specs generalizing placement with
  | nil =>
    obtain rfl := pure_eq_ok.mp h
    exact hreserved
  | cons spec specs ih =>
    rw [List.foldlM_cons, bind_eq_ok] at h
    obtain ⟨between, hstep, h⟩ := h
    obtain ⟨⟨ledgers, reservation⟩, hdemand, hstep⟩ := bind_eq_ok.mp hstep
    obtain rfl := pure_eq_ok.mp hstep
    refine ih (fun _ hmem => hsub (List.mem_cons_of_mem _ hmem)) ?_ h
    exact hreserved.update (hsub List.mem_cons_self) (reservedOn_of_demand hdemand)

theorem tryAnchors_eq_ok {reserve : MachineId → Except PlanError PlacementReservations}
    {machineIds : List MachineId}
    (h : tryAnchors reserve machineIds error = .ok (anchor, placement)) :
    anchor ∈ machineIds ∧ reserve anchor = .ok placement := by
  induction machineIds generalizing error with
  | nil => cases h
  | cons machineId rest ih =>
    rw [tryAnchors] at h
    split at h
    · rename_i first hfirst
      obtain ⟨rfl, rfl⟩ := Prod.mk.inj (Except.ok.inj h)
      exact ⟨List.mem_cons_self, hfirst⟩
    · obtain ⟨hmem, hreserve⟩ := ih h
      exact ⟨List.mem_cons_of_mem _ hmem, hreserve⟩

/-- What the anchor of a component is: a Machine all its Services may go to, with their
reservations made. -/
theorem sharedComponentAnchor_eq_ok {given : Given} {requested : List RequestedServiceSpec}
    {observed : List ServiceObservation} {component : VolumeUses} {plan : VolumePlan}
    {later : PlacementReservations}
    (h : sharedComponentAnchor given options requested observed component plan placement =
      .ok (anchor, later)) :
    (∀ service ∈ componentServices component, ∃ machineIds,
      volumeEligibleMachineIds given plan options service = .ok machineIds ∧ anchor ∈ machineIds) ∧
    placement.reserveOn options anchor (requested.filter fun spec =>
      (componentServices component).any (·.name == spec.name)) observed = .ok later := by
  obtain ⟨eligible, heligible, h⟩ := bind_eq_ok.mp h
  dsimp only at h
  split at h
  · cases h
  obtain ⟨hanchor, hreserve⟩ := tryAnchors_eq_ok (mapError_eq_ok.mp h)
  refine ⟨fun service hservice => ?_, hreserve⟩
  have hcommon : anchor ∈ (eligible.head?.getD []).filter fun machineId =>
      eligible.tail.all (·.contains machineId) := by
    split_ifs at hanchor
    · exact hanchor
    · exact (List.mem_filter.mp hanchor).1
  obtain ⟨hhead, htail⟩ := List.mem_filter.mp hcommon
  obtain ⟨machineIds, hmem, hids⟩ := exists_ok_of_mem_mapM heligible hservice
  refine ⟨machineIds, mapError_eq_ok.mp hids, ?_⟩
  cases eligible with
  | nil => cases hmem
  | cons first others =>
    rcases List.mem_cons.mp hmem with rfl | hmem
    · simpa using hhead
    · have hall := List.all_eq_true.mp htail machineIds hmem
      simpa using hall

theorem reserved_of_reserveShared {given : Given} {requested : List RequestedServiceSpec}
    {plan : VolumePlan} {shared : VolumePlan × PlacementReservations}
    (h : reserveShared given options requested (snapshot.servicesIn owner) plan (.new snapshot) =
      .ok shared) :
    Reserved options snapshot owner requested shared.2.reservations := by
  refine foldlM_invariant (P := fun _ (state : VolumePlan × PlacementReservations) =>
    Reserved options snapshot owner requested state.2.reservations) ?_ ?_ h
  · rintro component _ ⟨plan, placement⟩ _ hreserved hstep -
    obtain ⟨⟨anchor, later⟩, hanchor, hstep⟩ := bind_eq_ok.mp hstep
    obtain rfl := pure_eq_ok.mp hstep
    obtain ⟨-, hreserve⟩ := sharedComponentAnchor_eq_ok hanchor
    exact reserved_of_reserveOn (List.filter_subset_self _) hreserved hreserve
  · intro name reservation hreservation
    cases hreservation

end

end Ployz.Deploy
