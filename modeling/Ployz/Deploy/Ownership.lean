import Ployz.Deploy.Replay
import Ployz.Deploy.Selection

/-!
# What a plan touches

Every container an act keeps, replaces, stops or starts again is one the Service has on that Machine
(`Act.Owned`), and so are the containers and hooks that are removed. A plan therefore touches only
the containers of the Services it applies, and after them those of the Services its target does not
declare (`plan_touches_what_it_owns`).
-/

namespace Ployz.Deploy

open Run

/-- The acts on containers a Service has. -/
def Act.Owned (requested : RequestedServiceSpec) (options : PlanOptions)
    (current : List ContainerObservation) : Act → Prop
  | keep machineId containerId => ∃ container ∈ current, container.machineId = machineId ∧
      container.containerId = containerId ∧ isUpToDate container requested options = true
  | replace machineId containerId _ preStops => ∀ id ∈ containerId :: preStops,
      ∃ container ∈ current, container.machineId = machineId ∧ container.containerId = id
  | reuse machineId container => container ∈ current ∧ container.machineId = machineId
  | create _ => True

variable {operation : DeployOperation} {hookMachine : Option MachineId}

variable {operations : List DeployOperation}

section

variable {requested : RequestedServiceSpec} {options : PlanOptions} {serviceId : ServiceId}
  {current : List ContainerObservation}

theorem Chosen.owned {choice : ReplicaChoice} (h : Chosen requested options current choice) :
    (Act.ofChoice current choice).Owned requested options current := by
  cases h with
  | unchanged hmem hupToDate => exact ⟨_, hmem, rfl, rfl, hupToDate⟩
  | replace hmem _ hpreStops =>
    intro id hid
    rcases List.mem_cons.mp hid with rfl | hid
    · exact ⟨_, hmem, rfl, rfl⟩
    · exact hpreStops id hid
  | create => trivial

theorem mem_onMachine {machineId : MachineId} {container : ContainerObservation} :
    container ∈ onMachine current machineId ↔
      container ∈ current ∧ container.machineId = machineId := by
  simp [onMachine]

theorem owned_onGlobal (machineId : MachineId) :
    (Act.onGlobal requested options current machineId).Owned requested options current := by
  unfold Act.onGlobal
  split
  · rename_i container hkept
    obtain ⟨hmem, hmachine⟩ := mem_onMachine.mp (List.mem_of_find?_eq_some hkept)
    exact ⟨container, hmem, hmachine, rfl, by simpa using List.find?_some hkept⟩
  · split
    · rename_i container hreused
      exact mem_onMachine.mp (List.mem_of_find?_eq_some hreused)
    · split
      · rename_i container hactive
        intro id hid
        rcases List.mem_cons.mp hid with rfl | hid
        · obtain ⟨hmem, hmachine⟩ := mem_onMachine.mp (List.mem_of_find?_eq_some hactive)
          exact ⟨container, hmem, hmachine, rfl⟩
        · obtain ⟨sibling, hsibling, rfl⟩ := List.mem_map.mp hid
          obtain ⟨hmem, hmachine⟩ := mem_onMachine.mp (List.mem_filter.mp hsibling).1
          exact ⟨sibling, hmem, hmachine, rfl⟩
      · trivial

/-- An act's operations stop and replace containers the Service has, and remove no Volume. -/
theorem touches_of_act {act : Act} (hact : act.Owned requested options current)
    (h : operation ∈ act.operations requested options serviceId) :
    (∀ touched ∈ operation.touches, ∃ container ∈ current,
      (container.machineId, container.containerId) = touched) ∧
      ∀ id, operation ≠ .removeVolume id := by
  rcases List.mem_append.mp h with hstop | hstart
  · cases act with
    | replace machineId containerId existing preStops =>
      obtain ⟨id, hid, rfl⟩ := List.mem_map.mp hstop
      refine ⟨fun touched htouched => ?_, by simp⟩
      obtain rfl := List.mem_singleton.mp htouched
      obtain ⟨container, hmem, rfl, rfl⟩ := hact id (List.mem_cons_of_mem _ hid)
      exact ⟨container, hmem, rfl⟩
    | _ => cases hstop
  · cases act with
    | keep => cases hstart
    | replace machineId containerId existing preStops =>
      obtain rfl := List.mem_singleton.mp hstart
      refine ⟨fun touched htouched => ?_, by simp⟩
      obtain rfl := List.mem_singleton.mp htouched
      obtain ⟨container, hmem, rfl, rfl⟩ := hact containerId List.mem_cons_self
      exact ⟨container, hmem, rfl⟩
    | create machineId =>
      obtain rfl := List.mem_singleton.mp hstart
      exact ⟨fun _ htouched => (List.not_mem_nil htouched).elim, by simp⟩
    | reuse machineId container =>
      obtain rfl := List.mem_singleton.mp hstart
      exact ⟨fun _ htouched => (List.not_mem_nil htouched).elim, by simp⟩

theorem touches_of_laid {acts : List Act} {sockets later : HostSockets}
    (h : Laid requested options serviceId current acts sockets operations later)
    (howned : ∀ act ∈ acts, act.Owned requested options current)
    (hoperation : operation ∈ operations) :
    (∀ touched ∈ operation.touches, ∃ container ∈ current,
      (container.machineId, container.containerId) = touched) ∧
      ∀ id, operation ≠ .removeVolume id := by
  rw [h.operations] at hoperation
  rcases List.mem_append.mp hoperation with hact | hremoved
  · obtain ⟨act, hact, hoperation⟩ := List.mem_flatMap.mp hact
    exact touches_of_act (howned act hact) hoperation
  · obtain ⟨container, hcontainer, rfl⟩ := List.mem_map.mp hremoved
    refine ⟨fun touched htouched => ?_, by simp [removal]⟩
    obtain rfl := List.mem_singleton.mp htouched
    exact ⟨container, (List.mem_filter.mp hcontainer).1, rfl⟩

theorem touches_of_preDeploy {hooks : List ContainerObservation} {placed : List DeployOperation}
    (h : operation ∈ preDeployOperations requested hooks placed hookMachine) :
    (∀ touched ∈ operation.touches, ∃ container ∈ hooks,
      (container.machineId, container.containerId) = touched) ∧
      ∀ id, operation ≠ .removeVolume id := by
  rcases mem_preDeployOperations h with ⟨hook, hhook, rfl⟩ | ⟨_, _, -, rfl⟩
  · refine ⟨fun touched htouched => ?_, by simp⟩
    obtain rfl := List.mem_singleton.mp htouched
    exact ⟨hook, hhook, rfl⟩
  · exact ⟨fun touched htouched => List.mem_map.mp htouched, by simp⟩

end

/-! ## Planning a Service -/

section

variable {given : Given} {intent : DeployIntent} {snapshot : DeploySnapshot} {owner : Namespace}
  {options : PlanOptions}

/-- The acts a Service is placed by: on its own containers, and on the Machines its Volumes were
assigned to or the one reserved for it. -/
structure ActsOf (planning later : Planning) (requested : RequestedServiceSpec)
    (options : PlanOptions) (current : List ContainerObservation) (acts : List Act) : Prop where
  owned : ∀ act ∈ acts, act.Owned requested options current
  placed : ∃ offered machines,
    planning.volumePlan.place requested offered = .ok (later.volumePlan, machines) ∧
    ∀ act ∈ acts, act.machineId ∈ machines.map (·.id) ∨ ∃ reservation,
      planning.placement.reservations requested.name = some reservation ∧
      ∃ choice ∈ reservation.choices, choice.machineId = act.machineId

theorem machineId_ofChoice (current : List ContainerObservation) (choice : ReplicaChoice) :
    (Act.ofChoice current choice).machineId = choice.machineId := by
  unfold Act.ofChoice
  split <;> rfl

theorem machineId_onGlobal (requested : RequestedServiceSpec) (options : PlanOptions)
    (current : List ContainerObservation) (machineId : MachineId) :
    (Act.onGlobal requested options current machineId).machineId = machineId := by
  unfold Act.onGlobal
  repeat' split
  all_goals rfl

/-- However a Service is planned, it is placed by acts on its own containers. -/
theorem PlansService.acts {specs : List RequestedServiceSpec} (hnodup : (specs.map (·.name)).Nodup)
    {planning later : Planning} {requested : RequestedServiceSpec} (hspec : requested ∈ specs)
    (hreserved : Reserved options snapshot owner specs planning.placement.reservations)
    (h : PlansService given owner snapshot options planning requested later operations
      hookMachine) :
    (∃ acts, Laid requested options (serviceIdOf given snapshot ⟨owner, requested.name⟩)
        (containersOf snapshot ⟨owner, requested.name⟩) acts planning.placement.sockets operations
        later.placement.sockets ∧
      ActsOf planning later requested options (containersOf snapshot ⟨owner, requested.name⟩)
        acts) ∧
      later.placement.reservations = (planning.placement.without requested.name).reservations := by
  cases h with
  | reserved _ _ hreservation hplace hplan =>
    obtain ⟨reservation, -, hsource, hlaid, hreservations⟩ := laid_of_planReplicated hplan
    refine ⟨⟨_, hlaid, ?_, _, _, hplace, fun act hact => .inr ?_⟩, hreservations⟩
    · rcases hsource with hsame | ⟨_, _, _, hsame, -⟩
      · obtain rfl := CapacityAdmission.reserved.inj hsame
        obtain ⟨spec, hmem, hname, anchor, hchosen⟩ := hreserved _ _ hreservation
        obtain rfl := List.inj_on_of_nodup_map hnodup hmem hspec hname
        intro act hact
        obtain ⟨choice, hchoice, rfl⟩ := List.mem_map.mp hact
        exact (hchosen.chosen choice hchoice).owned
      · cases hsame
    · rcases hsource with hsame | ⟨_, _, _, hsame, -⟩
      · obtain rfl := CapacityAdmission.reserved.inj hsame
        obtain ⟨choice, hchoice, rfl⟩ := List.mem_map.mp hact
        exact ⟨_, hreservation, choice, hchoice, (machineId_ofChoice _ _).symm⟩
      · cases hsame
  | selected _ _ _ hcandidates hplace hplan =>
    obtain ⟨hsockets, -, hsame⟩ := candidateMachines_placement hcandidates
    obtain ⟨reservation, -, hsource, hlaid, hreservations⟩ := laid_of_planReplicated hplan
    rw [hsockets] at hlaid
    rcases hsource with hother | ⟨_, _, _, -, hselected⟩
    · cases hother
    · obtain ⟨-, -, -, hall⟩ := chosen_of_selectReplicated hselected
      refine ⟨⟨_, hlaid, fun act hact => ?_, _, _, hplace, fun act hact => .inl ?_⟩,
        hreservations.trans hsame⟩
      · obtain ⟨choice, hchoice, rfl⟩ := List.mem_map.mp hact
        exact (hall choice hchoice).1.owned
      · obtain ⟨choice, hchoice, rfl⟩ := List.mem_map.mp hact
        rw [machineId_ofChoice]
        exact (hall choice hchoice).2
  | everywhere _ _ hplace hplan =>
    obtain ⟨hlaid, hreservations⟩ := laid_of_planGlobal hplan
    refine ⟨⟨_, hlaid, fun act hact => ?_, _, _, hplace, fun act hact => .inl ?_⟩, hreservations⟩
    · obtain ⟨machine, -, rfl⟩ := List.mem_map.mp hact
      exact owned_onGlobal machine.id
    · obtain ⟨machine, hmachine, rfl⟩ := List.mem_map.mp hact
      rw [machineId_onGlobal]
      exact List.mem_map.mpr ⟨machine, hmachine, rfl⟩

/-- A container of a Service, by its Machine and ID. -/
def Belongs (snapshot : DeploySnapshot) (identity : QualifiedService)
    (touched : MachineId × ContainerId) : Prop :=
  ∃ container ∈ snapshot.containers, container.identity = identity ∧
    (container.machineId, container.containerId) = touched

/-- The Services still to plan are those of the apply set, with reservations on their containers. -/
structure ReservedFor (options : PlanOptions) (snapshot : DeploySnapshot) (owner : Namespace)
    (all left : List RequestedServiceSpec) (planning : Planning) : Prop where
  subset : left ⊆ all
  reserved : Reserved options snapshot owner all planning.placement.reservations

theorem ReservedFor.step {all left : List RequestedServiceSpec}
    (hnodup : (all.map (·.name)).Nodup) {spec : RequestedServiceSpec} {planning later : Planning}
    {placed : List DeployOperation}
    (h : ReservedFor options snapshot owner all (spec :: left) planning)
    (hplans : PlansService given owner snapshot options planning spec later placed hookMachine) :
    ReservedFor options snapshot owner all left later := by
  obtain ⟨-, hreservations⟩ := hplans.acts hnodup (h.subset List.mem_cons_self) h.reserved
  exact ⟨fun _ hmem => h.subset (List.mem_cons_of_mem _ hmem),
    hreservations ▸ h.reserved.without spec.name⟩

variable {planned : Planned}

theorem Stages.reservedFor (stages : Stages given intent snapshot planned) :
    ReservedFor intent.options snapshot intent.owner stages.bound.requested stages.bound.requested
      ⟨stages.shared.1, stages.shared.2.intoPlacement snapshot⟩ :=
  ⟨fun _ hmem => hmem, reserved_of_reserveShared stages.hshared⟩

theorem Stages.requestedNodup (stages : Stages given intent snapshot planned) :
    (stages.bound.requested.map (·.name)).Nodup :=
  (isBound_of_bind stages.hbound).requestedNodup

/-- The operations of the Services of a plan touch those Services. -/
theorem touches_of_services (stages : Stages given intent snapshot planned)
    (hoperation : operation ∈ stages.desired) :
    (∀ touched ∈ operation.touches, ∃ spec ∈ stages.bound.requested,
      Belongs snapshot ⟨intent.owner, spec.name⟩ touched) ∧
      ∀ id, operation ≠ .removeVolume id := by
  rcases stages.hservices.stage_of_operation (ReservedFor.step stages.requestedNodup)
    stages.reservedFor hoperation with ⟨_, _, _, rfl⟩ | ⟨spec, hspec, stage, hmem⟩
  · exact ⟨fun _ htouched => (List.not_mem_nil htouched).elim, by simp⟩
  · obtain ⟨⟨acts, hlaid, hacts⟩, -⟩ :=
      stage.hplans.acts stages.requestedNodup hspec stage.hbefore.reserved
    rcases hmem with hhook | hplaced
    · obtain ⟨htouches, hvolume⟩ := touches_of_preDeploy hhook
      refine ⟨fun touched htouched => ?_, hvolume⟩
      obtain ⟨container, hmem, hsame⟩ := htouches touched htouched
      obtain ⟨hmem, hidentity, -⟩ := mem_hooksOf.mp hmem
      exact ⟨spec, hspec, container, hmem, hidentity, hsame⟩
    · obtain ⟨htouches, hvolume⟩ := touches_of_laid hlaid hacts.owned hplaced
      refine ⟨fun touched htouched => ?_, hvolume⟩
      obtain ⟨container, hmem, hsame⟩ := htouches touched htouched
      obtain ⟨hmem, hidentity, -⟩ := mem_containersOf.mp hmem
      exact ⟨spec, hspec, container, hmem, hidentity, hsame⟩

/-! ## Services no longer declared -/

/-- A Deploy retires the Services of its Namespace that its target does not declare, when it
reconciles an unreserved Namespace it sees completely. -/
theorem mem_retiring {identity : QualifiedService} : identity ∈ retiring intent snapshot ↔
    (snapshot.isObserverComplete = true ∧ intent.options.selected = [] ∧
      isReserved intent.owner = false) ∧
    identity.owner = intent.owner ∧ identity.name ∉ intent.target.map (·.name) ∧
    identity ∈ snapshot.containers.map (·.identity) := by
  have hservices : ∀ service : ServiceObservation, service ∈ snapshot.servicesIn intent.owner ↔
      ∃ container ∈ snapshot.containers, container.owner = intent.owner ∧
        service = observationOf (snapshot.containers.filter (·.owner == intent.owner))
          container.identity := by
    intro service
    unfold DeploySnapshot.servicesIn
    rw [mem_deriveServices]
    simp [and_assoc]
  unfold retiring DeployIntent.pruneRefusal obsoleteServices
  cases hcomplete : snapshot.isObserverComplete with
  | false => simp
  | true =>
    cases hselected : intent.options.selected with
    | cons => simp
    | nil =>
      cases hreserved : isReserved intent.owner with
      | true => simp
      | false =>
        simp only [Bool.not_true, Bool.false_eq_true, if_false, List.isEmpty_nil,
          Option.isNone_none, if_true, List.mem_map, List.mem_filter, hservices, true_and]
        constructor
        · rintro ⟨-, ⟨⟨container, hmem, howner, rfl⟩, hundeclared⟩, rfl⟩
          exact ⟨howner, by simpa using hundeclared, container, hmem, rfl⟩
        · rintro ⟨howner, hundeclared, container, hmem, rfl⟩
          refine ⟨_, ⟨⟨container, hmem, howner, rfl⟩, ?_⟩, rfl⟩
          show (!(intent.target.map (·.name)).contains container.identity.name) = true
          simpa using hundeclared

theorem mem_removalOperations :
    operation ∈ removalOperations (snapshot.servicesIn intent.owner) (retiring intent snapshot) ↔
      ∃ container ∈ snapshot.containers, container.identity ∈ retiring intent snapshot ∧
        operation = .removeContainer container.machineId container.containerId := by
  unfold removalOperations DeploySnapshot.servicesIn
  simp only [List.mem_map, List.mem_flatMap, List.mem_filter, mem_deriveServices,
    ServiceObservation.containersForRemove, List.mem_append, observationOf]
  constructor
  · rintro ⟨container, ⟨-, ⟨⟨found, -, rfl⟩, hretiring⟩, hmember⟩, rfl⟩
    have hboth : container ∈ snapshot.containers ∧ container.identity = found.identity := by
      rcases hmember with h | h <;> simp_all
    exact ⟨container, hboth.1, by simpa [hboth.2] using hretiring, rfl⟩
  · rintro ⟨container, hmem, hretiring, rfl⟩
    have howner : container.owner = intent.owner := (mem_retiring.mp hretiring).2.1
    refine ⟨container, ⟨_, ⟨⟨container, ⟨hmem, by simpa using howner⟩, rfl⟩,
      by simpa using hretiring⟩, ?_⟩, rfl⟩
    cases hservice : container.isService <;> simp [hmem, howner, hservice]

/-! ## The whole plan -/

/-- A plan touches only what it owns. What it stops, replaces or removes for the Services it applies
are their containers; it removes containers of other Services only after that, all those of the
Services its target does not declare, when it reconciles an unreserved Namespace it sees completely.
It removes no Volume. -/
theorem plan_touches_what_it_owns {planned : Planned}
    (h : planOperations given intent snapshot = .ok planned) :
    ∃ desired removals, planned.operations = desired ++ removals ∧
      (∀ operation ∈ desired, ∀ touched ∈ operation.touches, ∃ container ∈ snapshot.containers,
        (container.machineId, container.containerId) = touched ∧ container.owner = intent.owner ∧
        container.resolvedSpec.name ∈ intent.appliedNames ∧
        container.resolvedSpec.name ∈ intent.target.map (·.name)) ∧
      (∀ operation ∈ removals, ∃ container ∈ snapshot.containers,
        operation = .removeContainer container.machineId container.containerId ∧
        container.owner = intent.owner ∧
        container.resolvedSpec.name ∉ intent.target.map (·.name)) ∧
      (removals ≠ [] → snapshot.isObserverComplete = true ∧ intent.options.selected = [] ∧
        isReserved intent.owner = false) ∧
      (snapshot.isObserverComplete = true → intent.options.selected = [] →
        isReserved intent.owner = false → ∀ container ∈ snapshot.containers,
          container.owner = intent.owner →
          container.resolvedSpec.name ∉ intent.target.map (·.name) →
          .removeContainer container.machineId container.containerId ∈ removals) ∧
      ∀ operation ∈ planned.operations, ∀ id, operation ≠ .removeVolume id := by
  obtain ⟨stages⟩ := stages_of_plan h
  have hbound := isBound_of_bind stages.hbound
  have hretired : ∀ operation ∈ removalOperations (snapshot.servicesIn intent.owner)
      (retiring intent snapshot), ∃ container ∈ snapshot.containers,
        operation = .removeContainer container.machineId container.containerId ∧
        container.identity ∈ retiring intent snapshot := by
    intro operation hoperation
    obtain ⟨container, hmem, hretiring, rfl⟩ := mem_removalOperations.mp hoperation
    exact ⟨container, hmem, rfl, hretiring⟩
  refine ⟨stages.prepared, _, stages.hoperations, ?_, ?_, ?_, ?_, ?_⟩
  · intro operation hoperation touched htouched
    rcases mem_finish stages.hprepared hoperation with hdesired | ⟨_, _, rfl⟩
    · obtain ⟨spec, hspec, container, hmem, hidentity, hsame⟩ :=
        (touches_of_services stages hdesired).1 touched htouched
      obtain ⟨htarget, happlied⟩ := (hbound.requested spec).mp hspec
      have hname : container.resolvedSpec.name = spec.name :=
        congrArg QualifiedService.name hidentity
      refine ⟨container, hmem, hsame, congrArg QualifiedService.owner hidentity, hname ▸ happlied,
        ?_⟩
      rw [hname, ← hbound.names]
      exact List.mem_map.mpr ⟨spec, htarget, rfl⟩
    · cases htouched
  · intro operation hoperation
    obtain ⟨container, hmem, rfl, hretiring⟩ := hretired operation hoperation
    obtain ⟨-, howner, hundeclared, -⟩ := mem_retiring.mp hretiring
    exact ⟨container, hmem, rfl, howner, hundeclared⟩
  · intro hsome
    obtain ⟨operation, hoperation⟩ := List.exists_mem_of_ne_nil _ hsome
    obtain ⟨container, -, -, hretiring⟩ := hretired operation hoperation
    exact (mem_retiring.mp hretiring).1
  · intro hcomplete hselected hreserved container hmem howner hundeclared
    refine mem_removalOperations.mpr ⟨container, hmem, mem_retiring.mpr ?_, rfl⟩
    exact ⟨⟨hcomplete, hselected, hreserved⟩, howner, hundeclared, List.mem_map.mpr ⟨_, hmem, rfl⟩⟩
  · intro operation hoperation
    rw [stages.hoperations] at hoperation
    rcases List.mem_append.mp hoperation with hprepared | hremoval
    · rcases mem_finish stages.hprepared hprepared with hdesired | ⟨_, _, rfl⟩
      · exact (touches_of_services stages hdesired).2
      · simp
    · obtain ⟨container, -, rfl, -⟩ := hretired operation hremoval
      simp

end

namespace Sample

/-- The shop still runs an api Service that its target no longer declares. -/
def shopWithApi : DeploySnapshot :=
  cluster [machine "m1"] [running "old" "m1" shop 1 (spec web single "web:1" []),
    running "api" "m1" shop 2 (spec api single "api:1" []),
    running "theirs" "m1" other 3 (spec api single "api:1" [])]

theorem shop_retires_api : ∃ planned,
    planOperations given (deploy [spec web (.replicated 1) "web:2" []]) shopWithApi = .ok planned ∧
    ∃ desired removals, planned.operations = desired ++ removals ∧
      .removeContainer "m1" "api" ∈ removals := by
  obtain ⟨planned, hplanned, -⟩ := exists_ok (fun _ => True) (by decide +kernel : succeeds
    (planOperations given (deploy [spec web (.replicated 1) "web:2" []]) shopWithApi) _ = true)
  obtain ⟨desired, removals, hsplit, -, -, -, hall, -⟩ := plan_touches_what_it_owns hplanned
  refine ⟨planned, hplanned, desired, removals, hsplit, ?_⟩
  exact hall (by decide +kernel) rfl (by decide) _
    (by decide +kernel : running "api" "m1" shop 2 (spec api (.replicated 1) "api:1" []) ∈ _) rfl
    (by decide +kernel)

end Sample

end Ployz.Deploy
