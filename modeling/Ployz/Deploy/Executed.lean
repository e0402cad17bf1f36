import Ployz.Deploy.Ownership

/-!
# What executing a plan leaves

Every container that is left once a plan is executed was there and no operation removes it, or an
operation started it (`mem_executed`). What was started has the spec its Service asks for
(`started_of_operation`), and a container of a Service of the apply set that was there meets what
the Service asks for (`kept_of_container`). Both are where an act of the Service is. So a plan
brings about what it was made for: `executed_plan_meets_intent`.
-/

namespace Ployz.Deploy

open Run

/-! ## What is started -/

variable {container : ContainerObservation} {operation : DeployOperation}
  {spec : ResolvedServiceSpec}

section

variable {requested : RequestedServiceSpec} {options : PlanOptions} {serviceId : ServiceId}
  {current : List ContainerObservation} {acts : List Act} {sockets later : HostSockets}
  {operations : List DeployOperation}

/-- A spec that a Service asks for. -/
def SpecOf (requested : RequestedServiceSpec) (spec : ResolvedServiceSpec) : Prop :=
  ∃ serviceId order, spec = resolve requested serviceId order

theorem SpecOf.identity (h : SpecOf requested container.resolvedSpec) :
    container.identity = ⟨container.owner, requested.name⟩ := by
  obtain ⟨_, _, hspec⟩ := h
  unfold ContainerObservation.identity
  rw [hspec]
  rfl

/-- What an operation starts has the operation's spec, on its Machine. -/
theorem operation_of_starts {action : Action} (h : action ∈ operation.actions)
    {machineId : MachineId} {kind : ContainerKind} (hstarts : action.Starts machineId kind spec) :
    operation.machineId = machineId ∧ operation.spec = some spec := by
  have hstop : ∀ m id, action ≠ .stop m id := by
    rcases hstarts with rfl | ⟨-, rfl⟩ <;> simp
  have hremove : ∀ m id, action ≠ .remove m id := by
    rcases hstarts with rfl | ⟨-, rfl⟩ <;> simp
  have hcreate : ∀ m k s, action = .create m k s → m = machineId ∧ some s = some spec := by
    rcases hstarts with rfl | ⟨-, rfl⟩ <;> simp +contextual
  have hrun : ∀ m s, action = .run m s → m = machineId ∧ some s = some spec := by
    rcases hstarts with rfl | ⟨-, rfl⟩ <;> simp +contextual
  cases operation with
  | runContainer m s _ => exact hrun m s (List.mem_singleton.mp h)
  | replaceContainer m id s _ =>
    rw [DeployOperation.actions] at h
    split at h <;> simp only [List.mem_cons, hstop, hremove, List.not_mem_nil, or_false,
      false_or] at h
      <;> exact hcreate m _ s h
  | runHook m s olds =>
    rcases List.mem_append.mp h with hold | hnew
    · obtain ⟨old, -, rfl⟩ := List.mem_map.mp hold
      exact absurd rfl (hremove old.1 old.2)
    · exact hcreate m _ s (List.mem_singleton.mp hnew)
  | stopContainer m id _ => exact absurd (List.mem_singleton.mp h) (hstop m id)
  | stopHook m id => exact absurd (List.mem_singleton.mp h) (hstop m id)
  | removeContainer m id =>
    rcases List.mem_cons.mp h with h | h
    · exact absurd h (hstop m id)
    · exact absurd (List.mem_singleton.mp h) (hremove m id)
  | prepareVolumes | waitHealthy | removeVolume => cases h

/-- An operation of an act that has a spec starts what the Service asks for, where the act is. -/
theorem started_of_act {act : Act} (hact : act.IsFor requested)
    (h : operation ∈ act.operations requested options serviceId)
    (hspec : operation.spec = some spec) :
    act.machineId = operation.machineId ∧ SpecOf requested spec := by
  rcases List.mem_append.mp h with hstop | hstart
  · cases act with
    | replace =>
      obtain ⟨id, -, rfl⟩ := List.mem_map.mp hstop
      cases hspec
    | _ => cases hstop
  · cases act with
    | keep => cases hstart
    | replace =>
      obtain rfl := List.mem_singleton.mp hstart
      obtain rfl := Option.some.inj hspec
      exact ⟨rfl, _, _, rfl⟩
    | create =>
      obtain rfl := List.mem_singleton.mp hstart
      obtain rfl := Option.some.inj hspec
      exact ⟨rfl, _, _, rfl⟩
    | reuse machineId container =>
      obtain rfl := List.mem_singleton.mp hstart
      obtain rfl := Option.some.inj hspec
      exact ⟨rfl, hact⟩

theorem started_of_laid
    (h : Laid requested options serviceId current acts sockets operations later)
    (hoperation : operation ∈ operations) (hspec : operation.spec = some spec) :
    ∃ act ∈ acts, act.machineId = operation.machineId ∧ SpecOf requested spec := by
  rw [h.operations] at hoperation
  rcases List.mem_append.mp hoperation with hact | hremoved
  · obtain ⟨act, hact, hoperation⟩ := List.mem_flatMap.mp hact
    exact ⟨act, hact, started_of_act (h.isFor act hact) hoperation hspec⟩
  · obtain ⟨container, -, rfl⟩ := List.mem_map.mp hremoved
    cases hspec

/-- A hook has the spec and the Machine of a container that starts. -/
theorem exists_of_hookTarget {hookMachine : Option MachineId} {machineId : MachineId}
    (h : hookTarget hookMachine operations = some (machineId, spec)) :
    ∃ operation ∈ operations, operation.machineId = machineId ∧ operation.spec = some spec := by
  induction operations with
  | nil => cases h
  | cons operation operations ih =>
    have hrest : hookTarget hookMachine operations = some (machineId, spec) →
        ∃ found ∈ operation :: operations, found.machineId = machineId ∧
          found.spec = some spec := by
      intro hrest
      obtain ⟨found, hmem, hfound⟩ := ih hrest
      exact ⟨found, List.mem_cons_of_mem _ hmem, hfound⟩
    cases operation with
    | runContainer m s skip =>
      rw [hookTarget] at h
      split_ifs at h
      · obtain ⟨rfl, rfl⟩ := Prod.mk.inj (Option.some.inj h)
        exact ⟨_, List.mem_cons_self, rfl, rfl⟩
      · exact hrest h
    | replaceContainer m id s skip =>
      rw [hookTarget] at h
      split_ifs at h
      · obtain ⟨rfl, rfl⟩ := Prod.mk.inj (Option.some.inj h)
        exact ⟨_, List.mem_cons_self, rfl, rfl⟩
      · exact hrest h
    | _ => exact hrest h

theorem started_of_preDeploy {hooks : List ContainerObservation} {hookMachine : Option MachineId}
    (h : operation ∈ preDeployOperations requested hooks operations hookMachine)
    (hspec : operation.spec = some spec) :
    ∃ found ∈ operations, found.machineId = operation.machineId ∧ found.spec = some spec := by
  rcases mem_preDeployOperations h with ⟨hook, -, rfl⟩ | ⟨_, _, htarget, rfl⟩
  · cases hspec
  · obtain rfl := Option.some.inj hspec
    exact exists_of_hookTarget htarget

/-! ## What is kept -/

/-- A container that meets what the Service asks for. -/
def Meets (requested : RequestedServiceSpec) (options : PlanOptions)
    (container : ContainerObservation) : Prop :=
  isUpToDate container requested options = true ∨ SpecOf requested container.resolvedSpec

/-- A container no operation of its Service removes meets what the Service asks for, and an act of
the Service is on its Machine. -/
theorem kept_of_laid (h : Laid requested options serviceId current acts sockets operations later)
    (howned : ∀ act ∈ acts, act.Owned requested options current)
    (hids : (current.map (·.containerId)).Nodup) (hmem : container ∈ current)
    (hstays : .remove container.machineId container.containerId ∉ operations.flatMap (·.actions)) :
    ∃ act ∈ acts, act.machineId = container.machineId ∧ Meets requested options container := by
  have hsame : ∀ other ∈ current, other.containerId = container.containerId → other = container :=
    fun other hother => List.inj_on_of_nodup_map hids hother hmem
  rw [h.operations] at hstays
  by_cases hused : container.containerId ∈ acts.filterMap Act.containerId?
  · obtain ⟨act, hact, hid⟩ := List.mem_filterMap.mp hused
    refine ⟨act, hact, ?_⟩
    have hactOwned := howned act hact
    cases act with
    | keep machineId containerId =>
      obtain ⟨other, hother, hmachine, hother', hupToDate⟩ := hactOwned
      obtain rfl := hsame other hother (hother'.trans (Option.some.inj hid))
      exact ⟨hmachine.symm, .inl hupToDate⟩
    | create => cases hid
    | reuse machineId other =>
      obtain rfl := hsame other hactOwned.1 (Option.some.inj hid)
      exact ⟨hactOwned.2.symm, .inr (h.isFor _ hact)⟩
    | replace machineId containerId existing preStops =>
      obtain ⟨other, hother, rfl, rfl⟩ := hactOwned containerId List.mem_cons_self
      obtain rfl := hsame other hother (Option.some.inj hid)
      refine absurd ?_ hstays
      refine List.mem_flatMap.mpr ⟨_, List.mem_append_left _ (List.mem_flatMap.mpr
        ⟨_, hact, List.mem_append_right _ (List.mem_singleton.mpr rfl)⟩), ?_⟩
      rw [DeployOperation.actions]
      split <;> simp
  · refine absurd (List.mem_flatMap.mpr ⟨removal container, List.mem_append_right _
      (List.mem_map.mpr ⟨container, List.mem_filter.mpr ⟨hmem, ?_⟩, rfl⟩), ?_⟩) hstays
    · simpa using hused
    · simp [removal, DeployOperation.actions]

end

/-! ## The Services of a plan -/

section

variable {given : Given} {intent : DeployIntent} {snapshot : DeploySnapshot}
  {I : List RequestedServiceSpec → Planning → Prop} {Q : RequestedServiceSpec → MachineId → Prop}
  {desired : List DeployOperation} {final : Planning}

/-- The acts of a Service's stage, on its own containers and where `Q` allows. -/
def ServiceStage.ActsWithin {spec : RequestedServiceSpec}
    (stage : ServiceStage given intent snapshot I desired final spec)
    (Q : RequestedServiceSpec → MachineId → Prop) : Prop :=
  ∃ acts, Laid spec intent.options (serviceIdOf given snapshot ⟨intent.owner, spec.name⟩)
      (containersOf snapshot ⟨intent.owner, spec.name⟩) acts stage.planning.placement.sockets
      stage.placed stage.later.placement.sockets ∧
    (∀ act ∈ acts, act.Owned spec intent.options
      (containersOf snapshot ⟨intent.owner, spec.name⟩)) ∧
    ∀ act ∈ acts, Q spec act.machineId

/-- What an operation of a stage starts is what the Service asks for, where `Q` allows. -/
theorem ServiceStage.started {spec : RequestedServiceSpec}
    (stage : ServiceStage given intent snapshot I desired final spec) (hacts : stage.ActsWithin Q)
    {operation : DeployOperation}
    (h : operation ∈ preDeployOperations spec (hooksOf snapshot ⟨intent.owner, spec.name⟩)
      stage.placed stage.hookMachine ∨ operation ∈ stage.placed)
    {started : ResolvedServiceSpec} (hspec : operation.spec = some started) :
    SpecOf spec started ∧ Q spec operation.machineId := by
  obtain ⟨acts, hlaid, -, hwithin⟩ := hacts
  have hplaced : ∀ found ∈ stage.placed, found.spec = some started →
      SpecOf spec started ∧ Q spec found.machineId := by
    intro found hfound hspec
    obtain ⟨act, hact, hmachine, hsame⟩ := started_of_laid hlaid hfound hspec
    exact ⟨hsame, hmachine ▸ hwithin act hact⟩
  rcases h with hhook | hmem
  · obtain ⟨found, hfound, hmachine, hsame⟩ := started_of_preDeploy hhook hspec
    exact hmachine ▸ hplaced found hfound hsame
  · exact hplaced operation hmem hspec

/-- A container of the Service that no operation removes meets what it asks, where `Q` allows. -/
theorem ServiceStage.kept {spec : RequestedServiceSpec}
    (stage : ServiceStage given intent snapshot I desired final spec) (hacts : stage.ActsWithin Q)
    (hids : (snapshot.containers.map (·.containerId)).Nodup)
    (hmem : container ∈ containersOf snapshot ⟨intent.owner, spec.name⟩)
    (hstays : .remove container.machineId container.containerId ∉ desired.flatMap (·.actions)) :
    Meets spec intent.options container ∧ Q spec container.machineId := by
  obtain ⟨acts, hlaid, howned, hwithin⟩ := hacts
  have hcurrent : ((containersOf snapshot ⟨intent.owner, spec.name⟩).map (·.containerId)).Nodup :=
    hids.sublist (List.filter_sublist.map _)
  have hstill : Action.remove container.machineId container.containerId ∉
      stage.placed.flatMap (·.actions) := by
    intro hremoved
    obtain ⟨operation, hoperation, haction⟩ := List.mem_flatMap.mp hremoved
    exact hstays (List.mem_flatMap.mpr ⟨operation, stage.hplaced hoperation, haction⟩)
  obtain ⟨act, hact, hmachine, hmeets⟩ := kept_of_laid hlaid howned hcurrent hmem hstill
  exact ⟨hmeets, hmachine ▸ hwithin act hact⟩

variable {planned : Planned} {births : Nat → Birth}

/-- The stages of a plan whose reservations are on the Services' containers. -/
abbrev Stages.Stage (stages : Stages given intent snapshot planned) (spec : RequestedServiceSpec) :=
  ServiceStage given intent snapshot
    (ReservedFor intent.options snapshot intent.owner stages.bound.requested) stages.desired
    stages.later spec

theorem Stages.actsWithin (stages : Stages given intent snapshot planned)
    {spec : RequestedServiceSpec} (hspec : spec ∈ stages.bound.requested)
    (stage : stages.Stage spec) : stage.ActsWithin fun _ _ => True := by
  obtain ⟨⟨acts, hlaid, hacts⟩, -⟩ :=
    stage.hplans.acts stages.requestedNodup hspec stage.hbefore.reserved
  exact ⟨acts, hlaid, hacts.owned, fun _ _ => trivial⟩

theorem started_of_operation (stages : Stages given intent snapshot planned)
    (h : operation ∈ stages.desired) (hspec : operation.spec = some spec) :
    ∃ requested ∈ stages.bound.requested, SpecOf requested spec := by
  rcases stages.hservices.stage_of_operation (ReservedFor.step stages.requestedNodup)
    stages.reservedFor h with ⟨_, _, _, rfl⟩ | ⟨requested, hrequested, stage, hmem⟩
  · cases hspec
  · exact ⟨requested, hrequested,
      (stage.started (stages.actsWithin hrequested stage) hmem hspec).1⟩

/-- A container of the apply set that no operation removes meets what its Service asks for. -/
theorem kept_of_container (stages : Stages given intent snapshot planned)
    (hids : (snapshot.containers.map (·.containerId)).Nodup)
    {requested : RequestedServiceSpec} (hrequested : requested ∈ stages.bound.requested)
    (hmem : container ∈ containersOf snapshot ⟨intent.owner, requested.name⟩)
    (hstays : .remove container.machineId container.containerId ∉
      stages.desired.flatMap (·.actions)) :
    Meets requested intent.options container := by
  obtain ⟨stage⟩ := stages.hservices.stage (ReservedFor.step stages.requestedNodup)
    stages.reservedFor hrequested
  exact (stage.kept (stages.actsWithin hrequested stage) hids hmem hstays).1

/-! ## The whole plan -/

/-- The containers once a plan is executed. -/
def executed (births : Nat → Birth) (intent : DeployIntent) (snapshot : DeploySnapshot)
    (planned : Planned) : List ContainerObservation :=
  ((World.ofSnapshot snapshot).replay intent.owner births
    (planned.operations.flatMap (·.actions))).containers

theorem Stages.mem_operations (stages : Stages given intent snapshot planned)
    (h : operation ∈ stages.desired) :
    operation ∈ planned.operations := by
  rw [stages.hoperations, finish_eq_ok stages.hprepared]
  exact List.mem_append_left _ (List.mem_append_right _ h)

/-- What is left of a plan was there, its Service is not retired and no operation removes it, or an
operation of the apply set started it. -/
theorem mem_executed (stages : Stages given intent snapshot planned)
    (h : container ∈ executed births intent snapshot planned) :
    (∃ earlier ∈ snapshot.containers, container.Was earlier ∧
      .remove earlier.machineId earlier.containerId ∉ stages.desired.flatMap (·.actions) ∧
      earlier.identity ∉ retiring intent snapshot) ∨
    container.owner = intent.owner ∧ ∃ operation ∈ stages.desired,
      operation.machineId = container.machineId ∧ operation.spec = some container.resolvedSpec := by
  rcases origin_of_replay h with ⟨earlier, hearlier, hwas, hstays⟩
    | ⟨howner, action, haction, hstarts⟩
  · refine .inl ⟨earlier, hearlier, hwas, fun hremoved => hstays ?_, fun hretiring => hstays ?_⟩
    · obtain ⟨operation, hoperation, haction⟩ := List.mem_flatMap.mp hremoved
      exact List.mem_flatMap.mpr ⟨operation, stages.mem_operations hoperation, haction⟩
    · refine List.mem_flatMap.mpr ⟨.removeContainer earlier.machineId earlier.containerId, ?_, ?_⟩
      · rw [stages.hoperations]
        exact List.mem_append_right _
          (mem_removalOperations.mpr ⟨earlier, hearlier, hretiring, rfl⟩)
      · simp [DeployOperation.actions]
  · refine .inr ⟨howner, ?_⟩
    obtain ⟨operation, hoperation, haction⟩ := List.mem_flatMap.mp haction
    obtain ⟨hmachine, hspec⟩ := operation_of_starts haction hstarts
    rw [stages.hoperations] at hoperation
    rcases List.mem_append.mp hoperation with hprepare | hremoval
    · rcases mem_finish stages.hprepared hprepare with hdesired | ⟨_, _, rfl⟩
      · exact ⟨operation, hdesired, hmachine, hspec⟩
      · cases hspec
    · obtain ⟨removed, -, -, rfl⟩ := mem_removalOperations.mp hremoval
      cases hspec

/-- A Service Container left of a requested Service has a spec of the snapshot that is up to date
with the request, or one resolved from it. -/
theorem spec_of_executed (stages : Stages given intent snapshot planned)
    (hids : (snapshot.containers.map (·.containerId)).Nodup) {requested : RequestedServiceSpec}
    (hrequested : requested ∈ stages.bound.requested)
    (hmem : container ∈ executed births intent snapshot planned)
    (hidentity : container.identity = ⟨intent.owner, requested.name⟩)
    (hservice : container.isService = true) :
    (container.resolvedSpec ∈ snapshot.containers.map (·.resolvedSpec) ∧
      compareSpecs intent.options.shapeText container.resolvedSpec requested = .upToDate) ∨
      SpecOf requested container.resolvedSpec := by
  rcases mem_executed stages hmem with
    ⟨earlier, hearlier, hwas, hstays, -⟩ | ⟨-, operation, hoperation, -, hspec⟩
  · have hcurrent : earlier ∈ containersOf snapshot ⟨intent.owner, requested.name⟩ :=
      mem_containersOf.mpr ⟨hearlier, hwas.identity.symm.trans hidentity, hwas.isService ▸ hservice⟩
    rw [hwas.resolvedSpec]
    refine (kept_of_container stages hids hrequested hcurrent hstays).imp_left fun hupToDate => ?_
    unfold isUpToDate at hupToDate
    exact ⟨List.mem_map_of_mem hearlier, by simpa using (Bool.and_eq_true_iff.mp hupToDate).2⟩
  · obtain ⟨other, hother, hspec⟩ := started_of_operation stages hoperation hspec
    have hname : other.name = requested.name :=
      congrArg QualifiedService.name (hspec.identity.symm.trans hidentity)
    obtain rfl := List.inj_on_of_nodup_map stages.requestedNodup hother hrequested hname
    exact .inr hspec

/-- Executing a plan brings about what it was made for: each container left of a Service of the
apply set has a spec that is up to date with the request, or was resolved from it, and no container
is left of a Service that the plan retires. -/
theorem executed_plan_meets_intent (h : planOperations given intent snapshot = .ok planned)
    (hids : (snapshot.containers.map (·.containerId)).Nodup) (births : Nat → Birth) :
    (∀ spec ∈ intent.target, spec.name ∈ intent.appliedNames →
      ∃ requested, scopeRequested spec intent.owner = .ok requested ∧
        ∀ container ∈ executed births intent snapshot planned,
          container.identity = ⟨intent.owner, spec.name⟩ → container.isService = true →
            compareSpecs intent.options.shapeText container.resolvedSpec requested = .upToDate ∨
              ∃ serviceId order, container.resolvedSpec = resolve requested serviceId order) ∧
    ∀ container ∈ executed births intent snapshot planned,
      container.identity ∉ retiring intent snapshot := by
  obtain ⟨stages⟩ := stages_of_plan h
  refine ⟨fun spec hspec happlied => ?_, fun container hmem hretiring => ?_⟩
  · obtain ⟨requested, hrequested, hscope⟩ :=
      (isBound_of_bind stages.hbound).exists_requested hspec happlied
    refine ⟨requested, hscope, fun container hmem hidentity hservice => ?_⟩
    rw [← name_of_scopeRequested hscope] at hidentity
    exact (spec_of_executed stages hids hrequested hmem hidentity hservice).imp_left And.right
  · rcases mem_executed stages hmem with
      ⟨earlier, -, hwas, -, hstays⟩ | ⟨-, operation, hoperation, -, hspec⟩
    · exact hstays (hwas.identity ▸ hretiring)
    · obtain ⟨requested, hrequested, hspec⟩ := started_of_operation stages hoperation hspec
      obtain ⟨-, -, hundeclared, -⟩ := mem_retiring.mp hretiring
      have hbound := isBound_of_bind stages.hbound
      rw [hspec.identity, ← hbound.names] at hundeclared
      exact hundeclared (List.mem_map.mpr ⟨requested, ((hbound.requested _).mp hrequested).1, rfl⟩)

end

namespace Sample

def upgrade : DeployIntent := deploy [Sample.spec web single "web:2" []]

theorem upgrade_meets_intent : ∃ planned, planOperations given upgrade shopWithApi = .ok planned ∧
    ∀ container ∈ executed births upgrade shopWithApi planned,
      container.identity ∉ retiring upgrade shopWithApi := by
  obtain ⟨planned, hplanned, -⟩ := exists_ok (fun _ => True)
    (by decide +kernel : succeeds (planOperations given upgrade shopWithApi) _ = true)
  exact ⟨planned, hplanned, (executed_plan_meets_intent hplanned (by decide +kernel) births).2⟩

end Sample

end Ployz.Deploy
