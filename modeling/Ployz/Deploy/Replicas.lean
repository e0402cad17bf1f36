import Ployz.Deploy.Selection
import Ployz.Deploy.Replay

/-!
# The replicas of a Service, accounted for

A selection names each container at most once: as the one a replica keeps or replaces, or as one
that is stopped to free its ports (`Selecting.Distinct`). Its first change carries the pre-deploy
hook (`Selecting.Hooked`).

Main theorem: `replicas_accounted`. A plan keeps, replaces or creates as many containers as there
are replicas, removes all others, stops early only what it removes, and runs the hook once if it
starts a container. It supposes that container IDs are distinct: `twin_is_left` shows a container
that stays because another Machine's has its ID.
-/

namespace Ployz.Deploy

open Run

/-! ## What a choice names -/

namespace ReplicaAction

/-- The containers an action takes or stops early. -/
def named : ReplicaAction → List ContainerId
  | unchanged containerId => [containerId]
  | replace containerId preStops => containerId :: preStops
  | create => []

def changes : ReplicaAction → Bool
  | unchanged _ => false
  | replace _ _ | create => true

end ReplicaAction

section

variable {requested : RequestedServiceSpec} {options : PlanOptions}
  {current : List ContainerObservation} {machines : List MachineId} {state : Selecting}
  {candidate : Candidate}

theorem Candidate.Fits.preStops_nil (h : candidate.Fits requested options machines state)
    (hoperation : candidate.operation ≠ .replace) : candidate.preStops = [] := by
  rw [h.preStops]
  unfold conflictingSiblings
  cases candidate.existing with
  | none => rfl
  | some container => exact if_pos (by simpa using hoperation)

theorem Candidate.Fits.operation_eq (h : candidate.Fits requested options machines state) :
    (candidate.existing = none ∧ candidate.operation = .create) ∨
      ∃ container, candidate.existing = some container ∧
        (candidate.operation = .unchanged ∨ candidate.operation = .replace) := by
  have hoperation := h.operation
  cases hexisting : candidate.existing with
  | none =>
    rw [hexisting] at hoperation
    exact .inl ⟨rfl, hoperation⟩
  | some container =>
    rw [hexisting, replicatedOperation] at hoperation
    refine .inr ⟨container, rfl, ?_⟩
    split_ifs at hoperation
    · exact .inl hoperation
    · exact .inr hoperation

/-- A candidate names the last container left on its Machine, and siblings of it that are left. -/
theorem Candidate.Fits.named_eq (h : candidate.Fits requested options machines state) :
    (state.remaining candidate.machineId = [] ∧ candidate.action.named = []) ∨
      ∃ rest container, state.remaining candidate.machineId = rest ++ [container] ∧
        candidate.action.named = container.containerId :: candidate.preStops ∧
        candidate.preStops.Sublist ((rest ++ [container]).map (·.containerId)) ∧
        container.containerId ∉ candidate.preStops := by
  have hlast := h.existing
  rcases h.operation_eq with ⟨hnone, -⟩ | ⟨container, hsome, hoperation⟩
  · rw [hnone] at hlast
    exact .inl ⟨List.getLast?_eq_none_iff.mp hlast.symm, by simp [Candidate.action, hnone,
      ReplicaAction.named]⟩
  · rw [hsome] at hlast
    obtain ⟨rest, hrest⟩ := List.getLast?_eq_some_iff.mp hlast.symm
    refine .inr ⟨rest, container, hrest, ?_⟩
    rcases hoperation with hunchanged | hreplace
    · have hnil := h.preStops_nil (by simp [hunchanged])
      simp [Candidate.action, hsome, hunchanged, ReplicaAction.named, hnil]
    · have hpreStops := h.preStops
      rw [hsome, hreplace, hrest] at hpreStops
      simp only [conflictingSiblings, bne_self_eq_false, Bool.false_eq_true, if_false] at hpreStops
      refine ⟨by simp [Candidate.action, hsome, hreplace, ReplicaAction.named], ?_, ?_⟩
      · rw [hpreStops]
        exact List.filter_sublist.map _
      · rw [hpreStops, List.mem_map]
        rintro ⟨sibling, hsibling, hid⟩
        have hp := (List.mem_filter.mp hsibling).2
        simp [hid] at hp

/-- No container is named twice, or named and left. -/
structure Selecting.Distinct (state : Selecting) : Prop where
  named : (state.choices.flatMap (·.action.named)).Nodup
  left : ∀ machineId, ∀ container ∈ state.remaining machineId,
    container.containerId ∉ state.choices.flatMap (·.action.named)
  nodup : ∀ machineId, ((state.remaining machineId).map (·.containerId)).Nodup

theorem Selecting.Distinct.choose (hids : (current.map (·.containerId)).Nodup)
    (hremains : state.Remains current) (h : state.Distinct)
    (hfits : candidate.Fits requested options machines state) (sockets : HostSockets) :
    (state.choose candidate sockets).Distinct := by
  have hnamed : (state.choose candidate sockets).choices.flatMap (·.action.named) =
      state.choices.flatMap (·.action.named) ++ candidate.action.named := by
    simp [Selecting.choose]
  have hother : ∀ machineId, machineId ≠ candidate.machineId →
      (state.choose candidate sockets).remaining machineId = state.remaining machineId :=
    fun machineId hne => Function.update_of_ne hne _ _
  have hhere : (state.choose candidate sockets).remaining candidate.machineId =
      (state.remaining candidate.machineId).dropLast.filter fun container =>
        !candidate.preStops.contains container.containerId := Function.update_self _ _ _
  -- what the candidate names is left on its Machine
  have hsubset : ∀ id ∈ candidate.action.named, ∃ container ∈ state.remaining candidate.machineId,
      container.containerId = id := by
    intro id hid
    rcases hfits.named_eq with ⟨-, hnil⟩ | ⟨rest, container, hrest, hnamed, hsub, -⟩
    · rw [hnil] at hid
      cases hid
    · rw [hrest, ← List.mem_map]
      rw [hnamed] at hid
      rcases List.mem_cons.mp hid with rfl | hid
      · simp
      · exact hsub.subset hid
  have hnew : candidate.action.named.Nodup := by
    rcases hfits.named_eq with ⟨-, hnil⟩ | ⟨rest, container, hrest, hnamed, hsub, hnot⟩
    · simp [hnil]
    · have hnodup := h.nodup candidate.machineId
      rw [hrest] at hnodup
      rw [hnamed, List.nodup_cons]
      exact ⟨hnot, hnodup.sublist hsub⟩
  refine ⟨?_, fun machineId container hcontainer => ?_, fun machineId => ?_⟩
  · rw [hnamed, List.nodup_append]
    refine ⟨h.named, hnew, fun id hid other hother => ?_⟩
    obtain ⟨container, hcontainer, rfl⟩ := hsubset other hother
    rintro rfl
    exact h.left _ container hcontainer hid
  · rw [hnamed, List.mem_append, not_or]
    by_cases hsame : machineId = candidate.machineId
    · subst hsame
      rw [hhere, List.mem_filter] at hcontainer
      obtain ⟨hmem, hstops⟩ := hcontainer
      refine ⟨h.left _ container (List.dropLast_subset _ hmem), ?_⟩
      rcases hfits.named_eq with ⟨-, hnil⟩ | ⟨rest, last, hrest, hnamed, -⟩
      · simp [hnil]
      · have hnodup := h.nodup candidate.machineId
        rw [hrest, List.dropLast_concat] at hmem
        rw [hrest, List.map_append, List.nodup_append] at hnodup
        rw [hnamed, List.mem_cons, not_or]
        exact ⟨hnodup.2.2 _ (List.mem_map_of_mem hmem) _ (by simp), by simpa using hstops⟩
    · rw [hother machineId hsame] at hcontainer
      refine ⟨h.left _ container hcontainer, fun hid => ?_⟩
      -- containers left on two Machines are two containers
      obtain ⟨twin, htwin, hid⟩ := hsubset _ hid
      obtain ⟨hmem, hmachine⟩ := hremains _ container hcontainer
      obtain ⟨htwinMem, htwinMachine⟩ := hremains _ twin htwin
      obtain rfl := List.inj_on_of_nodup_map hids htwinMem hmem hid
      exact hsame (hmachine.symm.trans htwinMachine)
  · by_cases hsame : machineId = candidate.machineId
    · subst hsame
      rw [hhere]
      exact (h.nodup _).sublist ((List.filter_sublist.trans (List.dropLast_sublist _)).map _)
    · rw [hother machineId hsame]
      exact h.nodup machineId

def firstChange (choices : List ReplicaChoice) : Option MachineId :=
  (choices.find? (·.action.changes)).map (·.machineId)

/-- The hook goes with the first change. -/
structure Selecting.Hooked (hook : Bool) (state : Selecting) : Prop where
  pending : state.hookPending = (hook && (firstChange state.choices).isNone)
  machine : state.hookMachine = if hook then firstChange state.choices else none

theorem Selecting.Hooked.choose {hook : Bool} (h : state.Hooked hook)
    (hfits : candidate.Fits requested options machines state) (sockets : HostSockets) :
    (state.choose candidate sockets).Hooked hook := by
  have hchanges : candidate.action.changes = (candidate.operation != .unchanged) := by
    rcases hfits.operation_eq with ⟨hnone, hoperation⟩ | ⟨container, hsome, hoperation | hoperation⟩
    · simp [Candidate.action, hnone, hoperation, ReplicaAction.changes]
    · simp [Candidate.action, hsome, hoperation, ReplicaAction.changes]
    · simp [Candidate.action, hsome, hoperation, ReplicaAction.changes]
  have hfirst : firstChange (state.choose candidate sockets).choices =
      (firstChange state.choices).or
        (if candidate.action.changes then some candidate.machineId else none) := by
    cases hc : candidate.action.changes <;>
      cases hfind : state.choices.find? (·.action.changes) <;>
        simp [firstChange, Selecting.choose, List.find?_append, hc, hfind]
  have huses : candidate.demand.usesHook = (candidate.action.changes && state.hookPending) := by
    rw [hfits.demand, hchanges]
    rfl
  have hpending := h.pending
  have hmachine := h.machine
  constructor
  · show (state.hookPending && !candidate.demand.usesHook) = _
    rw [huses, hfirst, hpending]
    cases hook <;> cases firstChange state.choices <;> cases candidate.action.changes <;> rfl
  · show (if candidate.demand.usesHook = true then some candidate.machineId
      else state.hookMachine) = _
    rw [huses, hfirst, hpending, hmachine]
    cases hook <;> cases firstChange state.choices <;> cases candidate.action.changes <;> rfl

theorem distinct_of_selectReplicas {hook : Bool} {error : PlanError} {replicas : Nat}
    {later : Selecting} (hids : (current.map (·.containerId)).Nodup)
    (h : selectReplicas requested options machines error replicas state = .ok later)
    (hremains : state.Remains current) (hdistinct : state.Distinct) (hhooked : state.Hooked hook) :
    later.Distinct ∧ later.Hooked hook := by
  induction replicas generalizing state with
  | zero =>
    obtain rfl := Except.ok.inj h
    exact ⟨hdistinct, hhooked⟩
  | succ replicas ih =>
    obtain ⟨between, hstep, h⟩ := bind_eq_ok.mp h
    obtain ⟨candidate, sockets, -, hfits, -, rfl⟩ := selectReplica_eq_ok hstep
    exact ih h (hremains.choose candidate sockets) (hdistinct.choose hids hremains hfits sockets)
      (hhooked.choose hfits sockets)

/-- A selection names no container twice, and its hook is on the Machine of its first change. -/
theorem distinct_of_selectReplicated {occupancy : MachineId → Nat} {capacity later : CapacityBudget}
    {sockets rest : HostSockets} {error : PlanError} {reservation : ReplicatedReservation}
    (hids : (current.map (·.containerId)).Nodup)
    (h : selectReplicated requested options current machines occupancy capacity sockets error =
      .ok (reservation, later, rest)) :
    (reservation.choices.flatMap (·.action.named)).Nodup ∧
      reservation.hookMachine =
        if requested.preDeploy.isSome then firstChange reservation.choices else none := by
  unfold selectReplicated at h
  split at h
  · cases h
  · dsimp only at h
    split_ifs at h
    obtain ⟨state, hstate, h⟩ := bind_eq_ok.mp h
    obtain ⟨rfl, -⟩ := Prod.mk.inj (pure_eq_ok.mp h)
    have hnodup : ∀ machineId,
        ((byMachine requested options current machineId).map (·.containerId)).Nodup := by
      intro machineId
      have hperm : (byMachine requested options current machineId).Perm
          (current.filter (·.machineId == machineId)) := by
        simpa [byMachine] using List.perm_append_comm.trans
          (List.filter_append_perm (isUpToDate · requested options)
            (current.filter (·.machineId == machineId)))
      exact (hperm.map _).nodup_iff.mpr (hids.sublist (List.filter_sublist.map _))
    obtain ⟨hdistinct, hhooked⟩ := distinct_of_selectReplicas hids hstate
      (fun _ _ => mem_byMachine.mp) ⟨List.nodup_nil, fun _ _ _ => List.not_mem_nil, hnodup⟩
      (show Selecting.Hooked requested.preDeploy.isSome _ from
        ⟨by simp [firstChange], by simp [firstChange]⟩)
    exact ⟨hdistinct.named, hhooked.machine⟩

end

/-! ## What the operations do -/

namespace DeployOperation

def replaces : DeployOperation → Option (MachineId × ContainerId)
  | replaceContainer machineId containerId _ _ => some (machineId, containerId)
  | _ => none

def creates : DeployOperation → Option MachineId
  | runContainer machineId _ _ => some machineId
  | _ => none

def removes : DeployOperation → Option (MachineId × ContainerId)
  | removeContainer machineId containerId => some (machineId, containerId)
  | _ => none

def stops : DeployOperation → Option (MachineId × ContainerId)
  | stopContainer machineId containerId _ => some (machineId, containerId)
  | _ => none

def starts (operation : DeployOperation) : Bool :=
  operation.replaces.isSome || operation.creates.isSome

def runsHook : DeployOperation → Bool
  | runHook _ _ _ => true
  | _ => false

end DeployOperation

namespace ReplicaChoice

def kept (choice : ReplicaChoice) : List (MachineId × ContainerId) :=
  match choice.action with
  | .unchanged containerId => [(choice.machineId, containerId)]
  | _ => []

def replaced (choice : ReplicaChoice) : List (MachineId × ContainerId) :=
  match choice.action with
  | .replace containerId _ => [(choice.machineId, containerId)]
  | _ => []

def created (choice : ReplicaChoice) : List MachineId :=
  match choice.action with
  | .create => [choice.machineId]
  | _ => []

def stopped (choice : ReplicaChoice) : List (MachineId × ContainerId) :=
  match choice.action with
  | .replace _ preStops => preStops.map (choice.machineId, ·)
  | _ => []

end ReplicaChoice

def ContainerObservation.place (container : ContainerObservation) : MachineId × ContainerId :=
  (container.machineId, container.containerId)

section

variable {requested : RequestedServiceSpec} {options : PlanOptions} {serviceId : ServiceId}
  {current : List ContainerObservation} {choices : List ReplicaChoice}

theorem filterMap_choices {β : Type} {f : DeployOperation → Option β} {g : ReplicaChoice → List β}
    (h : ∀ choice, ((Act.ofChoice current choice).operations requested options
      serviceId).filterMap f = g choice) (choices : List ReplicaChoice) :
    ((choices.map (Act.ofChoice current)).flatMap
      (·.operations requested options serviceId)).filterMap f = choices.flatMap g := by
  rw [List.flatMap_map, List.filterMap_flatMap]
  exact congrArg (choices.flatMap ·) (funext h)

theorem ofChoice_does (choice : ReplicaChoice) :
    ((Act.ofChoice current choice).operations requested options serviceId).filterMap
        DeployOperation.replaces = choice.replaced ∧
      ((Act.ofChoice current choice).operations requested options serviceId).filterMap
        DeployOperation.creates = choice.created ∧
      ((Act.ofChoice current choice).operations requested options serviceId).filterMap
        DeployOperation.stops = choice.stopped ∧
      ((Act.ofChoice current choice).operations requested options serviceId).filterMap
        DeployOperation.removes = [] := by
  obtain ⟨machineId, action⟩ := choice
  cases action <;> simp [Act.ofChoice, Act.operations, Act.stops, Act.start, Function.comp_def,
    ReplicaChoice.replaced, ReplicaChoice.created, ReplicaChoice.stopped, DeployOperation.replaces,
    DeployOperation.creates, DeployOperation.stops, DeployOperation.removes, List.filterMap_map]

theorem length_choices (choices : List ReplicaChoice) :
    (choices.flatMap (·.kept)).length + (choices.flatMap (·.replaced)).length +
      (choices.flatMap (·.created)).length = choices.length := by
  induction choices with
  | nil => rfl
  | cons choice choices ih =>
    obtain ⟨machineId, action⟩ := choice
    cases action <;>
      simp only [List.flatMap_cons, List.length_append, List.length_cons, ReplicaChoice.kept,
        ReplicaChoice.replaced, ReplicaChoice.created, List.length_nil] at ih ⊢ <;> omega

/-- What is kept, replaced and stopped is what is named. -/
theorem named_perm (choices : List ReplicaChoice) :
    ((choices.flatMap (·.kept) ++ choices.flatMap (·.replaced) ++
      choices.flatMap (·.stopped)).map (·.2)).Perm (choices.flatMap (·.action.named)) := by
  have hnamed : (choices.flatMap (·.action.named)) =
      (choices.flatMap fun choice => choice.kept ++ choice.replaced ++ choice.stopped).map
        (·.2) := by
    rw [List.map_flatMap]
    refine congrArg (choices.flatMap ·) (funext fun choice => ?_)
    obtain ⟨machineId, action⟩ := choice
    cases action <;> simp [ReplicaAction.named, ReplicaChoice.kept, ReplicaChoice.replaced,
      ReplicaChoice.stopped, Function.comp_def]
  rw [hnamed]
  refine List.Perm.map _ (.trans ?_ (List.flatMap_append_perm _ _ _))
  exact (List.flatMap_append_perm _ _ _).append_right _

theorem used_eq (choices : List ReplicaChoice) :
    (choices.map (Act.ofChoice current)).filterMap Act.containerId? =
      (choices.flatMap fun choice => choice.kept ++ choice.replaced).map (·.2) := by
  induction choices with
  | nil => rfl
  | cons choice choices ih =>
    obtain ⟨machineId, action⟩ := choice
    rw [List.flatMap_cons, List.map_append, ← ih]
    cases action <;> rfl

/-- Choices are of the Service's containers where they are. -/
theorem places_of_chosen {choice : ReplicaChoice} (h : Chosen requested options current choice)
    {place : MachineId × ContainerId}
    (hplace : place ∈ choice.kept ++ choice.replaced ++ choice.stopped) :
    place ∈ current.map (·.place) := by
  cases h with
  | unchanged hmem hupToDate =>
    simp only [ReplicaChoice.kept, ReplicaChoice.replaced, ReplicaChoice.stopped, List.append_nil,
      List.mem_singleton] at hplace
    exact hplace ▸ List.mem_map_of_mem hmem
  | replace hmem hupToDate hpreStops =>
    simp only [ReplicaChoice.kept, ReplicaChoice.replaced, ReplicaChoice.stopped, List.nil_append,
      List.singleton_append, List.mem_cons, List.mem_map] at hplace
    rcases hplace with rfl | ⟨id, hid, rfl⟩
    · exact List.mem_map_of_mem hmem
    · obtain ⟨sibling, hsibling, hmachine, rfl⟩ := hpreStops id hid
      exact hmachine ▸ List.mem_map_of_mem hsibling
  | create machineId => cases hplace

/-! ## The hook -/

theorem startMachine_append {before : List DeployOperation}
    (h : ∀ operation ∈ before, operation.starts = false) (after : List DeployOperation) :
    startMachine (before ++ after) = startMachine after := by
  induction before with
  | nil => rfl
  | cons operation before ih =>
    have hoperation := h operation List.mem_cons_self
    have hrest := ih fun other hother => h other (List.mem_cons_of_mem _ hother)
    cases operation with
    | runContainer => cases hoperation
    | replaceContainer => cases hoperation
    | _ => exact hrest

/-- The first container the operations start is that of the first change. -/
theorem startMachine_choices (choices : List ReplicaChoice) {after : List DeployOperation}
    (h : ∀ operation ∈ after, operation.starts = false) :
    startMachine ((choices.map (Act.ofChoice current)).flatMap
      (·.operations requested options serviceId) ++ after) = firstChange choices := by
  induction choices with
  | nil =>
    have hafter := startMachine_append h []
    rw [List.append_nil] at hafter
    exact hafter
  | cons choice choices ih =>
    obtain ⟨machineId, action⟩ := choice
    cases action with
    | unchanged containerId => exact ih
    | create => rfl
    | replace containerId preStops =>
      rw [List.map_cons, List.flatMap_cons, List.append_assoc, Act.operations, List.append_assoc,
        startMachine_append]
      · rfl
      · intro operation hoperation
        obtain ⟨id, -, rfl⟩ := List.mem_map.mp hoperation
        rfl

/-- A hook on the Machine of the first start finds it. -/
theorem hookTarget_startMachine (operations : List DeployOperation) :
    (hookTarget (startMachine operations) operations).isSome = operations.any (·.starts) := by
  induction operations with
  | nil => rfl
  | cons operation operations ih =>
    cases operation with
    | runContainer => simp [startMachine, hookTarget, DeployOperation.starts,
        DeployOperation.creates]
    | replaceContainer =>
      simp [startMachine, hookTarget, DeployOperation.starts, DeployOperation.replaces]
    | _ => simpa [startMachine, hookTarget, DeployOperation.starts, DeployOperation.replaces,
        DeployOperation.creates] using ih

theorem runsHook_preDeploy (requested : RequestedServiceSpec) (hooks : List ContainerObservation)
    (operations : List DeployOperation) (hookMachine : Option MachineId) :
    (preDeployOperations requested hooks operations hookMachine).countP (·.runsHook) =
        (requested.preDeploy.isSome && (hookTarget hookMachine operations).isSome).toNat ∧
      (preDeployOperations requested hooks operations hookMachine).any (·.starts) = false := by
  unfold preDeployOperations
  cases requested.preDeploy with
  | none => exact ⟨rfl, rfl⟩
  | some hook =>
    cases hookTarget hookMachine operations with
    | none => exact ⟨rfl, rfl⟩
    | some target =>
      simp [List.countP_map, Function.comp_def, DeployOperation.runsHook, DeployOperation.starts,
        DeployOperation.replaces, DeployOperation.creates]

end

/-! ## The plan -/

/-- The reservation a plan starts from, if it has one, was selected for the Service's containers. -/
def CapacityAdmission.Selected (requested : RequestedServiceSpec) (options : PlanOptions)
    (current : List ContainerObservation) : CapacityAdmission → Prop
  | .pending _ => True
  | .reserved reservation => ∃ machines occupancy capacity sockets error later rest,
    selectReplicated requested options current machines occupancy capacity sockets error =
      .ok (reservation, later, rest)

/-- Operations that leave the containers `kept` alone and make up `replicas` with them. -/
structure Accounted (current : List ContainerObservation) (replicas : Nat)
    (kept : List (MachineId × ContainerId)) (operations : List DeployOperation) : Prop where
  count : kept.length + (operations.filterMap (·.replaces)).length +
    (operations.filterMap (·.creates)).length = replicas
  once : (kept ++ operations.filterMap (·.replaces)).Nodup
  existing : kept ++ operations.filterMap (·.replaces) ⊆ current.map (·.place)
  removed : operations.filterMap (·.removes) = (current.map (·.place)).filter
    (· ∉ kept ++ operations.filterMap (·.replaces))
  early : ∃ changes removals, operations = changes ++ removals ∧ removals.filterMap (·.stops) = [] ∧
    changes.filterMap (·.stops) ⊆ removals.filterMap (·.removes)

theorem accounted_of_laid {requested : RequestedServiceSpec} {options : PlanOptions}
    {serviceId : ServiceId} {current : List ContainerObservation} {choices : List ReplicaChoice}
    {sockets later : HostSockets} {operations : List DeployOperation}
    (hids : (current.map (·.containerId)).Nodup)
    (hchosen : ∀ choice ∈ choices, Chosen requested options current choice)
    (hnamed : (choices.flatMap (·.action.named)).Nodup)
    (h : Laid requested options serviceId current (choices.map (Act.ofChoice current)) sockets
      operations later) :
    Accounted current choices.length (choices.flatMap (·.kept)) operations := by
  have hremovals : ∀ {β : Type} (f : DeployOperation → Option β),
      (∀ container, f (removal container) = none) → ∀ containers : List ContainerObservation,
        (containers.map removal).filterMap f = [] := by
    intro β f hf containers
    rw [List.filterMap_map, List.filterMap_eq_nil_iff]
    exact fun container _ => hf container
  have hreplaces : operations.filterMap (·.replaces) = choices.flatMap (·.replaced) := by
    rw [h.operations, List.filterMap_append, filterMap_choices fun choice =>
      (ofChoice_does choice).1, hremovals _ fun _ => rfl, List.append_nil]
  have hcreates : operations.filterMap (·.creates) = choices.flatMap (·.created) := by
    rw [h.operations, List.filterMap_append, filterMap_choices fun choice =>
      (ofChoice_does choice).2.1, hremovals _ fun _ => rfl, List.append_nil]
  have hall : ((choices.flatMap (·.kept) ++ choices.flatMap (·.replaced) ++
      choices.flatMap (·.stopped)).map (·.2)).Nodup := (named_perm choices).nodup_iff.mpr hnamed
  rw [List.map_append, List.nodup_append] at hall
  obtain ⟨htaken, -, hapart⟩ := hall
  have hplaces : ∀ place ∈ choices.flatMap (·.kept) ++ choices.flatMap (·.replaced) ++
      choices.flatMap (·.stopped), place ∈ current.map (·.place) := by
    intro place hplace
    simp only [List.mem_append, List.mem_flatMap, ← exists_or, ← and_or_left] at hplace
    obtain ⟨choice, hchoice, hplace⟩ := hplace
    exact places_of_chosen (hchosen choice hchoice) (by simpa [or_assoc] using hplace)
  -- a container is used if its place is taken, since no other container has its ID
  have hused : ∀ container ∈ current, container.containerId ∈
      (choices.map (Act.ofChoice current)).filterMap Act.containerId? ↔
        container.place ∈ choices.flatMap (·.kept) ++ choices.flatMap (·.replaced) := by
    intro container hcontainer
    rw [used_eq, (List.Perm.map _ (List.flatMap_append_perm _ _ _)).mem_iff.symm]
    constructor
    · intro hid
      obtain ⟨place, hplace, hid⟩ := List.mem_map.mp hid
      obtain ⟨other, hother, rfl⟩ := List.mem_map.mp (hplaces place (List.mem_append_left _ hplace))
      obtain rfl := List.inj_on_of_nodup_map hids hother hcontainer hid
      exact hplace
    · exact fun hplace => List.mem_map.mpr ⟨_, hplace, rfl⟩
  have hunused : ((unused current (choices.map (Act.ofChoice current))).map removal).filterMap
      (·.removes) = (current.map (·.place)).filter
        (· ∉ choices.flatMap (·.kept) ++ choices.flatMap (·.replaced)) := by
    have hmap : ∀ containers : List ContainerObservation,
        (containers.map removal).filterMap (·.removes) = containers.map (·.place) := by
      intro containers
      rw [List.filterMap_map, ← List.filterMap_eq_map]
      rfl
    rw [hmap, List.filter_map, unused]
    refine congrArg _ (List.filter_congr fun container hcontainer => ?_)
    rw [Bool.eq_iff_iff, Function.comp_apply, decide_eq_true_iff, ← hused container hcontainer,
      Bool.not_eq_true', ← Bool.not_eq_true, List.contains_iff_mem]
  have hchanges : ((choices.map (Act.ofChoice current)).flatMap
      (·.operations requested options serviceId)).filterMap (·.removes) = [] := by
    rw [filterMap_choices (g := fun _ => []) fun choice => (ofChoice_does choice).2.2.2]
    simp
  refine ⟨?_, ?_, ?_, ?_, _, _, h.operations, hremovals _ (fun _ => rfl) _, ?_⟩
  · rw [hreplaces, hcreates]
    exact length_choices choices
  · rw [hreplaces]
    exact htaken.of_map _
  · rw [hreplaces]
    exact fun place hplace => hplaces place (List.mem_append_left _ hplace)
  · rw [hreplaces, ← hunused, h.operations, List.filterMap_append, hchanges, List.nil_append]
  · rw [hunused, filterMap_choices fun choice => (ofChoice_does choice).2.2.1]
    intro place hplace
    refine List.mem_filter.mpr ⟨hplaces place (List.mem_append_right _ hplace), ?_⟩
    refine decide_eq_true fun htaken => ?_
    exact hapart _ (List.mem_map_of_mem htaken) _ (List.mem_map_of_mem hplace) rfl

/-- A replicated Service's plan, with its hook, for any containers with distinct IDs. -/
theorem replicas_accounted {requested : RequestedServiceSpec} {options : PlanOptions}
    {serviceId : ServiceId} {current : List ContainerObservation}
    {machines : List MachineObservation} {admission : CapacityAdmission}
    {placement later : PlacementState} {operations : List DeployOperation}
    {hookMachine : Option MachineId} {replicas : ℕ+}
    (hmode : requested.mode = .replicated replicas)
    (hids : (current.map (·.containerId)).Nodup)
    (hadmission : admission.Selected requested options current)
    (hplan : planReplicated requested options serviceId current machines admission placement =
      .ok (later, operations, hookMachine)) (hooks : List ContainerObservation) :
    (∃ kept, Accounted current replicas kept operations) ∧
      (preDeployOperations requested hooks operations hookMachine ++ operations).countP
          (·.runsHook) =
        (requested.preDeploy.isSome && operations.any (·.starts)).toNat ∧
      (preDeployOperations requested hooks operations hookMachine).any (·.starts) = false ∧
      operations.countP (·.runsHook) = 0 := by
  obtain ⟨reservation, rfl, hadmitted, hlaid, -⟩ := laid_of_planReplicated hplan
  obtain ⟨among, occupancy, capacity, sockets, error, left, rest, hselected⟩ :
      ∃ machines occupancy capacity sockets error later rest,
        selectReplicated requested options current machines occupancy capacity sockets error =
          .ok (reservation, later, rest) := by
    rcases hadmitted with rfl | ⟨error, capacity, sockets, rfl, hselected⟩
    · exact hadmission
    · exact ⟨_, _, _, _, _, _, _, hselected⟩
  obtain ⟨count, hcount, hlength, hchosen⟩ := chosen_of_selectReplicated hselected
  obtain ⟨hnamed, hhook⟩ := distinct_of_selectReplicated hids hselected
  obtain rfl := ServiceMode.replicated.inj (hmode.symm.trans hcount)
  have haccounted := accounted_of_laid hids (fun choice h => (hchosen choice h).1) hnamed hlaid
  rw [hlength] at haccounted
  obtain ⟨hruns, hstarts⟩ := runsHook_preDeploy requested hooks operations reservation.hookMachine
  have hnone : operations.countP (·.runsHook) = 0 := by
    rw [List.countP_eq_zero, hlaid.operations]
    intro operation hoperation
    rcases List.mem_append.mp hoperation with hchange | hremoval
    · rw [List.flatMap_map] at hchange
      obtain ⟨choice, -, hchange⟩ := List.mem_flatMap.mp hchange
      obtain ⟨machineId, action⟩ := choice
      cases action <;> simp [Act.ofChoice, Act.operations, Act.stops, Act.start] at hchange
      · rcases hchange with ⟨id, -, rfl⟩ | rfl <;> simp [DeployOperation.runsHook]
      · simp [hchange, DeployOperation.runsHook]
    · obtain ⟨container, -, rfl⟩ := List.mem_map.mp hremoval
      simp [removal, DeployOperation.runsHook]
  have htarget : requested.preDeploy.isSome = true →
      (hookTarget reservation.hookMachine operations).isSome = operations.any (·.starts) := by
    intro hset
    have hstart : startMachine operations = firstChange reservation.choices := by
      rw [hlaid.operations]
      refine startMachine_choices _ fun operation hoperation => ?_
      obtain ⟨container, -, rfl⟩ := List.mem_map.mp hoperation
      rfl
    rw [hhook, if_pos hset, ← hstart]
    exact hookTarget_startMachine operations
  refine ⟨⟨_, haccounted⟩, ?_, hstarts, hnone⟩
  rw [List.countP_append, hruns, hnone, Nat.add_zero]
  cases hset : requested.preDeploy.isSome with
  | false => rfl
  | true => rw [htarget hset]

namespace Sample

/-- One replica of the web Service, with a hook. -/
def hooked (image : String) : RequestedServiceSpec :=
  { spec web single image [] with preDeploy := some ⟨["migrate"], [], none, none, none⟩ }

def unmeasured : PlacementState := ⟨fun _ => 0, ⟨none⟩, ⟨[]⟩, fun _ => none⟩

/-- The containers of the web Service on two Machines, by their IDs. -/
def pair (first second : ContainerId) : List ContainerObservation :=
  [running first "m1" shop 1 (hooked "web:1"), running second "m2" shop 2 (hooked "web:1")]

def planPair (image : String) (first second : ContainerId) :
    Except PlanError (PlacementState × List DeployOperation × Option MachineId) :=
  planReplicated (hooked image) (applying []) "web" (pair first second) [machine "m1"]
    (.pending .insufficientCapacity) unmeasured

/-- A new image replaces the container on the Machine left, after the hook. -/
theorem pair_accounted : ∃ later operations hookMachine,
    planPair "web:2" "a" "b" = .ok (later, operations, hookMachine) ∧
    operations.filterMap (·.removes) = [("m2", "b")] ∧
    (preDeployOperations (hooked "web:2") [] operations hookMachine ++ operations).countP
      (·.runsHook) = 1 ∧
    ∃ kept, Accounted (pair "a" "b") 1 kept operations := by
  obtain ⟨⟨later, operations, hookMachine⟩, hplan, hremoved, hstarts⟩ := exists_ok
    (fun result : PlacementState × List DeployOperation × Option MachineId =>
      result.2.1.filterMap (·.removes) = [("m2", "b")] ∧ result.2.1.any (·.starts) = true)
    (by decide +kernel : succeeds (planPair "web:2" "a" "b") _ = true)
  obtain ⟨haccounted, hhook, -⟩ := replicas_accounted rfl (by decide) (by trivial) hplan []
  refine ⟨later, operations, hookMachine, hplan, hremoved, ?_, haccounted⟩
  rw [hhook, hstarts]
  rfl

/-- Two containers with one ID: the first is kept, and the second is neither kept nor removed. -/
theorem twin_is_left : succeeds (planPair "web:1" "a" "a") (fun result => result.2.1 = []) = true ∧
    ¬ ∃ kept, Accounted (pair "a" "a") 1 kept [] := by
  refine ⟨by decide +kernel, ?_⟩
  rintro ⟨kept, haccounted⟩
  obtain ⟨only, rfl⟩ := List.length_eq_one_iff.mp (show kept.length = 1 from haccounted.count)
  have hremoved := haccounted.removed.symm
  simp only [List.filterMap_nil, List.append_nil] at hremoved
  rw [List.filter_eq_nil_iff] at hremoved
  have hfirst := hremoved ("m1", "a") (by decide)
  have hsecond := hremoved ("m2", "a") (by decide)
  simp only [List.mem_singleton, decide_not, Bool.not_eq_true', decide_eq_false_iff_not,
    not_not] at hfirst hsecond
  exact absurd (hfirst.trans hsecond.symm) (by decide)

end Sample

end Ployz.Deploy
