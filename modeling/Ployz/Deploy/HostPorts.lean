import Ployz.Deploy.Replay

/-!
# Host ports during a Deploy

The socket claims of a plan cover the containers of its replay: every active Service Container has a
claim on its Machine for its ports. What releases a claim also stops its container, and a container
starts where no claim that is left conflicts. So no container is started against an active one's
host ports (`ports_free_in_plan`).
-/

namespace Ployz.Deploy

open Run Trace

/-- Every active Service Container has a claim for its ports, its own or one without an owner. -/
def Covered (sockets : HostSockets) (world : World) : Prop :=
  ∀ container ∈ world.containers, container.isService = true → container.isActive = true →
    ∃ claim ∈ sockets.claims, claim.machineId = container.machineId ∧
      (claim.owner = none ∨ claim.owner = some container.containerId) ∧
      claim.ports = container.resolvedSpec.ports

/-- No active Service Container on the Machine of a container that starts has a port that conflicts
with its ports. -/
def PortsFree (world : World) (action : Action) : Prop :=
  ∀ machineId ports, action.publishes = some (machineId, ports) →
    ∀ container ∈ world.containers, container.machineId = machineId → container.isService = true →
      container.isActive = true → portsConflict container.resolvedSpec.ports ports = false

/-- No claim on a Machine conflicts with the ports. -/
def HostSockets.FreeFor (sockets : HostSockets) (machineId : MachineId)
    (ports : List PortPublication) : Prop :=
  ∀ claim ∈ sockets.claims, claim.machineId = machineId → portsConflict claim.ports ports = false

/-- The claims with one more, of a container this Deploy starts. -/
def HostSockets.claim (sockets : HostSockets) (machineId : MachineId)
    (ports : List PortPublication) : HostSockets :=
  ⟨sockets.claims ++ [⟨machineId, none, ports⟩]⟩

theorem covered_ofSnapshot (snapshot : DeploySnapshot) :
    Covered (.fromSnapshot snapshot) (.ofSnapshot snapshot) := by
  intro container hcontainer hservice hactive
  refine ⟨_, List.mem_map.mpr ⟨container, List.mem_filter.mpr ⟨hcontainer, ?_⟩, rfl⟩,
    rfl, .inr rfl, rfl⟩
  rw [hservice, hactive]
  rfl

theorem isActive_stopped (container : ContainerObservation) :
    container.stopped.isActive = false := by
  unfold ContainerObservation.stopped
  split_ifs with hactive
  · rfl
  · simpa using hactive

section

variable {owner : Namespace} {births : Nat → Birth} {sockets : HostSockets}

/-- Actions that start no container against a claim, and take the claims from one list to another.
-/
def Keeps (owner : Namespace) (births : Nat → Birth) (sockets : HostSockets) (actions : List Action)
    (later : HostSockets) : Prop :=
  ∀ world, Covered sockets world → Along (World.step owner births) PortsFree world actions ∧
    Covered later (world.replay owner births actions)

variable {later : HostSockets} {machineId : MachineId} {containerId : ContainerId}
  {spec : ResolvedServiceSpec}

namespace Keeps

theorem nil (sockets : HostSockets) : Keeps owner births sockets [] sockets :=
  fun _ hcovered => ⟨trivial, hcovered⟩

theorem append {between : HostSockets} {actions rest : List Action}
    (h : Keeps owner births sockets actions between) (h' : Keeps owner births between rest later) :
    Keeps owner births sockets (actions ++ rest) later := by
  intro world hcovered
  obtain ⟨hfree, hbetween⟩ := h world hcovered
  obtain ⟨hrest, hlater⟩ := h' _ hbetween
  refine ⟨along_append.mpr ⟨hfree, hrest⟩, ?_⟩
  unfold World.replay
  rw [List.foldl_append]
  exact hlater

theorem cons {between later : HostSockets} {action : Action} {rest : List Action}
    (h : Keeps owner births sockets [action] between) (h' : Keeps owner births between rest later) :
    Keeps owner births sockets (action :: rest) later :=
  append h h'

variable {world : World} {container : ContainerObservation}

/-- Claims stay with containers other than one that goes, however it goes. -/
theorem release {later : World} (machineId : MachineId) (containerId : ContainerId)
    (hcovered : Covered sockets world)
    (hleft : ∀ container ∈ later.containers, container.isActive = true →
      container ∈ world.containers ∧ container.isAt machineId containerId = false) :
    Covered (sockets.release machineId containerId) later := by
  intro container hcontainer hservice hactive
  obtain ⟨hmem, haway⟩ := hleft container hcontainer hactive
  obtain ⟨claim, hclaim, hmachine, howner, hports⟩ := hcovered container hmem hservice hactive
  refine ⟨claim, List.mem_filter.mpr ⟨hclaim, ?_⟩, hmachine, howner, hports⟩
  by_contra hgone
  obtain ⟨hsame, hsameOwner⟩ : claim.machineId = machineId ∧ claim.owner = some containerId := by
    simpa using hgone
  have hid : container.containerId = containerId := by
    rcases howner with hnone | hsome
    · rw [hnone] at hsameOwner
      cases hsameOwner
    · exact Option.some.inj (hsome.symm.trans hsameOwner)
  simp [ContainerObservation.isAt, ← hmachine, hsame, hid] at haway

theorem mem_stop (owner : Namespace) (births : Nat → Birth)
    (h : container ∈ (world.step owner births (.stop machineId containerId)).containers)
    (hactive : container.isActive = true) :
    container ∈ world.containers ∧ container.isAt machineId containerId = false := by
  obtain ⟨earlier, hearlier, hsame⟩ := List.mem_map.mp h
  split_ifs at hsame with hat
  · rw [← hsame, isActive_stopped] at hactive
    cases hactive
  · subst hsame
    exact ⟨hearlier, by simpa using hat⟩

theorem mem_remove (owner : Namespace) (births : Nat → Birth)
    (h : container ∈ (world.step owner births (.remove machineId containerId)).containers) :
    container ∈ world.containers ∧ container.isAt machineId containerId = false := by
  obtain ⟨hmem, hstays⟩ := List.mem_filter.mp h
  exact ⟨hmem, by simpa using hstays⟩

theorem portsFree_of_none {action : Action} (h : action.publishes = none) :
    PortsFree world action := by
  intro machineId ports hpublishes
  rw [h] at hpublishes
  cases hpublishes

theorem stop_release (sockets : HostSockets) (machineId : MachineId) (containerId : ContainerId) :
    Keeps owner births sockets [.stop machineId containerId]
      (sockets.release machineId containerId) :=
  fun _ hcovered => ⟨⟨portsFree_of_none rfl, trivial⟩,
    release machineId containerId hcovered fun _ hmem hactive => mem_stop owner births hmem hactive⟩

theorem stop (sockets : HostSockets) (machineId : MachineId) (containerId : ContainerId) :
    Keeps owner births sockets [.stop machineId containerId] sockets :=
  fun _ hcovered => ⟨⟨portsFree_of_none rfl, trivial⟩, fun container hmem hservice hactive =>
    hcovered container (mem_stop owner births hmem hactive).1 hservice hactive⟩

theorem remove (sockets : HostSockets) (machineId : MachineId) (containerId : ContainerId) :
    Keeps owner births sockets [.remove machineId containerId] sockets :=
  fun _ hcovered => ⟨⟨portsFree_of_none rfl, trivial⟩, fun container hmem =>
    hcovered container (mem_remove owner births hmem).1⟩

theorem free_of_covered (hcovered : Covered sockets world) {ports : List PortPublication}
    (hfree : sockets.FreeFor machineId ports) (hcontainer : container ∈ world.containers)
    (hmachine : container.machineId = machineId) (hservice : container.isService = true)
    (hactive : container.isActive = true) :
    portsConflict container.resolvedSpec.ports ports = false := by
  obtain ⟨claim, hclaim, hsame, -, hports⟩ := hcovered container hcontainer hservice hactive
  rw [← hports]
  exact hfree claim hclaim (hsame.trans hmachine)

/-- A container that starts is covered by a new claim. -/
theorem covered_claim {later : World} {ports : List PortPublication}
    (hcovered : Covered sockets world)
    (hnew : ∀ container ∈ later.containers, container ∈ world.containers ∨
      (container.machineId = machineId ∧ container.resolvedSpec.ports = ports)) :
    Covered (sockets.claim machineId ports) later := by
  intro container hcontainer hservice hactive
  rcases hnew container hcontainer with hmem | ⟨hmachine, hports⟩
  · obtain ⟨claim, hclaim, hrest⟩ := hcovered container hmem hservice hactive
    exact ⟨claim, List.mem_append_left _ hclaim, hrest⟩
  · exact ⟨_, List.mem_append_right _ (List.mem_singleton.mpr rfl), hmachine.symm, .inl rfl,
      hports.symm⟩

theorem create (hfree : sockets.FreeFor machineId spec.ports) :
    Keeps owner births sockets [.create machineId .serviceContainer spec]
      (sockets.claim machineId spec.ports) := by
  refine fun world hcovered => ⟨⟨?_, trivial⟩, covered_claim hcovered fun container hmem => ?_⟩
  · rintro _ _ ⟨rfl, rfl⟩ container hcontainer hmachine hservice hactive
    exact free_of_covered hcovered hfree hcontainer hmachine hservice hactive
  · rcases mem_create.mp hmem with hmem | rfl
    · exact .inl hmem
    · exact .inr ⟨rfl, rfl⟩

theorem run (hfree : sockets.FreeFor machineId spec.ports) :
    Keeps owner births sockets [.run machineId spec] (sockets.claim machineId spec.ports) := by
  refine fun world hcovered => ⟨⟨?_, trivial⟩, covered_claim hcovered fun container hmem => ?_⟩
  · rintro _ _ ⟨rfl, rfl⟩ container hcontainer hmachine hservice hactive
    exact free_of_covered hcovered hfree hcontainer hmachine hservice hactive
  · change container ∈ (World.step owner births world (.run machineId spec)).containers at hmem
    unfold World.step at hmem
    dsimp only at hmem
    split at hmem
    · rename_i found hfound
      obtain ⟨earlier, hearlier, rfl⟩ := List.mem_map.mp hmem
      split_ifs with hsame
      · unfold World.keyed at hfound
        split_ifs at hfound
        have hkeyed := List.find?_some hfound
        simp only [Bool.and_eq_true, beq_iff_eq] at hkeyed
        obtain ⟨⟨⟨⟨hmachine, -⟩, -⟩, hspec⟩, -⟩ := hkeyed
        refine .inr ⟨?_, ?_⟩
        · rw [(ContainerObservation.Was.started earlier).machineId, hsame, hmachine]
        · rw [(ContainerObservation.Was.started earlier).resolvedSpec, hsame, hspec]
      · exact .inl hearlier
    · rcases mem_create.mp hmem with hmem | rfl
      · exact .inl hmem
      · exact .inr ⟨rfl, rfl⟩

theorem createHook (sockets : HostSockets) (machineId : MachineId) (spec : ResolvedServiceSpec) :
    Keeps owner births sockets [.create machineId .preDeployHook spec] sockets := by
  refine fun world hcovered => ⟨⟨?_, trivial⟩, fun container hmem hservice hactive => ?_⟩
  · rintro _ _ ⟨rfl, rfl⟩ container - - - -
    exact portsConflict_of_no_host rfl
  · rcases mem_create.mp hmem with hmem | rfl
    · exact hcovered container hmem hservice hactive
    · cases hservice

theorem stops_release (machineId : MachineId) (containerIds : List ContainerId)
    (sockets : HostSockets) :
    Keeps owner births sockets (containerIds.map (.stop machineId))
      (containerIds.foldl (fun sockets containerId => sockets.release machineId containerId)
        sockets) := by
  induction containerIds generalizing sockets with
  | nil => exact nil sockets
  | cons containerId containerIds ih => exact cons (stop_release _ _ _) (ih _)

theorem flatMap {α : Type} {f : α → List Action} {xs : List α}
    (h : ∀ x ∈ xs, Keeps owner births sockets (f x) sockets) :
    Keeps owner births sockets (xs.flatMap f) sockets := by
  induction xs with
  | nil => exact nil sockets
  | cons x xs ih =>
    rw [List.flatMap_cons]
    exact append (h x List.mem_cons_self) (ih fun y hy => h y (List.mem_cons_of_mem x hy))

end Keeps

/-! ## Placing a Service -/

variable {requested : RequestedServiceSpec} {options : PlanOptions} {serviceId : ServiceId}

variable {existing : Option ContainerObservation}

/-- What admission checks: claims but those of a container that is stopped before. -/
theorem admit_eq_ok {operation : EndpointOperation} (hoperation : operation ≠ .unchanged)
    (h : sockets.admitPorts machineId requested existing operation = .ok later) :
    (∀ claim ∈ sockets.claims, claim.machineId = machineId →
      (∀ container, existing = some container →
        determineUpdateOrder (some container) requested = .stopFirst →
        claim.owner ≠ some container.containerId) →
      portsConflict claim.ports requested.ports = false) ∧
    later = (match existing with
      | some container => sockets.release machineId container.containerId
      | none => sockets).claim machineId requested.ports := by
  unfold HostSockets.admitPorts at h
  split_ifs at h with hfits hchanges
  · refine ⟨fun claim hclaim hmachine howner => ?_, (Except.ok.inj h).symm⟩
    by_contra hconflict
    refine hfits ?_
    unfold HostSockets.fits
    rw [beq_eq_false_iff_ne.mpr hoperation]
    simp only [Bool.false_or, Bool.not_not]
    refine List.any_eq_true.mpr ⟨claim, hclaim, ?_⟩
    have hkept : ((existing.filter fun container =>
          determineUpdateOrder (some container) requested == .stopFirst).map
            (·.containerId)).isNone ||
        claim.owner != (existing.filter fun container =>
          determineUpdateOrder (some container) requested == .stopFirst).map (·.containerId) := by
      cases existing with
      | none => rfl
      | some container =>
        by_cases horder : determineUpdateOrder (some container) requested = .stopFirst
        · have hne := howner container rfl horder
          simp [Option.filter, horder, hne]
        · simp [Option.filter, horder]
    have hports : portsConflict claim.ports requested.ports = true :=
      Bool.eq_true_of_not_eq_false hconflict
    have hnot : claim.owner.any ([] : List ContainerId).contains = false := by
      cases claim.owner <;> rfl
    rw [hmachine, hports, hkept, hnot]
    simp
  · exact absurd (by simpa using hchanges) hoperation

theorem release_claim (machineId other : MachineId) (containerId : ContainerId)
    (ports : List PortPublication) :
    (sockets.claim machineId ports).release other containerId =
      (sockets.release other containerId).claim machineId ports := by
  simp [HostSockets.claim, HostSockets.release]

/-- Replacing a container keeps the claims of admission. -/
theorem keeps_replace (skip : Bool)
    (hnamed : ∀ container, existing = some container → container.containerId = containerId)
    (h : sockets.admitPorts machineId requested existing .replace = .ok later) :
    Keeps owner births sockets (DeployOperation.replaceContainer machineId containerId
      (resolve requested serviceId (determineUpdateOrder existing requested)) skip).actions
        later := by
  obtain ⟨hfree, rfl⟩ := admit_eq_ok (by decide) h
  have horder :
      (resolve requested serviceId (determineUpdateOrder existing requested)).update.order =
        determineUpdateOrder existing requested := rfl
  rw [DeployOperation.actions, horder]
  cases existing with
  | none =>
    have hall : sockets.FreeFor machineId requested.ports := fun claim hclaim hmachine =>
      hfree claim hclaim hmachine (by simp)
    cases determineUpdateOrder none requested with
    | stopFirst => exact (Keeps.stop _ _ _).cons ((Keeps.create hall).cons (Keeps.remove _ _ _))
    | startFirst => exact (Keeps.create hall).cons ((Keeps.stop _ _ _).cons (Keeps.remove _ _ _))
  | some container =>
    obtain rfl := hnamed container rfl
    cases hstop : determineUpdateOrder (some container) requested with
    | stopFirst =>
      have hall : (sockets.release machineId container.containerId).FreeFor machineId
          requested.ports := by
        intro claim hclaim hmachine
        obtain ⟨hmem, hkept⟩ := List.mem_filter.mp hclaim
        refine hfree claim hmem hmachine ?_
        rintro _ ⟨rfl⟩ - hsame
        simp [hmachine, hsame] at hkept
      exact (Keeps.stop_release _ _ _).cons ((Keeps.create hall).cons (Keeps.remove _ _ _))
    | startFirst =>
      have hall : sockets.FreeFor machineId requested.ports := by
        refine fun claim hclaim hmachine => hfree claim hclaim hmachine ?_
        rintro _ ⟨rfl⟩ hfirst
        rw [hstop] at hfirst
        cases hfirst
      dsimp only
      rw [← release_claim]
      exact (Keeps.create hall).cons ((Keeps.stop_release _ _ _).cons (Keeps.remove _ _ _))

theorem keeps_run (hports : spec.ports = requested.ports)
    (h : sockets.admitPorts machineId requested none .create = .ok later) :
    Keeps owner births sockets [.run machineId spec] later := by
  obtain ⟨hfree, rfl⟩ := admit_eq_ok (by decide) h
  rw [← hports] at hfree ⊢
  exact Keeps.run fun claim hclaim hmachine => hfree claim hclaim hmachine (by simp)

theorem keeps_act {act : Act} (hisFor : act.IsFor requested)
    (h : act.admitPorts requested sockets = .ok later) :
    Keeps owner births sockets
      ((act.operations requested options serviceId).flatMap (·.actions)) later := by
  cases act with
  | keep machineId containerId =>
    obtain rfl := Except.ok.inj h
    exact .nil _
  | create machineId => exact keeps_run rfl h
  | reuse machineId container =>
    obtain ⟨_, _, hspec⟩ := hisFor
    exact keeps_run (congrArg ResolvedServiceSpec.ports hspec) h
  | replace machineId containerId existing preStops =>
    have hstops : ((Act.replace machineId containerId existing preStops).stops.flatMap
        (·.actions)) = preStops.map (Action.stop machineId) := by
      simp only [Act.stops, List.flatMap_map, DeployOperation.actions]
      exact List.map_eq_flatMap.symm
    have hstart : ((Act.replace machineId containerId existing preStops).start requested options
        serviceId).flatMap (·.actions) = (DeployOperation.replaceContainer machineId containerId
          (resolve requested serviceId (determineUpdateOrder existing requested))
          options.skipHealthMonitor).actions := by
      simp [Act.start, Act.spec]
    unfold Act.operations
    rw [List.flatMap_append, hstops, hstart]
    exact (Keeps.stops_release machineId preStops sockets).append (keeps_replace _ hisFor h)

theorem keeps_acts {acts : List Act} (hisFor : ∀ act ∈ acts, act.IsFor requested)
    (h : acts.foldlM (Act.admitPorts requested) sockets = .ok later) :
    Keeps owner births sockets
      ((acts.flatMap (·.operations requested options serviceId)).flatMap (·.actions)) later := by
  induction acts generalizing sockets with
  | nil =>
    obtain rfl := pure_eq_ok.mp h
    exact .nil _
  | cons act acts ih =>
    rw [List.foldlM_cons, bind_eq_ok] at h
    obtain ⟨between, hact, h⟩ := h
    rw [List.flatMap_cons, List.flatMap_append]
    exact (keeps_act (hisFor act List.mem_cons_self) hact).append
      (ih (fun other hother => hisFor other (List.mem_cons_of_mem act hother)) h)

theorem keeps_removals (containers : List ContainerObservation) (sockets : HostSockets) :
    Keeps owner births sockets ((containers.map removal).flatMap (·.actions))
      (containers.foldl (fun sockets container =>
        sockets.release container.machineId container.containerId) sockets) := by
  induction containers generalizing sockets with
  | nil => exact .nil _
  | cons container containers ih =>
    exact (Keeps.stop_release _ _ _).cons ((Keeps.remove _ _ _).cons (ih _))

theorem keeps_laid {current : List ContainerObservation} {acts : List Act}
    {operations : List DeployOperation}
    (h : Laid requested options serviceId current acts sockets operations later) :
    Keeps owner births sockets (operations.flatMap (·.actions)) later := by
  obtain ⟨between, hacts, rfl⟩ := h.sockets
  rw [h.operations, List.flatMap_append]
  exact (keeps_acts h.isFor hacts).append (keeps_removals _ _)

/-! ## The whole plan -/

/-- Hooks neither publish a port nor free one. -/
theorem keeps_preDeploy (hooks : List ContainerObservation) (operations : List DeployOperation)
    (hookMachine : Option MachineId) :
    Keeps owner births sockets
      ((preDeployOperations requested hooks operations hookMachine).flatMap (·.actions))
      sockets := by
  unfold preDeployOperations
  split_ifs
  · exact .nil _
  · split
    · exact .nil _
    · rename_i machineId spec _
      have hstops : Keeps owner births sockets (((hooks.filter (·.isActive)).map fun hook =>
          DeployOperation.stopHook hook.machineId hook.containerId).flatMap (·.actions))
            sockets := by
        refine Keeps.flatMap fun operation hoperation => ?_
        obtain ⟨hook, -, rfl⟩ := List.mem_map.mp hoperation
        exact Keeps.stop _ _ _
      have hremoves : Keeps owner births sockets ((hooks.map fun hook =>
          (hook.machineId, hook.containerId)).map fun old => Action.remove old.1 old.2)
            sockets := by
        rw [List.map_eq_flatMap]
        exact Keeps.flatMap fun old _ => Keeps.remove _ _ _
      rw [List.flatMap_append]
      refine hstops.append ?_
      simp only [List.flatMap_cons, List.flatMap_nil, List.append_nil, DeployOperation.actions]
      exact hremoves.append (Keeps.createHook _ _ _)

end

section

variable {given : Given} {intent : DeployIntent} {snapshot : DeploySnapshot} {births : Nat → Birth}

theorem actions_of_waits (spec : RequestedServiceSpec) (operations : List DeployOperation) :
    (dependencyWaits intent spec operations).1.flatMap (·.actions) = [] := by
  rw [List.flatMap_eq_nil_iff]
  intro operation hoperation
  obtain ⟨_, _, _, rfl⟩ := mem_dependencyWaits hoperation
  rfl

theorem actions_of_finish {plan : VolumePlan} {operations prepared : List DeployOperation}
    {volumes : PlannedVolumes} (h : plan.finish operations = .ok (volumes, prepared)) :
    prepared.flatMap (·.actions) = operations.flatMap (·.actions) := by
  rw [finish_eq_ok h, List.flatMap_append, List.flatMap_map]
  have hnone : ∀ id : MachineId,
    (DeployOperation.prepareVolumes id (plan.provisionedSpecs id)).actions = [] := fun _ => rfl
  simp [hnone]

/-- The Services of a plan keep the claims one after another. -/
theorem keeps_services {planning later : Planning} {specs : List RequestedServiceSpec}
    {desired : List DeployOperation}
    (h : PlansServices given intent snapshot planning specs desired later) :
    Keeps intent.owner births planning.placement.sockets (desired.flatMap (·.actions))
      later.placement.sockets := by
  induction h with
  | nil => exact .nil _
  | cons hspec _ ih =>
    obtain ⟨-, placed, hookMachine, hplans, rfl⟩ := plansService_of_planOneService hspec
    obtain ⟨acts, hlaid, -⟩ := hplans.laid
    simp only [List.flatMap_append, actions_of_waits, List.nil_append]
    exact ((keeps_preDeploy _ _ _).append (keeps_laid hlaid)).append ih

theorem keeps_removalOperations (owner : Namespace) (births : Nat → Birth)
    (services : List ServiceObservation) (obsolete : List QualifiedService)
    (sockets : HostSockets) :
    ∃ later, Keeps owner births sockets
      ((removalOperations services obsolete).flatMap (·.actions)) later :=
  ⟨_, keeps_removals ((services.filter fun service => obsolete.contains service.identity).flatMap
    (·.containersForRemove)) sockets⟩

/-- Host ports never collide during a Deploy: whatever a plan starts a container on, no active
Service Container there, of any Namespace, has a conflicting host port at that moment. -/
theorem ports_free_in_plan {planned : Planned}
    (h : planOperations given intent snapshot = .ok planned) {before after : List Action}
    {action : Action} (hsplit : planned.operations.flatMap (·.actions) = before ++ action :: after)
    {machineId : MachineId} {ports : List PortPublication}
    (hstarts : action.publishes = some (machineId, ports)) {container : ContainerObservation}
    (hcontainer : container ∈
      ((World.ofSnapshot snapshot).replay intent.owner births before).containers)
    (hmachine : container.machineId = machineId) (hservice : container.isService = true)
    (hactive : container.isActive = true) :
    portsConflict container.resolvedSpec.ports ports = false := by
  obtain ⟨stages⟩ := stages_of_plan h
  have hdesired : Keeps intent.owner births (.fromSnapshot snapshot)
    (stages.prepared.flatMap (·.actions)) stages.later.placement.sockets := by
    rw [actions_of_finish stages.hprepared]
    exact keeps_services stages.hservices
  obtain ⟨later, hremovals⟩ := keeps_removalOperations intent.owner births
    (snapshot.servicesIn intent.owner) (retiring intent snapshot) stages.later.placement.sockets
  have hkeeps := hdesired.append hremovals
  rw [← List.flatMap_append, ← stages.hoperations, hsplit] at hkeeps
  have hfree := along_iff.mp (hkeeps _ (covered_ofSnapshot snapshot)).1 before action after rfl
  exact hfree machineId ports hstarts container hcontainer hmachine hservice hactive

end

namespace Sample

/-- A new image of the web Service beside a proxy of another Namespace. -/
def release : DeployIntent := deploy [spec web single "web:2" [tcp 80]]

def proxy : ContainerObservation :=
  running "proxy" "m1" other 1 (spec api single "proxy" [tcp 443])

def beside : DeploySnapshot :=
  cluster [machine "m1"] [proxy, running "old" "m1" shop 2 (spec web single "web:1" [tcp 80])]

def released : ResolvedServiceSpec :=
  resolve (spec web single "web:2" [tcp 80]) "web" .stopFirst

theorem release_beside_proxy : ∃ planned, planOperations given release beside = .ok planned ∧
    planned.operations.flatMap (·.actions) = [.stop "m1" "old"] ++
      .create "m1" .serviceContainer released :: [.remove "m1" "old"] ∧
    portsConflict proxy.resolvedSpec.ports released.ports = false := by
  obtain ⟨planned, hplanned, hsplit⟩ := exists_ok (fun planned : Planned =>
    planned.operations.flatMap (·.actions) = [.stop "m1" "old"] ++
      .create "m1" .serviceContainer released :: [.remove "m1" "old"])
    (by decide +kernel : succeeds (planOperations given release beside) _ = true)
  have hproxy : proxy ∈
      ((World.ofSnapshot beside).replay release.owner births [.stop "m1" "old"]).containers := by
    decide +kernel
  exact ⟨planned, hplanned, hsplit, ports_free_in_plan hplanned hsplit rfl hproxy rfl rfl rfl⟩

end Sample

end Ployz.Deploy
