import Ployz.Deploy.Snapshot
import Ployz.Lib.Keyed
import Ployz.Lib.Reach

/-!
# Deploy intents

What a Deploy is asked for: the complete desired Services of a Namespace, and which of them the
command applies. `bind` expands the selection through dependencies, orders it so that dependencies
come first, and scopes the Volumes. The Services it leaves to plan are those of the apply set,
each once (`isBound_of_bind`).
-/

namespace Ployz.Deploy

open Run

/-- Planner knobs for one Deploy, and with them the text that shapes are digests of. -/
structure PlanOptions where
  forceRecreate : Bool
  skipHealthMonitor : Bool
  placementSeed : UInt64
  /-- Service Names this command applies. Empty means full reconciliation. -/
  selected : List ServiceName
  /-- No option of the source's: what `serde_json` writes for a shape, the same for every plan. -/
  shapeText : ShapeText

inductive DependencyCondition
  | serviceStarted
  | serviceHealthy
deriving DecidableEq, Repr

structure ServiceDependency where
  service : ServiceName
  condition : DependencyCondition
deriving DecidableEq, Repr

/-- Complete desired Services plus which of those Services this command applies. -/
structure DeployIntent where
  owner : Namespace
  target : List RequestedServiceSpec
  options : PlanOptions
  dependencies : List (ServiceName × List ServiceDependency)

inductive EliminatingConstraint
  | noMachines
  | unknownPlacement (targets : List PlacementConstraint)
  | workNotAccepted (names : List MachineName)
  | machineDown (names : List MachineName)
  | volumeAlreadyOn (volume : DockerVolumeName) (locatedOn : List MachineName)
  | volumeConflictsWithPlacement (volume : DockerVolumeName) (locatedOn : List MachineName)
      (requested : List PlacementConstraint)
  | sharedVolumeNoCommonMachine (volume : DockerVolumeName) (requested : List PlacementConstraint)
deriving DecidableEq, Repr

inductive PlanError
  | storage (machineId : MachineId) (machine : MachineName) (source : StorageCapacityError)
  | conflictingHostPublications (service : ServiceName)
  | hostPortConflict (service : ServiceName)
  | capacityUnknown
  | insufficientCapacity
  | noEligibleMachines (constraints : List EliminatingConstraint)
  | serviceModeCannotChange
  | conflictingDockerVolumeDefinitions (name : DockerVolumeName)
  | duplicateTargetService (service : ServiceName)
  | provisionedVolumeStorageRequired (machine : MachineName)
  | provisionedVolumeStorageUnavailable
  | provisionedVolumeStorageUnknown (names : List MachineName)
  | existingPlainVolume (name : DockerVolumeName) (machine : MachineName)
  | existingProvisionedVolumeMismatch (name : DockerVolumeName) (machine : MachineName)
      (maximumBytes : Nat)
  | service (service : String) (source : PlanError)
  | mixedVolumeModes (name : DockerVolumeName) («global» replicated : String)
  | dependencyCycle (service : String)
  | dockerVolumeUnavailable (id : DockerVolumeId) (message : String)
  | hostnameConflict (hostname : String) (owner : QualifiedService)

/-- The constraints that emptied the Machine set, or that there were no Machines. -/
def PlanError.noEligible (constraints : List EliminatingConstraint) : PlanError :=
  .noEligibleMachines (if constraints.isEmpty then [.noMachines] else constraints)

def serviceError (nameErrorsWithService : Bool) (service : String) (source : PlanError) :
    PlanError :=
  if nameErrorsWithService then .service service source else source

inductive PruneRefusal
  | incompleteSnapshot
  | selectedServices
deriving DecidableEq, Repr

namespace DeployIntent

def dependenciesOf (intent : DeployIntent) (name : ServiceName) : List ServiceDependency :=
  (intent.dependencies.lookup name).getD []

/-- The dependencies that are also in the target, by Service. -/
def presentDependencies (intent : DeployIntent) : List (ServiceName × List ServiceName) :=
  intent.dependencies.map fun (name, dependencies) =>
    (name, (dependencies.map (·.service)).filter (intent.target.map (·.name)).contains)

/-- Service Names this command applies, including explicitly selected dependencies. -/
def appliedNames (intent : DeployIntent) : List ServiceName :=
  if intent.options.selected.isEmpty then intent.target.map (·.name)
  else
    let pending := (intent.options.selected.filter (intent.target.map (·.name)).contains).reverse
    Reach.search (Reach.outs intent.presentDependencies)
      (Reach.work intent.presentDependencies pending []) pending []

/-- Why pruning is refused for this intent and snapshot completeness. -/
def pruneRefusal (intent : DeployIntent) (snapshotComplete : Bool) : Option PruneRefusal :=
  if !snapshotComplete then some .incompleteSnapshot
  else if !intent.options.selected.isEmpty then some .selectedServices
  else none

end DeployIntent

/-! ## Order -/

/-- A depth-first walk over dependencies: what it is in, what it has done, and in which order. -/
structure Walk where
  visiting : List ServiceName
  visited : List ServiceName
  ordered : List RequestedServiceSpec

/-- Order `name` after its dependencies. Every Service it is in is another included one, so more
than `included.length` steps are never nested. -/
def visit (intent : DeployIntent) (included : List ServiceName) :
    Nat → ServiceName → Walk → Except PlanError Walk
  | 0, name, _ => .error (.dependencyCycle name.value)
  | fuel + 1, name, walk =>
    if walk.visited.contains name then .ok walk
    else if walk.visiting.contains name then .error (.dependencyCycle name.value)
    else do
      let walk ← (intent.dependenciesOf name).foldlM (fun walk dependency =>
        if included.contains dependency.service then
          visit intent included fuel dependency.service walk
        else pure walk) { walk with visiting := name :: walk.visiting }
      pure ⟨walk.visiting.filter (· != name), name :: walk.visited,
        walk.ordered ++ (intent.target.find? (·.name == name)).toList⟩

/-- The first name of a target's specs that is `seen` or that an earlier spec has. -/
def repeatedName (seen : List ServiceName) : List RequestedServiceSpec → Option ServiceName
  | [] => none
  | spec :: rest =>
    if seen.contains spec.name then some spec.name else repeatedName (spec.name :: seen) rest

def orderIncluded (intent : DeployIntent) (included : List ServiceName) :
    Except PlanError (List RequestedServiceSpec) :=
  match repeatedName [] intent.target with
  | some service => .error (.duplicateTargetService service)
  | none => do
    let walk ← intent.target.foldlM (fun walk spec =>
      if included.contains spec.name then visit intent included (included.length + 1) spec.name walk
      else pure walk) ⟨[], [], []⟩
    pure walk.ordered

/-- Bind named Volumes to a Namespace: physical Docker name and ownership labels. -/
def scopeRequested (spec : RequestedServiceSpec) (owner : Namespace) :
    Except PlanError RequestedServiceSpec :=
  (spec.scopeToNamespace owner).mapError fun
    | .incompatibleVolumeAliases name => .conflictingDockerVolumeDefinitions name
    -- Scoping preserves references, so these do not arise.
    | .duplicateVolumeReference reference => .conflictingDockerVolumeDefinitions reference
    | .unknownVolumeReference reference => .conflictingDockerVolumeDefinitions reference

/-- Volume-bound target plus the expanded apply set. -/
structure BoundIntent where
  target : List RequestedServiceSpec
  requested : List RequestedServiceSpec

def bind (intent : DeployIntent) : Except PlanError BoundIntent := do
  let specs ← orderIncluded intent intent.appliedNames
  let target ← intent.target.mapM (scopeRequested · intent.owner)
  pure ⟨target, specs.filterMap fun spec => target.find? (·.name == spec.name)⟩

/-! ## What is ordered -/

variable {specs : List RequestedServiceSpec}

theorem repeatedName_eq_none_iff {seen : List ServiceName} :
    repeatedName seen specs = none ↔
      (∀ spec ∈ specs, spec.name ∉ seen) ∧ (specs.map (·.name)).Nodup := by
  induction specs generalizing seen with
  | nil => simp [repeatedName]
  | cons spec rest ih =>
    by_cases hseen : spec.name ∈ seen
    · simp [repeatedName, hseen]
    · rw [repeatedName, if_neg (by simpa using hseen), ih, List.map_cons, List.nodup_cons]
      simp only [List.mem_cons, not_or, List.mem_map, not_exists, not_and, forall_eq_or_imp]
      exact ⟨fun ⟨hrest, hnodup⟩ => ⟨⟨hseen, fun s hs => (hrest s hs).2⟩,
          fun s hs => (hrest s hs).1, hnodup⟩,
        fun ⟨⟨_, hrest⟩, hne, hnodup⟩ => ⟨fun s hs => ⟨hne s hs, hrest s hs⟩, hnodup⟩⟩

theorem repeatedName_eq_none : repeatedName [] specs = none ↔ (specs.map (·.name)).Nodup := by
  simp [repeatedName_eq_none_iff]

section

variable {intent : DeployIntent} {included : List ServiceName}

/-- What a walk has ordered: the Services it has visited, each once, all of them included. -/
structure Walk.Ordered (intent : DeployIntent) (included : List ServiceName) (walk : Walk) :
    Prop where
  apart : ∀ name ∈ walk.visiting, name ∉ walk.visited
  nodup : (walk.ordered.map (·.name)).Nodup
  visited : ∀ spec ∈ walk.ordered, spec.name ∈ walk.visited
  targets : ∀ spec ∈ walk.ordered, spec ∈ intent.target ∧ spec.name ∈ included
  complete : ∀ spec ∈ intent.target, spec.name ∈ walk.visited → spec ∈ walk.ordered

/-- One walk goes on from another and comes back to where it was. -/
structure Walk.Extends (walk later : Walk) : Prop where
  visiting : later.visiting = walk.visiting
  visited : walk.visited ⊆ later.visited

theorem Walk.Extends.refl (walk : Walk) : walk.Extends walk := ⟨rfl, fun _ h => h⟩

theorem Walk.Extends.trans {a b c : Walk} (h : a.Extends b) (h' : b.Extends c) : a.Extends c :=
  ⟨h'.visiting.trans h.visiting, fun _ hx => h'.visited (h.visited hx)⟩

/-- Leaving a Service orders it after what was ordered. -/
theorem Walk.Ordered.leave (htarget : (intent.target.map (·.name)).Nodup) {name : ServiceName}
    (hname : name ∈ included) {walk : Walk} (hwalk : walk.Ordered intent included)
    (hnew : name ∉ walk.visited) :
    Walk.Ordered intent included ⟨walk.visiting.filter (· != name), name :: walk.visited,
      walk.ordered ++ (intent.target.find? (·.name == name)).toList⟩ where
  apart other hother := by
    obtain ⟨hvisiting, hne⟩ := List.mem_filter.mp hother
    rw [List.mem_cons, not_or]
    exact ⟨by simpa using hne, hwalk.apart other hvisiting⟩
  nodup := by
    rw [List.map_append, List.nodup_append]
    refine ⟨hwalk.nodup, ?_, ?_⟩
    · cases intent.target.find? (·.name == name) <;> simp
    · rintro a ha b hb rfl
      obtain ⟨spec, hspec, rfl⟩ := List.mem_map.mp ha
      obtain ⟨found, hfound, hsame⟩ := List.mem_map.mp hb
      have hfind := Option.mem_toList.mp hfound
      have hfoundName : found.name = name := by simpa using List.find?_some hfind
      exact hnew (hfoundName ▸ hsame ▸ hwalk.visited spec hspec)
  visited spec hspec := by
    rcases List.mem_append.mp hspec with h | h
    · exact List.mem_cons_of_mem _ (hwalk.visited spec h)
    · have hfind := Option.mem_toList.mp h
      have hspecName : spec.name = name := by simpa using List.find?_some hfind
      exact hspecName ▸ List.mem_cons_self
  targets spec hspec := by
    rcases List.mem_append.mp hspec with h | h
    · exact hwalk.targets spec h
    · have hfind := Option.mem_toList.mp h
      have hspecName : spec.name = name := by simpa using List.find?_some hfind
      exact ⟨List.mem_of_find?_eq_some hfind, hspecName ▸ hname⟩
  complete spec hspec hvisited := by
    rcases List.mem_cons.mp hvisited with h | h
    · refine List.mem_append_right _ (Option.mem_toList.mpr ?_)
      exact (Keyed.find_eq_some_iff htarget).mpr ⟨hspec, h⟩
    · exact List.mem_append_left _ (hwalk.complete spec hspec h)

theorem ordered_of_visit (htarget : (intent.target.map (·.name)).Nodup) {fuel : Nat}
    {name : ServiceName} (hname : name ∈ included) {walk later : Walk}
    (hwalk : walk.Ordered intent included)
    (h : visit intent included fuel name walk = .ok later) :
    later.Ordered intent included ∧ walk.Extends later ∧ name ∈ later.visited := by
  induction fuel generalizing name walk later with
  | zero => cases h
  | succ fuel ih =>
    rw [visit] at h
    split_ifs at h with hvisited hvisiting
    · obtain rfl := Except.ok.inj h
      exact ⟨hwalk, .refl _, by simpa using hvisited⟩
    · obtain ⟨middle, hmiddle, h⟩ := bind_eq_ok.mp h
      obtain rfl := pure_eq_ok.mp h
      have hnew : name ∉ walk.visited := by simpa using hvisited
      have hout : name ∉ walk.visiting := by simpa using hvisiting
      let inside : Walk := { walk with visiting := name :: walk.visiting }
      have hinside : inside.Ordered intent included := by
        refine ⟨fun other hother => ?_, hwalk.nodup, hwalk.visited, hwalk.targets, hwalk.complete⟩
        rcases List.mem_cons.mp hother with rfl | hother
        · exact hnew
        · exact hwalk.apart other hother
      -- The dependencies keep the order and come back to where they started.
      have hdependencies : middle.Ordered intent included ∧ inside.Extends middle := by
        refine foldlM_invariant
          (P := fun _ between => Walk.Ordered intent included between ∧ inside.Extends between)
          (fun dependency _ between between' hbetween hstep _ => ?_) ⟨hinside, .refl inside⟩ hmiddle
        split_ifs at hstep with hincluded
        · obtain ⟨hordered, hextends, -⟩ := ih (by simpa using hincluded) hbetween.1 hstep
          exact ⟨hordered, hbetween.2.trans hextends⟩
        · obtain rfl := pure_eq_ok.mp hstep
          exact hbetween
      obtain ⟨hordered, hextends⟩ := hdependencies
      have hstill : name ∉ middle.visited :=
        hordered.apart name (hextends.visiting ▸ List.mem_cons_self)
      refine ⟨hordered.leave htarget hname hstill, ⟨?_, ?_⟩, List.mem_cons_self⟩
      · show middle.visiting.filter (· != name) = walk.visiting
        rw [hextends.visiting, List.filter_cons_of_neg (by simp), List.filter_eq_self]
        intro other hother
        simpa using fun heq : other = name => hout (heq ▸ hother)
      · exact fun other hother => List.mem_cons_of_mem _ (hextends.visited hother)

/-- The specs a Deploy plans, in order: those of the target that are included, each once. -/
structure IsOrder (intent : DeployIntent) (included : List ServiceName)
    (specs : List RequestedServiceSpec) : Prop where
  target : (intent.target.map (·.name)).Nodup
  nodup : (specs.map (·.name)).Nodup
  mem : ∀ spec, spec ∈ specs ↔ spec ∈ intent.target ∧ spec.name ∈ included

theorem isOrder_of_orderIncluded (h : orderIncluded intent included = .ok specs) :
    IsOrder intent included specs := by
  unfold orderIncluded at h
  split at h
  · cases h
  rename_i hrepeated
  have htarget := repeatedName_eq_none.mp hrepeated
  obtain ⟨walk, hwalk, h⟩ := bind_eq_ok.mp h
  obtain rfl := pure_eq_ok.mp h
  have hinvariant := foldlM_invariant
    (P := fun left between => Walk.Ordered intent included between ∧
      ∀ spec ∈ intent.target, spec.name ∈ included → spec ∈ left ∨ spec.name ∈ between.visited)
    (fun spec left between between' hbetween hstep _ => ?_)
    ⟨⟨by simp, by simp, by simp, by simp, by simp⟩, fun spec hspec _ => .inl hspec⟩ hwalk
  · obtain ⟨hordered, hall⟩ := hinvariant
    refine ⟨htarget, hordered.nodup, fun spec => ⟨hordered.targets spec, ?_⟩⟩
    rintro ⟨hspec, hname⟩
    exact hordered.complete spec hspec ((hall spec hspec hname).resolve_left (by simp))
  · split_ifs at hstep with hincluded
    · obtain ⟨hordered, hextends, hvisited⟩ :=
        ordered_of_visit htarget (by simpa using hincluded) hbetween.1 hstep
      refine ⟨hordered, fun other hother hname => ?_⟩
      rcases hbetween.2 other hother hname with h | h
      · rcases List.mem_cons.mp h with rfl | h
        · exact .inr hvisited
        · exact .inl h
      · exact .inr (hextends.visited h)
    · obtain rfl := pure_eq_ok.mp hstep
      refine ⟨hbetween.1, fun other hother hname => ?_⟩
      rcases hbetween.2 other hother hname with h | h
      · rcases List.mem_cons.mp h with rfl | h
        · exact absurd (by simpa using hname) hincluded
        · exact .inl h
      · exact .inr h

theorem name_of_scopeRequested {spec bound : RequestedServiceSpec} {owner : Namespace}
    (h : scopeRequested spec owner = .ok bound) : bound.name = spec.name :=
  RequestedServiceSpec.name_of_scope (mapError_eq_ok.mp h)

theorem names_of_scope {specs bound : List RequestedServiceSpec} {owner : Namespace}
    (h : specs.mapM (scopeRequested · owner) = .ok bound) :
    bound.map (·.name) = specs.map (·.name) := by
  have hpairs := mapM_eq_ok.mp h
  clear h
  induction hpairs with
  | nil => rfl
  | cons hhead _ ih => rw [List.map_cons, List.map_cons, name_of_scopeRequested hhead, ih]

/-- What binding an intent leaves to plan. -/
structure IsBound (intent : DeployIntent) (bound : BoundIntent) : Prop where
  names : bound.target.map (·.name) = intent.target.map (·.name)
  targetNodup : (bound.target.map (·.name)).Nodup
  requestedNodup : (bound.requested.map (·.name)).Nodup
  requested : ∀ spec, spec ∈ bound.requested ↔
    spec ∈ bound.target ∧ spec.name ∈ intent.appliedNames
  target : intent.target.mapM (scopeRequested · intent.owner) = .ok bound.target

theorem isBound_of_bind {bound : BoundIntent} (h : bind intent = .ok bound) :
    IsBound intent bound := by
  obtain ⟨specs, hspecs, h⟩ := bind_eq_ok.mp h
  obtain ⟨target, htarget, h⟩ := bind_eq_ok.mp h
  obtain rfl := pure_eq_ok.mp h
  have horder := isOrder_of_orderIncluded hspecs
  have hnames : target.map (·.name) = intent.target.map (·.name) := names_of_scope htarget
  have hnodup : (target.map (·.name)).Nodup := hnames ▸ horder.target
  have hfound : ∀ spec ∈ specs, ∃ found, target.find? (·.name == spec.name) = some found ∧
      found.name = spec.name := by
    intro spec hspec
    have hmem : spec.name ∈ target.map (·.name) :=
      hnames ▸ List.mem_map.mpr ⟨spec, ((horder.mem spec).mp hspec).1, rfl⟩
    obtain ⟨found, hfound, hsame⟩ := List.mem_map.mp hmem
    exact ⟨found, (Keyed.find_eq_some_iff hnodup).mpr ⟨hfound, hsame⟩, hsame⟩
  refine ⟨hnames, hnodup, ?_, fun spec => ?_, htarget⟩
  · have hsame : (specs.filterMap fun spec => target.find? (·.name == spec.name)).map (·.name) =
        specs.map (·.name) := by
      rw [List.map_filterMap, ← List.filterMap_eq_map]
      refine List.filterMap_congr fun spec hspec => ?_
      obtain ⟨found, hfind, hname⟩ := hfound spec hspec
      simp [hfind, hname]
    exact hsame ▸ horder.nodup
  · constructor
    · intro hmem
      obtain ⟨source, hsource, hfind⟩ := List.mem_filterMap.mp hmem
      obtain ⟨hspec, hname⟩ := (Keyed.find_eq_some_iff hnodup).mp hfind
      exact ⟨hspec, hname ▸ ((horder.mem source).mp hsource).2⟩
    · rintro ⟨hspec, hname⟩
      have hmem : spec.name ∈ intent.target.map (·.name) :=
        hnames ▸ List.mem_map.mpr ⟨spec, hspec, rfl⟩
      obtain ⟨source, hsource, hsame⟩ := List.mem_map.mp hmem
      refine List.mem_filterMap.mpr ⟨source, (horder.mem source).mpr ⟨hsource, hsame ▸ hname⟩, ?_⟩
      exact (Keyed.find_eq_some_iff hnodup).mpr ⟨hspec, hsame.symm⟩

theorem IsBound.exists_requested {bound : BoundIntent} (h : IsBound intent bound)
    {spec : RequestedServiceSpec} (hspec : spec ∈ intent.target)
    (happlied : spec.name ∈ intent.appliedNames) :
    ∃ scopedSpec ∈ bound.requested, scopeRequested spec intent.owner = .ok scopedSpec := by
  obtain ⟨scopedSpec, hmem, hscope⟩ := exists_ok_of_mem_mapM h.target hspec
  refine ⟨scopedSpec, (h.requested scopedSpec).mpr ⟨hmem, ?_⟩, hscope⟩
  rw [name_of_scopeRequested hscope]
  exact happlied

end

end Ployz.Deploy
