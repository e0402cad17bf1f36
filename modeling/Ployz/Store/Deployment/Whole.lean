import Ployz.Lib.Keyed
import Ployz.Store.Deployment.Streaming

/-!
# Deploying the whole Environment

A Deployment of every Service targets all of its Saved revision and whatever Applied State held
beside it when it was admitted. When it ends applied, each node of the revision is in Applied
State as saved, but a new Volume no Service mounts. Applied State holds nothing else exactly if
every node it held was a target; what another Deployment confirmed in the meantime is not.

Main theorem: `whole_deployment_exact_iff`.
-/

namespace Ployz

open Run Environment
open Std (TreeMap)

/-! ## A Deploy that applies -/

section Applying

variable {introduced : TreeMap String EnvironmentNodeType} {slug : String}
  {nodes : List TargetNode} {saved : SavedEnvironmentIntent} {applied : AppliedTable}
  {projection : RuntimeOutcomeProjection} {removed : List VolumeRemoval}

/-- No operation failed or was left out. -/
structure Succeeds (projection : RuntimeOutcomeProjection) : Prop where
  success : projection.summary.isSuccess = true
  failed : projection.failedServices = []
  unattempted : projection.unattemptedServices = []

theorem service_succeeds (h : Succeeds projection) (name : ServiceName) (kept : Bool) :
    (Evidence.executed projection removed).service name kept = Evidence.landed kept ∨
      (Evidence.executed projection removed).service name kept = .unchanged := by
  unfold Evidence.service
  dsimp only
  rw [h.failed, h.unattempted]
  split_ifs with hconfirmed
  · exact .inl rfl
  all_goals simp at *

variable {volume : SavedVolumeIntent} {status : NodeStatus}

theorem mounting_succeeds (h : Succeeds projection)
    (hstatus : status ∈ mountingOutcomes nodes saved (.executed projection removed) volume) :
    status = .deployed ∨ status = .unchanged := by
  obtain ⟨service, -, rfl⟩ := List.mem_map.mp hstatus
  exact service_succeeds h service.config.privateDns true

theorem mounting_isEmpty {evidence : Evidence}
    (h : (mountingOutcomes nodes saved evidence volume).isEmpty = true) :
    ∀ service ∈ saved.services, (∃ target ∈ nodes, target.id = service.id) →
      service.mounts volume.resourceId = false := by
  intro service hservice htarget
  by_contra hmounts
  have hnil := List.map_eq_nil_iff.mp (List.isEmpty_iff.mp h)
  obtain ⟨target, htarget, hid⟩ := htarget
  have hmem : service ∈ saved.services.filter fun service =>
      nodes.any (·.id == service.id) && service.mounts volume.resourceId := by
    rw [List.mem_filter, Bool.and_eq_true]
    exact ⟨hservice, List.any_eq_true.mpr ⟨target, htarget, by simpa using hid⟩,
      by simpa using hmounts⟩
  rw [hnil] at hmem
  cases hmem

theorem keptVolume_succeeds (h : Succeeds projection) (happlied : OwnKeys applied)
    {id name : String}
    (hfind : saved.volumes.find? (·.resourceId == id) = some volume)
    (hstatus : (Evidence.executed projection removed).keptVolume (appliedState slug applied) volume
      (mountingOutcomes nodes saved (.executed projection removed) volume) = status) :
    status.advances = true ∨ status = .unchanged ∨ status = .notAttempted ∧
      ∃ shown held, TargetNode.volume id name none = .volume held.resourceId shown none ∧
        held ∈ saved.volumes ∧ (∀ other, applied[held.resourceId]? ≠ some (.volume other)) ∧
        ∀ service ∈ saved.services, (∃ target ∈ nodes, target.id = service.id) →
          service.mounts held.resourceId = false := by
  have hid : volume.resourceId = id := by simpa using List.find?_some hfind
  have hnot : ∀ wrong, wrong ≠ NodeStatus.deployed → wrong ≠ .unchanged →
      (mountingOutcomes nodes saved (.executed projection removed) volume).contains wrong =
        false := by
    intro wrong hdeployed hunchanged
    rw [Bool.eq_false_iff, ne_eq, List.contains_iff_mem]
    intro hmem
    rcases mounting_succeeds h hmem with rfl | rfl
    · exact hdeployed rfl
    · exact hunchanged rfl
  unfold Evidence.keptVolume at hstatus
  rw [hnot .failed (by simp) (by simp), hnot .notAttempted (by simp) (by simp),
    hnot .pending (by simp) (by simp)] at hstatus
  simp only [Evidence.isPlanned, Evidence.succeeded, h.success, Bool.false_eq_true, if_false,
    Bool.false_and, Bool.not_true, Bool.and_false] at hstatus
  split_ifs at hstatus with hfirst hheld hnew
  · exact .inl (by rw [← hstatus]; rfl)
  · exact .inr (.inl hstatus.symm)
  · rw [Bool.and_eq_true, Bool.not_eq_true'] at hnew
    refine .inr (.inr ⟨hstatus.symm, name, volume, by rw [hid], List.mem_of_find?_eq_some hfind,
      fun other hother => ?_, mounting_isEmpty hnew.1⟩)
    rw [(any_volume_iff happlied _).mpr ⟨other, hother⟩] at hnew
    cases hnew.2
  · exact .inl (by rw [← hstatus]; rfl)

/-- What a node reads once every operation completed: it enters Applied State, or its data was
left behind, or it is a Volume that neither Applied State nor a Service has. -/
theorem nodeOutcome_succeeds (h : Succeeds projection) (happlied : OwnKeys applied)
    {node : TargetNode} (hstatus : nodeOutcome nodes saved (appliedState slug applied)
      (.executed projection removed) node = status) :
    status.advances = true ∨ status = .unchanged ∨
      (status = .failed ∧ ∃ id name deletes, node = .volume id name (some deletes) ∧
        deletes.all (Evidence.gone removed) = false) ∨
      status = .notAttempted ∧ ∃ name volume, node = .volume volume.resourceId name none ∧
        volume ∈ saved.volumes ∧
        (∀ held, applied[volume.resourceId]? ≠ some (.volume held)) ∧
        ∀ service ∈ saved.services, (∃ target ∈ nodes, target.id = service.id) →
          service.mounts volume.resourceId = false := by
  cases node with
  | service id name runtime =>
    rw [nodeOutcome] at hstatus
    rcases service_succeeds h runtime (saved.services.any (·.id == id)) with hlanded | hunchanged
    · exact .inl (by rw [← hstatus, hlanded]; exact landed_advances _)
    · exact .inr (.inl (hstatus.symm.trans hunchanged))
  | volume id name deletes =>
    cases deletes with
    | some deletes =>
      simp only [nodeOutcome, Evidence.removedVolume, h.success, Bool.not_true, Bool.false_eq_true,
        if_false] at hstatus
      split_ifs at hstatus with hgone
      · exact .inl (by rw [← hstatus]; rfl)
      · exact .inr (.inr (.inl ⟨hstatus.symm, id, name, deletes, rfl, by simpa using hgone⟩))
    | none =>
      rw [nodeOutcome] at hstatus
      split at hstatus
      · next volume hfind =>
        rcases keptVolume_succeeds h happlied hfind hstatus with hadvances | hunchanged | hnew
        · exact .inl hadvances
        · exact .inr (.inl hunchanged)
        · exact .inr (.inr (.inr hnew))
      · exact .inr (.inl hstatus.symm)

/-- Applied State holds `saved` and nothing else: `before` is what it held when the Deployment
ended, and a Volume it did not hold that no Service mounts may be missing. -/
structure Exactly (saved : SavedEnvironmentIntent) (before after : AppliedTable) : Prop where
  services : ∀ service ∈ saved.services, after[service.id]? = some (.service service)
  volumes : ∀ volume ∈ saved.volumes, after[volume.resourceId]? = some (.volume volume) ∨
    before[volume.resourceId]? = none ∧
      ∀ service ∈ saved.services, service.mounts volume.resourceId = false
  others : ∀ (id : String) (node : Node), after[id]? = some node → node ∈ nodesOf saved

variable {prior outcomes : TreeMap String NodeStatus}

/-- Once a Deploy applied, each of its targets enters Applied State, but a new Volume no Service
mounts. -/
theorem enters_of_applied (htargets : Targets introduced saved nodes) (hcovers : Covers saved nodes)
    (happlied : Rooted introduced applied) (hsucceeds : Succeeds projection)
    (houtcomes : outcomes = keepAdvanced prior (nodeOutcomes nodes saved (appliedState slug applied)
      (.executed projection removed)))
    (hfailed : ∀ id : String, outcomes[id]? ≠ some .failed) {node : TargetNode}
    (hnode : node ∈ nodes) :
    entersWith outcomes true node = true ∨
      ∃ name volume, node = .volume volume.resourceId name none ∧ volume ∈ saved.volumes ∧
        applied[volume.resourceId]? = none ∧
        ∀ service ∈ saved.services, service.mounts volume.resourceId = false := by
  cases hprior : prior[node.id]?.any (·.advances) with
  | true =>
    have hadvanced := Course.any_keepAdvanced prior (nodeOutcomes nodes saved
      (appliedState slug applied) (.executed projection removed)) node.id
    rw [hprior, Bool.true_or, ← houtcomes] at hadvanced
    obtain ⟨status, hstatus, hadvances⟩ := (Option.any_eq_true _ _).mp hadvanced
    exact .inl (by simp [entersWith, hstatus, hadvances])
  | false =>
    have hread : outcomes[node.id]? = some (nodeOutcome nodes saved (appliedState slug applied)
        (.executed projection removed) node) := by
      rw [houtcomes, getElem?_keepAdvanced_of_not hprior,
        getElem?_nodeOutcomes htargets.unambiguous hnode]
    generalize hstatus : nodeOutcome nodes saved (appliedState slug applied)
      (.executed projection removed) node = status at hread
    rcases nodeOutcome_succeeds hsucceeds happlied.keys hstatus with
      hadvances | hunchanged | ⟨hleft, -⟩ | ⟨-, name, volume, rfl, hvolume, hnew, hunmounted⟩
    · exact .inl (by simp [entersWith, hread, hadvances])
    · exact .inl (by simp [entersWith, hread, hunchanged])
    · exact absurd (hread.trans (by rw [hleft])) (hfailed node.id)
    · refine .inr ⟨name, volume, rfl, hvolume, ?_, fun service hservice => ?_⟩
      · -- What is held under a Volume's ID is a Volume.
        cases hheld : applied[volume.resourceId]? with
        | none => rfl
        | some held =>
          have hkind := happlied.kinds _ _ hheld
          have htype : introduced[volume.resourceId]? = some .volume := htargets.kinds _ hnode
          rw [htype] at hkind
          cases held with
          | service => cases hkind
          | volume other => exact absurd hheld (hnew other)
      · exact hunmounted service hservice ⟨_, hcovers.1 service hservice, rfl⟩

theorem saved_ofService (hclosed : Closed saved) {service : SavedServiceIntent}
    (hservice : service ∈ saved.services) :
    (TargetNode.ofService service).saved saved = some (.service service) := by
  have hfind : saved.services.find? (·.id == service.id) = some service :=
    (Keyed.find_eq_some_iff hclosed.serviceIds).mpr ⟨hservice, rfl⟩
  rw [TargetNode.ofService, TargetNode.saved, hfind]
  rfl

theorem saved_ofVolume (hclosed : Closed saved) (hvolume : volume ∈ saved.volumes)
    (deletes : Option (List DockerVolumeId)) :
    (TargetNode.ofVolume volume deletes).saved saved = some (.volume volume) := by
  have hfind : saved.volumes.find? (·.resourceId == volume.resourceId) = some volume :=
    (Keyed.find_eq_some_iff hclosed.volumeIds).mpr ⟨hvolume, rfl⟩
  rw [TargetNode.ofVolume, TargetNode.saved, hfind]
  rfl

theorem mem_nodesOf_of_saved {target : TargetNode} {node : Node}
    (h : target.saved saved = some node) : node ∈ nodesOf saved := by
  cases target with
  | service id name runtime =>
    obtain ⟨service, hfind, rfl⟩ := Option.map_eq_some_iff.mp h
    exact List.mem_append_left _ (List.mem_map_of_mem (List.mem_of_find?_eq_some hfind))
  | volume id name deletes =>
    obtain ⟨volume, hfind, rfl⟩ := Option.map_eq_some_iff.mp h
    exact List.mem_append_right _ (List.mem_map_of_mem (List.mem_of_find?_eq_some hfind))

theorem Covers.target (hcovers : Covers saved nodes) {node : Node} (hnode : node ∈ nodesOf saved) :
    ∃ target ∈ nodes, target.id = node.id := by
  rcases List.mem_append.mp hnode with hnode | hnode
  · obtain ⟨service, hservice, rfl⟩ := List.mem_map.mp hnode
    exact ⟨_, hcovers.1 service hservice, rfl⟩
  · obtain ⟨volume, hvolume, rfl⟩ := List.mem_map.mp hnode
    exact ⟨_, hcovers.2 volume hvolume, rfl⟩

theorem exactly_advance_iff (htargets : Targets introduced saved nodes)
    (hcovers : Covers saved nodes) (hclosed : Closed saved) (happlied : Rooted introduced applied)
    (hsucceeds : Succeeds projection)
    (houtcomes : outcomes = keepAdvanced prior (nodeOutcomes nodes saved (appliedState slug applied)
      (.executed projection removed)))
    (hfailed : ∀ id : String, outcomes[id]? ≠ some .failed) :
    Exactly saved applied (advance saved nodes outcomes true applied) ↔
      ∀ (id : String) (node : Node), applied[id]? = some node →
        ∃ target ∈ nodes, target.id = id := by
  have henters := fun {node} (hnode : node ∈ nodes) =>
    enters_of_applied htargets hcovers happlied hsucceeds houtcomes hfailed hnode
  constructor
  · intro h id node hheld
    by_contra hno
    have hkept : (advance saved nodes outcomes true applied)[id]? = applied[id]? :=
      getElem?_advance_of_not fun target htarget hid => absurd ⟨target, htarget, hid⟩ hno
    have hnode := h.others id node (hkept.trans hheld)
    obtain ⟨target, htarget, hid⟩ := hcovers.target hnode
    exact hno ⟨target, htarget, hid.trans (happlied.keys id node hheld)⟩
  · intro h
    refine ⟨fun service hservice => ?_, fun volume hvolume => ?_, fun id node hheld => ?_⟩
    · have hnode := hcovers.1 service hservice
      rcases henters hnode with henter | ⟨name, volume, hvolume, -⟩
      · rw [← saved_ofService hclosed hservice]
        exact getElem?_advance htargets.unambiguous hnode henter
      · cases hvolume
    · have hnode := hcovers.2 volume hvolume
      rcases henters hnode with henter | ⟨name, other, hother, -, hnone, hunmounted⟩
      · rw [← saved_ofVolume hclosed hvolume none]
        exact .inl (getElem?_advance htargets.unambiguous hnode henter)
      · have hid : volume.resourceId = other.resourceId := congrArg TargetNode.id hother
        rw [hid]
        exact .inr ⟨hnone, hunmounted⟩
    · by_cases hid : ∃ target ∈ nodes, target.id = id ∧ entersWith outcomes true target = true
      · obtain ⟨target, htarget, rfl, henter⟩ := hid
        rw [getElem?_advance htargets.unambiguous htarget henter] at hheld
        exact mem_nodesOf_of_saved hheld
      · have hnot : ∀ target ∈ nodes, target.id = id → entersWith outcomes true target = false := by
          intro target htarget hidTarget
          by_contra hno
          exact hid ⟨target, htarget, hidTarget, by simpa using hno⟩
        rw [getElem?_advance_of_not hnot] at hheld
        obtain ⟨target, htarget, rfl⟩ := h id node hheld
        rcases henters htarget with henter | ⟨name, volume, rfl, -, hnone, -⟩
        · rw [hnot target htarget rfl] at henter
          cases henter
        · rw [show (TargetNode.volume volume.resourceId name none).id = volume.resourceId from rfl,
            hnone] at hheld
          cases hheld

end Applying

/-! ## The step at which a Deployment applies -/

section Ending

variable {env env' : Environment} {now : Nat} {row row' : Stored}

structure Applies (env env' : Environment) (row' : Stored) : Prop where
  mem : row' ∈ env'.deployments
  applied : row'.status = .applied
  before : ∀ row ∈ env.deployments, row.id = row'.id → row.status ≠ .applied

variable {stored : Stored}

theorem Applies.save (h : Applies env (env.save stored) row') :
    stored.status = .applied ∧ ∃ row ∈ env.deployments, row.id = stored.id ∧
      row' = row.written stored := by
  obtain ⟨row, hrow, rfl⟩ := List.mem_map.mp h.mem
  have happlied := h.applied
  unfold Stored.put at happlied
  split_ifs at happlied with hid
  · exact ⟨happlied, row, hrow, hid, by rw [Stored.put, if_pos hid]⟩
  · exact absurd happlied (h.before row hrow (Stored.put_id stored row).symm)

theorem not_applies_map {f : Stored → Stored} (hid : ∀ row, (f row).id = row.id)
    (hf : ∀ row, (f row).status = .applied → row.status = .applied)
    (hrows : env'.deployments = env.deployments.map f) : ¬Applies env env' row' := by
  intro h
  obtain ⟨row, hrow, rfl⟩ := List.mem_map.mp (hrows ▸ h.mem)
  exact h.before row hrow (hid row).symm (hf row h.applied)

theorem supersede_applied {row : Stored} (h : row.supersede.status = .applied) :
    row.status = .applied := by
  unfold Stored.supersede at h
  split_ifs at h
  exact h

theorem not_applies_admitRow (hrow : env.Admitted row)
    (hrows : env'.deployments = env.deployments.map (·.supersede) ++ [row]) :
    ¬Applies env env' row' := by
  intro h
  rcases List.mem_append.mp (hrows ▸ h.mem) with hmem | hmem
  · obtain ⟨old, hold, rfl⟩ := List.mem_map.mp hmem
    exact h.before old hold (supersede_id old).symm (supersede_applied h.applied)
  · have happlied := h.applied
    rw [List.mem_singleton.mp hmem, hrow.queued] at happlied
    cases happlied

/-- A removal that applies without a runner applies its own row. -/
theorem applies_forgotten {mid : Environment} {outcome : Outcome} (hrow : env.Admitted row)
    (hrows : mid.deployments = env.deployments.map (·.supersede) ++ [row])
    (h : Applies env (mid.forgotten now row outcome) row') :
    row'.saved = row.saved ∧ row'.runner = none := by
  obtain ⟨old, hold, rfl⟩ := List.mem_map.mp h.mem
  have hold : old ∈ mid.deployments := hold
  rcases List.mem_append.mp (hrows ▸ hold) with hmem | hmem
  · obtain ⟨before, hbefore, rfl⟩ := List.mem_map.mp hmem
    -- An older row is not the one written.
    have hne : before.supersede.id ≠ (forgottenRow row now outcome).id := by
      rw [supersede_id]
      exact hrow.fresh before hbefore
    have happlied := h.applied
    have hid := h.before before hbefore
    rw [Stored.put, if_neg hne] at happlied hid
    exact absurd (supersede_applied happlied) (hid (supersede_id before).symm)
  · have hself : old.id = (forgottenRow row now outcome).id := by
      rw [List.mem_singleton.mp hmem]
      rfl
    rw [Stored.put, if_pos hself, List.mem_singleton.mp hmem]
    exact ⟨rfl, hrow.runner⟩

theorem Applies.congr {env₁ env₂ : Environment} (hrows : env₁.deployments = env₂.deployments)
    (h : Applies env env₁ row') : Applies env env₂ row' :=
  ⟨hrows ▸ h.mem, h.applied, h.before⟩

theorem not_applies_self (hrows : env'.deployments = env.deployments) : ¬Applies env env' row' :=
  not_applies_map (f := id) (fun _ => rfl) (fun _ h => h) (by rw [hrows, List.map_id])

theorem not_applies_claimed {written : Stored} (hrun : stored.status.claimed = true)
    (hstatus : written.status = stored.status) : ¬Applies env (env.save written) row' := by
  intro h
  rw [← hstatus, h.save.1] at hrun
  cases hrun

/-- A record applies a Deployment only by executing it. -/
theorem Recorded.applies {evidence : RunEvidence} {follow : Except RpcError Unit}
    (h : env.Recorded now stored follow evidence env') (happlies : Applies env env' row') :
    ∃ outcome removed projection nodes, evidence = .executed outcome removed ∧
      (∃ preview, projectRuntimeOutcome preview outcome = .ok projection) ∧
      (∃ saved, env.savedAt stored.saved = .ok saved ∧
        nodes = keepAdvanced stored.run.nodes (nodeOutcomes stored.nodes saved env.appliedState
          (.executed projection removed)) ∧
        env'.applied = advance saved stored.nodes nodes true env.applied) ∧
      executedStatus outcome nodes = .applied ∧
      ∃ row ∈ env.deployments, row.id = stored.id ∧ row'.runner = stored.runner ∧
        SameFrozen row row' := by
  cases h with
  | same => exact absurd happlies (not_applies_self rfl)
  | alive hrun => exact absurd happlies (not_applies_claimed hrun rfl)
  | prepared hrun => exact absurd happlies (not_applies_claimed hrun rfl)
  | confirmed hrun _ _ _ _ hadvanced =>
    have happlies := happlies.congr (save_rows (advanced_rows hadvanced) _)
    exact absurd happlies (not_applies_claimed hrun rfl)
  | stopped _ _ _ hadvanced =>
    have hsaved := (happlies.congr (save_rows (advanced_rows hadvanced) _)).save.1
    unfold Stored.ended at hsaved
    dsimp only at hsaved
    split_ifs at hsaved
  | lost =>
    have hsaved := happlies.save.1
    cases hsaved
  | @executed _ _ outcome removed preview _ projection hproject saved hsaved nodes houtcomes mid
      hadvanced =>
    obtain ⟨hstatus, row, hrow, hid, hwritten⟩ :=
      (happlies.congr (save_rows (advanced_rows hadvanced) _)).save
    have hexecuted : executedStatus outcome nodes = .applied := by
      unfold Stored.ended at hstatus
      dsimp only at hstatus
      split_ifs at hstatus
      exact hstatus
    refine ⟨outcome, removed, projection, nodes, rfl, ⟨preview, hproject⟩,
      ⟨saved, hsaved, houtcomes, ?_⟩, hexecuted, row, hrow, hid, by rw [hwritten]; rfl,
      by rw [hwritten]; exact ⟨rfl, rfl, rfl, rfl⟩⟩
    have hmid := advanced_eq hadvanced hsaved
    rw [hexecuted] at hmid
    show mid.applied = _
    rw [hmid]
    rfl

theorem applied_of_executedStatus {outcome : DeployOutcome} {nodes : TreeMap String NodeStatus}
    (h : executedStatus outcome nodes = .applied) :
    outcome.isSuccess = true ∧ ∀ id : String, nodes[id]? ≠ some .failed := by
  unfold executedStatus at h
  split_ifs at h with hboth
  rw [Bool.and_eq_true] at hboth
  refine ⟨hboth.1, fun id hfailed => ?_⟩
  have hnot := List.all_eq_true.mp hboth.2 (id, .failed)
    (TreeMap.mem_toList_iff_getElem?_eq_some.mpr hfailed)
  simp at hnot

/-- A step applies a Deployment by executing it, or without a runner. -/
theorem Environment.Effect.applies {op : Op} (h : env.Effect now op env')
    (happlies : Applies env env' row') :
    (row'.saved = NOTHING ∧ row'.runner = none ∧ env'.applied = ∅) ∨
      ∃ id runner evidence follow stored, op = .record id runner evidence follow ∧
        env.load now id = .ok stored ∧ stored.runner = some runner ∧
        env.Recorded now (stored.renew now) follow evidence env' := by
  cases h with
  | keep _ hrows => exact absurd happlies (not_applies_self hrows)
  | ship _ h => exact absurd happlies (not_applies_admitRow h.admitted h.rows)
  | forget h hremove _ outcome =>
    obtain ⟨hsaved, hrunner⟩ := applies_forgotten h.admitted h.rows happlies
    exact .inl ⟨hsaved.trans hremove, hrunner, rfl⟩
  | again h => exact absurd happlies (not_applies_admitRow h.admitted h.rows)
  | forgetAgain h hremove outcome =>
    obtain ⟨hsaved, hrunner⟩ := applies_forgotten h.admitted h.rows happlies
    refine .inl ⟨hsaved.trans ?_, hrunner, rfl⟩
    simpa [Stored.remove] using hremove
  | claim hload h =>
    cases h with
    | refused => exact absurd happlies (not_applies_self rfl)
    | lost => cases happlies.save.1
    | again hrun => exact absurd happlies (not_applies_claimed hrun rfl)
    | queued =>
      obtain ⟨row, hrow, rfl⟩ := List.mem_map.mp happlies.mem
      obtain ⟨old, hold, rfl⟩ := List.mem_map.mp hrow
      have happlied := happlies.applied
      unfold Stored.put at happlied
      split_ifs at happlied with hid
      · cases happlied
      · refine absurd ?_ (happlies.before old hold (by rw [Stored.put_id, Stored.lose_id]))
        unfold Stored.lose at happlied
        split_ifs at happlied
        exact happlied
  | cancel => cases happlies.save.1
  | cancelling => cases happlies.save.1
  | forgetCluster =>
    refine absurd happlies (not_applies_map (f := (·.giveUp now)) (fun row => ?_)
      (fun row hstatus => ?_) rfl)
    · unfold Stored.giveUp
      split_ifs <;> rfl
    · unfold Stored.giveUp at hstatus
      split_ifs at hstatus
      exact hstatus
  | record hload hrunner h => exact .inr ⟨_, _, _, _, _, rfl, hload, hrunner, h⟩

end Ending

/-- A Deployment of the whole Environment that ends applied leaves Applied State exactly its Saved
revision if and only if it applied without a runner, or every node that Applied State held is one
of its targets. -/
theorem whole_deployment_exact_iff (slug : EnvironmentSlug) (clock : Nat) (ops : List Op) (op : Op)
    {row : Stored} (happlies : Applies ((World.created slug clock).after ops).env
      (((World.created slug clock).after ops).next op).env row) (hwhole : row.services = []) :
    let w := (World.created slug clock).after ops
    ∃ saved, (w.next op).env.savedAt row.saved = .ok saved ∧
      (Exactly saved w.env.applied (w.next op).env.applied ↔ row.runner = none ∨
        ∀ (id : String) (node : Node), w.env.applied[id]? = some node →
          ∃ target ∈ row.nodes, target.id = id) := by
  intro w
  have hgrounded : w.env.Grounded :=
    World.grounded_after (World.created_grounded slug clock) ops
  have hsound : w.Sound := (World.created_sound slug clock).after ops
  have heffect := next_effect hsound.working op
  rcases heffect.applies happlies with ⟨hsaved, hrunner, happlied⟩ |
    ⟨id, runner, evidence, follow, stored, -, hload, hrunner, hrecorded⟩
  · refine ⟨emptyIntent (w.next op).env.slug, by rw [hsaved]; rfl, ?_⟩
    show Exactly _ _ (w.next op).env.applied ↔ _
    rw [happlied]
    refine iff_of_true ⟨fun _ => (nomatch ·), fun _ => (nomatch ·), fun id node hnode => ?_⟩
      (.inl hrunner)
    simp at hnode
  · obtain ⟨outcome, removed, projection, nodes, -, ⟨preview, hproject⟩, ⟨saved, hsaved, houtcomes,
      happlied⟩, hstatus, before, hbefore, hid, hrunner', hsame⟩ :=
        Recorded.applies hrecorded happlies
    obtain ⟨loaded, hloaded, -, rfl⟩ := load_mem hload
    obtain rfl : before = loaded := by
      refine List.inj_on_of_nodup_map hsound.single.ids hbefore hloaded ?_
      rw [hid, Stored.renew_id]
      rfl
    obtain ⟨saved', hread, htargets, hcovers⟩ := hgrounded.rows before hbefore
    obtain rfl : saved' = saved := by
      rw [Stored.renew_saved, show (before.read w.clock).saved = before.saved from rfl, hread]
        at hsaved
      exact Except.ok.inj hsaved
    have hnodes : ((before.read w.clock).renew w.clock).nodes = before.nodes :=
      Stored.renew_nodes _
    rw [hnodes] at houtcomes happlied
    obtain ⟨hwell, -⟩ := hgrounded.toDocuments.savedAt hread
    have hsuccess : projection.summary.isSuccess = true ∧
        ∀ id : String, nodes[id]? ≠ some .failed := by
      rw [projectRuntimeOutcome_summary hproject]
      exact applied_of_executedStatus hstatus
    obtain ⟨hfailed, hunattempted⟩ := projectRuntimeOutcome_success hproject hsuccess.1
    refine ⟨saved', heffect.frame.savedAt (hsame.saved ▸ hread), ?_⟩
    show Exactly _ _ (w.next op).env.applied ↔ _
    rw [happlied, exactly_advance_iff htargets (hcovers (hsame.services ▸ hwhole))
      (closed_of_wellFormed hwell) hgrounded.applied ⟨hsuccess.1, hfailed, hunattempted⟩ houtcomes
      hsuccess.2, hsame.nodes]
    have hheld : row.runner ≠ none := by
      rw [hrunner', Stored.renew_runner, hrunner]
      simp
    exact ⟨.inr, fun h => h.resolve_left hheld⟩

/-- A row of this ID that a step applies. -/
theorem exists_applies {env env' : Environment} {id : String} (p : Stored → Bool)
    (hbefore : env.deployments.all (fun row => row.id != id || row.status != .applied) = true)
    (hafter : (env'.deployments.find? (·.id == id)).any (fun row =>
      row.status == .applied && p row) = true) :
    ∃ row, Applies env env' row ∧ p row = true := by
  obtain ⟨row, hrow, hboth⟩ := (Option.any_eq_true _ _).mp hafter
  rw [Bool.and_eq_true] at hboth
  refine ⟨row, ⟨List.mem_of_find?_eq_some hrow, by simpa using hboth.1, fun old hold hid => ?_⟩,
    hboth.2⟩
  have hrowId : row.id = id := by simpa using List.find?_some hrow
  have hnot := List.all_eq_true.mp hbefore old hold
  simpa [hid, hrowId] using hnot

namespace Sample

/-- The first Deployment of an Environment leaves exactly what it shipped. -/
theorem whole_deployment_exact_first : ∃ row saved,
    Applies prepared.env (prepared.next executes).env row ∧
      (prepared.next executes).env.savedAt row.saved = .ok saved ∧
      Exactly saved prepared.env.applied (prepared.next executes).env.applied := by
  obtain ⟨row, happlies, hwhole⟩ :=
    @exists_applies prepared.env (prepared.next executes).env "first"
    (·.services.isEmpty) (by decide +kernel) (by decide +kernel)
  have hempty : prepared.env.applied.isEmpty = true := by decide +kernel
  obtain ⟨saved, hsaved, hexact⟩ := whole_deployment_exact_iff slug 0
    (firstDeploy ++ [record "first" (.prepared (previewOf [web]))]) executes happlies
    (List.isEmpty_iff.mp hwhole)
  refine ⟨row, saved, happlies, hsaved, hexact.mpr (.inr fun id node hnode => ?_)⟩
  have hnone : prepared.env.applied[id]? = none := TreeMap.getElem?_of_isEmpty hempty
  exact absurd (hnode.symm.trans hnone) (by simp)

/-- While the first Deployment runs, `job` leaves Working State and a second one of the whole
Environment is admitted; only then does the first one confirm `job`. -/
def overtaken : List Op :=
  [.edit (.holding [mounting webId web [], mounting jobId job []] []), deployAll "first" [],
    claim "first", record "first" (.prepared (previewOf [web, job])),
    .edit (.holding [mounting webId web []] []), deployAll "second" [],
    record "first" (.executed (completed [web, job]) []),
    claim "second", record "second" (.prepared (previewOf [web]))]

def overtakenEnd : Op := record "second" (.executed (completed [web]) [])

/-- The second Deployment ends applied, and `job` stays in Applied State. -/
theorem overtaken_node_stays : ∃ row saved,
    let w := (World.created slug 0).after overtaken
    Applies w.env (w.next overtakenEnd).env row ∧ row.services = [] ∧
      (w.next overtakenEnd).env.savedAt row.saved = .ok saved ∧
      ¬Exactly saved w.env.applied (w.next overtakenEnd).env.applied := by
  obtain ⟨row, happlies, hrow⟩ := @exists_applies ((World.created slug 0).after overtaken).env
    (((World.created slug 0).after overtaken).next overtakenEnd).env "second"
    (fun row => row.services.isEmpty && row.saved == 2) (by decide +kernel) (by decide +kernel)
  rw [Bool.and_eq_true, List.isEmpty_iff, beq_iff_eq] at hrow
  obtain ⟨saved, hsaved, hnodes⟩ := exists_ok (fun saved => ∀ node ∈ nodesOf saved, node.id ≠ jobId)
    (x := (((World.created slug 0).after overtaken).next overtakenEnd).env.savedAt 2)
    (by decide +kernel)
  refine ⟨row, saved, happlies, hrow.1, by rw [hrow.2]; exact hsaved, fun hexactly => ?_⟩
  have hheld : ((((World.created slug 0).after overtaken).next
    overtakenEnd).env.applied[jobId]?).any
      (·.id == jobId) = true := by decide +kernel
  obtain ⟨node, hnode, hid⟩ := (Option.any_eq_true _ _).mp hheld
  exact hnodes node (hexactly.others jobId node hnode) (by simpa using hid)

end Sample

end Ployz
