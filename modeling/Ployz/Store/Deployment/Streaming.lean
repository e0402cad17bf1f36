import Ployz.Store.Deployment.Targets

/-!
# Confirming Services while a Deployment executes

A runner may confirm Services while it executes: each enters Applied State at once, and Node
Outcomes are recomputed against the Applied State they moved. As long as it confirms only
Services whose planned operations complete, this changes nothing about how the Deployment ends.

Compared with what executing alone would settle, whatever was streamed agrees with
it where a node advanced, and left Applied State alone where none did (`Streamed`). One
confirmation keeps this (`Streamed.confirm`), and the executed record then settles every node as
it would have (`Streamed.outcomes`, `Streamed.applied`).

Main theorem: `streaming_harmless`.
-/

namespace Ployz

open Run Environment
open Std (TreeMap)

/-! ## Node Outcomes against a moved Applied State -/

variable {node : TargetNode} {name : ServiceName}

section Moved

variable {slug : String} {applied applied' : AppliedTable}

theorem contains_volume_congr (happlied : OwnKeys applied) (happlied' : OwnKeys applied')
    {volume : SavedVolumeIntent} (h : applied[volume.resourceId]? = applied'[volume.resourceId]?) :
    (appliedState slug applied).volumes.contains volume =
      (appliedState slug applied').volumes.contains volume := by
  rw [Bool.eq_iff_iff, List.contains_iff_mem, List.contains_iff_mem,
    mem_appliedState_volumes happlied, mem_appliedState_volumes happlied', h]

theorem any_volume_congr (happlied : OwnKeys applied) (happlied' : OwnKeys applied') {id : String}
    (h : applied[id]? = applied'[id]?) :
    (appliedState slug applied).volumes.any (·.resourceId == id) =
      (appliedState slug applied').volumes.any (·.resourceId == id) := by
  rw [Bool.eq_iff_iff, any_volume_iff happlied, any_volume_iff happlied', h]

variable {nodes : List TargetNode} {saved : SavedEnvironmentIntent} {evidence : Evidence}

/-- A node's outcome depends on Applied State only through what it holds of that node. -/
theorem nodeOutcome_congr (happlied : OwnKeys applied) (happlied' : OwnKeys applied')
    (h : applied[node.id]? = applied'[node.id]?) :
    nodeOutcome nodes saved (appliedState slug applied) evidence node =
      nodeOutcome nodes saved (appliedState slug applied') evidence node := by
  cases node with
  | service id name runtime => rfl
  | volume id name deletes =>
    cases deletes with
    | some deletes => rfl
    | none =>
      unfold nodeOutcome
      dsimp only
      split
      · next volume hfind =>
        have hid : volume.resourceId = id := by simpa using List.find?_some hfind
        have hvolume : applied[volume.resourceId]? = applied'[volume.resourceId]? := by
          rw [hid]
          exact h
        unfold Evidence.keptVolume
        rw [contains_volume_congr happlied happlied' hvolume,
          any_volume_congr happlied happlied' hvolume]
      · rfl

end Moved

/-! ## What confirming settles -/

section Confirming

variable {nodes : List TargetNode} {saved applied : SavedEnvironmentIntent}
  {preview : DeployPreview} {confirmed : List ServiceName} {projection : RuntimeOutcomeProjection}
  {removed : List VolumeRemoval}

theorem landed_advances (kept : Bool) : (Evidence.landed kept).advances = true := by
  cases kept <;> rfl

theorem service_planned_advances {kept : Bool}
    (h : ((Evidence.planned preview confirmed).service name kept).advances = true) :
    name ∈ confirmed ∧
      (Evidence.planned preview confirmed).service name kept = Evidence.landed kept := by
  unfold Evidence.service at h ⊢
  dsimp only at h ⊢
  split_ifs at h ⊢ with hconfirmed
  · exact ⟨by simpa using hconfirmed, rfl⟩
  · cases h
  · cases h

theorem service_executed (h : name ∈ projection.confirmedServices) (kept : Bool) :
    (Evidence.executed projection removed).service name kept =
      Evidence.landed kept := by
  simp [Evidence.service, h]

theorem service_executed_advances {kept : Bool}
    (h : ((Evidence.executed projection removed).service name kept).advances = true) :
    name ∈ projection.confirmedServices := by
  unfold Evidence.service at h
  dsimp only at h
  split_ifs at h with hconfirmed
  · simpa using hconfirmed
  all_goals cases h

/-- While a Deployment runs, a kept Volume advances only with a Service that mounts it. -/
theorem keptVolume_planned_advances {volume : SavedVolumeIntent} {mounting : List NodeStatus}
    (h : ((Evidence.planned preview confirmed).keptVolume applied volume mounting).advances =
      true) :
    NodeStatus.deployed ∈ mounting ∧ applied.volumes.contains volume = false ∧
      (Evidence.planned preview confirmed).keptVolume applied volume mounting = .deployed := by
  by_cases hfirst : mounting.contains .deployed = true ∧ applied.volumes.contains volume = false
  · obtain ⟨hdeployed, hheld⟩ := hfirst
    refine ⟨by simpa using hdeployed, hheld, ?_⟩
    unfold Evidence.keptVolume
    rw [if_pos (by rw [hdeployed, hheld]; rfl)]
  · exfalso
    unfold Evidence.keptVolume at h
    rw [if_neg (by simpa using hfirst)] at h
    split_ifs at h with _ _ _ hheld _ hplanned
    any_goals cases h
    -- Past every other case it is Deployed only where a mounting Service is.
    refine hfirst ⟨?_, by simpa using hheld⟩
    simpa [Evidence.isPlanned] using hplanned

/-- What a confirmation settles, executing settles alike. -/
theorem nodeOutcome_planned_advances
    (hconfirmed : ∀ name ∈ confirmed, name ∈ projection.confirmedServices)
    (h : (nodeOutcome nodes saved applied (.planned preview confirmed) node).advances = true) :
    nodeOutcome nodes saved applied (.executed projection removed) node =
      nodeOutcome nodes saved applied (.planned preview confirmed) node := by
  cases node with
  | service id name runtime =>
    unfold nodeOutcome at h ⊢
    dsimp only at h ⊢
    obtain ⟨hname, hlanded⟩ := service_planned_advances h
    rw [hlanded, service_executed (hconfirmed runtime hname)]
  | volume id name deletes =>
    cases deletes with
    | some deletes => cases h
    | none =>
      unfold nodeOutcome at h ⊢
      dsimp only at h ⊢
      split at h
      · next volume hfind =>
        obtain ⟨hdeployed, hheld, hkept⟩ := keptVolume_planned_advances h
        rw [hkept]
        -- The Service that is Deployed while it runs is Deployed by executing, too.
        obtain ⟨service, hservice, hstatus⟩ := List.mem_map.mp hdeployed
        have hadvances : ((Evidence.planned preview confirmed).service service.config.privateDns
            true).advances = true := by
          rw [hstatus]
          rfl
        have hexecuted : NodeStatus.deployed ∈
            mountingOutcomes nodes saved (.executed projection removed) volume := by
          refine List.mem_map.mpr ⟨service, hservice, ?_⟩
          rw [service_executed (hconfirmed _ (service_planned_advances hadvances).1)]
          rfl
        unfold Evidence.keptVolume
        rw [if_pos (by rw [hheld]; simpa using hexecuted)]
      · cases h

/-- A preview alone settles no node as advanced. -/
theorem nodeOutcome_prepared (node : TargetNode) :
    (nodeOutcome nodes saved applied (.planned preview []) node).advances = false := by
  by_contra hadvances
  rw [Bool.not_eq_false] at hadvances
  cases node with
  | service id name runtime =>
    rw [nodeOutcome] at hadvances
    cases (service_planned_advances hadvances).1
  | volume id name deletes =>
    cases deletes with
    | some deletes => cases hadvances
    | none =>
      unfold nodeOutcome at hadvances
      dsimp only at hadvances
      split at hadvances
      · obtain ⟨hdeployed, -⟩ := keptVolume_planned_advances hadvances
        obtain ⟨service, -, hstatus⟩ := List.mem_map.mp hdeployed
        have hlanded : ((Evidence.planned preview []).service service.config.privateDns
            true).advances = true := by
          rw [hstatus]
          rfl
        cases (service_planned_advances hlanded).1
      · cases hadvances

end Confirming

/-! ## Streaming -/

/-- What a Deployment starts from, and what executing it is going to settle. -/
structure Course where
  introduced : TreeMap String EnvironmentNodeType
  slug : String
  saved : SavedEnvironmentIntent
  nodes : List TargetNode
  applied : AppliedTable
  preview : DeployPreview
  projection : RuntimeOutcomeProjection
  removed : List VolumeRemoval
  targets : Targets introduced saved nodes
  rooted : Rooted introduced applied

variable {stored : Stored}

namespace Course

variable (c : Course)

/-- The Node Outcomes that executing alone settles. -/
def settles : TreeMap String NodeStatus :=
  nodeOutcomes c.nodes c.saved (appliedState c.slug c.applied) (.executed c.projection c.removed)

/-- What streaming left agrees with what executing alone settles: a node that advanced did so
alike, and Applied State holds it as shipped; every other node it holds as before. -/
structure Streamed (applied : AppliedTable) (outcomes : TreeMap String NodeStatus) : Prop where
  rooted : Rooted c.introduced applied
  ids : ∀ (id : String) (status : NodeStatus), outcomes[id]? = some status →
    status.advances = true →
    c.settles[id]? = some status
  held : ∀ node ∈ c.nodes, outcomes[node.id]?.any (·.advances) = true →
    applied[node.id]? = node.saved c.saved
  other : ∀ id : String, outcomes[id]?.any (·.advances) = false → applied[id]? = c.applied[id]?

variable {c} {applied : AppliedTable} {outcomes : TreeMap String NodeStatus}

theorem settles_of_mem (hnode : node ∈ c.nodes) :
    c.settles[node.id]? = some (nodeOutcome c.nodes c.saved (appliedState c.slug c.applied)
      (.executed c.projection c.removed) node) :=
  getElem?_nodeOutcomes c.targets.unambiguous hnode

/-- A node that has not advanced is settled as executing alone would. -/
theorem Streamed.outcome_eq (h : c.Streamed applied outcomes)
    (hnode : outcomes[node.id]?.any (·.advances) = false) (evidence : Evidence) :
    nodeOutcome c.nodes c.saved (appliedState c.slug applied) evidence node =
      nodeOutcome c.nodes c.saved (appliedState c.slug c.applied) evidence node :=
  nodeOutcome_congr h.rooted.keys c.rooted.keys (h.other node.id hnode)

/-- A target Service that advanced completes its planned operations. -/
theorem Streamed.confirmed (h : c.Streamed applied outcomes) {id name : String}
    {runtime : ServiceName} (hnode : TargetNode.service id name runtime ∈ c.nodes)
    (hadvanced : outcomes[id]?.any (·.advances) = true) :
    runtime ∈ c.projection.confirmedServices := by
  obtain ⟨status, hstatus, hadvances⟩ := (Option.any_eq_true _ _).mp hadvanced
  have hsettles := h.ids id status hstatus hadvances
  have hid : (TargetNode.service id name runtime).id = id := rfl
  rw [← hid, settles_of_mem hnode] at hsettles
  rw [← Option.some.inj hsettles, nodeOutcome] at hadvances
  exact service_executed_advances hadvances

/-- Nothing advanced yet. -/
theorem streamed_prepared
    (hnodes : outcomes = settled c.nodes c.saved (appliedState c.slug c.applied) c.preview []) :
    c.Streamed c.applied outcomes := by
  have hnone : ∀ (id : String) (status : NodeStatus), outcomes[id]? = some status →
      status.advances = false := by
    intro id status hstatus
    rw [hnodes, getElem?_settled, Option.filter_eq_some_iff] at hstatus
    obtain ⟨node, hnode, rfl⟩ := exists_of_getElem?_nodeOutcomes hstatus.1
    rw [getElem?_nodeOutcomes c.targets.unambiguous hnode] at hstatus
    rw [← Option.some.inj hstatus.1]
    exact nodeOutcome_prepared node
  refine ⟨c.rooted, fun id status hstatus hadvances => ?_, fun node _ hadvanced => ?_,
    fun _ _ => rfl⟩
  · rw [hnone id status hstatus] at hadvances
    cases hadvances
  · obtain ⟨status, hstatus, hadvances⟩ := (Option.any_eq_true _ _).mp hadvanced
    rw [hnone node.id status hstatus] at hadvances
    cases hadvances

theorem entersWith_running (outcomes : TreeMap String NodeStatus) (node : TargetNode) :
    entersWith outcomes false node = outcomes[node.id]?.any (·.advances) := by
  simp [entersWith]

theorem any_keepAdvanced (prior next : TreeMap String NodeStatus) (id : String) :
    (keepAdvanced prior next)[id]?.any (·.advances) =
      (prior[id]?.any (·.advances) || next[id]?.any (·.advances)) := by
  rw [getElem?_keepAdvanced]
  cases prior[id]? with
  | none => rfl
  | some status =>
    cases hadvances : status.advances <;> simp [Option.filter, hadvances]

/-- Confirming Services that complete keeps what streaming left in agreement. -/
theorem Streamed.confirm (h : c.Streamed applied outcomes) {confirmed : List ServiceName}
    (hconfirmed : ∀ name ∈ confirmed, name ∈ c.projection.confirmedServices)
    {outcomes' : TreeMap String NodeStatus} (houtcomes' : outcomes' = keepAdvanced outcomes
      (settled c.nodes c.saved (appliedState c.slug applied) c.preview confirmed)) :
    c.Streamed (advance c.saved c.nodes outcomes' false applied) outcomes' := by
  refine ⟨rooted_advance c.targets h.rooted, ?_, ?_, ?_⟩
  · intro id status hstatus hadvances
    rw [houtcomes'] at hstatus
    cases hprior : outcomes[id]?.any (·.advances) with
    | true =>
      obtain ⟨before, hbefore, hadvanced⟩ := (Option.any_eq_true _ _).mp hprior
      rw [getElem?_keepAdvanced_of_advances hbefore hadvanced] at hstatus
      rw [← Option.some.inj hstatus]
      exact h.ids id before hbefore hadvanced
    | false =>
      rw [getElem?_keepAdvanced_of_not hprior, getElem?_settled, Option.filter_eq_some_iff]
        at hstatus
      obtain ⟨node, hnode, rfl⟩ := exists_of_getElem?_nodeOutcomes hstatus.1
      rw [getElem?_nodeOutcomes c.targets.unambiguous hnode] at hstatus
      have hplanned := Option.some.inj hstatus.1
      rw [← hplanned] at hadvances
      rw [settles_of_mem hnode, ← h.outcome_eq hprior,
        nodeOutcome_planned_advances hconfirmed hadvances, hplanned]
  · intro node hnode hadvanced
    refine getElem?_advance c.targets.unambiguous hnode ?_
    rw [entersWith_running]
    exact hadvanced
  · intro id hnot
    rw [getElem?_advance_of_not]
    · refine h.other id ?_
      rw [houtcomes', any_keepAdvanced, Bool.or_eq_false_iff] at hnot
      exact hnot.1
    · rintro node - rfl
      rw [entersWith_running]
      exact hnot

/-- Executing then settles every node as it would have alone. -/
theorem Streamed.outcomes_eq (h : c.Streamed applied outcomes) (id : String) :
    (keepAdvanced outcomes (nodeOutcomes c.nodes c.saved (appliedState c.slug applied)
      (.executed c.projection c.removed)))[id]? = c.settles[id]? := by
  cases hprior : outcomes[id]?.any (·.advances) with
  | true =>
    obtain ⟨before, hbefore, hadvanced⟩ := (Option.any_eq_true _ _).mp hprior
    rw [getElem?_keepAdvanced_of_advances hbefore hadvanced, h.ids id before hbefore hadvanced]
  | false =>
    rw [getElem?_keepAdvanced_of_not hprior]
    by_cases hnode : ∃ node ∈ c.nodes, node.id = id
    · obtain ⟨node, hnode, rfl⟩ := hnode
      rw [getElem?_nodeOutcomes c.targets.unambiguous hnode, settles_of_mem hnode,
        h.outcome_eq hprior]
    · have habsent : ∀ node ∈ c.nodes, node.id ≠ id := fun node hnode' hid =>
        hnode ⟨node, hnode', hid⟩
      rw [nodeOutcomes, settles, nodeOutcomes, Table.getElem?_ofList_map_none habsent,
        Table.getElem?_ofList_map_none habsent]

/-- And leaves Applied State as it would have. -/
theorem Streamed.applied_eq (h : c.Streamed applied outcomes) {final : TreeMap String NodeStatus}
    (hfinal : ∀ id : String, final[id]? = c.settles[id]?) (succeeded : Bool) (id : String) :
    (advance c.saved c.nodes final succeeded applied)[id]? =
      (advance c.saved c.nodes c.settles succeeded c.applied)[id]? := by
  have henters : ∀ node, entersWith final succeeded node = entersWith c.settles succeeded node := by
    intro node
    rw [entersWith, entersWith, hfinal]
  by_cases hid : ∃ node ∈ c.nodes, node.id = id ∧ entersWith c.settles succeeded node = true
  · obtain ⟨node, hnode, rfl, henter⟩ := hid
    rw [getElem?_advance c.targets.unambiguous hnode henter,
      getElem?_advance c.targets.unambiguous hnode (henters node ▸ henter)]
  · have hnot : ∀ node ∈ c.nodes, node.id = id → entersWith c.settles succeeded node = false := by
      intro node hnode hnodeId
      by_contra hno
      exact hid ⟨node, hnode, hnodeId, by simpa using hno⟩
    rw [getElem?_advance_of_not hnot, getElem?_advance_of_not fun node hnode hnodeId =>
      (henters node).trans (hnot node hnode hnodeId)]
    refine h.other id ?_
    -- A node that advanced would enter.
    by_contra hadvanced
    obtain ⟨status, hstatus, hadvances⟩ :=
      (Option.any_eq_true _ _).mp (by simpa using hadvanced)
    have hsettles := h.ids id status hstatus hadvances
    obtain ⟨node, hnode, rfl⟩ := exists_of_getElem?_nodeOutcomes hsettles
    have henter := hnot node hnode rfl
    rw [entersWith, hsettles] at henter
    simp [hadvances] at henter

/-! ## Runs that stream -/

def confirmNext (stored : Stored) (confirmed : List ServiceName) : TargetNode → List ServiceName
  | .service id _ runtime =>
    if stored.run.nodes[id]?.any (·.advances) && !confirmed.contains runtime then
      confirmed ++ [runtime]
    else confirmed
  | .volume .. => confirmed

theorem mem_confirmedSoFar {services : List ServiceName}
    (h : name ∈ confirmedSoFar stored services) :
    name ∈ services ∨ ∃ id shown, TargetNode.service id shown name ∈ stored.nodes ∧
      stored.run.nodes[id]?.any (·.advances) = true := by
  unfold confirmedSoFar at h
  -- The fold only adds the runtime names of targets that advanced.
  have hfold : ∀ (nodes : List TargetNode) (confirmed : List ServiceName),
      name ∈ nodes.foldl (confirmNext stored) confirmed →
      name ∈ confirmed ∨ ∃ id shown, TargetNode.service id shown name ∈ nodes ∧
        stored.run.nodes[id]?.any (·.advances) = true := by
    intro nodes
    induction nodes with
    | nil => exact fun _ h => .inl h
    | cons node nodes ih =>
      intro confirmed h
      rcases ih _ h with hmem | ⟨id, shown, hnode, hadvanced⟩
      · cases node with
        | volume => exact .inl hmem
        | service id shown runtime =>
          rw [confirmNext] at hmem
          split_ifs at hmem with hadds
          · rcases List.mem_append.mp hmem with hmem | hmem
            · exact .inl hmem
            · rw [List.mem_singleton.mp hmem]
              rw [Bool.and_eq_true] at hadds
              exact .inr ⟨id, shown, List.mem_cons_self, hadds.1⟩
          · exact .inl hmem
      · exact .inr ⟨id, shown, List.mem_cons_of_mem _ hnode, hadvanced⟩
  exact hfold stored.nodes services h

/-- A Deployment that `runner` holds between its preview and its outcome, on the course `c`. -/
structure Midway (c : Course) (id runner : String) (revision : Nat) (status : DeploymentStatus)
    (env : Environment) : Prop where
  row : ∃ row, env.deployments.find? (·.id == id) = some row ∧ row.nodes = c.nodes ∧
    row.saved = revision ∧ row.run.preview = some c.preview ∧ row.run.outcome = none ∧
    row.status = status ∧ row.runner = some runner ∧ c.Streamed env.applied row.run.nodes
  saved : env.savedAt revision = .ok c.saved
  slug : env.slug = c.slug

end Course

/-- What may come between: the runner confirms Services that complete, or shows it is there, and
time passes. -/
def Op.Streams (id runner : String) (completes : List ServiceName) : Op → Prop
  | .record id' runner' (.confirmed services) _ =>
    id' = id ∧ runner' = runner ∧ ∀ name ∈ services, name ∈ completes
  | .record id' runner' .alive _ => id' = id ∧ runner' = runner
  | .wait _ => True
  | _ => False

namespace Course

variable {c : Course} {id runner : String} {revision : Nat} {status : DeploymentStatus}
  {env env' : Environment} {now : Nat}

theorem read_claimed {row : Stored} (h : ((row.read now).renew now).status.claimed = true) :
    ((row.read now).renew now).status = row.status := by
  rw [Stored.renew_status] at h ⊢
  unfold Stored.read Stored.statusAt at h ⊢
  dsimp only at h ⊢
  split_ifs at h ⊢
  · cases h
  · rfl

/-- The Deployment as a record of its runner reads it. -/
structure Reads (c : Course) (id runner : String) (revision : Nat) (status : DeploymentStatus)
    (env : Environment) (stored : Stored) : Prop where
  id : stored.id = id
  nodes : stored.nodes = c.nodes
  saved : stored.saved = revision
  preview : stored.run.preview = some c.preview
  outcome : stored.run.outcome = none
  status : stored.status.claimed = true → stored.status = status
  runner : stored.runner = some runner
  streamed : c.Streamed env.applied stored.run.nodes

variable {follow : Except RpcError Unit} {w : World}

theorem Midway.reads (h : c.Midway id runner revision status env) {evidence : RunEvidence}
    (hrecord : env.record now id runner evidence follow = .ok env') :
    ∃ row stored, env.deployments.find? (·.id == id) = some row ∧ row.nodes = c.nodes ∧
      row.saved = revision ∧ c.Reads id runner revision status env stored ∧
      env.Recorded now stored follow evidence env' := by
  obtain ⟨row, hrow, hnodes, hrevision, hpreview, houtcome, hstatus, hrunner, hstreamed⟩ := h.row
  have hid : row.id = id := by simpa using List.find?_some hrow
  obtain ⟨loaded, hload, -, hrecorded⟩ := record_ok hrecord
  obtain ⟨found, hfound, rfl⟩ := load_ok.mp hload
  obtain rfl : row = found := Option.some.inj (hrow.symm.trans hfound)
  refine ⟨row, _, hrow, hnodes, hrevision, ⟨?_, ?_, ?_, ?_, ?_, fun hrun => ?_, ?_, ?_⟩,
    hrecorded⟩
  · rw [Stored.renew_id]
    exact hid
  · rw [Stored.renew_nodes]
    exact hnodes
  · rw [Stored.renew_saved]
    exact hrevision
  · rw [Stored.renew_run]
    exact hpreview
  · rw [Stored.renew_run]
    exact houtcome
  · exact (read_claimed hrun).trans hstatus
  · rw [Stored.renew_runner]
    exact hrunner
  · rw [Stored.renew_run]
    exact hstreamed

/-- Confirming Services that complete keeps the Deployment on its course. -/
theorem Midway.confirm (h : c.Midway id runner revision status env) {services : List ServiceName}
    (hservices : ∀ name ∈ services, name ∈ c.projection.confirmedServices)
    (hrecord : env.record now id runner (.confirmed services) follow = .ok env') :
    c.Midway id runner revision status env' := by
  obtain ⟨row, stored, hrow, hnodes, hrevision, hreads, hrecorded⟩ := h.reads hrecord
  cases hrecorded with
  | same => exact h
  | stopped _ _ hstops => cases hstops
  | @confirmed hrun _ preview hpreview _ saved hsaved nodes houtcomes mid hadvanced =>
    obtain rfl : c.saved = saved := by
      rw [hreads.saved, h.saved] at hsaved
      exact Except.ok.inj hsaved
    obtain rfl : c.preview = preview := Option.some.inj (hreads.preview.symm.trans hpreview)
    have hmid := advanced_eq hadvanced hsaved
    have hconfirmed : ∀ name ∈ confirmedSoFar stored services,
        name ∈ c.projection.confirmedServices := by
      intro name hname
      rcases mem_confirmedSoFar hname with hgiven | ⟨id, shown, hnode, hadvanced⟩
      · exact hservices name hgiven
      · rw [hreads.nodes] at hnode
        exact hreads.streamed.confirmed hnode hadvanced
    have happlied : appliedState c.slug env.applied = env.appliedState := by rw [← h.slug]; rfl
    have hsettled : nodes = keepAdvanced stored.run.nodes (settled c.nodes c.saved
        (appliedState c.slug env.applied) c.preview (confirmedSoFar stored services)) := by
      rw [happlied, ← hreads.nodes]
      exact houtcomes
    have hstreamed := hreads.streamed.confirm hconfirmed hsettled
    have hrow' : (mid.save (stored.withNodes nodes)).deployments.find? (·.id == id) =
        some (row.written (stored.withNodes nodes)) := by
      refine find_save hreads.id ?_
      rw [hmid]
      exact hrow
    refine ⟨⟨_, hrow', hnodes, hrevision, hreads.preview, hreads.outcome, hreads.status hrun,
      hreads.runner, ?_⟩, ?_, ?_⟩
    · have hmidApplied : mid.applied = advance c.saved c.nodes nodes false env.applied := by
        rw [hmid, ← hreads.nodes]
        rfl
      show c.Streamed mid.applied nodes
      rw [hmidApplied]
      exact hstreamed
    · rw [hmid]
      exact h.saved
    · rw [hmid]
      exact h.slug

theorem Midway.alive (h : c.Midway id runner revision status env)
    (hrecord : env.record now id runner .alive follow = .ok env') :
    c.Midway id runner revision status env' := by
  obtain ⟨row, stored, hrow, hnodes, hrevision, hreads, hrecorded⟩ := h.reads hrecord
  cases hrecorded with
  | same => exact h
  | stopped _ _ hstops => cases hstops
  | alive hrun =>
    exact ⟨⟨_, find_save hreads.id hrow, hnodes, hrevision, hreads.preview, hreads.outcome,
      hreads.status hrun, hreads.runner, hreads.streamed⟩, h.saved, h.slug⟩

/-- One step of a stream keeps the Deployment on its course. -/
theorem Midway.next (h : c.Midway id runner revision status w.env) {op : Op}
    (hop : op.Streams id runner c.projection.confirmedServices) :
    c.Midway id runner revision status (w.next op).env := by
  unfold World.next
  dsimp only
  split
  · next env' hstep =>
    cases op with
    | wait =>
      obtain rfl := pure_eq_ok.mp hstep
      exact h
    | record id' runner' evidence follow =>
      cases evidence with
      | confirmed services =>
        obtain ⟨rfl, rfl, hservices⟩ := hop
        exact h.confirm hservices hstep
      | alive =>
        obtain ⟨rfl, rfl⟩ := hop
        exact h.alive hstep
      | _ => cases hop
    | _ => cases hop
  · exact h

theorem Midway.after (h : c.Midway id runner revision status w.env) {ops : List Op}
    (hops : ∀ op ∈ ops, op.Streams id runner c.projection.confirmedServices) :
    c.Midway id runner revision status (w.after ops).env := by
  induction ops generalizing w with
  | nil => exact h
  | cons op ops ih =>
    exact ih (h.next (hops op List.mem_cons_self))
      fun other hother => hops other (List.mem_cons_of_mem _ hother)

def endsAs (c : Course) (status : DeploymentStatus) (outcome : DeployOutcome) : DeploymentStatus :=
  if status = .cancelling ∧ executedStatus outcome c.settles = .failed then .cancelled
  else executedStatus outcome c.settles

variable {outcome : DeployOutcome}

/-- How a Deployment on its course ends does not depend on what was streamed. -/
theorem Midway.ends (h : c.Midway id runner revision status env)
    (hproject : projectRuntimeOutcome c.preview outcome = .ok c.projection)
    (hrecord : env.record now id runner (.executed outcome c.removed) follow = .ok env') :
    (∃ row, env'.deployments.find? (·.id == id) = some row ∧
      row.status = c.endsAs status outcome ∧
      ∀ node : String, row.run.nodes[node]? = c.settles[node]?) ∧
    env'.appliedState = appliedState c.slug (advance c.saved c.nodes c.settles
      (executedStatus outcome c.settles == .applied) c.applied) := by
  obtain ⟨row, stored, hrow, hnodes, hrevision, hreads, hrecorded⟩ := h.reads hrecord
  cases hrecorded with
  | same hreplays =>
    have hsome : stored.run.outcome.isSome = true := hreplays
    rw [hreads.outcome] at hsome
    cases hsome
  | stopped _ _ hstops => cases hstops
  | @executed hrun _ _ _ preview hpreview projection hproject' saved hsaved nodes houtcomes mid
      hadvanced =>
    obtain rfl : c.saved = saved := by
      rw [hreads.saved, h.saved] at hsaved
      exact Except.ok.inj hsaved
    obtain rfl : c.preview = preview := Option.some.inj (hreads.preview.symm.trans hpreview)
    obtain rfl : c.projection = projection := Except.ok.inj (hproject.symm.trans hproject')
    have happlied : appliedState c.slug env.applied = env.appliedState := by rw [← h.slug]; rfl
    have hsettles : ∀ node : String, nodes[node]? = c.settles[node]? := by
      intro node
      rw [houtcomes, hreads.nodes, ← happlied]
      exact hreads.streamed.outcomes_eq node
    have hstatus : executedStatus outcome nodes = executedStatus outcome c.settles := by
      rw [executedStatus, executedStatus, Table.toList_eq_of_getElem? hsettles]
    have hmid := advanced_eq hadvanced hsaved
    constructor
    · refine ⟨_, find_save hreads.id (by rw [hmid]; exact hrow), ?_, hsettles⟩
      show (if stored.status = .cancelling ∧ executedStatus outcome nodes = .failed then
        DeploymentStatus.cancelled else executedStatus outcome nodes) = _
      rw [hstatus, hreads.status hrun]
      rfl
    · show appliedState mid.slug mid.applied = _
      have happlied : mid.applied = advance c.saved c.nodes nodes
          (executedStatus outcome c.settles == .applied) env.applied := by
        rw [hmid, ← hreads.nodes, ← hstatus]
        rfl
      have hslug : mid.slug = c.slug := by
        rw [hmid]
        exact h.slug
      rw [hslug, happlied, appliedState, appliedState,
        Table.toList_eq_of_getElem? (hreads.streamed.applied_eq hsettles _)]

theorem running_of_claimed (h : stored.status.claimed = true) : running stored = .ok () := by
  unfold running
  cases hstatus : stored.status <;> rw [hstatus] at h <;> first | rfl | cases h

theorem exists_advanced {saved : SavedEnvironmentIntent}
    (hsaved : env.savedAt stored.saved = .ok saved) (succeeded : Bool) :
    ∃ mid, env.advanced stored succeeded (.ok ()) = .ok mid := by
  unfold advanced
  split
  · exact ⟨env, rfl⟩
  · rw [hsaved]
    exact ⟨_, rfl⟩

/-- An outcome that fits the preview of a running Deployment is accepted. -/
theorem exists_recordExecuted {preview : DeployPreview} {projection : RuntimeOutcomeProjection}
    {saved : SavedEnvironmentIntent} (hrun : stored.status.claimed = true)
    (houtcome : stored.run.outcome = none) (hpreview : stored.run.preview = some preview)
    (hproject : projectRuntimeOutcome preview outcome = .ok projection)
    (hsaved : env.savedAt stored.saved = .ok saved) (removed : List VolumeRemoval) :
    ∃ env', env.recordExecuted now stored outcome removed (.ok ()) = .ok env' := by
  unfold recordExecuted
  rw [houtcome, hpreview]
  simp only [Option.isSome_none, Bool.false_eq_true, if_false, hproject, hsaved, ok_bind]
  have hended : ∀ nodes, (stored.executed outcome removed nodes).run.outcome = none :=
    fun _ => houtcome
  have hrunning : ∀ nodes, running (stored.executed outcome removed nodes) = .ok () :=
    fun _ => running_of_claimed hrun
  have hadvanced : ∀ nodes succeeded, ∃ mid,
      env.advanced (stored.executed outcome removed nodes) succeeded (.ok ()) = .ok mid :=
    fun _ => exists_advanced hsaved
  rw [finish, hended]
  simp only [hrunning, ok_bind, endWith]
  obtain ⟨mid, hmid⟩ := hadvanced _ _
  rw [hmid]
  exact ⟨_, rfl⟩

/-- While its lease is held, the runner's outcome is accepted whatever was streamed before. -/
theorem Midway.accepts (h : c.Midway id runner revision status env)
    (hstatus : status.claimed = true)
    (hlease : ∀ row ∈ env.deployments, row.id = id → now < row.lease)
    (hproject : projectRuntimeOutcome c.preview outcome = .ok c.projection)
    (removed : List VolumeRemoval) :
    ∃ env', env.record now id runner (.executed outcome removed) (.ok ()) = .ok env' := by
  obtain ⟨row, hrow, -, hrevision, hpreview, houtcome, hrowStatus, hrunner, -⟩ := h.row
  have hread : row.read now = row := by
    have hheld := hlease row (List.mem_of_find?_eq_some hrow) (by simpa using List.find?_some hrow)
    have hlapsed : row.lapsed now = false := by simp [Stored.lapsed, hheld]
    rw [Stored.read, Stored.statusAt, hlapsed]
    rfl
  have hload : env.load now id = .ok row := load_ok.mpr ⟨row, hrow, hread.symm⟩
  rw [Environment.record, hload, ok_bind, if_pos hrunner]
  have hsaved : env.savedAt (row.renew now).saved = .ok c.saved := by
    rw [Stored.renew_saved, hrevision]
    exact h.saved
  refine exists_recordExecuted ?_ ?_ ?_ hproject hsaved removed
  · rw [Stored.renew_status, hrowStatus]
    exact hstatus
  · rw [Stored.renew_run]
    exact houtcome
  · rw [Stored.renew_run]
    exact hpreview

/-- The course a preview sets a Deployment on. -/
theorem exists_midway (hgrounded : w.env.Grounded) {row : Stored}
    (hrow : w.env.deployments.find? (·.id == id) = some row)
    (hfresh : row.run.preview = none ∧ row.run.outcome = none) {preview : DeployPreview}
    (hrecord : w.env.record w.clock id runner (.prepared preview) follow = .ok env')
    (projection : RuntimeOutcomeProjection) (removed : List VolumeRemoval) :
    ∃ c : Course, c.preview = parseRuntimePreview preview ∧ c.projection = projection ∧
      c.removed = removed ∧ ∃ revision status, status.claimed = true ∧
        c.Midway id runner revision status env' := by
  have hid : row.id = id := by simpa using List.find?_some hrow
  obtain ⟨saved, hsaved, htargets, -⟩ := hgrounded.rows row (List.mem_of_find?_eq_some hrow)
  obtain ⟨loaded, hload, hrunner, hrecorded⟩ := record_ok hrecord
  obtain ⟨found, hfound, rfl⟩ := load_ok.mp hload
  obtain rfl : row = found := Option.some.inj (hrow.symm.trans hfound)
  let c : Course := ⟨w.env.introduced, w.env.slug, saved, row.nodes, w.env.applied,
    parseRuntimePreview preview, projection, removed, htargets, hgrounded.applied⟩
  refine ⟨c, rfl, rfl, rfl, row.saved, row.status, ?_⟩
  cases hrecorded with
  | same hreplays =>
    have hsome : ((row.read w.clock).renew w.clock).run.preview.isSome = true := hreplays
    rw [Stored.renew_run] at hsome
    rw [show (row.read w.clock).run.preview = none from hfresh.1] at hsome
    cases hsome
  | stopped _ _ hstops => cases hstops
  | @prepared hrun _ hpreview other hother =>
    obtain rfl : saved = other := by
      rw [Stored.renew_saved, show (row.read w.clock).saved = row.saved from rfl, hsaved] at hother
      exact Except.ok.inj hother
    refine ⟨read_claimed hrun ▸ hrun, ⟨_, find_save ?_ hrow, rfl, rfl, rfl, ?_, read_claimed hrun,
      ?_, ?_⟩, hsaved, rfl⟩
    · show ((row.read w.clock).renew w.clock).id = id
      rw [Stored.renew_id]
      exact hid
    · show ((row.read w.clock).renew w.clock).run.outcome = none
      rw [Stored.renew_run]
      exact hfresh.2
    · show ((row.read w.clock).renew w.clock).runner = some runner
      rw [Stored.renew_runner]
      exact hrunner
    · refine streamed_prepared ?_
      show settled ((row.read w.clock).renew w.clock).nodes _ _ _ _ = _
      rw [Stored.renew_nodes]
      rfl

end Course

/-- Confirming Services while a Deployment executes is harmless: in every run, once a Deployment
that recorded nothing yet records its preview, the executed record is accepted while the lease is
held, and leaves the same Applied State, Node Outcomes and status whether or not the runner
confirmed Services before it, as long as each one it confirmed completes its planned operations in
that outcome. -/
theorem streaming_harmless (slug : EnvironmentSlug) (clock : Nat) (ops : List Op)
    {id runner : String} {row : Stored} {preview : DeployPreview} {outcome : DeployOutcome}
    {projection : RuntimeOutcomeProjection} {removed : List VolumeRemoval}
    {follow follow₁ : Except RpcError Unit} {prepared plain : Environment}
    {pause stream : List Op}
    (hrow : ((World.created slug clock).after ops).env.deployments.find? (·.id == id) = some row)
    (hfresh : row.run.preview = none ∧ row.run.outcome = none)
    (hprepared : ((World.created slug clock).after ops).env.record
      ((World.created slug clock).after ops).clock id runner (.prepared preview) follow =
        .ok prepared)
    (hproject : projectRuntimeOutcome (parseRuntimePreview preview) outcome = .ok projection)
    (hpause : ∀ op ∈ pause, ∃ seconds, op = .wait seconds)
    (hstream : ∀ op ∈ stream, op.Streams id runner projection.confirmedServices)
    (hplain : let w := World.after ⟨prepared, ((World.created slug clock).after ops).clock⟩ pause
      w.env.record w.clock id runner (.executed outcome removed) follow₁ = .ok plain)
    (hlease : let w := World.after ⟨prepared, ((World.created slug clock).after ops).clock⟩ stream
      ∀ row ∈ w.env.deployments, row.id = id → w.clock < row.lease) :
    let w := World.after ⟨prepared, ((World.created slug clock).after ops).clock⟩ stream
    ∃ streamed, w.env.record w.clock id runner (.executed outcome removed) (.ok ()) = .ok streamed ∧
      streamed.appliedState = plain.appliedState ∧
      ∃ rowPlain rowStreamed, plain.deployments.find? (·.id == id) = some rowPlain ∧
        streamed.deployments.find? (·.id == id) = some rowStreamed ∧
        rowStreamed.status = rowPlain.status ∧
        ∀ node : String, rowStreamed.run.nodes[node]? = rowPlain.run.nodes[node]? := by
  have hgrounded := World.grounded_after (World.created_grounded slug clock) ops
  obtain ⟨c, hpreview, rfl, rfl, revision, status, hstatus, hmidway⟩ :=
    Course.exists_midway hgrounded hrow hfresh hprepared projection removed
  rw [← hpreview] at hproject
  have hpauses : ∀ op ∈ pause, op.Streams id runner c.projection.confirmedServices := by
    intro op hop
    obtain ⟨seconds, rfl⟩ := hpause op hop
    trivial
  have hmidway' : c.Midway id runner revision status
      (World.mk prepared ((World.created slug clock).after ops).clock).env := hmidway
  obtain ⟨⟨rowPlain, hrowPlain, hstatusPlain, hnodesPlain⟩, happliedPlain⟩ :=
    (hmidway'.after hpauses).ends hproject hplain
  obtain ⟨streamed, hstreamed⟩ :=
    (hmidway'.after hstream).accepts hstatus hlease hproject c.removed
  obtain ⟨⟨rowStreamed, hrowStreamed, hstatusStreamed, hnodesStreamed⟩, happliedStreamed⟩ :=
    (hmidway'.after hstream).ends hproject hstreamed
  refine ⟨streamed, hstreamed, happliedStreamed.trans happliedPlain.symm, rowPlain, rowStreamed,
    hrowPlain, hrowStreamed, hstatusStreamed.trans hstatusPlain.symm, fun node => ?_⟩
  rw [hnodesStreamed, hnodesPlain]

namespace Sample

/-- A Service and its Volume, being deployed for the first time. -/
def firstDeploy : List Op :=
  [.edit (.holding [mounting webId web [dataId]] [volume dataId "data"]), deployAll "first" [],
    claim "first"]

def prepared : World :=
  ((World.created slug 0).after firstDeploy).next (record "first" (.prepared (previewOf [web])))

def executes : Op := record "first" (.executed (completed [web]) [])

/-- Confirming `web` moves Applied State at once, and executing leaves what it would have left. -/
theorem streaming_harmless_web :
    let confirmed := prepared.next (record "first" (.confirmed [web]))
    confirmed.env.applied.size = 2 ∧
      ∃ streamed, World.envStep confirmed.env confirmed.clock executes = .ok streamed ∧
        streamed.appliedState = (prepared.next executes).env.appliedState := by
  have hsome : (((World.created slug 0).after firstDeploy).env.deployments.find?
      (·.id == "first")).any (fun row => row.run.preview.isNone && row.run.outcome.isNone) =
        true := by decide +kernel
  obtain ⟨row, hrow, hboth⟩ := (Option.any_eq_true _ _).mp hsome
  have hprepared := @World.next_ok ((World.created slug 0).after firstDeploy)
    (record "first" (.prepared (previewOf [web]))) (by decide +kernel)
  have hproject : projectRuntimeOutcome (parseRuntimePreview (previewOf [web])) (completed [web]) =
      .ok ⟨.success 1, [web], [], []⟩ := by
    obtain ⟨projection, hproject, rfl⟩ := exists_ok (· = ⟨.success 1, [web], [], []⟩)
      (x := projectRuntimeOutcome (parseRuntimePreview (previewOf [web])) (completed [web]))
      (by decide +kernel)
    exact hproject
  have hplain := @World.next_ok prepared executes (by decide +kernel)
  have hstream : ∀ op ∈ [record "first" (.confirmed [web])], op.Streams "first" "runner" [web] := by
    intro op hop
    rw [List.mem_singleton.mp hop]
    exact ⟨rfl, rfl, fun _ hname => hname⟩
  obtain ⟨streamed, hstreamed, happlied, -⟩ := streaming_harmless slug 0 firstDeploy hrow
    (by simpa using hboth) hprepared hproject (fun _ hop => absurd hop List.not_mem_nil) hstream
    hplain (by decide +kernel)
  exact ⟨by decide +kernel, streamed, hstreamed, happlied⟩

end Sample

end Ployz
