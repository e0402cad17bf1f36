import Ployz.Config.RuntimeOutcome
import Ployz.Store.Error

/-!
# Node Outcomes

A Deployment targets nodes, frozen at admission. From what its runner recorded, each target
node has a Node Outcome: a Service by how far its planned operations got, a Volume the
Deployment keeps by the Services mounting it, a Volume it removes by whether its data is
gone. `nodeOutcomes` computes them and `settled` leaves out those still pending.

`getElem?_nodeOutcomes`, `getElem?_settled` and `getElem?_keepAdvanced` read the tables.
-/

namespace Ployz

open Std (TreeMap)

/-- A Node Outcome, or why a node has none. -/
inductive NodeStatus
  | pending
  | deployed
  | removed
  | failed
  | notAttempted
  | unchanged
  | unknown
deriving DecidableEq, Repr

/-- Whether Applied State holds the node as this Deployment shipped it. -/
def NodeStatus.advances : NodeStatus → Bool
  | .deployed | .removed => true
  | _ => false

/-- One node a Deployment targets, as frozen at admission: a Service with the runtime
Service it lowers to, or a Volume with, when the Deployment removes it, the Docker Volumes
it deletes. -/
inductive TargetNode
  | service (id name : String) (runtime : ServiceName)
  | volume (id name : String) (deletes : Option (List DockerVolumeId))
deriving DecidableEq, Repr

namespace TargetNode

def id : TargetNode → String
  | service id _ _ | volume id _ _ => id

def ofService (service : SavedServiceIntent) : TargetNode :=
  .service service.id service.slug service.config.privateDns

def ofVolume (volume : SavedVolumeIntent) (deletes : Option (List DockerVolumeId)) : TargetNode :=
  .volume volume.resourceId volume.name deletes

@[simp] theorem ofService_id (service : SavedServiceIntent) : (ofService service).id = service.id :=
  rfl

@[simp] theorem ofVolume_id (volume : SavedVolumeIntent) (deletes : Option (List DockerVolumeId)) :
    (ofVolume volume deletes).id = volume.resourceId := rfl

end TargetNode

/-- What became of one Docker Volume a Deployment deletes. -/
inductive VolumeRemovalOutcome
  | removed
  | failed (error : RpcError)
  | omitted
deriving DecidableEq, Repr

structure VolumeRemoval where
  id : DockerVolumeId
  outcome : VolumeRemovalOutcome
deriving DecidableEq, Repr

def SavedServiceIntent.mounts (service : SavedServiceIntent) (volume : String) : Bool :=
  service.volumeAttachments.any (·.volumeResourceId == volume)

/-- What a run recorded that settles its target nodes: the preview it prepared with the
Services confirmed while executing, then what executing that preview did. -/
inductive Evidence
  | planned (preview : DeployPreview) (confirmed : List ServiceName)
  | executed (projection : RuntimeOutcomeProjection) (removed : List VolumeRemoval)

namespace Evidence

/-- Whether this is a Deploy that executed every operation. -/
def succeeded : Evidence → Bool
  | planned .. => false
  | executed projection _ => projection.summary.isSuccess

def isPlanned : Evidence → Bool
  | planned .. => true
  | executed .. => false

/-- A Service confirmed or executed lands Deployed, or Removed once it left Saved State. -/
def landed (kept : Bool) : NodeStatus := if kept then .deployed else .removed

/-- The outcome of the runtime Service `name`. -/
def service (evidence : Evidence) (name : ServiceName) (kept : Bool) : NodeStatus :=
  match evidence with
  | planned preview confirmed =>
    if confirmed.contains name then landed kept
    else if preview.operations.any (·.service == some name) then .pending
    else .unchanged
  | executed projection _ =>
    if projection.confirmedServices.contains name then landed kept
    else if projection.failedServices.contains name then .failed
    else if projection.unattemptedServices.contains name then .notAttempted
    else .unchanged

def gone (removed : List VolumeRemoval) (id : DockerVolumeId) : Bool :=
  removed.any fun removal => removal.id == id && removal.outcome == .removed

/-- The outcome of a Volume whose Docker Volumes `deletes` the Deployment deletes. -/
def removedVolume (evidence : Evidence) (deletes : List DockerVolumeId) : NodeStatus :=
  match evidence with
  | planned .. => .pending
  | executed projection removed =>
    if !projection.summary.isSuccess then .notAttempted
    else if deletes.all (gone removed) then .removed
    else .failed

/-- The outcome of a kept Volume, where `mounting` are the outcomes of the targeted Services
mounting it. Confirmed storage advances whatever its siblings do. -/
def keptVolume (evidence : Evidence) (applied : SavedEnvironmentIntent)
    (volume : SavedVolumeIntent) (mounting : List NodeStatus) : NodeStatus :=
  if mounting.contains .deployed && !applied.volumes.contains volume then .deployed
  else if mounting.contains .failed then .failed
  else if mounting.contains .notAttempted then .notAttempted
  else if mounting.contains .pending then .pending
  else if applied.volumes.contains volume then .unchanged
  -- Storage work comes only with a mount: nothing a Deploy runs creates it.
  else if mounting.isEmpty && !applied.volumes.any (·.resourceId == volume.resourceId) then
    .notAttempted
  else if evidence.isPlanned && !mounting.contains .deployed then .pending
  -- A held Volume no Service mounts changes only with a Deploy that fully ran.
  else if mounting.isEmpty && !evidence.succeeded then .notAttempted
  else .deployed

end Evidence

section Outcomes

variable (nodes : List TargetNode) (saved applied : SavedEnvironmentIntent) (evidence : Evidence)

/-- The outcomes of the targeted Services that mount the Volume. -/
def mountingOutcomes (volume : SavedVolumeIntent) : List NodeStatus :=
  (saved.services.filter fun service =>
    nodes.any (·.id == service.id) && service.mounts volume.resourceId).map fun service =>
      evidence.service service.config.privateDns true

def nodeOutcome : TargetNode → NodeStatus
  | .service id _ runtime => evidence.service runtime (saved.services.any (·.id == id))
  | .volume _ _ (some deletes) => evidence.removedVolume deletes
  | .volume id _ none =>
    match saved.volumes.find? (·.resourceId == id) with
    | some volume =>
      evidence.keptVolume applied volume (mountingOutcomes nodes saved evidence volume)
    | none => .unchanged

/-- Each target node's Node Outcome, by node ID. -/
def nodeOutcomes : TreeMap String NodeStatus :=
  TreeMap.ofList (nodes.map fun node => (node.id, nodeOutcome nodes saved applied evidence node))

/-- The Node Outcomes a running Deployment already settles from its preview and the Services
it confirmed: the ones no longer Pending. -/
def settled (preview : DeployPreview) (confirmed : List ServiceName) : TreeMap String NodeStatus :=
  (nodeOutcomes nodes saved applied (.planned preview confirmed)).filter fun _ status =>
    status != .pending

end Outcomes

/-- `next`, with every node `prior` already advanced kept as it was: Applied State holds it
now, so recomputing would read it Unchanged. -/
def keepAdvanced (prior next : TreeMap String NodeStatus) : TreeMap String NodeStatus :=
  next.insertMany (prior.toList.filter (·.2.advances))

/-! ## Reading the outcomes -/

/-- No two different target nodes have one ID. -/
def Unambiguous (nodes : List TargetNode) : Prop :=
  ∀ a ∈ nodes, ∀ b ∈ nodes, a.id = b.id → a = b

section Reading

variable {nodes : List TargetNode} {saved applied : SavedEnvironmentIntent}

theorem getElem?_nodeOutcomes (hnodes : Unambiguous nodes) {evidence : Evidence}
    {node : TargetNode} (hnode : node ∈ nodes) :
    (nodeOutcomes nodes saved applied evidence)[node.id]? =
      some (nodeOutcome nodes saved applied evidence node) := by
  refine Table.getElem?_ofList_map (fun a ha b hb hid => ?_) hnode
  rw [hnodes a ha b hb hid]

theorem exists_of_getElem?_nodeOutcomes {evidence : Evidence} {id : String} {status : NodeStatus}
    (h : (nodeOutcomes nodes saved applied evidence)[id]? = some status) :
    ∃ node ∈ nodes, node.id = id := by
  by_contra hno
  rw [nodeOutcomes, Table.getElem?_ofList_map_none fun node hnode hid =>
    hno ⟨node, hnode, hid⟩] at h
  cases h

theorem getElem?_settled {preview : DeployPreview} {confirmed : List ServiceName} (id : String) :
    (settled nodes saved applied preview confirmed)[id]? =
      (nodeOutcomes nodes saved applied (.planned preview confirmed))[id]?.filter
        (· != .pending) :=
  TreeMap.getElem?_filter'

theorem getElem?_keepAdvanced (prior next : TreeMap String NodeStatus) (id : String) :
    (keepAdvanced prior next)[id]? = (prior[id]?.filter (·.advances)).or next[id]? :=
  Table.getElem?_insertMany_filter prior next (·.advances) id

variable {prior next : TreeMap String NodeStatus}

theorem getElem?_keepAdvanced_of_not {id : String} (h : prior[id]?.any (·.advances) = false) :
    (keepAdvanced prior next)[id]? = next[id]? := by
  have hnone : prior[id]?.filter (·.advances) = none := by
    rw [Option.filter_eq_none_iff]
    intro status hstatus
    rw [hstatus] at h
    simpa using h
  rw [getElem?_keepAdvanced, hnone, Option.none_or]

theorem getElem?_keepAdvanced_of_advances {id : String} {status : NodeStatus}
    (h : prior[id]? = some status) (hadvances : status.advances = true) :
    (keepAdvanced prior next)[id]? = some status := by
  rw [getElem?_keepAdvanced, h, Option.filter_some, if_pos hadvances, Option.some_or]

end Reading

end Ployz
