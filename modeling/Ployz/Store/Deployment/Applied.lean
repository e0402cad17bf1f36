import Ployz.Config.Canonical
import Ployz.Store.Deployment.Nodes

/-!
# Applied State and what a Deployment freezes

Applied State is a table of nodes, each as its latest confirmed Deployment applied it.
`advance` puts the nodes a Deployment confirmed into it. `freeze` fixes a Deployment's target nodes
at admission, with the Volumes `removedVolumes` says it deletes.

`getElem?_advance` and `getElem?_advance_of_not` say what the table holds after a Deployment
advanced.
-/

namespace Ployz

open Std (TreeMap)

def emptyIntent (slug : String) : SavedEnvironmentIntent := ⟨1, slug, [], []⟩

inductive EnvironmentNodeType
  | service
  | volume
deriving DecidableEq, Repr

/-- One node of an Environment, as its own row stores it. -/
inductive Node
  | service (service : SavedServiceIntent)
  | volume (volume : SavedVolumeIntent)
deriving DecidableEq

namespace Node

def asService : Node → Option SavedServiceIntent
  | service s => some s
  | volume _ => none

def asVolume : Node → Option SavedVolumeIntent
  | service _ => none
  | volume v => some v

def id : Node → String
  | service s => s.id
  | volume v => v.resourceId

def nodeType : Node → EnvironmentNodeType
  | service _ => .service
  | volume _ => .volume

end Node

def nodesOf (intent : SavedEnvironmentIntent) : List Node :=
  intent.services.map .service ++ intent.volumes.map .volume

def intentOf (slug : String) (rows : List Node) : SavedEnvironmentIntent :=
  { emptyIntent slug with
    services := rows.filterMap (·.asService)
    volumes := rows.filterMap (·.asVolume) }

/-- Each node as its latest confirmed Deployment applied it, by ID. -/
abbrev AppliedTable := TreeMap String Node

def appliedState (slug : String) (applied : AppliedTable) : SavedEnvironmentIntent :=
  intentOf slug (applied.toList.map (·.2))

/-! ## Advancing -/

/-- The target node as the Saved revision has it; none once it left. -/
def TargetNode.saved (saved : SavedEnvironmentIntent) : TargetNode → Option Node
  | .service id _ _ => (saved.services.find? (·.id == id)).map .service
  | .volume id _ _ => (saved.volumes.find? (·.resourceId == id)).map .volume

/-- Put one node into Applied State as its Saved revision has it. -/
def putApplied (saved : SavedEnvironmentIntent) (applied : AppliedTable) (node : TargetNode) :
    AppliedTable :=
  match node.saved saved with
  | some held => applied.insert node.id held
  | none => applied.erase node.id

/-- Whether the node enters Applied State: it is confirmed, or needed nothing and the Deploy
`succeeded`. -/
def entersWith (outcomes : TreeMap String NodeStatus) (succeeded : Bool) (node : TargetNode) :
    Bool :=
  outcomes[node.id]?.any fun status => status.advances || (succeeded && status == .unchanged)

/-- Put each node confirmed (Deployed or Removed) into Applied State as the Saved revision has
it; once the Deploy `succeeded`, every Unchanged node too. -/
def advance (saved : SavedEnvironmentIntent) (nodes : List TargetNode)
    (outcomes : TreeMap String NodeStatus) (succeeded : Bool) (applied : AppliedTable) :
    AppliedTable :=
  (nodes.filter (entersWith outcomes succeeded)).foldl (putApplied saved) applied

theorem getElem?_putApplied (saved : SavedEnvironmentIntent) (applied : AppliedTable)
    (node : TargetNode) (id : String) :
    (putApplied saved applied node)[id]? = if node.id =
    id then node.saved saved else applied[id]? := by
  unfold putApplied
  cases node.saved saved with
  | some held => rw [TreeMap.getElem?_insert]; simp
  | none => rw [TreeMap.getElem?_erase]; simp

section Advancing

variable {saved : SavedEnvironmentIntent} {nodes : List TargetNode}
  {outcomes : TreeMap String NodeStatus} {succeeded : Bool} {applied : AppliedTable}

theorem getElem?_foldl_putApplied (hnodes : Unambiguous nodes) {node : TargetNode}
    (hnode : node ∈ nodes) :
    (nodes.foldl (putApplied saved) applied)[node.id]? = node.saved saved := by
  induction nodes using List.reverseRecOn with
  | nil => cases hnode
  | append_singleton rest last ih =>
    rw [List.foldl_append, List.foldl_cons, List.foldl_nil, getElem?_putApplied]
    split_ifs with hid
    · rw [hnodes last (by simp) node hnode hid]
    · have hrest : node ∈ rest := by
        rcases List.mem_append.mp hnode with hrest | hlast
        · exact hrest
        · exact absurd (by rw [List.mem_singleton.mp hlast]) hid
      exact ih (fun a ha b hb => hnodes a (by simp [ha]) b (by simp [hb])) hrest

theorem getElem?_foldl_putApplied_of_not {id : String} (hid : ∀ node ∈ nodes, node.id ≠ id) :
    (nodes.foldl (putApplied saved) applied)[id]? = applied[id]? := by
  induction nodes using List.reverseRecOn with
  | nil => rfl
  | append_singleton rest last ih =>
    rw [List.foldl_append, List.foldl_cons, List.foldl_nil, getElem?_putApplied,
      if_neg (hid last (by simp)), ih fun node hnode => hid node (by simp [hnode])]

theorem Unambiguous.filter (hnodes : Unambiguous nodes) (p : TargetNode → Bool) :
    Unambiguous (nodes.filter p) :=
  fun a ha b hb => hnodes a (List.mem_filter.mp ha).1 b (List.mem_filter.mp hb).1

theorem getElem?_advance (hnodes : Unambiguous nodes) {node : TargetNode} (hnode : node ∈ nodes)
    (henters : entersWith outcomes succeeded node = true) :
    (advance saved nodes outcomes succeeded applied)[node.id]? = node.saved saved :=
  getElem?_foldl_putApplied (hnodes.filter _) (List.mem_filter.mpr ⟨hnode, henters⟩)

theorem getElem?_advance_of_not {id : String}
    (hid : ∀ node ∈ nodes, node.id = id → entersWith outcomes succeeded node = false) :
    (advance saved nodes outcomes succeeded applied)[id]? = applied[id]? := by
  refine getElem?_foldl_putApplied_of_not fun node hnode heq => ?_
  obtain ⟨hmem, henters⟩ := List.mem_filter.mp hnode
  rw [hid node hmem heq] at henters
  cases henters

end Advancing

/-! ## Reading Applied State -/

/-- Each node is held under its own ID. -/
def OwnKeys (applied : AppliedTable) : Prop :=
  ∀ (id : String) (node : Node), applied[id]? = some node → node.id = id

section Reading

variable {slug : String} {applied : AppliedTable}

theorem mem_applied_rows (happlied : OwnKeys applied) {node : Node} :
    node ∈ applied.toList.map (·.2) ↔ applied[node.id]? = some node := by
  simp only [List.mem_map, Prod.exists, exists_eq_right, TreeMap.mem_toList_iff_getElem?_eq_some]
  constructor
  · rintro ⟨id, hid⟩
    rw [happlied id node hid]
    exact hid
  · exact fun h => ⟨node.id, h⟩

theorem mem_appliedState_services (happlied : OwnKeys applied) {service : SavedServiceIntent} :
    service ∈ (appliedState slug applied).services ↔
      applied[service.id]? = some (.service service) := by
  rw [show service.id = (Node.service service).id from rfl, ← mem_applied_rows happlied]
  show service ∈ (applied.toList.map (·.2)).filterMap (·.asService) ↔ _
  rw [List.mem_filterMap]
  constructor
  · rintro ⟨_ | _, hnode, hservice⟩ <;> cases hservice
    exact hnode
  · exact fun h => ⟨_, h, rfl⟩

theorem mem_appliedState_volumes (happlied : OwnKeys applied) {volume : SavedVolumeIntent} :
    volume ∈ (appliedState slug applied).volumes ↔
      applied[volume.resourceId]? = some (.volume volume) := by
  rw [show volume.resourceId = (Node.volume volume).id from rfl, ← mem_applied_rows happlied]
  show volume ∈ (applied.toList.map (·.2)).filterMap (·.asVolume) ↔ _
  rw [List.mem_filterMap]
  constructor
  · rintro ⟨_ | _, hnode, hvolume⟩ <;> cases hvolume
    exact hnode
  · exact fun h => ⟨_, h, rfl⟩

theorem any_volume_iff (happlied : OwnKeys applied) (id : String) :
    (appliedState slug applied).volumes.any (·.resourceId == id) = true ↔
      ∃ volume, applied[id]? = some (.volume volume) := by
  simp only [List.any_eq_true, beq_iff_eq]
  constructor
  · rintro ⟨volume, hvolume, rfl⟩
    exact ⟨volume, (mem_appliedState_volumes happlied).mp hvolume⟩
  · rintro ⟨volume, hvolume⟩
    have hid : volume.resourceId = id := happlied id _ hvolume
    exact ⟨volume, (mem_appliedState_volumes happlied).mpr (by rw [hid]; exact hvolume), hid⟩

end Reading

/-! ## Volumes a Deploy deletes -/

/-- A deployed Volume a Deploy removes, with the Docker Volume that holds its data. -/
structure RemovedVolume where
  id : String
  name : String
  dockerVolume : String
deriving DecidableEq, Repr

/-- A removed Volume and the Docker Volumes found holding its data. -/
structure VolumeLoss where
  volume : RemovedVolume
  deletes : List DockerVolumeId
deriving DecidableEq, Repr

/-- What the Servers answered when asked which of `sought` they hold. -/
structure VolumeObservation where
  sought : List String
  held : List DockerVolumeId
  unanswered : List String

/-- The Docker Volume a Volume's data lives in. -/
def dockerVolume (namespace_ volume : String) : String := s!"{namespace_}_vol-{volume}"

/-- The Volumes Applied State holds that `target` drops. -/
def removedVolumes (applied target : SavedEnvironmentIntent) (namespace_ : String) :
    List RemovedVolume :=
  (applied.volumes.filter fun old => target.volumes.all (·.resourceId != old.resourceId)).map
    fun volume => ⟨volume.resourceId, volume.name, dockerVolume namespace_ volume.resourceId⟩

def Deploy.DockerVolumeId.shown (id : DockerVolumeId) : String :=
  s!"{id.name} on Machine {id.machineId}"

/-- The Docker Volumes the Servers hold a removed Volume's data in. -/
def VolumeObservation.loss (observed : VolumeObservation) (volume : RemovedVolume) :
    VolumeLoss where
  volume := volume
  deletes := (observed.held.filter (·.name == volume.dockerVolume)).insertionSort fun a b =>
    a.shown ≤ b.shown

/-- Review what a Deploy removes against what the Servers hold. `bound` says whether the
caller's version is the one the refusal to delete exactly these hands back. -/
def reviewRemoval (removed : List RemovedVolume) (observed : Option VolumeObservation)
    (accepted : List String) (bound : Bool) : Except RpcError (List VolumeLoss) :=
  match accepted.find? fun name => !removed.any (·.name == name) with
  | some unknown => throw (.invalid s!"This deletes no Volume named {unknown}")
  | none =>
    if removed.isEmpty then pure []
    else match observed.filter fun observed =>
        removed.all (observed.sought.contains ·.dockerVolume) with
    | none => throw (.unobserved ("This removes deployed Volumes, and the Servers weren't " ++
        "checked for their data, so it refuses. Try again once the Servers can be reached"))
    | some observed =>
      if !observed.unanswered.isEmpty then
        throw (.unobserved ("This removes deployed Volumes, and some Servers didn't answer " ++
          "whether they hold their data, so it refuses. Try again once they answer"))
      else
        let losses := removed.map observed.loss
        let lost := losses.filter (!·.deletes.isEmpty)
        if lost.isEmpty || (bound && lost.all (accepted.contains ·.volume.name)) then pure losses
        else throw (.unconfirmed (s!"This permanently deletes the data of " ++
          ", ".intercalate (lost.map (·.volume.name)) ++ ". Accept each by name"))

/-! ## Freezing -/

/-- What admission freezes, besides the Saved revision. -/
structure Frozen where
  nodes : List TargetNode
  namespace_ : String
  clusterDomain : Option String
  /-- Its target Services with no source of their own: they run only an upload. -/
  sourceless : List String

/-- The Services a Deployment targets: those named, or every one, with those Applied State
holds and `saved` does not. -/
def targetServices (saved applied : SavedEnvironmentIntent) (services : List ServiceName) :
    Except RpcError (List TargetNode) :=
  if services.isEmpty then
    pure ((saved.services ++ applied.services.filter fun old =>
      !saved.services.any (·.id == old.id)).map .ofService)
  else services.mapM fun name =>
    match saved.services.find? (·.slug == name.value) with
    | some service => pure (.ofService service)
    | none => throw (.missing s!"No Service named {name.value} to deploy")

/-- The Volumes a Deployment keeps: every one, or those its Services mount. -/
def targetVolumes (saved : SavedEnvironmentIntent) (full : Bool) (nodes : List TargetNode) :
    List TargetNode :=
  (saved.volumes.filter fun volume => full || saved.services.any fun service =>
    nodes.any (·.id == service.id) && service.mounts volume.resourceId).map (.ofVolume · none)

/-- The Volumes a Deployment deletes, each with the Docker Volumes `losses` names: only one of
every Service deletes any. -/
def targetLosses (applied : SavedEnvironmentIntent) (full : Bool) (losses : List VolumeLoss) :
    Except RpcError (List TargetNode) :=
  (if full then losses else []).mapM fun loss =>
    match applied.volumes.find? (·.resourceId == loss.volume.id) with
    | some volume => pure (.ofVolume volume (some loss.deletes))
    | none => throw (.corrupt "Applied State")

def ServiceSource.isEmpty : ServiceSource → Bool
  | .empty .. => true
  | _ => false

/-- Freeze a Deployment of `saved`. `services` narrows it; none targets every Service and
Volume, including the removal of those Applied State holds and `saved` does not. `lowers` is
whether `saved` lowers to a Deploy Intent. -/
def freeze (saved applied : SavedEnvironmentIntent) (services : List ServiceName)
    (namespace_ : String) (clusterDomain : Option String) (losses : List VolumeLoss)
    (lowers : Except RpcError Unit) : Except RpcError Frozen := do
  let targets ← targetServices saved applied services
  let kept := targetVolumes saved services.isEmpty targets
  let lost ← targetLosses applied services.isEmpty losses
  lowers
  let nodes := targets ++ kept ++ lost
  return {
    nodes, namespace_, clusterDomain
    sourceless := (saved.services.filter fun service =>
      service.config.source.isEmpty && nodes.any (·.id == service.id)).map (·.slug) }

end Ployz
