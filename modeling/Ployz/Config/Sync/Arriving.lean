import Ployz.Config.Sync.Comparing
import Ployz.Config.Sync.Writing
import Ployz.Config.Sync.Validity

/-!
# Nodes that arrive

A node is added to a document at its end: by `Plan.introduce`, from the sender, and by
`adopt`, to a base that predates it. In views a node arrives, and nothing else changes,
as long as no Service mounts a Volume by the new one's id.
-/

namespace Ployz

open Keyed Run

def NodeRef.lineage : NodeRef → String
  | .service s => s.lineageId
  | .volume v => v.resourceLineageId

def SavedEnvironmentIntent.pushService (env : SavedEnvironmentIntent) (s : SavedServiceIntent) :
    SavedEnvironmentIntent :=
  { env with services := env.services ++ [s] }

def SavedEnvironmentIntent.pushVolume (env : SavedEnvironmentIntent) (v : SavedVolumeIntent) :
    SavedEnvironmentIntent :=
  { env with volumes := env.volumes ++ [v] }

def SavedEnvironmentIntent.push (env : SavedEnvironmentIntent) : NodeRef → SavedEnvironmentIntent
  | .service s => env.pushService s
  | .volume v => env.pushVolume v

/-- None mounts the node, if it is a Volume, by its id. -/
def NodeRef.Unmounted (env : SavedEnvironmentIntent) : NodeRef → Prop
  | .service _ => True
  | .volume v => ∀ s ∈ env.services, ∀ a ∈ s.volumeAttachments, a.volumeResourceId ≠ v.resourceId

variable {v : SavedVolumeIntent} {lineage : String}

theorem Mounted.unmounted {env : SavedEnvironmentIntent} (h : Mounted env)
    (hid : v.resourceId ∉ env.volumes.map (·.resourceId)) : (NodeRef.volume v).Unmounted env := by
  intro s hs a ha heq
  obtain ⟨w, hw, hwid⟩ := h s hs a ha
  exact hid (List.mem_map.mpr ⟨w, hw, hwid.trans heq⟩)

theorem nodeAt_eq_none {env : SavedEnvironmentIntent} :
    nodeAt env lineage = none ↔ volume env lineage = none ∧ service env lineage = none := by
  unfold nodeAt
  cases volume env lineage <;> simp

variable {node : NodeRef}

section Push

variable {env : SavedEnvironmentIntent}

theorem service_pushService (s : SavedServiceIntent) (l : String)
    (hs : service env s.lineageId = none) :
    service (env.pushService s) l = if l = s.lineageId then some s else service env l := by
  unfold service at hs ⊢
  rw [SavedEnvironmentIntent.pushService, List.find?_append]
  split
  · next h => subst h; simp [hs]
  · next h => simp [Ne.symm h]

theorem volume_pushVolume (v : SavedVolumeIntent) (l : String)
    (hv : volume env v.resourceLineageId = none) :
    volume (env.pushVolume v) l = if l = v.resourceLineageId then some v else volume env l := by
  unfold volume at hv ⊢
  rw [SavedEnvironmentIntent.pushVolume, List.find?_append]
  split
  · next h => subst h; simp [hv]
  · next h => simp [Ne.symm h]

/-- A Service added arrives among the Services. -/
theorem serviceView_pushService {s : SavedServiceIntent} (hs : service env s.lineageId = none)
    (suffix : String) : serviceView (env.pushService s) suffix =
      (serviceView env suffix).arrive s.lineageId (.service s.slug) (held env suffix s) := by
  have hcongr : ∀ node place, placeSealed (env.pushService s) suffix node place =
      placeSealed env suffix node place := placeSealed_congr (fun _ => rfl) suffix
  ext1
  · funext l
    simp only [View.arrive, serviceView, service_pushService s l hs]
    split <;> rfl
  · funext r
    by_cases hr : r.lineage = s.lineageId
    · simp [View.arrive, serviceView, service_pushService s _ hs, hr, hcongr]
    · simp [View.arrive, serviceView, service_pushService s _ hs, hr, hcongr]

theorem volumeView_pushService (s : SavedServiceIntent) (suffix : String) :
    volumeView (env.pushService s) suffix = volumeView env suffix := by
  have hcongr : ∀ node place, placeSealed (env.pushService s) suffix node place =
      placeSealed env suffix node place := placeSealed_congr (fun _ => rfl) suffix
  ext1
  · rfl
  · funext r
    simp only [volumeView, hcongr]
    rfl

/-- A Volume added arrives among the Volumes. -/
theorem volumeView_pushVolume (hv : volume env v.resourceLineageId = none) (suffix : String) :
    volumeView (env.pushVolume v) suffix =
      (volumeView env suffix).arrive v.resourceLineageId .volume
        (placeSealed env suffix (.volume v)) := by
  have hcongr : ∀ w place, placeSealed (env.pushVolume v) suffix (.volume w) place =
      placeSealed env suffix (.volume w) place := fun w place => by
    cases place <;> rfl
  ext1
  · funext l
    simp only [View.arrive, volumeView, volume_pushVolume v l hv]
    split <;> rfl
  · funext r
    by_cases hr : r.lineage = v.resourceLineageId
    · simp [View.arrive, volumeView, volume_pushVolume v _ hv, hr, hcongr]
    · simp [View.arrive, volumeView, volume_pushVolume v _ hv, hr, hcongr]

/-- A Volume added is nothing to the Services, if none mounts its id. -/
theorem serviceView_pushVolume (hv : volume env v.resourceLineageId = none)
    (hid : (NodeRef.volume v).Unmounted env) (suffix : String) :
    serviceView (env.pushVolume v) suffix = serviceView env suffix := by
  have hmount : ∀ s ∈ env.services, ∀ l, mountCell (env.pushVolume v) s l = mountCell env s l := by
    intro s hmem l
    by_cases hl : l = v.resourceLineageId
    · have hnone : s.volumeAttachments.find? (·.volumeResourceId == v.resourceId) = none :=
        List.find?_eq_none.mpr fun a ha => by simpa using hid s hmem a ha
      have hv' : volume (env.pushVolume v) l = some v := by rw [volume_pushVolume v l hv, if_pos hl]
      rw [mountCell_of_some hv', hnone, mountCell_of_none (hl ▸ hv)]
      rfl
    · simp only [mountCell, volume_pushVolume v l hv, if_neg hl]
  have hsame : ∀ l, service (env.pushVolume v) l = service env l := fun _ => rfl
  ext1
  · rfl
  · funext r
    simp only [serviceView, hsame]
    cases hs : service env r.lineage with
    | none => rfl
    | some s =>
      have hmem : s ∈ env.services := List.mem_of_find?_eq_some hs
      cases hp : r.place <;> simp [placeSealed, placeCell, hmount s hmem]

theorem view_pushService {s : SavedServiceIntent} (hn : nodeAt env s.lineageId = none)
    (suffix : String) : view (env.pushService s) suffix =
      (view env suffix).arrive s.lineageId (.service s.slug) (held env suffix s) := by
  obtain ⟨hv, hs⟩ := nodeAt_eq_none.mp hn
  rw [view_eq_over, volumeView_pushService, serviceView_pushService hs, View.over_arrive_bottom,
    ← view_eq_over]
  exact volumeView_tag_eq_none.mpr hv

theorem view_pushVolume (hn : nodeAt env v.resourceLineageId = none)
    (hid : (NodeRef.volume v).Unmounted env) (suffix : String) : view (env.pushVolume v) suffix =
      (view env suffix).arrive v.resourceLineageId .volume
      (placeSealed env suffix (.volume v)) := by
  obtain ⟨hv, -⟩ := nodeAt_eq_none.mp hn
  rw [view_eq_over, volumeView_pushVolume hv, serviceView_pushVolume hv hid, View.over_arrive_top,
    ← view_eq_over]

theorem view_push (hn : nodeAt env node.lineage = none) (hid : node.Unmounted env)
    (suffix : String) : view (env.push node) suffix =
      (view env suffix).arrive node.lineage node.tag (placeSealed env suffix node) := by
  cases node with
  | service s => exact view_pushService hn suffix
  | volume v => exact view_pushVolume hn hid suffix

end Push

/-! ## What stays distinct -/

/-- A node that fits in beside those of `env`. -/
structure NodeRef.Joins (env : SavedEnvironmentIntent) (node : NodeRef) : Prop where
  lineage : nodeAt env node.lineage = none
  id : ∀ v, node = .volume v → v.resourceId ∉ env.volumes.map (·.resourceId)
  keys : ∀ s, node = .service s → (s.vars.map (·.key)).Nodup
  attachments : ∀ s, node = .service s → (s.volumeAttachments.map (·.volumeResourceId)).Nodup
  mounted : ∀ s, node = .service s → ∀ a ∈ s.volumeAttachments, ∃ v ∈ env.volumes,
    v.resourceId = a.volumeResourceId

theorem NodeRef.Joins.unmounted {env : SavedEnvironmentIntent} (h : node.Joins env)
    (hm : Mounted env) : node.Unmounted env := by
  cases node with
  | service s => trivial
  | volume v => exact hm.unmounted (h.id v rfl)

theorem Sound.push {env : SavedEnvironmentIntent} (h : Sound env) (hj : node.Joins env) :
    Sound (env.push node) := by
  obtain ⟨hv, hs⟩ := nodeAt_eq_none.mp hj.lineage
  have hadd : ∀ {xs : List String} {x : String}, xs.Nodup → x ∉ xs → (xs ++ [x]).Nodup :=
    fun hxs hx => List.nodup_append.mpr ⟨hxs, by simp, by
      simp only [List.mem_singleton]
      rintro a ha _ rfl rfl
      exact hx ha⟩
  cases node with
  | service s =>
    refine ⟨?_, h.volumes, h.volumeIds, ?_, ?_⟩
    · rw [SavedEnvironmentIntent.push, SavedEnvironmentIntent.pushService, List.map_append]
      exact hadd h.services (not_mem_of_find hs)
    · intro t ht
      rcases List.mem_append.mp ht with ht | ht
      · exact h.keys t ht
      · exact List.mem_singleton.mp ht ▸ hj.keys s rfl
    · intro t ht
      rcases List.mem_append.mp ht with ht | ht
      · exact h.attachments t ht
      · exact List.mem_singleton.mp ht ▸ hj.attachments s rfl
  | volume v =>
    refine ⟨h.services, ?_, ?_, h.keys, h.attachments⟩
    · rw [SavedEnvironmentIntent.push, SavedEnvironmentIntent.pushVolume, List.map_append]
      exact hadd h.volumes (not_mem_of_find hv)
    · rw [SavedEnvironmentIntent.push, SavedEnvironmentIntent.pushVolume, List.map_append]
      exact hadd h.volumeIds (hj.id v rfl)

theorem Single.push {env : SavedEnvironmentIntent} (h : Single env)
    (hn : nodeAt env node.lineage = none) : Single (env.push node) := by
  obtain ⟨hv, hs⟩ := nodeAt_eq_none.mp hn
  intro l
  cases node with
  | service s =>
    by_cases hl : l = s.lineageId
    · exact .inl (hl ▸ hv)
    · exact (h l).imp_right fun hnone => by
        rw [SavedEnvironmentIntent.push, service_pushService s l hs, if_neg hl, hnone]
  | volume v =>
    by_cases hl : l = v.resourceLineageId
    · exact .inr (hl ▸ hs)
    · exact (h l).imp_left fun hnone => by
        rw [SavedEnvironmentIntent.push, volume_pushVolume v l hv, if_neg hl, hnone]

theorem Mounted.push {env : SavedEnvironmentIntent} (h : Mounted env) (hj : node.Joins env) :
    Mounted (env.push node) := by
  cases node with
  | service s =>
    intro t ht
    rcases List.mem_append.mp ht with ht | ht
    · exact h t ht
    · exact List.mem_singleton.mp ht ▸ hj.mounted s rfl
  | volume v =>
    intro t ht a ha
    obtain ⟨w, hw, hid⟩ := h t ht a ha
    exact ⟨w, List.mem_append_left _ hw, hid⟩

theorem Sane.push {env : SavedEnvironmentIntent} (h : Sane env) (hj : node.Joins env) :
    Sane (env.push node) :=
  ⟨h.sound.push hj, h.single.push hj.lineage, h.mounted.push hj⟩

/-! ## A node from the sender -/

/-- Every setting that arrives as a row of its own at its default. -/
def AuthoredServiceConfig.bare (config : AuthoredServiceConfig) : AuthoredServiceConfig :=
  { config with
    preDeployCommand := none
    startCommand := none
    healthcheck := .none
    restartPolicy := .unlessStopped
    maxRetries := 10
    replicas := 1
    cpuLimit := none
    memLimit := none
    build := ⟨.railpack, none, none⟩ }

theorem foldl_putSetting_default (s : SavedServiceIntent) :
    (Setting.all.filter (!·.carried)).foldl
      (fun copy setting => (putSetting copy setting (defaultValue setting)).getD copy) s =
      { s with config := s.config.bare } := by
  have hrows : Setting.all.filter (!·.carried) = [.preDeployCommand, .startCommand, .healthcheck,
    .restartPolicy, .maxRetries, .replicas, .cpuLimit, .memLimit, .buildMethod, .dockerfilePath,
    .buildCommand] := rfl
  have hpolicy : ServiceRestartPolicy.parse "unless-stopped" = some .unlessStopped := rfl
  have hmethod : BuildMethod.parse "railpack" = some .railpack := rfl
  have hnumber : ∀ n, n < 256 → (Value.number n).asUInt8 = some (UInt8.ofNat n) := fun n hn => by
    simp [Value.asUInt8, hn]
  rw [hrows]
  simp only [List.foldl_cons, List.foldl_nil, putSetting, defaultValue, Value.asOptionalString,
    Value.asOptionalFloat, Option.map_some, Option.getD_some, hpolicy, hmethod,
    hnumber 10 (by decide), hnumber 1 (by decide)]
  rfl

/-- A source with its own credential in place of a configured one. -/
def ServiceSource.withCredential (id : String) : ServiceSource → ServiceSource
  | .image version reference (.configured _) => .image version reference (.configured id)
  | source => source

namespace Plan

def configCopy (plan : Plan) (uuid : String) (config : AuthoredServiceConfig) :
    AuthoredServiceConfig :=
  { config.bare with
    routes := []
    managedHostnames := config.managedHostnames.map fun hostname =>
      { hostname with prefix_ :=
          (hostname.unsuffixed plan.hostnames.from_).prefix_ ++ plan.hostnames.into }
    source := config.source.withCredential uuid }

theorem serviceCopy_eq (plan : Plan) (uuid : String) (source : SavedServiceIntent) :
    plan.serviceCopy uuid source =
      ⟨uuid, source.lineageId, source.slug, plan.configCopy uuid source.config, [], []⟩ := by
  unfold serviceCopy
  simp only [foldl_putSetting_default]
  rfl

end Plan

theorem sourceCell_withCredential (id : String) (source : ServiceSource) :
    sourceCell (source.withCredential id) = sourceCell source ∧
      (source.withCredential id).branch? = source.branch? := by
  cases source with
  | image _ _ credentials => cases credentials <;> exact ⟨rfl, rfl⟩
  | _ => exact ⟨rfl, rfl⟩

theorem unsuffixed_append (suffix label : String) (port : Option UInt16) :
    (⟨label ++ suffix, port⟩ : ServiceManagedHostname).unsuffixed suffix = ⟨label, port⟩ := by
  simp [ServiceManagedHostname.unsuffixed, stripSuffix_append]

/-- A new Service's settings read as the sender's where it needs them, else as unset. -/
theorem settingCell_configCopy (plan : Plan) (uuid : String) (config : AuthoredServiceConfig)
    (setting : Setting) : settingCell (plan.configCopy uuid config) plan.hostnames.into setting =
      if (At.setting setting).needed then settingCell config plan.hostnames.from_ setting
      else .absent := by
  obtain ⟨hsource, hbranch⟩ := sourceCell_withCredential uuid config.source
  have hhosts : (config.managedHostnames.map fun hostname => ({ hostname with prefix_ :=
      (hostname.unsuffixed plan.hostnames.from_).prefix_ ++ plan.hostnames.into } :
      ServiceManagedHostname)).map (·.unsuffixed plan.hostnames.into) =
      config.managedHostnames.map (·.unsuffixed plan.hostnames.from_) := by
    rw [List.map_map]
    exact List.map_congr_left fun hostname _ => unsuffixed_append _ _ _
  have hunset : ∀ setting, isUnset setting (defaultValue setting) = true := fun setting => by
    simp [isUnset]
  have hdefault : ∀ setting,
    settingValue (plan.configCopy uuid config) plan.hostnames.into setting =
      defaultValue setting →
      settingCell (plan.configCopy uuid config) plan.hostnames.into setting = .absent :=
    fun setting h => by rw [settingCell, h, hunset, if_pos rfl]
  have hsame : ∀ setting, settingValue (plan.configCopy uuid config) plan.hostnames.into setting =
      settingValue config plan.hostnames.from_ setting →
      settingCell (plan.configCopy uuid config) plan.hostnames.into setting =
        settingCell config plan.hostnames.from_ setting :=
    fun setting h => by rw [settingCell, h, settingCell]
  cases setting with
  | source => exact hsame .source (congrArg Value.source hsource)
  | branch => exact hsame .branch (congrArg (optional .branch) hbranch)
  | privateDns => exact hsame .privateDns rfl
  | managedHostnames => exact hsame .managedHostnames (congrArg Value.managedHostnames hhosts)
  | routes => rfl
  | _ => exact hdefault _ rfl

/-- The copy of a sender's node that `Plan.introduce` adds. -/
def Plan.copy (plan : Plan) (uuid : String) : NodeRef → NodeRef
  | .service source => .service (plan.serviceCopy uuid source)
  | .volume source => .volume { source with resourceId := uuid }

theorem copy_tag (plan : Plan) (uuid : String) (node : NodeRef) :
    (plan.copy uuid node).tag = node.tag ∧ (plan.copy uuid node).lineage = node.lineage := by
  cases node with
  | service source =>
    rw [Plan.copy, Plan.serviceCopy_eq]
    exact ⟨rfl, rfl⟩
  | volume source => exact ⟨rfl, rfl⟩

/-- A new node holds what it carries and nothing else. -/
theorem placeSealed_copy (plan : Plan) (uuid : String) (env : SavedEnvironmentIntent)
    (node : NodeRef) (place : At) :
    placeSealed env plan.hostnames.into (plan.copy uuid node) place =
      if place.needed then placeSealed plan.from_ plan.hostnames.from_ node place
      else .cell .absent := by
  cases node with
  | service source =>
    rw [Plan.copy, Plan.serviceCopy_eq]
    cases place with
    | setting setting =>
      rw [← held, held_setting, ← held, held_setting, settingCell_configCopy]
      split <;> rfl
    | mount lineage =>
      simp only [placeSealed, placeCell, mountCell]
      split <;> rfl
    | _ => rfl
  | volume source =>
    cases place with
    | setting setting => cases setting <;> rfl
    | _ => rfl

/-- No node of the document has the name or private address of a new one. -/
def NodeRef.Unclashing (env : SavedEnvironmentIntent) : NodeRef → Prop
  | .service s => ∀ t ∈ env.services, t.slug ≠ s.slug ∧ t.config.privateDns ≠ s.config.privateDns
  | .volume v => ∀ w ∈ env.volumes, w.name ≠ v.name

/-- Everything `Plan.introduce` does. -/
theorem introduce_cases {plan : Plan} {uuid : String} {next next' : SavedEnvironmentIntent}
    {base base' : Option SavedEnvironmentIntent}
    (h : plan.introduce uuid next base lineage = .ok (next', base')) :
    ∃ node, nodeAt plan.from_ lineage = some node ∧ node.Unclashing next ∧
      next' = next.push (plan.copy uuid node) ∧
        base' = base.map (·.push (plan.copy uuid node)) := by
  unfold Plan.introduce at h
  split at h
  · next source hsource =>
    split at h
    · cases h
    · next hfree =>
      cases h
      exact ⟨.volume source, nodeAt_of_volume hsource, by simpa [NodeRef.Unclashing] using hfree,
        rfl, rfl⟩
  · next hvolume =>
    split at h
    · next source hsource =>
      split at h
      · cases h
      · next hfree =>
        cases h
        exact ⟨.service source, nodeAt_of_service hvolume hsource,
          by simpa [NodeRef.Unclashing] using hfree, rfl, rfl⟩
    · cases h

theorem lineage_of_nodeAt {env : SavedEnvironmentIntent} (h : nodeAt env lineage = some node) :
    node.lineage = lineage := by
  unfold nodeAt at h
  split at h
  · next v hv =>
    cases h
    simpa [NodeRef.lineage] using List.find?_some hv
  · obtain ⟨s, hs, rfl⟩ := Option.map_eq_some_iff.mp h
    simpa [NodeRef.lineage] using List.find?_some hs

/-- The sender's node arrives with what it carries. -/
theorem view_push_copy {plan : Plan} {uuid : String} {env : SavedEnvironmentIntent}
    (hnode : nodeAt plan.from_ lineage = some node) (hn : nodeAt env lineage = none)
    (hid : (plan.copy uuid node).Unmounted env) :
    view (env.push (plan.copy uuid node)) plan.hostnames.into =
      (view env plan.hostnames.into).arrive lineage node.tag
        ((view plan.from_ plan.hostnames.from_).carried lineage) := by
  obtain ⟨htag, hlineage⟩ := copy_tag plan uuid node
  rw [lineage_of_nodeAt hnode] at hlineage
  have hcell : ∀ place, (view plan.from_ plan.hostnames.from_).cell ⟨lineage, place⟩ =
      placeSealed plan.from_ plan.hostnames.from_ node place := fun place => view_cell _ hnode
  rw [view_push (hlineage ▸ hn) hid, htag, hlineage]
  congr 1
  funext place
  rw [placeSealed_copy, View.carried, hcell]

end Ployz
