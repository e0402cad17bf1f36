import Ployz.Store.Deployment.Statuses

/-!
# What a Deployment's targets are

A Deployment freezes its targets from the document it ships and from Applied State: each
Service it ships lowers to that document's Private DNS name and comes with the Volumes it
mounts, each kept Volume is in the document and each deleted one is not (`Targets`). Every
Deployment of every run keeps such targets, Applied State holds each node under its own ID, and
no ID ever names nodes of two types (`Grounded`).

Main results: `Freezes.targets`, `World.grounded_after`.
-/

namespace Ployz

open Run Environment
open Std (TreeMap)

def TargetNode.nodeType : TargetNode → EnvironmentNodeType
  | .service .. => .service
  | .volume .. => .volume

/-- What holds of the target nodes of a Deployment that ships `saved`. -/
structure Targets (introduced : TreeMap String EnvironmentNodeType)
    (saved : SavedEnvironmentIntent) (nodes : List TargetNode) : Prop where
  unambiguous : Unambiguous nodes
  kinds : ∀ node ∈ nodes, introduced[node.id]? = some node.nodeType
  runtime : ∀ id name runtime, .service id name runtime ∈ nodes →
    ∀ service ∈ saved.services, service.id = id → runtime = service.config.privateDns
  kept : ∀ id name, .volume id name none ∈ nodes → ∃ volume ∈ saved.volumes, volume.resourceId = id
  deleted : ∀ id name deletes, .volume id name (some deletes) ∈ nodes →
    ∀ volume ∈ saved.volumes, volume.resourceId ≠ id
  mounted : ∀ id name runtime, .service id name runtime ∈ nodes →
    ∀ service ∈ saved.services, service.id = id → ∀ volume, service.mounts volume = true →
      ∃ name, .volume volume name none ∈ nodes

/-- A Deployment of the whole Environment targets every node it ships. -/
def Covers (saved : SavedEnvironmentIntent) (nodes : List TargetNode) : Prop :=
  (∀ service ∈ saved.services, TargetNode.ofService service ∈ nodes) ∧
    ∀ volume ∈ saved.volumes, TargetNode.ofVolume volume none ∈ nodes

/-! ## Freezing -/

variable {intent : SavedEnvironmentIntent}

section Freezing

variable {introduced : TreeMap String EnvironmentNodeType} {saved : SavedEnvironmentIntent}
  {slug : String} {applied : AppliedTable} {services : List ServiceName}
  {losses : List VolumeLoss} {nodes : List TargetNode}

/-- A document whose Services and Volumes have an ID each, and whose mounts are in it. -/
structure Closed (intent : SavedEnvironmentIntent) : Prop where
  serviceIds : (intent.services.map (·.id)).Nodup
  volumeIds : (intent.volumes.map (·.resourceId)).Nodup
  mounts : ∀ service ∈ intent.services, ∀ volume, service.mounts volume = true →
    ∃ held ∈ intent.volumes, held.resourceId = volume

/-- Applied State holds each node under its ID, as it was introduced. -/
structure Rooted (introduced : TreeMap String EnvironmentNodeType) (applied : AppliedTable) :
    Prop where
  keys : OwnKeys applied
  kinds : ∀ (id : String) (node : Node),
    applied[id]? = some node → introduced[id]? = some node.nodeType

theorem closed_of_wellFormed (h : WellFormed intent) :
    Closed intent := by
  refine ⟨h.serviceIds.nodup, h.volumeIds.nodup, fun service hservice volume hmounts => ?_⟩
  obtain ⟨attachment, hattachment, hvolume⟩ := List.any_eq_true.mp hmounts
  obtain ⟨held, hheld, hid⟩ := (h.services service hservice).mounted attachment hattachment
  exact ⟨held, hheld, hid.trans (by simpa using hvolume)⟩

variable {node : TargetNode}

/-- The targeted Services: those the document has, and those only Applied State has. -/
theorem mem_targetServices {targets : List TargetNode}
    (h : targetServices saved intent services = .ok targets) (hnode : node ∈ targets) :
    ∃ service, node = .ofService service ∧ (service ∈ saved.services ∨
      service ∈ intent.services ∧ ∀ kept ∈ saved.services, kept.id ≠ service.id) := by
  unfold targetServices at h
  split_ifs at h
  · obtain rfl := pure_eq_ok.mp h
    obtain ⟨service, hservice, rfl⟩ := List.mem_map.mp hnode
    refine ⟨service, rfl, ?_⟩
    rcases List.mem_append.mp hservice with hsaved | hold
    · exact .inl hsaved
    · obtain ⟨hmem, hgone⟩ := List.mem_filter.mp hold
      exact .inr ⟨hmem, by simpa using hgone⟩
  · obtain ⟨name, -, hname⟩ := exists_of_mem_mapM h hnode
    split at hname
    · next service hfind =>
      obtain rfl := pure_eq_ok.mp hname
      exact ⟨service, rfl, .inl (List.mem_of_find?_eq_some hfind)⟩
    · cases hname

/-- The kept Volumes: those of the document that every Deployment, or a targeted Service, takes. -/
theorem mem_targetVolumes {full : Bool} {targets : List TargetNode} :
    node ∈ targetVolumes saved full targets ↔
      ∃ volume ∈ saved.volumes, node = .ofVolume volume none ∧ (full = true ∨
        ∃ service ∈ saved.services, (∃ target ∈ targets, target.id = service.id) ∧
          service.mounts volume.resourceId = true) := by
  simp only [targetVolumes, List.mem_map, List.mem_filter, Bool.or_eq_true, List.any_eq_true,
    Bool.and_eq_true, beq_iff_eq]
  constructor
  · rintro ⟨volume, ⟨hvolume, hwhy⟩, rfl⟩
    exact ⟨volume, hvolume, rfl, hwhy⟩
  · rintro ⟨volume, hvolume, rfl, hwhy⟩
    exact ⟨volume, ⟨hvolume, hwhy⟩, rfl⟩

/-- The deleted Volumes: those Applied State has and the document does not. -/
theorem mem_targetLosses (happlied : OwnKeys applied) {full : Bool} {lost : List TargetNode}
    (h : targetLosses (Ployz.appliedState slug applied) full losses = .ok lost)
    (hlosses : Losses (Ployz.appliedState slug applied) saved losses) :
    ∃ deletesOf : SavedVolumeIntent → List DockerVolumeId, ∀ node ∈ lost, full = true ∧
      ∃ volume, node = .ofVolume volume (some (deletesOf volume)) ∧
        applied[volume.resourceId]? = some (.volume volume) ∧
        ∀ kept ∈ saved.volumes, kept.resourceId ≠ volume.resourceId := by
  unfold targetLosses at h
  rcases hlosses with rfl | ⟨namespace_, held, rfl⟩
  · refine ⟨fun _ => [], fun node hnode => ?_⟩
    obtain ⟨loss, hloss, -⟩ := exists_of_mem_mapM h hnode
    rw [ite_self] at hloss
    cases hloss
  · refine ⟨fun volume => (held.loss ⟨volume.resourceId, volume.name,
      dockerVolume namespace_ volume.resourceId⟩).deletes, fun node hnode => ?_⟩
    obtain ⟨loss, hloss, hfound⟩ := exists_of_mem_mapM h hnode
    cases full with
    | false => cases hloss
    | true =>
      obtain ⟨removed, hremoved, rfl⟩ := List.mem_map.mp hloss
      obtain ⟨old, hold, rfl⟩ := List.mem_map.mp hremoved
      obtain ⟨hmem, hgone⟩ := List.mem_filter.mp hold
      split at hfound
      · next volume hfind =>
        obtain rfl := pure_eq_ok.mp hfound
        have hvolume := (mem_appliedState_volumes happlied).mp (List.mem_of_find?_eq_some hfind)
        have hid : volume.resourceId = old.resourceId := by
          simpa [VolumeObservation.loss] using List.find?_some hfind
        have hsame := (mem_appliedState_volumes happlied).mp hmem
        rw [← hid, hvolume] at hsame
        obtain rfl : volume = old := by simpa using hsame
        exact ⟨rfl, volume, rfl, hvolume, by simpa using hgone⟩
      · cases hfound

/-- Where a target node comes from: what is shipped, or what Applied State has and is not. -/
inductive TargetOf (saved : SavedEnvironmentIntent) (applied : AppliedTable)
    (deletesOf : SavedVolumeIntent → List DockerVolumeId) : TargetNode → Prop
  | shipped {service : SavedServiceIntent} (hservice : service ∈ saved.services) :
      TargetOf saved applied deletesOf (.ofService service)
  | dropped {service : SavedServiceIntent}
      (hservice : applied[service.id]? = some (.service service))
      (hgone : ∀ kept ∈ saved.services, kept.id ≠ service.id) :
      TargetOf saved applied deletesOf (.ofService service)
  | kept {volume : SavedVolumeIntent} (hvolume : volume ∈ saved.volumes) :
      TargetOf saved applied deletesOf (.ofVolume volume none)
  | lost {volume : SavedVolumeIntent}
      (hvolume : applied[volume.resourceId]? = some (.volume volume))
      (hgone : ∀ kept ∈ saved.volumes, kept.resourceId ≠ volume.resourceId) :
      TargetOf saved applied deletesOf (.ofVolume volume (some (deletesOf volume)))

theorem Environment.Freezes.targetOf
    (h : Freezes saved (Ployz.appliedState slug applied) services losses nodes)
    (hlosses : Losses (Ployz.appliedState slug applied) saved losses) (happlied : OwnKeys applied) :
    ∃ deletesOf, ∀ node ∈ nodes, TargetOf saved applied deletesOf node := by
  obtain ⟨targets, lost, htargets, hlost, rfl⟩ := h.nodes_eq
  obtain ⟨deletesOf, hdeletes⟩ := mem_targetLosses happlied hlost hlosses
  refine ⟨deletesOf, fun node hnode => ?_⟩
  rcases List.mem_append.mp hnode with hnode | hnode
  · rcases List.mem_append.mp hnode with hnode | hnode
    · obtain ⟨service, rfl, hsaved | ⟨hold, hgone⟩⟩ := mem_targetServices htargets hnode
      · exact .shipped hsaved
      · exact .dropped ((mem_appliedState_services happlied).mp hold) hgone
    · obtain ⟨volume, hvolume, rfl, -⟩ := mem_targetVolumes.mp hnode
      exact .kept hvolume
  · obtain ⟨-, volume, rfl, hvolume, hgone⟩ := hdeletes node hnode
    exact .lost hvolume hgone

variable {deletesOf : SavedVolumeIntent → List DockerVolumeId}

theorem TargetOf.kind (h : TargetOf saved applied deletesOf node) (hsaved : Kinded introduced saved)
    (happlied : Rooted introduced applied) : introduced[node.id]? = some node.nodeType := by
  cases h with
  | shipped hservice =>
    exact hsaved (.service _) (List.mem_append_left _ (List.mem_map_of_mem hservice))
  | dropped hservice => exact happlied.kinds _ _ hservice
  | kept hvolume => exact hsaved (.volume _) (List.mem_append_right _ (List.mem_map_of_mem hvolume))
  | lost hvolume => exact happlied.kinds _ _ hvolume

/-- Nodes of one ID are one node. -/
theorem TargetOf.unique {a b : TargetNode} (ha : TargetOf saved applied deletesOf a)
    (hb : TargetOf saved applied deletesOf b) (hclosed : Closed saved)
    (htype : a.nodeType = b.nodeType) (hid : a.id = b.id) : a = b := by
  cases ha with
  | shipped hs =>
    cases hb with
    | shipped ht => rw [List.inj_on_of_nodup_map hclosed.serviceIds hs ht hid]
    | dropped _ hgone => exact absurd hid (hgone _ hs)
    | kept | lost => cases htype
  | dropped hs hgone =>
    cases hb with
    | shipped ht => exact absurd hid.symm (hgone _ ht)
    | dropped ht =>
      rw [TargetNode.ofService_id, TargetNode.ofService_id] at hid
      rw [hid, ht] at hs
      cases hs
      rfl
    | kept | lost => cases htype
  | kept hv =>
    cases hb with
    | shipped | dropped => cases htype
    | kept hw => rw [List.inj_on_of_nodup_map hclosed.volumeIds hv hw hid]
    | lost _ hgone => exact absurd hid (hgone _ hv)
  | lost hv hgone =>
    cases hb with
    | shipped | dropped => cases htype
    | kept hw => exact absurd hid.symm (hgone _ hw)
    | lost hw =>
      rw [TargetNode.ofVolume_id, TargetNode.ofVolume_id] at hid
      rw [hid, hw] at hv
      cases hv
      rfl

/-- What a Deployment freezes are targets. -/
theorem Environment.Freezes.targets
    (h : Freezes saved (Ployz.appliedState slug applied) services losses nodes)
    (hlosses : Losses (Ployz.appliedState slug applied) saved losses) (hclosed : Closed saved)
    (hkinded : Kinded introduced saved) (happlied : Rooted introduced applied) :
    Targets introduced saved nodes := by
  obtain ⟨deletesOf, hof⟩ := h.targetOf hlosses happlied.keys
  have hkinds : ∀ node ∈ nodes, introduced[node.id]? = some node.nodeType :=
    fun node hnode => (hof node hnode).kind hkinded happlied
  refine ⟨fun a ha b hb hid => ?_, hkinds, ?_, ?_, ?_, ?_⟩
  · have htype := hkinds a ha
    rw [hid, hkinds b hb] at htype
    exact (hof a ha).unique (hof b hb) hclosed (Option.some.inj htype).symm hid
  · intro id name runtime hnode service hservice hid
    cases hof _ hnode with
    | shipped hs => rw [List.inj_on_of_nodup_map hclosed.serviceIds hservice hs hid]
    | dropped hs hgone => exact absurd hid (hgone service hservice)
  · intro id name hnode
    cases hof _ hnode with
    | kept hvolume => exact ⟨_, hvolume, rfl⟩
  · intro id name deletes hnode
    cases hof _ hnode with
    | lost hvolume hgone => exact hgone
  · intro id name runtime hnode service hservice hid volume hmounts
    obtain ⟨targets, lost, htargets, hlost, rfl⟩ := h.nodes_eq
    obtain ⟨held, hheld, rfl⟩ := hclosed.mounts service hservice volume hmounts
    -- The Service's own target is among the Services, since a Volume's target is no Service's.
    have htarget : TargetNode.service id name runtime ∈ targets := by
      rcases List.mem_append.mp hnode with hnode | hnode
      · rcases List.mem_append.mp hnode with hnode | hnode
        · exact hnode
        · obtain ⟨_, -, hvolume, -⟩ := mem_targetVolumes.mp hnode
          cases hvolume
      · obtain ⟨_, hdeletes⟩ := mem_targetLosses happlied.keys hlost hlosses
        obtain ⟨-, _, hvolume, -⟩ := hdeletes _ hnode
        cases hvolume
    refine ⟨held.name, List.mem_append_left _ (List.mem_append_right _ ?_)⟩
    exact mem_targetVolumes.mpr ⟨held, hheld, rfl, .inr ⟨service, hservice,
      ⟨_, htarget, hid.symm⟩, hmounts⟩⟩

/-- A Deployment of the whole Environment covers what it ships and drops. -/
theorem Environment.Freezes.covers
    (h : Freezes saved (Ployz.appliedState slug applied) [] losses nodes) :
    Covers saved nodes := by
  obtain ⟨targets, lost, htargets, -, rfl⟩ := h.nodes_eq
  have htargets : targets = _ := (pure_eq_ok.mp htargets).symm
  constructor
  · intro service hservice
    refine List.mem_append_left _ (List.mem_append_left _ ?_)
    rw [htargets]
    exact List.mem_map_of_mem (List.mem_append_left _ hservice)
  · intro volume hvolume
    refine List.mem_append_left _ (List.mem_append_right _ ?_)
    exact mem_targetVolumes.mpr ⟨volume, hvolume, rfl, .inl rfl⟩

end Freezing

/-! ## Every Deployment of a run -/

/-- Working State and every Saved revision are accepted, their nodes introduced. -/
structure Environment.Documents (env : Environment) : Prop where
  slug : env.slug ≠ ""
  working : WellFormed env.working ∧ Kinded env.introduced env.working
  saved : ∀ saved ∈ env.saved, WellFormed saved ∧ Kinded env.introduced saved ∧
    canonicalizeEnvironmentIntent saved = saved

/-- A Deployment ships a Saved revision, with targets. -/
def Environment.Shipped (env : Environment) (row : Stored) : Prop :=
  ∃ saved, env.savedAt row.saved = .ok saved ∧ Targets env.introduced saved row.nodes ∧
    (row.services = [] → Covers saved row.nodes)

/-- Besides, Applied State holds nodes under their own IDs, and every Deployment ships a Saved
revision with targets. -/
structure Environment.Grounded (env : Environment) : Prop extends Environment.Documents env where
  applied : Rooted env.introduced env.applied
  rows : ∀ row ∈ env.deployments, env.Shipped row

section Grounds

variable {env env' : Environment} {now : Nat}

theorem Environment.Kinded.mono {introduced introduced' : TreeMap String EnvironmentNodeType}
    (h : Kinded introduced intent) (hgrows : Introduces introduced introduced') :
    Kinded introduced' intent :=
  fun node hnode => hgrows _ _ (h node hnode)

theorem Targets.mono {introduced introduced' : TreeMap String EnvironmentNodeType}
    {saved : SavedEnvironmentIntent} {nodes : List TargetNode}
    (h : Targets introduced saved nodes) (hgrows : Introduces introduced introduced') :
    Targets introduced' saved nodes :=
  { h with kinds := fun node hnode => hgrows _ _ (h.kinds node hnode) }

theorem Rooted.mono {introduced introduced' : TreeMap String EnvironmentNodeType}
    {applied : AppliedTable} (h : Rooted introduced applied)
    (hgrows : Introduces introduced introduced') : Rooted introduced' applied :=
  ⟨h.keys, fun id node hnode => hgrows _ _ (h.kinds id node hnode)⟩

theorem Environment.Kinded.canonicalize {introduced : TreeMap String EnvironmentNodeType}
    (h : Kinded introduced intent) :
    Kinded introduced (canonicalizeEnvironmentIntent intent) := by
  intro node hnode
  rcases List.mem_append.mp hnode with hnode | hnode
  · obtain ⟨service, hservice, rfl⟩ := List.mem_map.mp hnode
    obtain ⟨old, hold, rfl⟩ := (mem_canonicalize_services _).mp hservice
    exact h (.service old) (List.mem_append_left _ (List.mem_map_of_mem hold))
  · obtain ⟨volume, hvolume, rfl⟩ := List.mem_map.mp hnode
    exact h (.volume volume) (List.mem_append_right _
      (List.mem_map_of_mem ((mem_canonicalize_volumes _).mp hvolume)))

namespace Environment

/-- What a Saved revision reads. -/
theorem Documents.savedAt (h : env.Documents) {revision : Nat} {saved : SavedEnvironmentIntent}
    (hsaved : env.savedAt revision = .ok saved) :
    WellFormed saved ∧ Kinded env.introduced saved := by
  unfold Environment.savedAt at hsaved
  split_ifs at hsaved
  · obtain rfl := pure_eq_ok.mp hsaved
    exact ⟨World.wellFormed_emptyIntent ⟨env.slug, h.slug⟩, fun _ => (nomatch ·)⟩
  · split at hsaved
    · cases hsaved
    · next intent hintent =>
      obtain ⟨hwell, hkinded, hcanonical⟩ := h.saved intent (List.mem_of_getElem? hintent)
      rw [parseEnvironmentIntent_eq_self_iff.mpr hwell] at hsaved
      obtain rfl := pure_eq_ok.mp hsaved
      rw [hcanonical]
      exact ⟨hwell, hkinded⟩

theorem Documents.step (h : env.Documents) (hframe : env.Frame env') : env'.Documents := by
  have hworking : WellFormed env'.working ∧ Kinded env'.introduced env'.working := by
    rcases hframe.working with heq | hnew
    · rw [heq]
      exact ⟨h.working.1, h.working.2.mono hframe.introduced⟩
    · exact hnew
  refine ⟨hframe.slug ▸ h.slug, hworking, fun saved hsaved => ?_⟩
  have hold : ∀ saved ∈ env.saved, WellFormed saved ∧ Kinded env'.introduced saved ∧
      canonicalizeEnvironmentIntent saved = saved := fun saved hsaved =>
    let ⟨hwell, hkinded, hcanonical⟩ := h.saved saved hsaved
    ⟨hwell, hkinded.mono hframe.introduced, hcanonical⟩
  rcases hframe.history with heq | heq
  · exact hold saved (heq ▸ hsaved)
  · rw [heq] at hsaved
    rcases List.mem_append.mp hsaved with hsaved | hsaved
    · exact hold saved hsaved
    · rw [List.mem_singleton.mp hsaved]
      exact ⟨canonicalize_wellFormed h.working.1,
        (h.working.2.mono hframe.introduced).canonicalize, canonicalize_canonicalize _⟩

theorem Frame.prefix_saved (h : env.Frame env') : env.saved <+: env'.saved := by
  rcases h.history with heq | heq
  · exact heq ▸ List.prefix_rfl
  · rw [heq]
    exact List.prefix_append _ _

/-- A revision reads the same once more are published. -/
theorem Frame.savedAt (h : env.Frame env') {revision : Nat} {saved : SavedEnvironmentIntent}
    (hsaved : env.savedAt revision = .ok saved) : env'.savedAt revision = .ok saved := by
  unfold Environment.savedAt at hsaved ⊢
  split_ifs at hsaved ⊢
  · rw [h.slug]
    exact hsaved
  · obtain ⟨more, hmore⟩ := h.prefix_saved
    cases hintent : env.saved[revision - 1]? with
    | none =>
      rw [hintent] at hsaved
      cases hsaved
    | some intent =>
      rw [hintent] at hsaved
      rw [← hmore, List.getElem?_append_left (List.getElem?_eq_some_iff.mp hintent).1, hintent]
      exact hsaved

/-- What is put into Applied State is rooted. -/
theorem rooted_advance {introduced : TreeMap String EnvironmentNodeType}
    {saved : SavedEnvironmentIntent} {nodes : List TargetNode}
    {outcomes : TreeMap String NodeStatus} {succeeded : Bool} {applied : AppliedTable}
    (htargets : Targets introduced saved nodes) (happlied : Rooted introduced applied) :
    Rooted introduced (advance saved nodes outcomes succeeded applied) := by
  have hsaved : ∀ (target : TargetNode) (node : Node), target ∈ nodes →
      target.saved saved = some node → node.id = target.id ∧ node.nodeType = target.nodeType := by
    intro target node _ hnode
    cases target with
    | service id name runtime =>
      obtain ⟨service, hfind, rfl⟩ := Option.map_eq_some_iff.mp hnode
      have hid : service.id = id := by simpa using List.find?_some hfind
      exact ⟨hid, rfl⟩
    | volume id name deletes =>
      obtain ⟨volume, hfind, rfl⟩ := Option.map_eq_some_iff.mp hnode
      have hid : volume.resourceId = id := by simpa using List.find?_some hfind
      exact ⟨hid, rfl⟩
  have hall : ∀ (id : String) (node : Node),
      (advance saved nodes outcomes succeeded applied)[id]? = some node →
        node.id = id ∧ introduced[id]? = some node.nodeType := by
    intro id node hnode
    by_cases henters : ∃ target ∈ nodes, target.id = id ∧
        entersWith outcomes succeeded target = true
    · obtain ⟨target, htarget, rfl, henters⟩ := henters
      rw [getElem?_advance htargets.unambiguous htarget henters] at hnode
      obtain ⟨hid, htype⟩ := hsaved target node htarget hnode
      rw [htype]
      exact ⟨hid, htargets.kinds target htarget⟩
    · rw [getElem?_advance_of_not fun target htarget hid => by
        by_contra hno
        exact henters ⟨target, htarget, hid, by simpa using hno⟩] at hnode
      exact ⟨happlied.keys id node hnode, happlied.kinds id node hnode⟩
  exact ⟨fun id node hnode => (hall id node hnode).1, fun id node hnode => (hall id node hnode).2⟩

/-! ### Where a row comes from -/

/-- What admission froze is the same in both rows. -/
structure SameFrozen (row row' : Stored) : Prop where
  id : row'.id = row.id
  saved : row'.saved = row.saved
  services : row'.services = row.services
  nodes : row'.nodes = row.nodes

theorem SameFrozen.trans {a b c : Stored} (hab : SameFrozen a b) (hbc : SameFrozen b c) :
    SameFrozen a c :=
  ⟨hbc.id.trans hab.id, hbc.saved.trans hab.saved, hbc.services.trans hab.services,
    hbc.nodes.trans hab.nodes⟩

variable {row row' : Stored} {op : Op}

theorem sameFrozen_of_follows (h : Stored.Follows now row row') :
    SameFrozen row row' := ⟨h.id, h.saved, h.services, h.nodes⟩

theorem sameFrozen_put (stored row : Stored) : SameFrozen row (stored.put row) := by
  unfold Stored.put
  split_ifs <;> exact ⟨rfl, rfl, rfl, rfl⟩

theorem origin_save {stored : Stored} (h : row' ∈ (env.save stored).deployments) :
    ∃ row ∈ env.deployments, SameFrozen row row' := by
  obtain ⟨row, hrow, rfl⟩ := List.mem_map.mp h
  exact ⟨row, hrow, sameFrozen_put stored row⟩

theorem origin_admitRow (hrows : env'.deployments = env.deployments.map (·.supersede) ++ [row])
    (h : row' ∈ env'.deployments) :
    (∃ old ∈ env.deployments, SameFrozen old row') ∨ SameFrozen row row' := by
  rw [hrows] at h
  rcases List.mem_append.mp h with h | h
  · obtain ⟨old, hold, rfl⟩ := List.mem_map.mp h
    exact .inl ⟨old, hold, sameFrozen_of_follows (@follows_supersede 0 old)⟩
  · rw [List.mem_singleton.mp h]
    exact .inr ⟨rfl, rfl, rfl, rfl⟩

theorem origin_forgotten {outcome : Outcome}
    (hrows : env'.deployments = env.deployments.map (·.supersede) ++ [row])
    (h : row' ∈ (env'.forgotten now row outcome).deployments) :
    (∃ old ∈ env.deployments, SameFrozen old row') ∨ SameFrozen row row' := by
  obtain ⟨mid, hmid, hsame⟩ := origin_save h
  rcases origin_admitRow hrows hmid with ⟨old, hold, hold'⟩ | hnew
  · exact .inl ⟨old, hold, hold'.trans hsame⟩
  · exact .inr (hnew.trans hsame)

/-- Each row after a step is a row before it, or the row just admitted, with later columns
written. -/
theorem Effect.origin (h : env.Effect now op env') (hrow' : row' ∈ env'.deployments) :
    (∃ row ∈ env.deployments, SameFrozen row row') ∨
      ∃ row mid, (env.Ships row mid ∨ ∃ source, env.Again now source row mid) ∧
        SameFrozen row row' ∧ mid.Frame env' := by
  cases h with
  | keep _ hrows =>
    rw [hrows] at hrow'
    exact .inl ⟨row', hrow', rfl, rfl, rfl, rfl⟩
  | ship _ h => exact (origin_admitRow h.rows hrow').imp_right fun hnew => ⟨_, _, .inl h, hnew,
      .of_eq rfl rfl rfl rfl⟩
  | forget h =>
    exact (origin_forgotten h.rows hrow').imp_right fun hnew => ⟨_, _, .inl h, hnew,
      .of_eq rfl rfl rfl rfl⟩
  | again h =>
    exact (origin_admitRow h.rows hrow').imp_right fun hnew => ⟨_, _, .inr ⟨_, h⟩, hnew,
      .of_eq rfl rfl rfl rfl⟩
  | forgetAgain h =>
    exact (origin_forgotten h.rows hrow').imp_right fun hnew => ⟨_, _, .inr ⟨_, h⟩, hnew,
      .of_eq rfl rfl rfl rfl⟩
  | claim hload h =>
    left
    cases h with
    | refused => exact ⟨row', hrow', rfl, rfl, rfl, rfl⟩
    | lost | again => exact origin_save hrow'
    | queued =>
      obtain ⟨mid, hmid, hsame⟩ := origin_save hrow'
      obtain ⟨row, hrow, rfl⟩ := List.mem_map.mp hmid
      exact ⟨row, hrow, (sameFrozen_of_follows (@follows_lose now row)).trans hsame⟩
  | cancel | cancelling => exact .inl (origin_save hrow')
  | forgetCluster =>
    obtain ⟨row, hrow, rfl⟩ := List.mem_map.mp hrow'
    exact .inl ⟨row, hrow, sameFrozen_of_follows (@follows_giveUp now row)⟩
  | record hload hrunner h =>
    left
    rcases h.rows_eq with hrows | ⟨written, hrows, -⟩
    · rw [hrows] at hrow'
      exact ⟨row', hrow', rfl, rfl, rfl, rfl⟩
    · rw [hrows] at hrow'
      exact origin_save hrow'

/-! ### Over a step, and over a run -/

theorem Recorded.rooted {stored : Stored} {evidence : RunEvidence} {follow : Except RpcError Unit}
    (h : env.Recorded now stored follow evidence env') (hgrounded : env.Grounded)
    {saved : SavedEnvironmentIntent} (hsaved : env.savedAt stored.saved = .ok saved)
    (htargets : Targets env.introduced saved stored.nodes) :
    Rooted env.introduced env'.applied := by
  have hadvanced : ∀ {written : Stored} {succeeded : Bool} {mid : Environment},
      env.advanced written succeeded follow = .ok mid → written.saved = stored.saved →
      written.nodes = stored.nodes → Rooted env.introduced mid.applied := by
    intro written succeeded mid hadvanced hrevision hnodes
    rcases advanced_ok hadvanced with ⟨-, rfl⟩ | ⟨other, hother, rfl⟩
    · exact hgrounded.applied
    · rw [hrevision, hsaved] at hother
      cases hother
      rw [hnodes]
      exact rooted_advance htargets hgrounded.applied
  cases h with
  | same | alive | prepared | lost => exact hgrounded.applied
  | confirmed _ _ _ _ _ h =>
    have hrooted := hadvanced h rfl rfl
    exact hrooted
  | executed _ _ _ _ _ _ h =>
    have hrooted := hadvanced h rfl rfl
    exact hrooted
  | stopped _ _ _ h =>
    have hrooted := hadvanced h rfl rfl
    exact hrooted

theorem Effect.rooted (h : env.Effect now op env') (hgrounded : env.Grounded) :
    Rooted env'.introduced env'.applied := by
  refine Rooted.mono ?_ h.frame.introduced
  have hempty : Rooted env.introduced ∅ := ⟨fun _ _ h => by simp at h, fun _ _ h => by simp at h⟩
  cases h with
  | keep _ _ happlied => rw [happlied]; exact hgrounded.applied
  | ship _ h => rw [h.applied]; exact hgrounded.applied
  | again h => rw [h.env_eq]; exact hgrounded.applied
  | forget | forgetAgain | forgetCluster => exact hempty
  | claim _ h => cases h <;> exact hgrounded.applied
  | cancel | cancelling => exact hgrounded.applied
  | record hload _ h =>
    obtain ⟨row, hrow, -, rfl⟩ := load_mem hload
    obtain ⟨saved, hsaved, htargets, -⟩ := hgrounded.rows row hrow
    have hread : env.savedAt ((row.read now).renew now).saved = .ok saved := by
      rw [Stored.renew_saved]
      exact hsaved
    refine h.rooted hgrounded hread ?_
    rw [Stored.renew_nodes]
    exact htargets

theorem Shipped.of_sameFrozen (h : env.Shipped row) (hsame : SameFrozen row row') :
    env.Shipped row' := by
  obtain ⟨saved, hsaved, htargets, hcovers⟩ := h
  exact ⟨saved, hsame.saved ▸ hsaved, hsame.nodes ▸ htargets,
    fun hfull => hsame.nodes ▸ hcovers (hsame.services ▸ hfull)⟩

theorem Shipped.step (h : env.Shipped row) (hframe : env.Frame env') :
    env'.Shipped row := by
  obtain ⟨saved, hsaved, htargets, hcovers⟩ := h
  exact ⟨saved, hframe.savedAt hsaved, htargets.mono hframe.introduced, hcovers⟩

theorem Ships.shipped (h : env.Ships row env') (hgrounded : env.Grounded) :
    env'.Shipped row := by
  obtain ⟨saved, losses, hread, hfreezes, hlosses⟩ := h.frozen
  obtain ⟨hwell, hkinded⟩ := (hgrounded.toDocuments.step h.frame).savedAt hread
  refine ⟨saved, hread, ?_, fun hfull => ?_⟩
  · have happlied := hgrounded.applied
    rw [← h.introduced] at happlied
    exact hfreezes.targets hlosses (closed_of_wellFormed hwell) hkinded happlied
  · rw [hfull] at hfreezes
    exact hfreezes.covers

theorem Again.shipped {source : String} (h : env.Again now source row env')
    (hgrounded : env.Grounded) : env'.Shipped row := by
  obtain ⟨stored, hload, -, hsaved, hservices, hnodes⟩ := h.ended
  obtain ⟨old, hold, -, rfl⟩ := load_mem hload
  obtain ⟨saved, hread, htargets, hcovers⟩ := hgrounded.rows old hold
  rw [h.env_eq]
  exact ⟨saved, hsaved ▸ hread, hnodes ▸ htargets, fun hfull =>
    hnodes ▸ hcovers (hservices ▸ hfull)⟩

theorem Effect.grounded (h : env.Effect now op env') (hgrounded : env.Grounded) :
    env'.Grounded := by
  have hframe := h.frame
  refine ⟨hgrounded.toDocuments.step hframe, h.rooted hgrounded, fun row' hrow' => ?_⟩
  rcases h.origin hrow' with ⟨row, hrow, hsame⟩ | ⟨row, mid, hadmits, hsame, hmid⟩
  · exact ((hgrounded.rows row hrow).step hframe).of_sameFrozen hsame
  · have hshipped : mid.Shipped row := by
      rcases hadmits with h | ⟨source, h⟩
      · exact h.shipped hgrounded
      · exact h.shipped hgrounded
    exact (hshipped.step hmid).of_sameFrozen hsame

end Environment

end Grounds

namespace World

theorem created_grounded (slug : EnvironmentSlug) (clock : Nat) :
    (created slug clock).env.Grounded := by
  refine ⟨⟨slug.nonempty, ⟨wellFormed_emptyIntent slug, fun _ => (nomatch ·)⟩,
    fun _ => (nomatch ·)⟩, ⟨fun _ _ h => ?_, fun _ _ h => ?_⟩, fun _ => (nomatch ·)⟩
  · simp [created] at h
  · simp [created] at h

theorem grounded_next {w : World} (h : w.env.Grounded) (op : Op) : (w.next op).env.Grounded :=
  (next_effect h.working.1 op).grounded h

theorem grounded_after {w : World} (h : w.env.Grounded) (ops : List Op) :
    (w.after ops).env.Grounded :=
  after_induction (P := fun w => w.env.Grounded) (fun _ op h => grounded_next h op) h ops

end World

end Ployz
