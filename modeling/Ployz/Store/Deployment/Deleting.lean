import Ployz.Store.Deployment.Targets
import Mathlib.Data.Countable.Basic
import Mathlib.Logic.Equiv.List

/-!
# What a Deployment deletes

A Deploy or a removal deletes the data of Volumes. The version its caller names binds the
Docker Volumes the refusal before it found, so accepting a loss accepts exactly what was shown:
`deletes_only_accepted` says what a Docker Volume went through before a Deployment carries it.
The digest in a version is taken to be collision free (`Digest`).
-/

namespace Ployz

open Run Environment

/-- What a confirmation to delete data binds: who, where, and each Docker Volume on each
Server. -/
structure Binding where
  organization : String
  environment : String
  volumes : List VolumeLoss
deriving DecidableEq

/-- A short digest of what a confirmation binds, in hex. -/
structure Digest where
  text : Binding → String
  injective : Function.Injective text
  hex : ∀ binding, ':' ∉ (text binding).toList

/-- The version a refusal to delete data hands back for review `base`. -/
def Digest.bound (digest : Digest) (base : String) (binding : Binding) : String :=
  base ++ ":" ++ digest.text binding

/-- What a caller names of a Deploy or a removal: the review it read, as it reads now, the
version it passes, and the Volumes whose loss it accepts. -/
structure Ask where
  organization : String
  environment : String
  base : String
  version : Option String
  accepted : List String
  namespace_ : String
  gate : Except RpcError Unit
  lowers : Except RpcError Unit

/-- The removed Volumes whose data some Server holds. -/
def lostVolumes (removed : List RemovedVolume) (observed : VolumeObservation) : List VolumeLoss :=
  (removed.map observed.loss).filter (!·.deletes.isEmpty)

namespace Ask

variable (ask : Ask) (digest : Digest)

/-- Refuse unless the version still names this review. A version a destructive review handed
back names this review, then what it deletes. -/
def check : Except RpcError Unit :=
  match ask.version with
  | none => pure ()
  | some version =>
    if version == ask.base || (ask.base ++ ":").toList.isPrefixOf version.toList then pure ()
    else throw (.clash ("The Environment changed after this review. Review the latest changes " ++
      "and try again"))

def binding (volumes : List VolumeLoss) : Binding := ⟨ask.organization, ask.environment, volumes⟩

/-- Whether the version is the one the refusal to delete exactly what is lost hands back. -/
def confirms (removed : List RemovedVolume) (observed : Option VolumeObservation) : Bool :=
  observed.any fun observed =>
    ask.version == some (digest.bound ask.base (ask.binding (lostVolumes removed observed)))

/-- The review of shipping `target` over `applied`. -/
def review (applied target : SavedEnvironmentIntent) (observed : Option VolumeObservation) :
    Review where
  check := ask.check
  gate := ask.gate
  lowers := ask.lowers
  bound := ask.confirms digest (removedVolumes applied target ask.namespace_) observed
  accepted := ask.accepted
  namespace_ := ask.namespace_

def deployed (env : Environment) : SavedEnvironmentIntent :=
  canonicalizeEnvironmentIntent env.working

def deploy (env : Environment) (admission : Admission) (trusted : Trusted) : Op :=
  .deploy admission trusted (ask.review digest env.appliedState (deployed env) trusted.volumes)

def remove (env : Environment) (admission : Admission) (trusted : Trusted)
    (guard : Except RpcError Unit) : Op :=
  .remove admission trusted
    (ask.review digest env.appliedState (emptyIntent env.slug) trusted.volumes) guard

/-- Everything a Docker Volume of Volume `id` went through before a Deployment of `target` over
`applied` carries it. -/
structure Accepts (applied target : SavedEnvironmentIntent) (observed : Option VolumeObservation)
    (id : String) (docker : DockerVolumeId) : Prop where
  /-- Applied State holds the Volume, and its name is accepted. -/
  held : ∃ volume ∈ applied.volumes, volume.resourceId = id ∧ volume.name ∈ ask.accepted
  /-- The target drops it. -/
  dropped : ∀ volume ∈ target.volumes, volume.resourceId ≠ id
  /-- The Docker Volume is the one its data lives in. -/
  own : docker.name = dockerVolume ask.namespace_ id
  seen : ∃ answer : VolumeObservation, observed = some answer ∧ answer.unanswered = [] ∧
    (∀ volume ∈ removedVolumes applied target ask.namespace_,
      volume.dockerVolume ∈ answer.sought) ∧
    docker ∈ answer.held ∧
    -- The version is a bound one, and whatever it binds are the Docker Volumes found.
    (∃ binding, ask.version = some (digest.bound ask.base binding)) ∧
    ∀ base binding, ask.version = some (digest.bound base binding) → ∀ found,
      (∃ loss ∈ binding.volumes, found ∈ loss.deletes) ↔ found ∈ answer.held ∧
        ∃ volume ∈ removedVolumes applied target ask.namespace_, found.name = volume.dockerVolume

end Ask

/-- A Deployment deletes a Docker Volume of Volume `id`. -/
def Stored.Deletes (row : Stored) (id : String) (docker : DockerVolumeId) : Prop :=
  ∃ name deletes, TargetNode.volume id name (some deletes) ∈ row.nodes ∧ docker ∈ deletes

/-! ## The version -/

/-- A version tells what it binds. -/
theorem Digest.bound_inj {digest : Digest} {base base' : String} {binding binding' : Binding}
    (h : digest.bound base binding = digest.bound base' binding') : binding = binding' := by
  -- The digest is what follows the last colon.
  have hsplit : ∀ (b d b' d' : List Char), ':' ∉ d → ':' ∉ d' →
      b ++ ':' :: d = b' ++ ':' :: d' → d = d' := by
    intro b d b' d' hd hd' heq
    have hrev := congrArg List.reverse heq
    simp only [List.reverse_append, List.reverse_cons, List.append_assoc, List.singleton_append]
      at hrev
    have htake : ∀ (x : List Char) (y : List Char), ':' ∉ x →
        (x.reverse ++ ':' :: y).takeWhile (· != ':') = x.reverse := by
      intro x y hx
      rw [List.takeWhile_append_of_pos]
      · simp
      · intro c hc
        exact bne_iff_ne.mpr fun h => hx (h ▸ List.mem_reverse.mp hc)
    have htaken := congrArg (List.takeWhile (· != ':')) hrev
    rw [htake d _ hd, htake d' _ hd'] at htaken
    exact List.reverse_injective htaken
  refine digest.injective (String.toList_inj.mp ?_)
  refine hsplit base.toList _ base'.toList _ (digest.hex _) (digest.hex _) ?_
  have htext := congrArg String.toList h
  simpa [bound, String.toList_append] using htext

theorem mem_loss_deletes {observed : VolumeObservation} {volume : RemovedVolume}
    {docker : DockerVolumeId} :
    docker ∈ (observed.loss volume).deletes ↔ docker ∈ observed.held ∧
      docker.name = volume.dockerVolume := by
  rw [VolumeObservation.loss, List.mem_insertionSort, List.mem_filter, beq_iff_eq]

/-- The lost Volumes hold exactly the Docker Volumes found. -/
theorem exists_lost_iff {removed : List RemovedVolume} {observed : VolumeObservation}
    {docker : DockerVolumeId} :
    (∃ loss ∈ lostVolumes removed observed, docker ∈ loss.deletes) ↔ docker ∈ observed.held ∧
      ∃ volume ∈ removed, docker.name = volume.dockerVolume := by
  constructor
  · rintro ⟨loss, hloss, hdocker⟩
    obtain ⟨volume, hvolume, rfl⟩ := List.mem_map.mp (List.mem_filter.mp hloss).1
    obtain ⟨hheld, hname⟩ := mem_loss_deletes.mp hdocker
    exact ⟨hheld, volume, hvolume, hname⟩
  · rintro ⟨hheld, volume, hvolume, hname⟩
    have hdocker := mem_loss_deletes.mpr ⟨hheld, hname⟩
    refine ⟨_, List.mem_filter.mpr ⟨List.mem_map_of_mem hvolume, ?_⟩, hdocker⟩
    simpa using List.ne_nil_of_mem hdocker

/-! ## The review -/

variable {observed : Option VolumeObservation} {losses : List VolumeLoss}
  {applied : SavedEnvironmentIntent} {admission : Admission} {trusted : Trusted}

/-- A review that answers a loss with data saw everything and was confirmed. -/
theorem reviewRemoval_confirmed {removed : List RemovedVolume} {accepted : List String}
    {bound : Bool} (h : reviewRemoval removed observed accepted bound = .ok losses)
    {loss : VolumeLoss} (hloss : loss ∈ losses) {docker : DockerVolumeId}
    (hdocker : docker ∈ loss.deletes) :
    bound = true ∧ loss.volume.name ∈ accepted ∧ loss.volume ∈ removed ∧
      ∃ answer : VolumeObservation, observed = some answer ∧ answer.unanswered = [] ∧
        (∀ volume ∈ removed, volume.dockerVolume ∈ answer.sought) ∧
        docker ∈ answer.held ∧ docker.name = loss.volume.dockerVolume := by
  unfold reviewRemoval at h
  split at h
  · cases h
  split at h
  · obtain rfl := pure_eq_ok.mp h
    cases hloss
  split at h
  · cases h
  · next answer hanswer =>
    split at h
    · cases h
    · next hall =>
      dsimp only at h
      split_ifs at h with hconfirmed
      obtain rfl := pure_eq_ok.mp h
      obtain ⟨volume, hvolume, rfl⟩ := List.mem_map.mp hloss
      obtain ⟨hheld, hname⟩ := mem_loss_deletes.mp hdocker
      have hlost : answer.loss volume ∈ (removed.map answer.loss).filter (!·.deletes.isEmpty) :=
        List.mem_filter.mpr ⟨hloss, by simpa using List.ne_nil_of_mem hdocker⟩
      rw [Bool.or_eq_true, Bool.and_eq_true, List.isEmpty_iff] at hconfirmed
      obtain ⟨hbound, haccepted⟩ := hconfirmed.resolve_left (List.ne_nil_of_mem hlost)
      obtain ⟨rfl, hsought⟩ := Option.filter_eq_some_iff.mp hanswer
      refine ⟨hbound, ?_, hvolume, answer, rfl, by simpa using hall, ?_, hheld, hname⟩
      · simpa using List.all_eq_true.mp haccepted _ hlost
      · simpa using hsought

theorem destructive_confirmed {latest : Option (Nat × SavedEnvironmentIntent)}
    {target : SavedEnvironmentIntent} {full : Bool} {review : Review}
    (h : destructive latest applied target full review observed = .ok losses)
    (hfull : full = true) :
    reviewRemoval (removedVolumes applied target review.namespace_) observed review.accepted
      review.bound = .ok losses := by
  subst hfull
  unfold destructive at h
  obtain ⟨reviewed, hreview, h⟩ := bind_eq_ok.mp h
  obtain rfl := pure_eq_ok.mp h
  simpa using hreview

/-! ## Freezing -/

/-- A frozen Volume with Docker Volumes to delete is one of the losses, in a full Deployment. -/
theorem Environment.Freezes.deletes {saved : SavedEnvironmentIntent} {services : List ServiceName}
    {nodes : List TargetNode} (h : Freezes saved applied services losses nodes) {id name : String}
    {deletes : List DockerVolumeId} (hnode : TargetNode.volume id name (some deletes) ∈ nodes) :
    services = [] ∧ ∃ loss ∈ losses, loss.volume.id = id ∧ loss.deletes = deletes := by
  obtain ⟨targets, lost, htargets, hlost, rfl⟩ := h.nodes_eq
  rcases List.mem_append.mp hnode with hkept | hnode
  · rcases List.mem_append.mp hkept with htarget | hvolume
    · obtain ⟨service, heq, -⟩ := mem_targetServices htargets htarget
      cases heq
    · obtain ⟨volume, -, heq, -⟩ := mem_targetVolumes.mp hvolume
      cases heq
  · unfold targetLosses at hlost
    obtain ⟨loss, hloss, hfound⟩ := exists_of_mem_mapM hlost hnode
    split_ifs at hloss with hfull
    · refine ⟨List.isEmpty_iff.mp hfull, loss, hloss, ?_⟩
      split at hfound
      · next volume hfind =>
        obtain ⟨rfl, -, heq⟩ := TargetNode.volume.inj (pure_eq_ok.mp hfound)
        have hid : volume.resourceId = loss.volume.id := by simpa using List.find?_some hfind
        exact ⟨hid.symm, Option.some.inj heq⟩
      · cases hfound
    · cases hloss

variable {env env' : Environment} {now : Nat} {ask : Ask} {digest : Digest}

variable {row : Stored} {id : String}

/-- What a reviewed admission freezes to be deleted was accepted. -/
theorem accepts_of_review {target saved : SavedEnvironmentIntent} {services : List ServiceName}
    (hfreeze : Freezes saved applied services losses row.nodes)
    (hreview : services = [] →
      let removed := removedVolumes applied target ask.namespace_
      reviewRemoval removed observed ask.accepted (ask.confirms digest removed observed) =
        .ok losses)
    {id : String} {docker : DockerVolumeId} (hdeletes : row.Deletes id docker) :
    services = [] ∧ ask.Accepts digest applied target observed id docker := by
  obtain ⟨name, deletes, hnode, hdocker⟩ := hdeletes
  obtain ⟨hfull, loss, hloss, rfl, rfl⟩ := hfreeze.deletes hnode
  refine ⟨hfull, ?_⟩
  obtain ⟨hbound, haccepted, hremoved, answer, rfl, hall, hsought, hheld, hown⟩ :=
    reviewRemoval_confirmed (hreview hfull) hloss hdocker
  obtain ⟨volume, hvolume, hremoved⟩ := List.mem_map.mp hremoved
  obtain ⟨happlied, hgone⟩ := List.mem_filter.mp hvolume
  rw [← hremoved] at haccepted hown ⊢
  have hversion : ask.version = some (digest.bound ask.base (ask.binding
      (lostVolumes (removedVolumes applied target ask.namespace_) answer))) := beq_iff_eq.mp hbound
  refine ⟨⟨volume, happlied, rfl, haccepted⟩, by simpa using hgone, hown, answer, rfl, hall,
    hsought, hheld, ⟨_, hversion⟩, fun base binding hbinds found => ?_⟩
  rw [hversion] at hbinds
  rw [← Digest.bound_inj (Option.some.inj hbinds)]
  exact exists_lost_iff

/-! ## Each admission -/

theorem fresh_nodes {row row' : Stored}
    (h : (∃ old ∈ env.deployments, SameFrozen old row') ∨ SameFrozen row row')
    (hfresh : ∀ old ∈ env.deployments, old.id ≠ row'.id) : row'.nodes = row.nodes := by
  rcases h with ⟨old, hold, hsame⟩ | hsame
  · exact absurd hsame.id.symm (hfresh old hold)
  · exact hsame.nodes

theorem Stored.Deletes.of_nodes {row row' : Stored} (h : row'.nodes = row.nodes)
    {docker : DockerVolumeId} (hdeletes : row'.Deletes id docker) : row.Deletes id docker := by
  obtain ⟨name, deletes, hnode, hdocker⟩ := hdeletes
  exact ⟨name, deletes, h ▸ hnode, hdocker⟩

theorem Environment.Freezes.deletes_nothing {saved : SavedEnvironmentIntent}
    {services : List ServiceName} (h : Freezes saved applied services [] row.nodes)
    {docker : DockerVolumeId} : ¬row.Deletes id docker := by
  rintro ⟨name, deletes, hnode, -⟩
  obtain ⟨-, loss, hloss, -⟩ := h.deletes hnode
  cases hloss

theorem deploy_deletes
    (h : World.envStep env now (ask.deploy digest env admission trusted) = .ok env')
    (hrow : row ∈ env'.deployments) (hfresh : ∀ old ∈ env.deployments, old.id ≠ row.id)
    {docker : DockerVolumeId} (hdeletes : row.Deletes id docker) :
    admission.services = [] ∧
      ask.Accepts digest env.appliedState (Ask.deployed env) trusted.volumes id docker := by
  have h : env.deploy now admission trusted _ = .ok env' := h
  unfold deploy at h
  obtain ⟨⟨⟩, -, h⟩ := bind_eq_ok.mp h
  obtain ⟨⟨⟩, -, h⟩ := bind_eq_ok.mp h
  obtain ⟨latest, -, h⟩ := bind_eq_ok.mp h
  obtain ⟨⟨⟩, -, h⟩ := bind_eq_ok.mp h
  obtain ⟨losses, hlosses, h⟩ := bind_eq_ok.mp h
  obtain ⟨⟨mid, revision⟩, hpublish, h⟩ := bind_eq_ok.mp h
  obtain ⟨frozen, hfreeze, h⟩ := bind_eq_ok.mp h
  obtain ⟨saved, rfl, -⟩ := publish_saved hpublish
  obtain ⟨intent, storage, admitted, -, -, -, -, -, -, hnodes, rfl⟩ := admit_ok h
  have hdeletes := hdeletes.of_nodes (fresh_nodes (origin_admitRow rfl hrow) hfresh)
  have hfreezes := freeze_ok hfreeze
  rw [← hnodes] at hfreezes
  refine accepts_of_review hfreezes (fun hfull => ?_) hdeletes
  exact destructive_confirmed hlosses (by rw [hfull]; rfl)

theorem remove_deletes {guard : Except RpcError Unit}
    (h : World.envStep env now (ask.remove digest env admission trusted guard) = .ok env')
    (hrow : row ∈ env'.deployments) (hfresh : ∀ old ∈ env.deployments, old.id ≠ row.id)
    {docker : DockerVolumeId} (hdeletes : row.Deletes id docker) :
    ask.Accepts digest env.appliedState (emptyIntent env.slug) trusted.volumes id docker := by
  have h : env.removal now admission trusted _ guard = .ok env' := h
  unfold removal at h
  obtain ⟨⟨⟩, -, h⟩ := bind_eq_ok.mp h
  obtain ⟨⟨⟩, -, h⟩ := bind_eq_ok.mp h
  obtain ⟨⟨⟩, -, h⟩ := bind_eq_ok.mp h
  obtain ⟨losses, hlosses, h⟩ := bind_eq_ok.mp h
  obtain ⟨frozen, hfreeze, h⟩ := bind_eq_ok.mp h
  obtain ⟨mid, hadmits, h⟩ := bind_eq_ok.mp h
  obtain ⟨intent, storage, admitted, -, -, hadmitted, hid, -, -, hnodes, rfl⟩ := admit_ok hadmits
  have hfreezes := freeze_ok hfreeze
  rw [← hnodes] at hfreezes
  unfold removalLosses at hlosses
  split at h
  · next outcome hforget =>
    -- Without a runner it deletes nothing.
    rw [hforget, Option.isSome_some, if_pos rfl] at hlosses
    rw [← pure_eq_ok.mp hlosses] at hfreezes
    rw [show admission.id = admitted.id from hid.symm] at h
    rw [forget_ok (find_admitted hadmitted) hadmitted.queued h] at hrow
    have hdeletes := hdeletes.of_nodes (fresh_nodes (origin_forgotten rfl hrow) hfresh)
    exact absurd hdeletes hfreezes.deletes_nothing
  · next hforget =>
    obtain rfl := pure_eq_ok.mp h
    rw [hforget, Option.isSome_none, if_neg Bool.false_ne_true] at hlosses
    obtain ⟨latest, -, hlosses⟩ := bind_eq_ok.mp hlosses
    have hdeletes := hdeletes.of_nodes (fresh_nodes (origin_admitRow rfl hrow) hfresh)
    exact (accepts_of_review hfreezes (fun _ => destructive_confirmed hlosses rfl) hdeletes).2

theorem autoDeploy_deletes {review : Review}
    (h : World.envStep env now (.autoDeploy admission trusted review) = .ok env')
    (hrow : row ∈ env'.deployments) (hfresh : ∀ old ∈ env.deployments, old.id ≠ row.id)
    {docker : DockerVolumeId} : ¬row.Deletes id docker := by
  intro hdeletes
  obtain ⟨latest, -, h⟩ := bind_eq_ok.mp h
  cases latest with
  | none =>
    obtain rfl := pure_eq_ok.mp h
    exact hfresh row hrow rfl
  | some saved =>
    have h : env.autoAdmit now admission saved trusted review = .ok env' := h
    unfold autoAdmit at h
    obtain ⟨⟨⟩, -, h⟩ := bind_eq_ok.mp h
    obtain ⟨⟨⟩, -, h⟩ := bind_eq_ok.mp h
    obtain ⟨frozen, hfreeze, h⟩ := bind_eq_ok.mp h
    obtain ⟨intent, storage, admitted, -, -, -, -, -, -, hnodes, rfl⟩ := admit_ok h
    have hdeletes := hdeletes.of_nodes (fresh_nodes (origin_admitRow rfl hrow) hfresh)
    have hfreezes := freeze_ok hfreeze
    rw [← hnodes] at hfreezes
    exact hfreezes.deletes_nothing hdeletes

theorem retry_nodes {id source : String} {admittedBy : Option String} {guard : Except RpcError Unit}
    (h : World.envStep env now (.retry id source admittedBy trusted guard) = .ok env')
    (hrow : row ∈ env'.deployments) (hfresh : ∀ old ∈ env.deployments, old.id ≠ row.id) :
    ∃ stored ∈ env.deployments, stored.id = source ∧ row.nodes = stored.nodes := by
  obtain ⟨admitted, mid, -, hagain, hmid⟩ := retryAdmit_ok h
  obtain ⟨stored, hload, -, -, -, hnodes⟩ := hagain.ended
  obtain ⟨found, hfound, rfl⟩ := load_ok.mp hload
  have horigin : (∃ old ∈ env.deployments, SameFrozen old row) ∨ SameFrozen admitted row := by
    rcases hmid with rfl | ⟨-, outcome, rfl⟩
    · exact origin_admitRow hagain.rows hrow
    · exact origin_forgotten hagain.rows hrow
  refine ⟨found, List.mem_of_find?_eq_some hfound, by simpa using List.find?_some hfound, ?_⟩
  rw [fresh_nodes horigin hfresh, hnodes]
  rfl

/-- A Deployment just admitted with a Docker Volume to delete is a Deploy of everything or a
removal, and the Docker Volume was seen and its Volume accepted; the Store's own Deployments and
narrowed ones carry none, and a retry carries what its source does. -/
theorem deletes_only_accepted (digest : Digest) (env env' : Environment) (now : Nat) (ask : Ask)
    (admission : Admission) (trusted : Trusted) {row : Stored} (hrow : row ∈ env'.deployments)
    (hfresh : ∀ old ∈ env.deployments, old.id ≠ row.id) :
    (World.envStep env now (ask.deploy digest env admission trusted) = .ok env' →
      ∀ id docker, row.Deletes id docker → admission.services = [] ∧
        ask.Accepts digest env.appliedState (Ask.deployed env) trusted.volumes id docker) ∧
    (∀ guard, World.envStep env now (ask.remove digest env admission trusted guard) = .ok env' →
      ∀ id docker, row.Deletes id docker →
        ask.Accepts digest env.appliedState (emptyIntent env.slug) trusted.volumes id docker) ∧
    (∀ review, World.envStep env now (.autoDeploy admission trusted review) = .ok env' →
      ∀ id docker, ¬row.Deletes id docker) ∧
    ∀ id source admittedBy guard,
      World.envStep env now (.retry id source admittedBy trusted guard) = .ok env' →
        ∃ stored ∈ env.deployments, stored.id = source ∧
          ∀ volume docker, row.Deletes volume docker ↔ stored.Deletes volume docker := by
  refine ⟨fun h _ _ => deploy_deletes h hrow hfresh, fun _ h _ _ => remove_deletes h hrow hfresh,
    fun _ h _ _ => autoDeploy_deletes h hrow hfresh, fun _ source _ _ h => ?_⟩
  obtain ⟨stored, hstored, hid, hnodes⟩ := retry_nodes h hrow hfresh
  exact ⟨stored, hstored, hid, fun volume docker => ⟨.of_nodes hnodes, .of_nodes hnodes.symm⟩⟩

/-! ## A collision-free digest -/

theorem countable_string : Countable String := by
  have hchar : Countable Char := by
    refine Function.Injective.countable (f := Char.toNat) fun a b h => ?_
    exact Char.toNat_inj.mp h
  exact Function.Injective.countable (f := String.toList) fun a b h => String.toList_inj.mp h

theorem countable_binding : Countable Binding := by
  have htext := countable_string
  have hdocker : Countable DockerVolumeId := by
    refine Function.Injective.countable (f := fun docker : DockerVolumeId =>
      (docker.machineId, docker.name)) ?_
    rintro ⟨_, _⟩ ⟨_, _⟩ h
    cases h
    rfl
  have hloss : Countable VolumeLoss := by
    refine Function.Injective.countable (f := fun loss : VolumeLoss =>
      (loss.volume.id, loss.volume.name, loss.volume.dockerVolume, loss.deletes)) ?_
    rintro ⟨⟨_, _, _⟩, _⟩ ⟨⟨_, _, _⟩, _⟩ h
    cases h
    rfl
  refine Function.Injective.countable (f := fun binding : Binding =>
    (binding.organization, binding.environment, binding.volumes)) ?_
  rintro ⟨_, _, _⟩ ⟨_, _, _⟩ h
  cases h
  rfl

theorem exists_digest : Nonempty Digest := by
  have hcountable := countable_binding
  obtain ⟨number, hnumber⟩ := exists_injective_nat Binding
  refine ⟨⟨fun binding => String.ofList (List.replicate (number binding) '0'), ?_, ?_⟩⟩
  · intro a b h
    have hlength := congrArg List.length (String.ofList_injective h)
    exact hnumber (by simpa using hlength)
  · intro binding
    simp

namespace Sample

def docker : DockerVolumeId := ⟨"server", dockerVolume "production" dataId⟩

/-- Applied State holds a Volume and Working State nothing. -/
def volumeApplied : Environment :=
  let held := Node.volume (volume dataId "data")
  { (World.created slug 0).env with applied := .ofList [(dataId, held)] }

/-- The Servers answered that one of them holds its data. -/
def answered : Trusted := ⟨some 1, some ⟨[dockerVolume "production" dataId], [docker], []⟩, none⟩

def everything : Admission := ⟨"first", [], none, none, none⟩

/-- Its loss is accepted under the version that binds what was found. -/
def accepting (digest : Digest) : Ask where
  organization := "organization"
  environment := "environment"
  base := "1:0:applied"
  version := some (digest.bound "1:0:applied" ⟨"organization", "environment",
    [⟨⟨dataId, "data", dockerVolume "production" dataId⟩, [docker]⟩]⟩)
  accepted := ["data"]
  namespace_ := "production"
  gate := pure ()
  lowers := pure ()

theorem accepted_volume_deleted : ∃ (digest : Digest) (env' : Environment) (row : Stored),
    World.envStep volumeApplied 0
      ((accepting digest).deploy digest volumeApplied everything answered) =
      .ok env' ∧ row ∈ env'.deployments ∧ row.Deletes dataId docker ∧
    (accepting digest).Accepts digest volumeApplied.appliedState (Ask.deployed volumeApplied)
      answered.volumes dataId docker := by
  obtain ⟨digest⟩ := exists_digest
  have hreview : (accepting digest).review digest volumeApplied.appliedState
      (Ask.deployed volumeApplied) answered.volumes =
        ⟨pure (), pure (), pure (), true, ["data"], "production"⟩ := by
    have hlost : lostVolumes (removedVolumes volumeApplied.appliedState (Ask.deployed volumeApplied)
        "production") ⟨[dockerVolume "production" dataId], [docker], []⟩ =
          [⟨⟨dataId, "data", dockerVolume "production" dataId⟩, [docker]⟩] := by decide +kernel
    have hcheck : (accepting digest).check = pure () := by
      simp [Ask.check, accepting, Digest.bound, String.toList_append]
    have hbound : (accepting digest).confirms digest (removedVolumes volumeApplied.appliedState
        (Ask.deployed volumeApplied) "production") answered.volumes = true := by
      rw [Ask.confirms, answered, Option.any_some, hlost]
      exact beq_self_eq_true _
    rw [Ask.review, hcheck]
    exact congrArg (fun bound =>
      Review.mk (pure ()) (pure ()) (pure ()) bound ["data"] "production")
      hbound
  have hop : (accepting digest).deploy digest volumeApplied everything answered = .deploy everything
      answered ⟨pure (), pure (), pure (), true, ["data"], "production"⟩ := by
    rw [Ask.deploy, hreview]
  obtain ⟨env', hstep, row, hrow, hnode⟩ := exists_ok (x := World.envStep volumeApplied 0
      (.deploy everything answered ⟨pure (), pure (), pure (), true, ["data"], "production"⟩))
    (fun env' => ∃ row ∈ env'.deployments,
      TargetNode.volume dataId "data" (some [docker]) ∈ row.nodes) (by decide +kernel)
  have hdeletes : row.Deletes dataId docker := ⟨_, _, hnode, List.mem_singleton_self _⟩
  rw [← hop] at hstep
  refine ⟨digest, env', row, hstep, hrow, hdeletes, ?_⟩
  exact ((deletes_only_accepted digest volumeApplied env' 0 (accepting digest) everything answered
    hrow (fun old hold => by cases hold)).1 hstep dataId docker hdeletes).2

end Sample

end Ployz
