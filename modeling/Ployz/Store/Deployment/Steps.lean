import Ployz.Store.Deployment.Effects

/-!
# What each step of a run does

An admission freezes its targets against Applied State and queues one row (`Ships`); a
removal that needs no runner clears Applied State and ends at once. `next_effect` says once
everything an operation can do to an Environment, and the invariants of runs go by its cases.
-/

namespace Ployz

open Run
open Std (TreeMap)

namespace Environment

variable {env env' : Environment} {now : Nat}

variable {observed : Option VolumeObservation}

theorem reviewRemoval_ok {removed : List RemovedVolume} {accepted : List String} {bound : Bool}
    {losses : List VolumeLoss} (h : reviewRemoval removed observed accepted bound = .ok losses) :
    losses = [] ∨ ∃ held : VolumeObservation, losses = removed.map held.loss := by
  unfold reviewRemoval at h
  split at h
  · cases h
  · split at h
    · exact .inl (pure_eq_ok.mp h).symm
    · split at h
      · cases h
      · split at h
        · cases h
        · dsimp only at h
          split_ifs at h
          exact .inr ⟨_, (pure_eq_ok.mp h).symm⟩

/-- The losses a Deploy accepts: none, or each Volume it drops with what holds its data. -/
def Losses (applied target : SavedEnvironmentIntent) (losses : List VolumeLoss) : Prop :=
  losses = [] ∨ ∃ (namespace_ : String) (held : VolumeObservation),
    losses = (removedVolumes applied target namespace_).map held.loss

variable {review : Review} {admission : Admission} {trusted : Trusted} {row : Stored}

theorem destructive_ok {latest : Option (Nat × SavedEnvironmentIntent)}
    {applied target : SavedEnvironmentIntent} {full : Bool} {losses : List VolumeLoss}
    (h : destructive latest applied target full review observed = .ok losses) :
    Losses applied target losses := by
  unfold destructive at h
  obtain ⟨reviewed, hreview, h⟩ := bind_eq_ok.mp h
  obtain rfl := pure_eq_ok.mp h
  split_ifs with hfull
  · rw [hfull, Bool.true_or, if_pos rfl] at hreview
    rcases reviewRemoval_ok hreview with rfl | ⟨held, rfl⟩
    · exact .inl rfl
    · exact .inr ⟨_, held, rfl⟩
  · exact .inl rfl

/-- `row` was frozen against Applied State and admitted: everything else stays. -/
structure Ships (env : Environment) (row : Stored) (env' : Environment) : Prop where
  admitted : Admitted env row
  frozen : ∃ saved losses, env'.savedAt row.saved = .ok saved ∧
    Freezes saved env.appliedState row.services losses row.nodes ∧
    Losses env.appliedState saved losses
  rows : env'.deployments = env.deployments.map (·.supersede) ++ [row]
  applied : env'.applied = env.applied
  slug : env'.slug = env.slug
  working : env'.working = env.working
  introduced : env'.introduced = env.introduced
  history : env'.saved = env.saved ∨
    env'.saved = env.saved ++ [canonicalizeEnvironmentIntent env.working]

theorem deploy_ok (hworking : WellFormed env.working)
    (h : env.deploy now admission trusted review = .ok env') :
    ∃ row, row.id = admission.id ∧ row.services = admission.services ∧ Ships env row env' := by
  unfold deploy at h
  obtain ⟨⟨⟩, -, h⟩ := bind_eq_ok.mp h
  obtain ⟨⟨⟩, -, h⟩ := bind_eq_ok.mp h
  obtain ⟨latest, hlatest, h⟩ := bind_eq_ok.mp h
  obtain ⟨⟨⟩, -, h⟩ := bind_eq_ok.mp h
  obtain ⟨losses, hlosses, h⟩ := bind_eq_ok.mp h
  obtain ⟨⟨mid, revision⟩, hpublish, h⟩ := bind_eq_ok.mp h
  obtain ⟨frozen, hfreeze, h⟩ := bind_eq_ok.mp h
  have hreads := publish_reads hworking hlatest hpublish
  obtain ⟨saved, rfl, hhistory⟩ := publish_saved hpublish
  obtain ⟨intent, storage, row, hintent, -, hadmitted, hid, hsaved, hservices, hnodes, rfl⟩ :=
    admit_ok h
  refine ⟨row, hid, hservices, ⟨hadmitted.1, hadmitted.2, hadmitted.3, hadmitted.4, hadmitted.5,
    hadmitted.6⟩, ⟨_, losses, ?_, ?_, destructive_ok hlosses⟩, rfl, rfl, rfl, rfl, rfl,
    hhistory⟩
  · rw [hsaved]
    exact hreads
  · rw [hnodes, hservices]
    exact freeze_ok hfreeze

theorem autoAdmit_ok {saved : Nat × SavedEnvironmentIntent}
    (hsaved : env.savedAt saved.1 = .ok saved.2)
    (h : env.autoAdmit now admission saved trusted review = .ok env') :
    ∃ row, row.id = admission.id ∧ row.services = admission.services ∧ Ships env row env' := by
  unfold autoAdmit at h
  obtain ⟨⟨⟩, -, h⟩ := bind_eq_ok.mp h
  obtain ⟨⟨⟩, -, h⟩ := bind_eq_ok.mp h
  obtain ⟨frozen, hfreeze, h⟩ := bind_eq_ok.mp h
  obtain ⟨intent, storage, row, hintent, -, hadmitted, hid, hrevision, hservices, hnodes, rfl⟩ :=
    admit_ok h
  refine ⟨row, hid, hservices, hadmitted, ⟨saved.2, [], ?_, ?_, .inl rfl⟩, rfl, rfl, rfl, rfl,
    rfl, .inl rfl⟩
  · rw [hrevision]
    exact hsaved
  · rw [hnodes, hservices]
    exact freeze_ok hfreeze

theorem find_admitted (h : Admitted env row) :
    (env.deployments.map (·.supersede) ++ [row]).find? (·.id == row.id) = some row := by
  rw [List.find?_append, List.find?_eq_none.mpr]
  · simp
  · intro other hother
    obtain ⟨old, hold, rfl⟩ := List.mem_map.mp hother
    simpa [supersede_id] using h.fresh old hold

/-- A removal that applied without a runner. -/
def forgottenRow (row : Stored) (now : Nat) (outcome : Outcome) : Stored :=
  (row.withNodes (TreeMap.ofList
    (row.nodes.map fun node => (node.id, NodeStatus.unknown)))).ended now outcome .applied

/-- Without a runner, Applied State lets go of every node and the removal ends applied. -/
def forgotten (mid : Environment) (now : Nat) (row : Stored) (outcome : Outcome) : Environment :=
  Environment.save { mid with applied := ∅ } (forgottenRow row now outcome)

theorem forget_ok {mid : Environment} {outcome : Outcome}
    (hrow : mid.deployments.find? (·.id == row.id) = some row) (hqueued : row.status = .queued)
    (h : mid.forget now row.id outcome = .ok env') : env' = mid.forgotten now row outcome := by
  unfold forget at h
  obtain ⟨stored, hload, h⟩ := bind_eq_ok.mp h
  obtain ⟨found, hfound, rfl⟩ := load_ok.mp hload
  obtain rfl : row = found := Option.some.inj (hrow.symm.trans hfound)
  have hread : row.read now = row := by
    have hlapsed : row.lapsed now = false := by
      simp [Stored.lapsed, hqueued, DeploymentStatus.claimed]
    simp [Stored.read, Stored.statusAt, hlapsed]
  rw [hread] at h
  unfold endWith at h
  obtain ⟨advancedTo, hadvanced, h⟩ := bind_eq_ok.mp h
  obtain rfl := pure_eq_ok.mp h
  -- Every target reads Unknown, so none enters Applied State.
  have hnone : row.nodes.filter (entersWith (TreeMap.ofList
      (row.nodes.map fun node => (node.id, NodeStatus.unknown))) true) = [] := by
    refine List.filter_eq_nil_iff.mpr fun node hnode => ?_
    rw [entersWith, Table.getElem?_ofList_map (fun _ _ _ _ _ => rfl) hnode]
    simp [NodeStatus.advances]
  rcases advanced_ok hadvanced with ⟨-, rfl⟩ | ⟨saved, -, rfl⟩
  · rfl
  · have hsame : advance saved row.nodes (TreeMap.ofList
        (row.nodes.map fun node => (node.id, NodeStatus.unknown))) true ∅ = ∅ := by
      rw [advance, hnone, List.foldl_nil]
    show Environment.save { mid with applied := advance saved row.nodes _ true ∅ } _ = _
    rw [hsame]
    rfl

theorem removal_ok {guard : Except RpcError Unit}
    (h : env.removal now admission trusted review guard = .ok env') :
    ∃ row mid, row.id = admission.id ∧ row.services = [] ∧ row.saved = NOTHING ∧
      Ships env row mid ∧ env.refuseRunning now = .ok () ∧
      (env' = mid ∨ ∃ outcome, env' = mid.forgotten now row outcome) := by
  unfold removal at h
  obtain ⟨⟨⟩, -, h⟩ := bind_eq_ok.mp h
  obtain ⟨⟨⟩, hrunning, h⟩ := bind_eq_ok.mp h
  obtain ⟨⟨⟩, -, h⟩ := bind_eq_ok.mp h
  obtain ⟨losses, hlosses, h⟩ := bind_eq_ok.mp h
  obtain ⟨frozen, hfreeze, h⟩ := bind_eq_ok.mp h
  obtain ⟨mid, hadmits, h⟩ := bind_eq_ok.mp h
  obtain ⟨intent, storage, row, hintent, -, hadmitted, hid, hrevision, hservices, hnodes, rfl⟩ :=
    admit_ok hadmits
  have hlosses : Losses env.appliedState (emptyIntent env.slug) losses := by
    unfold removalLosses at hlosses
    split_ifs at hlosses
    · exact .inl (pure_eq_ok.mp hlosses).symm
    · obtain ⟨latest, -, hlosses⟩ := bind_eq_ok.mp hlosses
      exact destructive_ok hlosses
  refine ⟨row, { env with
    storage, deployments := env.deployments.map (·.supersede) ++ [row] }, hid, hservices, hrevision,
    ⟨hadmitted, ⟨emptyIntent env.slug, losses, ?_, ?_,
    hlosses⟩, rfl, rfl, rfl, rfl, rfl, .inl rfl⟩, hrunning, ?_⟩
  · rw [hrevision]
    rfl
  · rw [hnodes, hservices]
    exact freeze_ok hfreeze
  · split at h
    · next outcome _ =>
      rw [show admission.id = row.id from hid.symm] at h
      exact .inr ⟨outcome, forget_ok (find_admitted hadmitted) hadmitted.queued h⟩
    · exact .inl (pure_eq_ok.mp h).symm

/-- `row` ships again what an ended Deployment froze. -/
structure Again (env : Environment) (now : Nat) (source : String) (row : Stored)
    (env' : Environment) : Prop where
  admitted : Admitted env row
  ended : ∃ stored, env.load now source = .ok stored ∧
    (stored.status = .failed ∨ stored.status = .unknown ∨ stored.status = .cancelled) ∧
    row.saved = stored.saved ∧ row.services = stored.services ∧ row.nodes = stored.nodes
  env_eq : env' = { env with deployments := env.deployments.map (·.supersede) ++ [row] }

theorem Again.rows {source : String} (h : Again env now source row env') :
    env'.deployments = env.deployments.map (·.supersede) ++ [row] := by
  rw [h.env_eq]

theorem retryAdmit_ok {id source : String} {admittedBy : Option String}
    {guard : Except RpcError Unit}
    (h : env.retryAdmit now id source admittedBy trusted guard = .ok env') :
    ∃ row mid, row.id = id ∧ Again env now source row mid ∧
      (env' = mid ∨ row.remove = true ∧ ∃ outcome, env' = mid.forgotten now row outcome) := by
  unfold retryAdmit at h
  obtain ⟨mid, hretry, h⟩ := bind_eq_ok.mp h
  obtain ⟨retried, hload, h⟩ := bind_eq_ok.mp h
  obtain ⟨stored, row, hstored, hended, hadmitted, rfl, hsaved, hservices, hnodes, rfl⟩ :=
    retry_ok hretry
  refine ⟨row, _, rfl, ⟨hadmitted, ⟨stored, hstored, hended, hsaved, hservices, hnodes⟩, rfl⟩, ?_⟩
  obtain ⟨found, hfound, rfl⟩ := load_ok.mp hload
  obtain rfl : row = found := Option.some.inj ((find_admitted hadmitted).symm.trans hfound)
  split at h
  · next outcome hforget =>
    refine .inr ⟨?_, outcome, forget_ok (find_admitted hadmitted) hadmitted.queued h⟩
    split_ifs at hforget with hremove
    exact hremove
  · obtain ⟨⟨⟩, -, h⟩ := bind_eq_ok.mp h
    exact .inl (pure_eq_ok.mp h).symm

/-! ## Every step -/

/-- Everything an operation can do to an Environment at `now`. -/
inductive Effect (env : Environment) (now : Nat) : Op → Environment → Prop
  | keep (op : Op) {env' : Environment} (hrows : env'.deployments = env.deployments)
      (happlied : env'.applied = env.applied) (hslug : env'.slug = env.slug)
      (hhistory : env'.saved = env.saved ∨
        env'.saved = env.saved ++ [canonicalizeEnvironmentIntent env.working])
      (hgrows : Introduces env.introduced env'.introduced)
      (hworking : env'.working = env.working ∨
        WellFormed env'.working ∧ Kinded env'.introduced env'.working) :
      Effect env now op env'
  | ship (op : Op) {row : Stored} {env' : Environment} (h : Ships env row env') :
      Effect env now op env'
  | forget {admission : Admission} {trusted : Trusted} {review : Review}
      {guard : Except RpcError Unit} {row : Stored} {mid : Environment} (h : Ships env row mid)
      (hremove : row.saved = NOTHING) (hrunning : env.refuseRunning now = .ok ())
      (outcome : Outcome) :
      Effect env now (.remove admission trusted review guard) (mid.forgotten now row outcome)
  | again {id source : String} {admittedBy : Option String} {trusted : Trusted}
      {guard : Except RpcError Unit} {row : Stored} {env' : Environment}
      (h : Again env now source row env') :
      Effect env now (.retry id source admittedBy trusted guard) env'
  | forgetAgain {id source : String} {admittedBy : Option String} {trusted : Trusted}
      {guard : Except RpcError Unit} {row : Stored} {mid : Environment}
      (h : Again env now source row mid) (hremove : row.remove = true) (outcome : Outcome) :
      Effect env now (.retry id source admittedBy trusted guard) (mid.forgotten now row outcome)
  | claim {id runner : String} {handed : Except RpcError Unit} {stored : Stored}
      {env' : Environment} (hload : env.load now id = .ok stored)
      (h : Claimed env now runner stored env') : Effect env now (.claim id runner handed) env'
  | cancel {id : String} {stored : Stored} (hload : env.load now id = .ok stored)
      (hqueued : stored.status = .queued) : Effect env now (.cancel id)
        (env.save { stored with status := .cancelled, endedAt := some now })
  | cancelling {id : String} {stored : Stored} (hload : env.load now id = .ok stored)
      (hrunning : stored.status = .running) : Effect env now (.cancel id)
        (env.save { stored with status := .cancelling })
  | forgetCluster : Effect env now .forgetCluster (env.forgetCluster now)
  | record {id runner : String} {evidence : RunEvidence} {follow : Except RpcError Unit}
      {stored : Stored} {env' : Environment} (hload : env.load now id = .ok stored)
      (hrunner : stored.runner = some runner)
      (h : Recorded env now (stored.renew now) follow evidence env') :
      Effect env now (.record id runner evidence follow) env'

theorem envStep_effect (hworking : WellFormed env.working) {op : Op}
    (h : World.envStep env now op = .ok env') : Effect env now op env' := by
  have hsame : env' = env → Effect env now op env' := by
    rintro rfl
    exact .keep op rfl rfl rfl (.inl rfl) (fun _ _ htype => htype) (.inl rfl)
  cases op with
  | edit working =>
    simp only [World.envStep] at h
    split at h
    · next parsed hparse =>
      obtain ⟨introduced, rfl, hgrows, hkinded⟩ := saveWorking_ok h
      exact .keep _ rfl rfl rfl (.inl rfl) hgrows (.inr ⟨wellFormed_of_parse hparse, hkinded⟩)
    · cases h
  | publish =>
    obtain ⟨latest, -, h⟩ := bind_eq_ok.mp h
    obtain ⟨⟨mid, revision⟩, hpublish, h⟩ := bind_eq_ok.mp h
    obtain rfl := pure_eq_ok.mp h
    obtain ⟨saved, rfl, hhistory⟩ := publish_saved hpublish
    exact .keep _ rfl rfl rfl hhistory (fun _ _ htype => htype) (.inl rfl)
  | deploy admission trusted review =>
    obtain ⟨row, -, -, hships⟩ := deploy_ok hworking h
    exact .ship _ hships
  | autoDeploy admission trusted review =>
    obtain ⟨latest, hlatest, h⟩ := bind_eq_ok.mp h
    rcases latestSaved_ok hlatest with ⟨-, rfl⟩ | ⟨-, saved, hsaved, rfl⟩
    · exact hsame (pure_eq_ok.mp h).symm
    · obtain ⟨row, -, -, hships⟩ := autoAdmit_ok hsaved h
      exact .ship _ hships
  | remove admission trusted review guard =>
    obtain ⟨row, mid, -, -, hremove, hships, hrunning, rfl | ⟨outcome, rfl⟩⟩ := removal_ok h
    · exact .ship _ hships
    · exact .forget hships hremove hrunning outcome
  | retry id source admittedBy trusted guard =>
    obtain ⟨row, mid, -, hagain, rfl | ⟨hremove, outcome, rfl⟩⟩ := retryAdmit_ok h
    · exact .again hagain
    · exact .forgetAgain hagain hremove outcome
  | start id => exact hsame (start_ok h)
  | claim id runner handed =>
    obtain ⟨⟨mid, answer⟩, hclaim, h⟩ := bind_eq_ok.mp h
    obtain rfl := pure_eq_ok.mp h
    obtain ⟨stored, hload, hclaimed⟩ := claim_ok hclaim
    exact .claim hload hclaimed
  | cancel id =>
    rcases cancel_ok h with h | ⟨stored, hload, ⟨hstatus, rfl⟩ | ⟨hstatus, rfl⟩⟩
    · exact hsame h
    · exact .cancel hload hstatus
    · exact .cancelling hload hstatus
  | forgetCluster =>
    obtain rfl := pure_eq_ok.mp h
    exact .forgetCluster
  | record id runner evidence follow =>
    obtain ⟨stored, hload, hrunner, hrecorded⟩ := record_ok h
    exact .record hload hrunner hrecorded
  | wait seconds => exact hsame (pure_eq_ok.mp h).symm

theorem next_effect {w : World} (hworking : WellFormed w.env.working) (op : Op) :
    Effect w.env w.clock op (w.next op).env := by
  unfold World.next
  dsimp only
  split
  · next env' h => exact envStep_effect hworking h
  · exact .keep op rfl rfl rfl (.inl rfl) (fun _ _ htype => htype) (.inl rfl)

end Environment

end Ployz
