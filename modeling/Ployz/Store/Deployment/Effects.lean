import Ployz.Store.Deployment.Runs

/-!
# What each operation does

One lemma per operation takes its success apart: what it read, what it checked and the
Environment it answers. Every invariant of runs is read off these.

Main results:

* `admit_ok`, `retry_ok`, `claim_ok`, `cancel_ok`;
* `record_ok`, through `Recorded`: everything a runner's evidence can do.
-/

namespace Ployz

open Run
open Std (TreeMap)

namespace Environment

variable {env env' : Environment} {now : Nat}

/-! ## Reading -/

variable {id : String} {stored : Stored} {intent : SavedEnvironmentIntent}
  {latest : Option (Nat × SavedEnvironmentIntent)} {revision : Nat}
  {follow : Except RpcError Unit}

theorem load_ok :
    env.load now id = .ok stored ↔
      ∃ row, env.deployments.find? (·.id == id) = some row ∧ stored = row.read now := by
  unfold load
  split
  · next row hrow =>
    simp only [pure_eq_ok, hrow, Option.some.injEq, exists_eq_left']
    exact eq_comm
  · next hrow => simp [hrow]

/-! ## Working State -/

/-- Each node of the document was introduced as what it is. -/
def Kinded (introduced : TreeMap String EnvironmentNodeType) (intent : SavedEnvironmentIntent) :
    Prop :=
  ∀ node ∈ nodesOf intent, introduced[node.id]? = some node.nodeType

/-- Introductions are only added. -/
def Introduces (introduced introduced' : TreeMap String EnvironmentNodeType) : Prop :=
  ∀ (id : String) (type : EnvironmentNodeType),
    introduced[id]? = some type → introduced'[id]? = some type

theorem introduceNode_ok {introduced introduced' : TreeMap String EnvironmentNodeType}
    {node : Node} (h : introduceNode introduced node = .ok introduced') :
    Introduces introduced introduced' ∧ introduced'[node.id]? = some node.nodeType := by
  unfold introduceNode at h
  split at h
  · next hnone =>
    obtain rfl := pure_eq_ok.mp h
    refine ⟨fun id type htype => ?_, by simp⟩
    rw [TreeMap.getElem?_insert]
    split_ifs with hid
    · obtain rfl : node.id = id := by simpa using hid
      rw [hnone] at htype
      cases htype
    · exact htype
  · next held hheld =>
    split_ifs at h with htype
    obtain rfl := pure_eq_ok.mp h
    exact ⟨fun _ _ htype => htype, by rw [hheld, htype]⟩

theorem saveWorking_ok {working : SavedEnvironmentIntent} (h : env.saveWorking working = .ok env') :
    ∃ introduced, env' = { env with working, introduced } ∧
      Introduces env.introduced introduced ∧ Kinded introduced working := by
  unfold saveWorking at h
  obtain ⟨introduced, hfold, h⟩ := bind_eq_ok.mp h
  obtain rfl := pure_eq_ok.mp h
  refine ⟨introduced, rfl, ?_⟩
  -- Each node is either introduced by now or still to come.
  have hdone := foldlM_invariant (P := fun left state => Introduces env.introduced state ∧
    ∀ node ∈ nodesOf working, node ∈ left ∨ state[node.id]? = some node.nodeType) (by
      intro node left state next hstate hstep _
      obtain ⟨hgrows, hnode⟩ := introduceNode_ok hstep
      refine ⟨fun id type htype => hgrows id type (hstate.1 id type htype), fun other hother => ?_⟩
      rcases hstate.2 other hother with hleft | hdone
      · rcases List.mem_cons.mp hleft with rfl | hleft
        · exact .inr hnode
        · exact .inl hleft
      · exact .inr (hgrows _ _ hdone))
    ⟨fun _ _ htype => htype, fun _ hnode => .inl hnode⟩ hfold
  exact ⟨hdone.1, fun node hnode => (hdone.2 node hnode).resolve_left (List.not_mem_nil)⟩

/-! ## Admission -/

theorem insert_ok (h : env.insert stored = .ok env') :
    (∀ row ∈ env.deployments, row.id ≠ stored.id) ∧
      env' = { env with deployments := env.deployments ++ [stored] } := by
  unfold insert at h
  split at h
  · cases h
  · next hany =>
    refine ⟨fun row hrow hid => hany ?_, (pure_eq_ok.mp h).symm⟩
    exact List.any_eq_true.mpr ⟨row, hrow, by simpa using hid⟩

theorem supersede_id (row : Stored) : row.supersede.id = row.id := by
  unfold Stored.supersede
  split <;> rfl

theorem fixStorage_ok {targets : List TargetNode} (h : env.fixStorage intent targets = .ok env') :
    ∃ storage, env' = { env with storage } ∧ env'.checkStorage intent = .ok () := by
  unfold fixStorage at h
  obtain ⟨⟨⟩, hcheck, h⟩ := bind_eq_ok.mp h
  obtain rfl := pure_eq_ok.mp h
  exact ⟨_, rfl, hcheck⟩

/-- A row just admitted: queued, and nothing recorded. -/
structure Admitted (env : Environment) (row : Stored) : Prop where
  fresh : ∀ other ∈ env.deployments, other.id ≠ row.id
  queued : row.status = .queued
  run : row.run = {}
  runner : row.runner = none
  started : row.startedAt = none
  number : row.number = (env.deployments.map (·.number)).foldl max 0 + 1

theorem admit_ok {admission : Admission} {saved : Nat} {frozen : Frozen}
    (h : env.admitRow now admission saved frozen = .ok env') :
    ∃ intent storage row, env.savedAt saved = .ok intent ∧
      env.fixStorage intent frozen.nodes = .ok { env with storage } ∧ Admitted env row ∧
      row.id = admission.id ∧ row.saved = saved ∧ row.services = admission.services ∧
      row.nodes = frozen.nodes ∧
      env' = { env with
        storage, deployments := env.deployments.map (·.supersede) ++ [row] } := by
  unfold admitRow at h
  obtain ⟨intent, hintent, h⟩ := bind_eq_ok.mp h
  obtain ⟨env₁, hfix, h⟩ := bind_eq_ok.mp h
  obtain ⟨storage, rfl, -⟩ := fixStorage_ok hfix
  obtain ⟨⟨⟩, -, h⟩ := bind_eq_ok.mp h
  obtain ⟨message, -, h⟩ := bind_eq_ok.mp h
  obtain ⟨hfresh, rfl⟩ := insert_ok h
  refine ⟨intent, storage, _, hintent, hfix, ⟨?_, rfl, rfl, rfl, rfl, rfl⟩, rfl, rfl, rfl, rfl,
    rfl⟩
  intro other hother
  have := hfresh other.supersede (List.mem_map_of_mem hother)
  rwa [supersede_id] at this

theorem retry_ok {source : String} {admittedBy : Option String} {guard : Except RpcError Unit}
    (h : env.retry now id source admittedBy guard = .ok env') :
    ∃ stored row, env.load now source = .ok stored ∧
      (stored.status = .failed ∨ stored.status = .unknown ∨ stored.status = .cancelled) ∧
      Admitted env row ∧ row.id = id ∧ row.saved = stored.saved ∧
      row.services = stored.services ∧ row.nodes = stored.nodes ∧
      env' = { env with deployments := env.deployments.map (·.supersede) ++ [row] } := by
  unfold retry at h
  obtain ⟨stored, hload, h⟩ := bind_eq_ok.mp h
  obtain ⟨⟨⟩, hretriable, h⟩ := bind_eq_ok.mp h
  obtain ⟨⟨⟩, -, h⟩ := bind_eq_ok.mp h
  obtain ⟨⟨⟩, -, h⟩ := bind_eq_ok.mp h
  obtain ⟨hfresh, rfl⟩ := insert_ok h
  refine ⟨stored, retried now stored id env.queue.2 admittedBy, hload, ?_,
    ⟨?_, rfl, rfl, rfl, rfl, rfl⟩, rfl, rfl, rfl, rfl, rfl⟩
  · unfold retriable at hretriable
    split at hretriable
    · next hs => exact .inl hs
    · next hs => exact .inr (.inl hs)
    · next hs => exact .inr (.inr hs)
    all_goals cases hretriable
  · intro other hother
    have := hfresh other.supersede (List.mem_map_of_mem hother)
    rwa [supersede_id] at this

theorem publish_ok (h : env.publish intent latest = .ok (env', revision)) :
    env.checkStorage (canonicalizeEnvironmentIntent intent) = .ok () ∧
      ((∃ held, latest = some (revision, held) ∧ held = canonicalizeEnvironmentIntent intent ∧
          env' = env) ∨
        env' = { env with saved := env.saved ++ [canonicalizeEnvironmentIntent intent] } ∧
          revision = latest.elim 0 (·.1) + 1) := by
  unfold publish at h
  obtain ⟨⟨⟩, hcheck, h⟩ := bind_eq_ok.mp h
  refine ⟨hcheck, ?_⟩
  split at h
  · split_ifs at h with hheld
    · obtain ⟨rfl, rfl⟩ := Prod.mk.inj (pure_eq_ok.mp h)
      exact .inl ⟨_, rfl, hheld, rfl⟩
    · obtain ⟨rfl, rfl⟩ := Prod.mk.inj (pure_eq_ok.mp h)
      exact .inr ⟨rfl, rfl⟩
  · obtain ⟨rfl, rfl⟩ := Prod.mk.inj (pure_eq_ok.mp h)
    exact .inr ⟨rfl, rfl⟩

theorem latestSaved_ok (h : env.latestSaved = .ok latest) :
    env.saved = [] ∧ latest = none ∨
      env.saved ≠ [] ∧ ∃ saved, env.savedAt env.saved.length = .ok saved ∧
        latest = some (env.saved.length, saved) := by
  unfold latestSaved at h
  split_ifs at h with hempty
  · exact .inl ⟨List.isEmpty_iff.mp hempty, (pure_eq_ok.mp h).symm⟩
  · obtain ⟨saved, hsaved, h⟩ := bind_eq_ok.mp h
    exact .inr ⟨fun hnil => hempty (List.isEmpty_iff.mpr hnil), saved, hsaved,
      (pure_eq_ok.mp h).symm⟩

theorem publish_saved (h : env.publish intent latest = .ok (env', revision)) :
    ∃ saved, env' = { env with saved } ∧
      (saved = env.saved ∨ saved = env.saved ++ [canonicalizeEnvironmentIntent intent]) := by
  rcases (publish_ok h).2 with ⟨_, -, -, rfl⟩ | ⟨rfl, -⟩
  · exact ⟨env'.saved, rfl, .inl rfl⟩
  · exact ⟨_, rfl, .inr rfl⟩

/-- The revision a publish answers reads what was published. -/
theorem publish_reads (hintent : WellFormed intent) (hlatest : env.latestSaved = .ok latest)
    (h : env.publish intent latest = .ok (env', revision)) :
    env'.savedAt revision = .ok (canonicalizeEnvironmentIntent intent) := by
  have hnew : Environment.savedAt
      { env with saved := env.saved ++ [canonicalizeEnvironmentIntent intent] }
        (env.saved.length + 1) = .ok (canonicalizeEnvironmentIntent intent) := by
    have hparse := parseEnvironmentIntent_eq_self_iff.mpr (canonicalize_wellFormed hintent)
    simp [savedAt, NOTHING, hparse, canonicalize_canonicalize]
  rcases latestSaved_ok hlatest with ⟨hnil, rfl⟩ | ⟨-, saved, hsaved, rfl⟩
  · rcases (publish_ok h).2 with ⟨_, hheld, -, -⟩ | ⟨rfl, rfl⟩
    · cases hheld
    · simpa [hnil] using hnew
  · rcases (publish_ok h).2 with ⟨held, hheld, rfl, rfl⟩ | ⟨rfl, rfl⟩
    · obtain ⟨rfl, rfl⟩ := Prod.mk.inj (Option.some.inj hheld)
      exact hsaved
    · exact hnew

/-- What freezing answers: the targeted Services, the Volumes kept, and those deleted. -/
structure Freezes (saved applied : SavedEnvironmentIntent) (services : List ServiceName)
    (losses : List VolumeLoss) (nodes : List TargetNode) : Prop where
  nodes_eq : ∃ targets lost, targetServices saved applied services = .ok targets ∧
    targetLosses applied services.isEmpty losses = .ok lost ∧
    nodes = targets ++ targetVolumes saved services.isEmpty targets ++ lost

theorem freeze_ok {saved applied : SavedEnvironmentIntent} {services : List ServiceName}
    {namespace_ : String} {clusterDomain : Option String} {losses : List VolumeLoss}
    {lowers : Except RpcError Unit} {frozen : Frozen}
    (h : freeze saved applied services namespace_ clusterDomain losses lowers = .ok frozen) :
    Freezes saved applied services losses frozen.nodes := by
  unfold freeze at h
  obtain ⟨targets, htargets, h⟩ := bind_eq_ok.mp h
  obtain ⟨lost, hlost, h⟩ := bind_eq_ok.mp h
  obtain ⟨⟨⟩, -, h⟩ := bind_eq_ok.mp h
  obtain rfl := pure_eq_ok.mp h
  exact ⟨targets, lost, htargets, hlost, rfl⟩

/-! ## Claiming and cancelling -/

inductive Claimed (env : Environment) (now : Nat) (runner : String) (stored : Stored) :
    Environment → Prop
  | refused : Claimed env now runner stored env
  | lost (hrun : stored.status.claimed = true) (hrunner : stored.runner = some runner) :
      Claimed env now runner stored (env.save { stored with status := .unknown })
  | again (hrun : stored.status.claimed = true) (hrunner : stored.runner = some runner)
      (hpreview : stored.run.preview = none) :
      Claimed env now runner stored (env.save { stored with lease := now + LEASE })
  | queued (hqueued : stored.status = .queued) :
      Claimed env now runner stored
        (Environment.save { env with deployments := env.deployments.map (·.lose) } { stored with
          status := .running, runner := some runner, startedAt := some now, lease := now + LEASE })

theorem claim_ok {runner : String} {handed answer : Except RpcError Unit}
    (h : env.claim now id runner handed = .ok (env', answer)) :
    ∃ stored, env.load now id = .ok stored ∧ Claimed env now runner stored env' := by
  unfold claim at h
  obtain ⟨stored, hload, h⟩ := bind_eq_ok.mp h
  refine ⟨stored, hload, ?_⟩
  have hagain : stored.status.claimed = true → stored.runner = some runner →
      env.claimAgain now stored handed = .ok (env', answer) →
        Claimed env now runner stored env' := by
    intro hrun hrunner h
    unfold claimAgain at h
    split at h
    · obtain ⟨rfl, -⟩ := Prod.mk.inj (pure_eq_ok.mp h)
      exact .lost hrun hrunner
    · next hpreview =>
      obtain ⟨⟨⟩, -, h⟩ := bind_eq_ok.mp h
      obtain ⟨rfl, -⟩ := Prod.mk.inj (pure_eq_ok.mp h)
      exact .again hrun hrunner (by simpa using hpreview)
  have hrefused : ∀ e, (pure (env, e) : Except RpcError _) = .ok (env', answer) →
      Claimed env now runner stored env' := by
    intro e h
    obtain ⟨rfl, -⟩ := Prod.mk.inj (pure_eq_ok.mp h)
    exact .refused
  split at h
  · next hs =>
    split_ifs at h with hrunner
    · exact hagain (by rw [hs]; rfl) hrunner h
    · exact hrefused _ h
  · next hs =>
    split_ifs at h with hrunner
    · exact hagain (by rw [hs]; rfl) hrunner h
    · exact hrefused _ h
  · exact hrefused _ h
  · exact hrefused _ h
  · exact hrefused _ h
  · exact hrefused _ h
  · exact hrefused _ h
  · next hs =>
    obtain ⟨⟨⟩, -, h⟩ := bind_eq_ok.mp h
    obtain ⟨rfl, -⟩ := Prod.mk.inj (pure_eq_ok.mp h)
    exact .queued hs

theorem cancel_ok (h : env.cancel now id = .ok env') :
    env' = env ∨ ∃ stored, env.load now id = .ok stored ∧
      (stored.status = .queued ∧
          env' = env.save { stored with status := .cancelled, endedAt := some now } ∨
        stored.status = .running ∧ env' = env.save { stored with status := .cancelling }) := by
  unfold cancel at h
  obtain ⟨stored, hload, h⟩ := bind_eq_ok.mp h
  split at h
  · next hs => exact .inr ⟨stored, hload, .inl ⟨hs, (pure_eq_ok.mp h).symm⟩⟩
  · next hs => exact .inr ⟨stored, hload, .inr ⟨hs, (pure_eq_ok.mp h).symm⟩⟩
  · exact .inl (pure_eq_ok.mp h).symm
  · exact .inl (pure_eq_ok.mp h).symm
  all_goals cases h

theorem start_ok (h : env.start now id = .ok env') : env' = env := by
  unfold start at h
  obtain ⟨stored, -, h⟩ := bind_eq_ok.mp h
  split at h
  · exact (pure_eq_ok.mp h).symm
  all_goals cases h

/-! ## Recording -/

theorem running_ok {u : Unit} (h : running stored = .ok u) :
    stored.status.claimed = true := by
  unfold running at h
  split at h
  · next hs => rw [hs]; rfl
  · next hs => rw [hs]; rfl
  all_goals cases h

/-- What entering Applied State changes: the table alone. -/
theorem advanced_ok {succeeded : Bool} (h : env.advanced stored succeeded follow = .ok env') :
    stored.nodes.filter (entersWith stored.run.nodes succeeded) = [] ∧ env' = env ∨
      ∃ saved, env.savedAt stored.saved = .ok saved ∧ env' = { env with
        applied := advance saved stored.nodes stored.run.nodes succeeded env.applied } := by
  unfold advanced at h
  split_ifs at h with hempty
  · exact .inl ⟨List.isEmpty_iff.mp hempty, (pure_eq_ok.mp h).symm⟩
  · obtain ⟨saved, hsaved, h⟩ := bind_eq_ok.mp h
    obtain ⟨⟨⟩, -, h⟩ := bind_eq_ok.mp h
    exact .inr ⟨saved, hsaved, (pure_eq_ok.mp h).symm⟩

theorem advanced_eq {succeeded : Bool} (h : env.advanced stored succeeded follow = .ok env')
    {saved : SavedEnvironmentIntent} (hsaved : env.savedAt stored.saved = .ok saved) :
    env' = { env with
      applied := advance saved stored.nodes stored.run.nodes succeeded env.applied } := by
  rcases advanced_ok h with ⟨hnone, rfl⟩ | ⟨other, hother, rfl⟩
  · rw [advance, hnone, List.foldl_nil]
  · rw [hsaved] at hother
    cases hother
    rfl

/-- Evidence that nothing executed. -/
def RunEvidence.stops : RunEvidence → Bool
  | .notExecuted _ | .abandoned | .uploadNeeded _ => true
  | _ => false

/-- What must already be recorded for evidence to change nothing. -/
def Replays (stored : Stored) : RunEvidence → Prop
  | .executed .. => stored.run.outcome.isSome = true
  | .prepared _ => stored.run.preview.isSome = true
  | _ => True

/-- Everything a runner's evidence can do, `stored` being its Deployment as read. -/
inductive Recorded (env : Environment) (now : Nat) (stored : Stored)
    (follow : Except RpcError Unit) : RunEvidence → Environment → Prop
  | same {evidence : RunEvidence} (hreplays : Replays stored evidence) :
      Recorded env now stored follow evidence env
  | alive (hrun : stored.status.claimed = true) :
      Recorded env now stored follow .alive (env.save stored)
  | prepared (hrun : stored.status.claimed = true) {preview : DeployPreview}
      (hpreview : stored.run.preview = none) {saved : SavedEnvironmentIntent}
      (hsaved : env.savedAt stored.saved = .ok saved) :
      Recorded env now stored follow (.prepared preview)
        (env.save (stored.prepared (parseRuntimePreview preview)
          (settled stored.nodes saved env.appliedState (parseRuntimePreview preview) [])))
  | confirmed (hrun : stored.status.claimed = true) {services : List ServiceName}
      {preview : DeployPreview} (hpreview : stored.run.preview = some preview)
      (houtcome : stored.run.outcome = none) {saved : SavedEnvironmentIntent}
      (hsaved : env.savedAt stored.saved = .ok saved) {nodes : TreeMap String NodeStatus}
      (hnodes : nodes = keepAdvanced stored.run.nodes (settled stored.nodes saved
        env.appliedState preview (confirmedSoFar stored services))) {env' : Environment}
      (hadvanced : env.advanced (stored.withNodes nodes) false follow = .ok env') :
      Recorded env now stored follow (.confirmed services) (env'.save (stored.withNodes nodes))
  | executed (hrun : stored.status.claimed = true) (houtcome : stored.run.outcome = none)
      {outcome : DeployOutcome} {removed : List VolumeRemoval} {preview : DeployPreview}
      (hpreview : stored.run.preview = some preview) {projection : RuntimeOutcomeProjection}
      (hproject : projectRuntimeOutcome preview outcome = .ok projection)
      {saved : SavedEnvironmentIntent} (hsaved : env.savedAt stored.saved = .ok saved)
      {nodes : TreeMap String NodeStatus}
      (hnodes : nodes = keepAdvanced stored.run.nodes
        (nodeOutcomes stored.nodes saved env.appliedState (.executed projection removed)))
      {env' : Environment} (hadvanced : env.advanced (stored.executed outcome removed nodes)
        (executedStatus outcome nodes == .applied) follow = .ok env') :
      Recorded env now stored follow (.executed outcome removed)
        (env'.save ((stored.executed outcome removed nodes).ended now
          (.executed projection.summary (failure outcome stored.nodes))
          (executedStatus outcome nodes)))
  | stopped (hrun : stored.status.claimed = true) (houtcome : stored.run.outcome = none)
      {evidence : RunEvidence} (hstops : RunEvidence.stops evidence = true) {outcome : Outcome}
      {env' : Environment} (hadvanced : env.advanced stored false follow = .ok env') :
      Recorded env now stored follow evidence (env'.save (stored.ended now outcome .failed))
  | lost (hrun : stored.status.claimed = true) (houtcome : stored.run.outcome = none) :
      Recorded env now stored follow .abandoned (env.save { stored with status := .unknown })

theorem finish_ok {outcome : Outcome} {status : DeploymentStatus}
    (h : env.finish now stored outcome status follow = .ok env') :
    stored.run.outcome.isSome = true ∧ env' = env ∨
      stored.run.outcome = none ∧ stored.status.claimed = true ∧ ∃ mid,
        env.advanced stored (status == .applied) follow = .ok mid ∧
          env' = mid.save (stored.ended now outcome status) := by
  unfold finish at h
  split at h
  · next recorded hrecorded =>
    split_ifs at h
    exact .inl ⟨by rw [hrecorded]; rfl, (pure_eq_ok.mp h).symm⟩
  · next houtcome =>
    obtain ⟨⟨⟩, hrun, h⟩ := bind_eq_ok.mp h
    obtain ⟨mid, hmid, h⟩ := bind_eq_ok.mp h
    exact .inr ⟨houtcome, running_ok hrun, mid, hmid, (pure_eq_ok.mp h).symm⟩

theorem recordPrepared_ok {preview : DeployPreview}
    (h : env.recordPrepared stored preview = .ok env') :
    Recorded env now stored follow (.prepared preview) env' := by
  unfold recordPrepared at h
  dsimp only at h
  split at h
  · next recorded hrecorded =>
    split_ifs at h
    obtain rfl := pure_eq_ok.mp h
    exact .same (by simp [Replays, hrecorded])
  · next hpreview =>
    obtain ⟨⟨⟩, hrun, h⟩ := bind_eq_ok.mp h
    obtain ⟨saved, hsaved, h⟩ := bind_eq_ok.mp h
    obtain rfl := pure_eq_ok.mp h
    exact .prepared (running_ok hrun) hpreview hsaved

theorem recordExecuted_ok {outcome : DeployOutcome} {removed : List VolumeRemoval}
    (h : env.recordExecuted now stored outcome removed follow = .ok env') :
    Recorded env now stored follow (.executed outcome removed) env' := by
  unfold recordExecuted at h
  split_ifs at h with houtcome
  · obtain rfl := pure_eq_ok.mp h
    exact .same houtcome
  · split at h
    · cases h
    · next preview hpreview =>
      split at h
      · cases h
      · next projection hproject =>
        obtain ⟨saved, hsaved, h⟩ := bind_eq_ok.mp h
        rcases finish_ok h with ⟨hsome, -⟩ | ⟨-, hrun, mid, hmid, rfl⟩
        · exact absurd hsome houtcome
        · have hstatus : stored.status.claimed = true := hrun
          exact .executed hstatus (by simpa using houtcome) hpreview hproject hsaved rfl hmid

theorem recordConfirmed_ok {services : List ServiceName}
    (h : env.recordConfirmed stored services follow = .ok env') :
    Recorded env now stored follow (.confirmed services) env' := by
  unfold recordConfirmed at h
  obtain ⟨⟨⟩, hrun, h⟩ := bind_eq_ok.mp h
  split at h
  · next preview hpreview houtcome =>
    obtain ⟨saved, hsaved, h⟩ := bind_eq_ok.mp h
    obtain ⟨mid, hmid, h⟩ := bind_eq_ok.mp h
    obtain rfl := pure_eq_ok.mp h
    exact .confirmed (running_ok hrun) hpreview houtcome hsaved rfl hmid
  · cases h

variable {evidence : RunEvidence}

theorem stop_ok {outcome : Outcome} (hstops : RunEvidence.stops evidence = true)
    (h : env.finish now stored outcome .failed follow = .ok env') :
    Recorded env now stored follow evidence env' := by
  rcases finish_ok h with ⟨-, rfl⟩ | ⟨houtcome, hrun, mid, hmid, rfl⟩
  · refine .same ?_
    cases evidence <;> trivial
  · exact .stopped hrun houtcome hstops hmid

theorem recordAbandoned_ok (h : env.recordAbandoned now stored follow = .ok env') :
    Recorded env now stored follow .abandoned env' := by
  unfold recordAbandoned at h
  split_ifs at h with hdone hpreview
  · obtain rfl := pure_eq_ok.mp h
    exact .same trivial
  · obtain ⟨⟨⟩, -, h⟩ := bind_eq_ok.mp h
    exact stop_ok rfl h
  · simp only [Bool.or_eq_true, not_or, Option.not_isSome_iff_eq_none] at hdone
    obtain ⟨⟨⟩, hrun, h⟩ := bind_eq_ok.mp h
    obtain rfl := pure_eq_ok.mp h
    exact .lost (running_ok hrun) hdone.1

theorem recordFor_ok (h : env.recordFor now stored follow evidence = .ok env') :
    Recorded env now stored follow evidence env' := by
  unfold recordFor at h
  split at h
  · obtain ⟨⟨⟩, hrun, h⟩ := bind_eq_ok.mp h
    obtain rfl := pure_eq_ok.mp h
    exact .alive (running_ok hrun)
  · exact recordPrepared_ok h
  · exact recordExecuted_ok h
  · exact recordConfirmed_ok h
  · obtain ⟨⟨⟩, -, h⟩ := bind_eq_ok.mp h
    obtain ⟨⟨⟩, -, h⟩ := bind_eq_ok.mp h
    obtain rfl := pure_eq_ok.mp h
    exact .same trivial
  · obtain ⟨⟨⟩, -, h⟩ := bind_eq_ok.mp h
    obtain ⟨⟨⟩, -, h⟩ := bind_eq_ok.mp h
    obtain rfl := pure_eq_ok.mp h
    exact .same trivial
  · exact stop_ok rfl h
  · exact stop_ok rfl h
  · exact recordAbandoned_ok h

theorem record_ok {runner : String} (h : env.record now id runner evidence follow = .ok env') :
    ∃ stored, env.load now id = .ok stored ∧ stored.runner = some runner ∧
      Recorded env now (stored.renew now) follow evidence env' := by
  unfold record at h
  obtain ⟨stored, hload, h⟩ := bind_eq_ok.mp h
  split_ifs at h with hrunner
  exact ⟨stored, hload, hrunner, recordFor_ok h⟩

end Environment

end Ployz
