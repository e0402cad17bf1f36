import Ployz.Store.Deployment.Steps

/-!
# The statuses of an Environment's Deployments

Over any run, at most one Deployment is queued and at most one is claimed (`SingleFlight`), a row
keeps what admission froze, and a status that ended stays (`Grows`). Every step that writes one
Deployment writes one that is in flight, so both follow from what a save keeps.

Main theorem: `deployments_lifecycle`.
-/

namespace Ployz

open Run
open Std (TreeMap)

variable {env env' : Environment} {now : Nat} {rows rows' : List Stored}

/-! ## Rows over a step -/

/-- A row before and after a step: what admission froze stays, and so does a status that
ended. -/
structure Stored.Follows (now : Nat) (row row' : Stored) : Prop where
  id : row'.id = row.id
  number : row'.number = row.number
  saved : row'.saved = row.saved
  services : row'.services = row.services
  nodes : row'.nodes = row.nodes
  ended : (row.statusAt now).inFlight = false → row'.statusAt now = row.statusAt now

/-- Each row is followed by one in its place; new rows come last. -/
def Grows (now : Nat) (rows rows' : List Stored) : Prop :=
  ∃ f added, rows' = rows.map f ++ added ∧ ∀ row ∈ rows, Stored.Follows now row (f row)

theorem Stored.Follows.refl (row : Stored) : Follows now row row :=
  ⟨rfl, rfl, rfl, rfl, rfl, fun _ => rfl⟩

theorem Stored.Follows.trans {a b c : Stored} (hab : Follows now a b) (hbc : Follows now b c) :
    Follows now a c := by
  refine ⟨hbc.id.trans hab.id, hbc.number.trans hab.number, hbc.saved.trans hab.saved,
    hbc.services.trans hab.services, hbc.nodes.trans hab.nodes, fun hended => ?_⟩
  have hb := hab.ended hended
  rw [hbc.ended (by rw [hb]; exact hended), hb]

theorem Grows.refl (now : Nat) (rows : List Stored) : Grows now rows rows :=
  ⟨id, [], by simp, fun row _ => .refl row⟩

variable {f : Stored → Stored}

theorem Grows.map (hf : ∀ row ∈ rows, Stored.Follows now row (f row)) :
    Grows now rows (rows.map f) :=
  ⟨f, [], by simp, hf⟩

theorem Grows.append (h : Grows now rows rows') (row : Stored) :
    Grows now rows (rows' ++ [row]) := by
  obtain ⟨f, added, rfl, hf⟩ := h
  exact ⟨f, added ++ [row], by simp, hf⟩

theorem Grows.trans {rows'' : List Stored} (h : Grows now rows rows')
    (h' : Grows now rows' rows'') : Grows now rows rows'' := by
  obtain ⟨f, added, rfl, hf⟩ := h
  obtain ⟨g, more, rfl, hg⟩ := h'
  refine ⟨g ∘ f, added.map g ++ more, by simp, fun row hrow => (hf row hrow).trans (hg _ ?_)⟩
  exact List.mem_append_left _ (List.mem_map_of_mem hrow)

theorem find_map (hf : ∀ row ∈ rows, (f row).id = row.id) (id : String) :
    (rows.map f).find? (·.id == id) = (rows.find? (·.id == id)).map f := by
  induction rows with
  | nil => rfl
  | cons head tail ih =>
    rw [List.map_cons, List.find?_cons, List.find?_cons, hf head List.mem_cons_self]
    cases head.id == id with
    | true => rfl
    | false => exact ih fun row hrow => hf row (List.mem_cons_of_mem _ hrow)

variable {row : Stored} {id : String} {status : DeploymentStatus} {follow : Except RpcError Unit}
  {evidence : RunEvidence} {op : Op}

theorem Grows.find (h : Grows now rows rows') (hrow : rows.find? (·.id == id) = some row) :
    ∃ row', rows'.find? (·.id == id) = some row' ∧ Stored.Follows now row row' := by
  obtain ⟨f, added, rfl, hf⟩ := h
  refine ⟨f row, ?_, hf row (List.mem_of_find?_eq_some hrow)⟩
  rw [List.find?_append, find_map fun row hrow => (hf row hrow).id, hrow]
  rfl

/-! ## What each write of rows keeps -/

theorem follows_supersede (row : Stored) : Stored.Follows now row row.supersede := by
  unfold Stored.supersede
  split_ifs with hqueued
  · refine ⟨rfl, rfl, rfl, rfl, rfl, fun hended => ?_⟩
    simp [Stored.statusAt, Stored.lapsed, hqueued, DeploymentStatus.claimed,
      DeploymentStatus.inFlight] at hended
  · exact .refl row

theorem follows_lose (row : Stored) : Stored.Follows now row row.lose := by
  unfold Stored.lose
  split_ifs with hclaimed
  · refine ⟨rfl, rfl, rfl, rfl, rfl, fun hended => ?_⟩
    -- A claimed row that is not in flight has lapsed, and reads unknown already.
    have hlapsed : row.lapsed now = true := by
      by_contra hno
      rw [Stored.statusAt, if_neg hno] at hended
      cases hstatus : row.status <;> rw [hstatus] at hended hclaimed <;> cases hended <;>
        cases hclaimed
    simp [Stored.statusAt, Stored.lapsed, DeploymentStatus.claimed] at hlapsed ⊢
    simp [hlapsed]
  · exact .refl row

theorem inFlight_statusAt (row : Stored) :
    (row.statusAt now).inFlight = row.inFlight now := by
  unfold Stored.statusAt Stored.lapsed Stored.inFlight
  cases row.status <;> by_cases hlease : row.lease ≤ now <;>
    simp [DeploymentStatus.claimed, DeploymentStatus.inFlight, hlease] <;> omega

theorem follows_giveUp (row : Stored) : Stored.Follows now row (row.giveUp now) := by
  unfold Stored.giveUp
  split_ifs with hflight
  · refine ⟨rfl, rfl, rfl, rfl, rfl, fun hended => ?_⟩
    rw [inFlight_statusAt, hflight] at hended
    cases hended
  · exact .refl row

@[simp] theorem Stored.put_id (stored row : Stored) : (stored.put row).id = row.id := by
  unfold put
  split_ifs <;> rfl

@[simp] theorem Stored.lose_id (row : Stored) : row.lose.id = row.id := by
  unfold lose
  split_ifs <;> rfl

variable {stored : Stored}

theorem find_save (hid : stored.id = id) (hrow : env.deployments.find? (·.id == id) = some row) :
    (env.save stored).deployments.find? (·.id == id) = some (row.written stored) := by
  have hrowId : row.id = id := by simpa using List.find?_some hrow
  show (env.deployments.map stored.put).find? (·.id == id) = _
  rw [find_map fun row _ => Stored.put_id stored row, hrow, Option.map_some, Stored.put,
    if_pos (hrowId.trans hid.symm)]

theorem Grows.save (hids : (env.deployments.map (·.id)).Nodup) (hrow : row ∈ env.deployments)
    (hid : row.id = stored.id) (hflight : (row.statusAt now).inFlight = true) :
    Grows now env.deployments (env.save stored).deployments := by
  refine .map fun other hother => ?_
  unfold Stored.put
  split_ifs with hsame
  · obtain rfl : other = row := List.inj_on_of_nodup_map hids hother hrow (hsame.trans hid.symm)
    refine ⟨rfl, rfl, rfl, rfl, rfl, fun hended => ?_⟩
    rw [hflight] at hended
    cases hended
  · exact .refl other

/-! ## At most one queued, at most one claimed -/

/-- IDs name one Deployment each, at most one is queued and at most one is claimed. -/
structure SingleFlight (rows : List Stored) : Prop where
  ids : (rows.map (·.id)).Nodup
  queued : rows.Pairwise fun a b => ¬(a.status = .queued ∧ b.status = .queued)
  claimed : rows.Pairwise fun a b => ¬(a.status.claimed = true ∧ b.status.claimed = true)

namespace SingleFlight

theorem map (h : SingleFlight rows) (hid : ∀ row, (f row).id = row.id)
    (hqueued : ∀ row ∈ rows, (f row).status = .queued → row.status = .queued)
    (hclaimed : (∀ row ∈ rows, (f row).status.claimed = true → row.status.claimed = true) ∨
      ∃ id, ∀ row ∈ rows, (f row).status.claimed = true → row.id = id) :
    SingleFlight (rows.map f) := by
  refine ⟨?_, ?_, ?_⟩
  · rw [List.map_map, show (fun row : Stored => row.id) ∘ f = (·.id) from funext hid]
    exact h.ids
  · rw [List.pairwise_map]
    refine h.queued.imp_of_mem fun ha hb hnot hboth => hnot ?_
    exact ⟨hqueued _ ha hboth.1, hqueued _ hb hboth.2⟩
  · rw [List.pairwise_map]
    rcases hclaimed with hclaimed | ⟨id, hclaimed⟩
    · refine h.claimed.imp_of_mem fun ha hb hnot hboth => hnot ?_
      exact ⟨hclaimed _ ha hboth.1, hclaimed _ hb hboth.2⟩
    · refine (List.pairwise_map.mp h.ids).imp_of_mem fun ha hb hne hboth => hne ?_
      exact (hclaimed _ ha hboth.1).trans (hclaimed _ hb hboth.2).symm

/-- A newer admission supersedes the queued one. -/
theorem admitRow (h : SingleFlight env.deployments) (hrow : env.Admitted row) :
    SingleFlight (env.deployments.map (·.supersede) ++ [row]) := by
  have hnone : ∀ other ∈ env.deployments, other.supersede.status ≠ .queued := by
    intro other _ hqueued
    unfold Stored.supersede at hqueued
    split_ifs at hqueued with hwas
    exact hwas hqueued
  have hmap : SingleFlight (env.deployments.map (·.supersede)) := by
    refine h.map Environment.supersede_id
      (fun other hother hqueued => absurd hqueued (hnone other hother)) (.inl ?_)
    intro other _ hclaimed
    unfold Stored.supersede at hclaimed
    split_ifs at hclaimed
    · cases hclaimed
    · exact hclaimed
  have hclaimed : row.status.claimed = false := by
    rw [hrow.queued]
    rfl
  refine ⟨?_, ?_, ?_⟩
  · rw [List.map_append, List.nodup_append]
    refine ⟨hmap.ids, by simp, fun a ha b hb => ?_⟩
    rw [List.map_map] at ha
    obtain ⟨other, hother, rfl⟩ := List.mem_map.mp ha
    obtain rfl : b = row.id := by simpa using hb
    rw [Function.comp_apply, Environment.supersede_id]
    exact hrow.fresh other hother
  · refine List.pairwise_append.mpr ⟨hmap.queued, List.pairwise_singleton _ _, ?_⟩
    intro a ha b _ hboth
    obtain ⟨other, hother, rfl⟩ := List.mem_map.mp ha
    exact hnone other hother hboth.1
  · refine List.pairwise_append.mpr ⟨hmap.claimed, List.pairwise_singleton _ _, ?_⟩
    intro a _ b hb hboth
    obtain rfl : b = row := by simpa using hb
    rw [hclaimed] at hboth
    cases hboth.2

/-- Writing a row makes no other one queued or claimed. -/
theorem save (h : SingleFlight env.deployments) (hrow : row ∈ env.deployments)
    (hid : row.id = stored.id) (hqueued : stored.status = .queued → row.status = .queued)
    (hclaimed : stored.status.claimed = true → row.status.claimed = true) :
    SingleFlight (env.save stored).deployments := by
  have hsame : ∀ other ∈ env.deployments, other.id = stored.id → other = row :=
    fun other hother h' => List.inj_on_of_nodup_map h.ids hother hrow (h'.trans hid.symm)
  refine h.map (Stored.put_id stored) (fun other hother => ?_) (.inl fun other hother => ?_)
  · unfold Stored.put
    split_ifs with hother'
    · rw [hsame other hother hother']
      exact hqueued
    · exact fun hstatus => hstatus
  · unfold Stored.put
    split_ifs with hother'
    · rw [hsame other hother hother']
      exact hclaimed
    · exact fun hstatus => hstatus

/-- Claiming a queued Deployment lets go of any other that was claimed. -/
theorem claim (h : SingleFlight env.deployments) (hstatus : stored.status = .running) :
    SingleFlight (Environment.save { env with deployments := env.deployments.map (·.lose) }
      stored).deployments := by
  show SingleFlight ((env.deployments.map (·.lose)).map stored.put)
  rw [List.map_map]
  refine h.map (fun row => (Stored.put_id stored _).trans (Stored.lose_id row))
    (fun row _ hqueued => ?_) (.inr ⟨stored.id, fun row _ hclaimed => ?_⟩)
  · rw [Function.comp_apply, Stored.put] at hqueued
    split_ifs at hqueued
    · rw [show (row.lose.written stored).status = stored.status from rfl, hstatus] at hqueued
      cases hqueued
    · unfold Stored.lose at hqueued
      split_ifs at hqueued
      exact hqueued
  · by_contra hne
    rw [Function.comp_apply, Stored.put, if_neg (by rwa [Stored.lose_id]), Stored.lose] at hclaimed
    split_ifs at hclaimed with hwas
    · cases hclaimed
    · exact hwas hclaimed

end SingleFlight

/-! ## Every step keeps both -/

theorem Environment.load_mem (h : env.load now id = .ok stored) :
    ∃ row ∈ env.deployments, row.id = id ∧ stored = row.read now := by
  obtain ⟨row, hrow, rfl⟩ := Environment.load_ok.mp h
  exact ⟨row, List.mem_of_find?_eq_some hrow, by simpa using List.find?_some hrow, rfl⟩

theorem Stored.status_of_statusAt (h : row.statusAt now = status) (hunknown : status ≠ .unknown) :
    row.status = status := by
  unfold statusAt at h
  split_ifs at h
  · exact absurd h.symm hunknown
  · exact h

theorem Stored.claimed_of_statusAt (h : (row.statusAt now).claimed = true) :
    row.status.claimed = true := by
  unfold statusAt at h
  split_ifs at h
  · cases h
  · exact h

theorem DeploymentStatus.inFlight_of_claimed (h : status.claimed = true) :
    status.inFlight = true := by
  cases status <;> first | rfl | cases h

/-- Writing a Deployment read in flight, without queueing it, nor claiming it anew. -/
theorem keeps_save (stored : Stored) (hsingle : SingleFlight env.deployments) {loaded : Stored}
    (hload : env.load now id = .ok loaded) (hid : stored.id = loaded.id)
    (hflight : loaded.status.inFlight = true) (hqueued : stored.status ≠ .queued)
    (hclaimed : stored.status.claimed = true → loaded.status.claimed = true) :
    Grows now env.deployments (env.save stored).deployments ∧
      SingleFlight (env.save stored).deployments := by
  obtain ⟨row, hrow, -, rfl⟩ := Environment.load_mem hload
  refine ⟨.save hsingle.ids hrow hid.symm hflight, hsingle.save hrow hid.symm
    (fun h => absurd h hqueued) fun h => ?_⟩
  exact Stored.claimed_of_statusAt (hclaimed h)

theorem Stored.renew_status (stored : Stored) : (stored.renew now).status = stored.status := by
  unfold renew
  split_ifs <;> rfl

theorem Stored.renew_id (stored : Stored) : (stored.renew now).id = stored.id := by
  unfold renew
  split_ifs <;> rfl

theorem Stored.renew_saved (stored : Stored) : (stored.renew now).saved = stored.saved := by
  unfold renew
  split_ifs <;> rfl

theorem Stored.renew_nodes (stored : Stored) : (stored.renew now).nodes = stored.nodes := by
  unfold renew
  split_ifs <;> rfl

theorem Stored.renew_runner (stored : Stored) : (stored.renew now).runner = stored.runner := by
  unfold renew
  split_ifs <;> rfl

theorem Stored.renew_run (stored : Stored) : (stored.renew now).run = stored.run := by
  unfold renew
  split_ifs <;> rfl

theorem Environment.advanced_rows {succeeded : Bool}
    (h : env.advanced stored succeeded follow = .ok env') :
    env'.deployments = env.deployments := by
  rcases Environment.advanced_ok h with ⟨-, rfl⟩ | ⟨saved, -, rfl⟩ <;> rfl

theorem Stored.ended_status_ne_queued {outcome : Outcome}
    (h : status = .applied ∨ status = .failed) :
    (stored.ended now outcome status).status ≠ .queued ∧
      (stored.ended now outcome status).status.claimed = false := by
  unfold ended
  dsimp only
  split_ifs
  · exact ⟨by simp, rfl⟩
  · rcases h with rfl | rfl <;> exact ⟨by simp, rfl⟩

theorem Stored.ended_applied_status (stored : Stored) (now : Nat) (outcome : Outcome) :
    (stored.ended now outcome .applied).status = .applied := by
  simp [ended]

theorem executedStatus_cases (outcome : DeployOutcome) (nodes : TreeMap String NodeStatus) :
    executedStatus outcome nodes = .applied ∨ executedStatus outcome nodes = .failed := by
  unfold executedStatus
  split_ifs
  · exact .inl rfl
  · exact .inr rfl

theorem Environment.save_rows (h : env'.deployments = env.deployments) (stored : Stored) :
    (env'.save stored).deployments = (env.save stored).deployments := by
  rw [Environment.save, Environment.save, h]

/-- What a runner's evidence does to the rows: nothing, or one write of its Deployment. -/
theorem Environment.Recorded.rows_eq (h : env.Recorded now stored follow evidence env') :
    env'.deployments = env.deployments ∨ ∃ written : Stored,
      env'.deployments = (env.save written).deployments ∧ written.id = stored.id ∧
      stored.status.claimed = true ∧ written.status ≠ .queued := by
  cases h with
  | same => exact .inl rfl
  | alive hrun =>
    refine .inr ⟨stored, rfl, rfl, hrun, fun hqueued => ?_⟩
    rw [hqueued] at hrun
    cases hrun
  | prepared hrun hpreview hsaved =>
    refine .inr ⟨_, rfl, rfl, hrun, fun hqueued => ?_⟩
    rw [show stored.status = .queued from hqueued] at hrun
    cases hrun
  | confirmed hrun hpreview houtcome hsaved hnodes hadvanced =>
    refine .inr ⟨_, Environment.save_rows (Environment.advanced_rows hadvanced) _, rfl, hrun,
      fun hqueued => ?_⟩
    rw [show stored.status = .queued from hqueued] at hrun
    cases hrun
  | executed hrun houtcome hpreview hproject hsaved hnodes hadvanced =>
    exact .inr ⟨_, Environment.save_rows (Environment.advanced_rows hadvanced) _, rfl, hrun,
      (Stored.ended_status_ne_queued (executedStatus_cases _ _)).1⟩
  | stopped hrun houtcome _ hadvanced =>
    exact .inr ⟨_, Environment.save_rows (Environment.advanced_rows hadvanced) _, rfl, hrun,
      (Stored.ended_status_ne_queued (.inr rfl)).1⟩
  | lost hrun houtcome => exact .inr ⟨_, rfl, rfl, hrun, by simp⟩

theorem keeps_admitRow (now : Nat) (hsingle : SingleFlight env.deployments)
    (hrow : env.Admitted row)
    (hrows : env'.deployments = env.deployments.map (·.supersede) ++ [row]) :
    Grows now env.deployments env'.deployments ∧ SingleFlight env'.deployments := by
  rw [hrows]
  exact ⟨(Grows.map fun other _ => follows_supersede other).append row, hsingle.admitRow hrow⟩

/-- A removal that applies without a runner is admitted, and ends. -/
theorem keeps_forgotten (hsingle : SingleFlight env.deployments) (hrow : env.Admitted row)
    (outcome : Outcome) (hrows : env'.deployments = env.deployments.map (·.supersede) ++ [row]) :
    Grows now env.deployments (env'.forgotten now row outcome).deployments ∧
      SingleFlight (env'.forgotten now row outcome).deployments := by
  obtain ⟨hgrows, hadmits⟩ := keeps_admitRow now hsingle hrow hrows
  have hload : Environment.load { env' with applied := ∅ } now row.id = .ok (row.read now) := by
    refine Environment.load_ok.mpr ⟨row, ?_, rfl⟩
    show env'.deployments.find? _ = _
    rw [hrows]
    exact Environment.find_admitted hrow
  have hflight : (row.read now).status.inFlight = true := by
    simp [Stored.read, Stored.statusAt, Stored.lapsed, hrow.queued, DeploymentStatus.claimed,
      DeploymentStatus.inFlight]
  obtain ⟨hmore, hended⟩ := keeps_save (Environment.forgottenRow row now outcome) hadmits hload
    rfl hflight (Stored.ended_status_ne_queued (.inl rfl)).1 fun h => by
      rw [Environment.forgottenRow, (Stored.ended_status_ne_queued (.inl rfl)).2] at h
      cases h
  exact ⟨hgrows.trans hmore, hended⟩

/-- Every step keeps what admission froze and every status that ended, and leaves at most one
Deployment queued and one claimed. -/
theorem Environment.Effect.keeps (h : env.Effect now op env')
    (hsingle : SingleFlight env.deployments) :
    Grows now env.deployments env'.deployments ∧ SingleFlight env'.deployments := by
  cases h with
  | keep _ hrows => rw [hrows]; exact ⟨.refl now _, hsingle⟩
  | ship _ h => exact keeps_admitRow now hsingle h.admitted h.rows
  | forget h _ _ outcome => exact keeps_forgotten hsingle h.admitted outcome h.rows
  | again h => exact keeps_admitRow now hsingle h.admitted h.rows
  | forgetAgain h _ outcome => exact keeps_forgotten hsingle h.admitted outcome h.rows
  | claim hload h =>
    cases h with
    | refused => exact ⟨.refl now _, hsingle⟩
    | lost hrun hrunner =>
      exact keeps_save _ hsingle hload rfl (DeploymentStatus.inFlight_of_claimed hrun) (by simp)
        fun h => by cases h
    | again hrun hrunner hpreview =>
      refine keeps_save _ hsingle hload rfl (DeploymentStatus.inFlight_of_claimed hrun) ?_
        fun h => h
      intro hqueued
      rw [hqueued] at hrun
      cases hrun
    | queued hqueued =>
      obtain ⟨row, hrow, -, rfl⟩ := Environment.load_mem hload
      refine ⟨.trans (.map fun other _ => follows_lose other) (.save ?_ (List.mem_map_of_mem hrow)
        (Stored.lose_id row) ?_), hsingle.claim rfl⟩
      · simpa [Function.comp_def] using hsingle.ids
      · have hstatus := Stored.status_of_statusAt hqueued (by simp)
        rw [Stored.lose, if_neg (by simp [hstatus, DeploymentStatus.claimed])]
        exact congrArg DeploymentStatus.inFlight hqueued
  | cancel hload hqueued =>
    exact keeps_save _ hsingle hload rfl (by rw [hqueued]; rfl) (by simp) fun h => by cases h
  | cancelling hload hrunning =>
    exact keeps_save _ hsingle hload rfl (by rw [hrunning]; rfl) (by simp) fun _ => by
      rw [hrunning]; rfl
  | forgetCluster =>
    refine ⟨.map fun row _ => follows_giveUp row, hsingle.map (fun row => ?_)
      (fun row _ hqueued => ?_) (.inl fun row _ hclaimed => ?_)⟩
    · unfold Stored.giveUp
      split_ifs <;> rfl
    · unfold Stored.giveUp at hqueued
      split_ifs at hqueued
      exact hqueued
    · unfold Stored.giveUp at hclaimed
      split_ifs at hclaimed
      · cases hclaimed
      · exact hclaimed
  | record hload hrunner h =>
    rcases h.rows_eq with hrows | ⟨written, hrows, hid, hrun, hqueued⟩
    · rw [hrows]
      exact ⟨.refl now _, hsingle⟩
    · rw [Stored.renew_status] at hrun
      rw [Stored.renew_id] at hid
      rw [hrows]
      exact keeps_save written hsingle hload hid (DeploymentStatus.inFlight_of_claimed hrun) hqueued
        fun _ => hrun

/-! ## Documents over a step -/

/-- The documents before and after a step: Saved revisions and introductions are only added, and
a new Working State is accepted, its nodes introduced. -/
structure Environment.Frame (env env' : Environment) : Prop where
  slug : env'.slug = env.slug
  history : env'.saved = env.saved ∨
    env'.saved = env.saved ++ [canonicalizeEnvironmentIntent env.working]
  introduced : Introduces env.introduced env'.introduced
  working : env'.working = env.working ∨
    WellFormed env'.working ∧ Kinded env'.introduced env'.working

theorem Environment.Frame.of_eq (hslug : env'.slug = env.slug) (hsaved : env'.saved = env.saved)
    (hintroduced : env'.introduced = env.introduced) (hworking : env'.working = env.working) :
    env.Frame env' :=
  ⟨hslug, .inl hsaved, fun _ _ htype => hintroduced ▸ htype, .inl hworking⟩

theorem Environment.advanced_frame {written : Stored} {succeeded : Bool}
    (h : env.advanced stored succeeded follow = .ok env') :
    env.Frame (env'.save written) := by
  rcases Environment.advanced_ok h with ⟨-, rfl⟩ | ⟨saved, -, rfl⟩ <;> exact .of_eq rfl rfl rfl rfl

theorem Environment.Recorded.frame (h : env.Recorded now stored follow evidence env') :
    env.Frame env' := by
  cases h with
  | same | alive | prepared | lost => exact .of_eq rfl rfl rfl rfl
  | confirmed _ _ _ _ _ hadvanced => exact Environment.advanced_frame hadvanced
  | executed _ _ _ _ _ _ hadvanced => exact Environment.advanced_frame hadvanced
  | stopped _ _ _ hadvanced => exact Environment.advanced_frame hadvanced

theorem Environment.Ships.frame (h : env.Ships row env') : env.Frame env' :=
  ⟨h.slug, h.history, fun _ _ htype => h.introduced ▸ htype, .inl h.working⟩

theorem Environment.Effect.frame (h : env.Effect now op env') : env.Frame env' := by
  cases h with
  | keep _ _ _ hslug hhistory hgrows hworking => exact ⟨hslug, hhistory, hgrows, hworking⟩
  | ship _ h => exact h.frame
  | forget h =>
    have hframe := h.frame
    exact ⟨hframe.slug, hframe.history, hframe.introduced, hframe.working⟩
  | again h => rw [h.env_eq]; exact .of_eq rfl rfl rfl rfl
  | forgetAgain h => rw [h.env_eq]; exact .of_eq rfl rfl rfl rfl
  | claim _ h => cases h <;> exact .of_eq rfl rfl rfl rfl
  | cancel | cancelling | forgetCluster => exact .of_eq rfl rfl rfl rfl
  | record _ _ h => exact h.frame

theorem Environment.Frame.wellFormed (h : env.Frame env') (hworking : WellFormed env.working) :
    WellFormed env'.working := by
  rcases h.working with heq | hnew
  · rw [heq]
    exact hworking
  · exact hnew.1

/-! ## Whole runs -/

/-- What every run keeps: a Working State that is accepted, and at most one Deployment queued and
one claimed. -/
structure World.Sound (w : World) : Prop where
  working : WellFormed w.env.working
  single : SingleFlight w.env.deployments

namespace World

variable {w : World}

theorem wellFormed_emptyIntent (slug : EnvironmentSlug) : WellFormed (emptyIntent slug.value) := by
  have hnone : ∀ uuid, Identities uuid [] := fun _ => ⟨List.nodup_nil, fun _ h => by cases h⟩
  exact ⟨⟨rfl, slug.nonempty, hnone _, hnone _, hnone _, hnone _, hnone _, hnone _,
    fun _ => (nomatch ·), fun _ => (nomatch ·)⟩, fun _ => (nomatch ·)⟩

theorem created_sound (slug : EnvironmentSlug) (clock : Nat) : (created slug clock).Sound :=
  ⟨wellFormed_emptyIntent slug, List.nodup_nil, .nil, .nil⟩

theorem Sound.next (h : w.Sound) (op : Op) : (w.next op).Sound := by
  have heffect := Environment.next_effect h.working op
  exact ⟨heffect.frame.wellFormed h.working, (heffect.keeps h.single).2⟩

theorem Sound.after (h : w.Sound) (ops : List Op) : (w.after ops).Sound :=
  after_induction (fun _ op h => h.next op) h ops

theorem statusAt_later {now later : Nat} (hle : now ≤ later)
    (hended : (row.statusAt now).inFlight = false) : row.statusAt later = row.statusAt now := by
  unfold Stored.statusAt at *
  unfold Stored.lapsed at *
  cases hclaimed : row.status.claimed with
  | false => simp
  | true =>
    have hlapsed : row.lease ≤ now := by
      by_contra hno
      simp only [hclaimed, hno, decide_false, Bool.and_false, Bool.false_eq_true,
        if_false] at hended
      rw [DeploymentStatus.inFlight_of_claimed hclaimed] at hended
      cases hended
    simp [hlapsed, hlapsed.trans hle]

theorem statusOf_next (h : w.Sound) (hstatus : w.statusOf id = some status)
    (hended : status.inFlight = false) (op : Op) : (w.next op).statusOf id = some status := by
  obtain ⟨row, hrow, hread⟩ := Option.map_eq_some_iff.mp hstatus
  obtain ⟨row', hrow', hfollows⟩ :=
    ((Environment.next_effect h.working op).keeps h.single).1.find hrow
  have hended' : (row.statusAt w.clock).inFlight = false := by rw [hread]; exact hended
  have hnow := (hfollows.ended hended').trans hread
  have hclock : w.clock ≤ (w.next op).clock := by
    cases op <;> simp [World.next]
  refine Option.map_eq_some_iff.mpr ⟨row', hrow', ?_⟩
  rw [statusAt_later hclock (by rw [hnow]; exact hended), hnow]

theorem statusOf_after (h : w.Sound) (hstatus : w.statusOf id = some status)
    (hended : status.inFlight = false) (ops : List Op) :
    (w.after ops).statusOf id = some status := by
  have hnext : ∀ (w : World) (op : Op), w.Sound ∧ w.statusOf id = some status →
      (w.next op).Sound ∧ (w.next op).statusOf id = some status :=
    fun w op h => ⟨h.1.next op, statusOf_next h.1 h.2 hended op⟩
  exact (after_induction hnext ⟨h, hstatus⟩ ops).2

/-! ## Applied State over a step -/

theorem recordedApplied (h : env.Recorded now stored follow evidence env') :
    env'.applied = env.applied ∨ stored.status.claimed = true := by
  cases h with
  | same => exact .inl rfl
  | alive hrun | prepared hrun | confirmed hrun | executed hrun | stopped hrun | lost hrun =>
    exact .inr hrun

/-- The row a removal without a runner leaves. -/
theorem mem_forgotten (hrow : env.Admitted row) (outcome : Outcome)
    (hrows : env'.deployments = env.deployments.map (·.supersede) ++ [row]) :
    ∃ done ∈ (env'.forgotten now row outcome).deployments, done.id = row.id ∧
      done.saved = row.saved ∧ done.status = .applied ∧ done.runner = none := by
  refine ⟨(Environment.forgottenRow row now outcome).put row, ?_, ?_⟩
  · refine List.mem_map_of_mem ?_
    show row ∈ env'.deployments
    simp [hrows]
  · have hid : row.id = (Environment.forgottenRow row now outcome).id := rfl
    rw [Stored.put, if_pos hid]
    exact ⟨rfl, rfl, Stored.ended_applied_status _ _ _, hrow.runner⟩

/-- Applied State changes only by a record of the runner that holds the Deployment, by a removal
that applies without a runner, or by forgetting the Cluster. -/
theorem applied_next (h : w.Sound) (hchanged : (w.next op).env.applied ≠ w.env.applied) :
    (∃ id runner evidence follow, op = .record id runner evidence follow ∧
      ∃ row ∈ w.env.deployments, row.id = id ∧ row.runner = some runner ∧
        (row.statusAt w.clock).claimed = true) ∨
    (∃ row ∈ (w.next op).env.deployments, (∀ other ∈ w.env.deployments, other.id ≠ row.id) ∧
      row.remove = true ∧ row.status = .applied ∧ row.runner = none) ∨
    op = .forgetCluster := by
  have heffect := Environment.next_effect h.working op
  generalize (w.next op).env = env' at heffect hchanged
  cases heffect with
  | keep _ _ happlied => exact absurd happlied hchanged
  | ship _ h => exact absurd h.applied hchanged
  | forget h hremove _ outcome =>
    obtain ⟨done, hdone, hid, hsaved, hstatus, hrunner⟩ :=
      mem_forgotten h.admitted outcome h.rows
    refine .inr (.inl ⟨done, hdone, fun other hother => hid ▸ h.admitted.fresh other hother, ?_,
      hstatus, hrunner⟩)
    simp [Stored.remove, hsaved, hremove]
  | again h => exact absurd (by rw [h.env_eq]) hchanged
  | forgetAgain h hremove outcome =>
    obtain ⟨done, hdone, hid, hsaved, hstatus, hrunner⟩ :=
      mem_forgotten h.admitted outcome h.rows
    refine .inr (.inl ⟨done, hdone, fun other hother => hid ▸ h.admitted.fresh other hother, ?_,
      hstatus, hrunner⟩)
    rw [Stored.remove, hsaved]
    exact hremove
  | claim _ h => cases h <;> exact absurd rfl hchanged
  | cancel | cancelling => exact absurd rfl hchanged
  | forgetCluster => exact .inr (.inr rfl)
  | record hload hrunner h =>
    rcases recordedApplied h with happlied | hrun
    · exact absurd happlied hchanged
    · obtain ⟨row, hrow, hid, rfl⟩ := Environment.load_mem hload
      rw [Stored.renew_status] at hrun
      exact .inl ⟨_, _, _, _, rfl, row, hrow, hid, hrunner, hrun⟩

/-- The Deployments that read a status `p` holds of. -/
def reading (w : World) (p : DeploymentStatus → Bool) : List Stored :=
  w.env.deployments.filter fun row => p (row.statusAt w.clock)

theorem reading_length_le_one {p : DeploymentStatus → Bool} {q : Stored → Prop}
    (hp : ∀ row ∈ w.env.deployments, p (row.statusAt w.clock) = true → q row)
    (hq : w.env.deployments.Pairwise fun a b => ¬(q a ∧ q b)) : (w.reading p).length ≤ 1 := by
  have hpairs : (w.reading p).Pairwise fun a b => ¬(q a ∧ q b) := hq.filter _
  have hall : ∀ row ∈ w.reading p, q row := fun row hrow =>
    hp row (List.mem_filter.mp hrow).1 (List.mem_filter.mp hrow).2
  match hreading : w.reading p with
  | [] | [_] => simp
  | a :: b :: rest =>
    rw [hreading] at hpairs hall
    exact absurd ⟨hall a (by simp), hall b (by simp)⟩
      ((List.pairwise_cons.mp hpairs).1 b (by simp))

end World

/-- Over every run of an Environment's Deployments: at most one is queued and at most one is
running or cancelling; one that reads superseded, applied, failed, cancelled or unknown reads
that from then on; and Applied State changes only by evidence from the runner that holds the
running Deployment, by a removal that applies without a runner, or by forgetting the Cluster. -/
theorem deployments_lifecycle (slug : EnvironmentSlug) (clock : Nat) (ops : List Op) :
    let w := (World.created slug clock).after ops
    (w.reading (· == .queued)).length ≤ 1 ∧ (w.reading (·.claimed)).length ≤ 1 ∧
    (∀ id status, w.statusOf id = some status → status.inFlight = false →
      ∀ later, (w.after later).statusOf id = some status) ∧
    ∀ op, (w.next op).env.applied ≠ w.env.applied →
      (∃ id runner evidence follow, op = .record id runner evidence follow ∧
        ∃ row ∈ w.env.deployments, row.id = id ∧ row.runner = some runner ∧
          (row.statusAt w.clock).claimed = true) ∨
      (∃ row ∈ (w.next op).env.deployments, (∀ other ∈ w.env.deployments, other.id ≠ row.id) ∧
        row.remove = true ∧ row.status = .applied ∧ row.runner = none) ∨
      op = .forgetCluster := by
  intro w
  have hsound : w.Sound := (World.created_sound slug clock).after ops
  refine ⟨?_, ?_, ?_, ?_⟩
  · refine World.reading_length_le_one (fun row _ hqueued => ?_) hsound.single.queued
    exact Stored.status_of_statusAt (by simpa using hqueued) (by simp)
  · exact World.reading_length_le_one (fun row _ hclaimed => Stored.claimed_of_statusAt hclaimed)
      hsound.single.claimed
  · intro id status hstatus hended later
    exact World.statusOf_after hsound hstatus hended later
  · intro op hchanged
    exact World.applied_next hsound hchanged

namespace Sample

def firstService : List Op :=
  [.edit (.holding [mounting webId web []] []), deployAll "first" [], claim "first",
    record "first" (.prepared (previewOf [web])), record "first" (.executed (completed [web]) [])]

/-- Forgetting the Cluster empties Applied State: no runner holds a Deployment and none is admitted.
-/
theorem forgotten_cluster_empties_applied :
    let w := (World.created slug 0).after firstService
    w.env.applied.size = 1 ∧ (w.next .forgetCluster).env.applied.size = 0 ∧
      (w.reading (·.claimed)).length = 0 ∧
      (w.next .forgetCluster).env.deployments.length = w.env.deployments.length := by
  decide +kernel

end Sample

end Ployz
