import Ployz.Lib.Passes
import Ployz.Store.Deployment.Applied
import Mathlib.Data.Finset.Sort
import Mathlib.Data.Finset.Card

/-!
# Branch planning

Which Parent nodes a Branch copies, uses live, or leaves out. Passes over the links between nodes
give each node a role: what an Own Copy uses is copied too when it is a Volume or the Parent does
not run it, and is used live otherwise.

Main theorem: `branch_roles`. The passes end, with the least roles closed under links, whatever the
order of Services, variables, mounts and picks.
-/

namespace Ployz.BranchPlanning

open Relation Passes

/-- A starting selection: every preset derives its picks from the focus. -/
inductive BranchPreset
  | only
  | uses
  | all
deriving DecidableEq, Repr

/-- The nodes a caller wants as Own Copies, by preset or by hand. -/
inductive BranchPicks
  | preset (preset : BranchPreset)
  | own (own : List String)

/-- Why a node is an Own Copy. -/
inductive BranchNodeReason
  | picked
  | used
  | parentNotDeployed
deriving DecidableEq, Repr

/-- What the Branch does with a Parent node; only an Own Copy says why. -/
inductive BranchNodeRole
  | own (because : BranchNodeReason)
  | live
  | leftOut
deriving DecidableEq, Repr

structure BranchPlanNode where
  lineageId : String
  nodeType : EnvironmentNodeType
  role : BranchNodeRole
deriving DecidableEq, Repr

/-- Every Parent node's role, and the preset the picks match. -/
structure BranchPlan where
  nodes : List BranchPlanNode
  preset : Option BranchPreset
deriving DecidableEq, Repr

section

variable (parent : SavedEnvironmentIntent)

/-- Every (user, used) lineage pair of a Service: variable references to other Services, and
mounts. -/
def serviceLinks (service : SavedServiceIntent) : List (String × String) :=
  (service.vars.flatMap fun v =>
    (v.value.referencedLineages.filter (· ≠ service.lineageId)).map (service.lineageId, ·)) ++
  service.volumeAttachments.filterMap fun attachment =>
    (parent.volumes.find? (·.resourceId == attachment.volumeResourceId)).map
      (service.lineageId, ·.resourceLineageId)

def links : List (String × String) := parent.services.flatMap (serviceLinks parent)

def volumes : Finset String := (parent.volumes.map (·.resourceLineageId)).toFinset

def owned : Finset String := (parent.services.map (·.lineageId)).toFinset ∪ volumes parent

/-- Lineages the Parent itself uses live. -/
def parentLive : Finset String := ((links parent).map (·.2)).toFinset \ owned parent

def known (ids : List String) (path : String) : Except ConfigError Unit :=
  if ∀ id ∈ ids, id ∈ owned parent then .ok () else .error ⟨path, "Unknown lineage in the Parent"⟩

def stepUses (link : String × String) (set : Finset String) : Option (Finset String) :=
  if link.1 ∈ set ∧ link.2 ∈ owned parent ∧ link.2 ∉ set then some (insert link.2 set) else none

def presetPicks (passes : Nat) (focus : List String) : BranchPreset → Option (Finset String)
  | .only => some focus.toFinset
  | .all => some (owned parent)
  | .uses => closeOver (stepUses parent) (links parent) passes focus.toFinset

def pickedNodes (passes : Nat) (focus : List String) :
    BranchPicks → Option (Except ConfigError (Finset String))
  | .preset preset => (presetPicks parent passes focus preset).map .ok
  | .own own => some ((known parent own "picks.own").map fun _ => own.toFinset)

abbrev Roles := String → Option BranchNodeRole

def startRoles (picked : Finset String) : Roles := fun id =>
  if id ∈ parentLive parent then some .live
  else if id ∈ owned parent then some (if id ∈ picked then .own .picked else .leftOut)
  else none

/-- What a left-out node that an Own Copy uses becomes. -/
def usedRole (deployed : List String) (id : String) : BranchNodeRole :=
  if id ∈ volumes parent then .own .used
  else if id ∈ deployed then .live
  else .own .parentNotDeployed

def stepRole (deployed : List String) (link : String × String) (roles : Roles) : Option Roles :=
  match roles link.1, roles link.2 with
  | some (.own _), some .leftOut =>
    some (Function.update roles link.2 (some (usedRole parent deployed link.2)))
  | _, _ => none

/-- Owned nodes in document order, then the Parent's live lineages. -/
def typed : List (String × EnvironmentNodeType) :=
  parent.services.map (·.lineageId, .service) ++
    parent.volumes.map (·.resourceLineageId, .volume) ++
    ((parentLive parent).sort (· ≤ ·)).map (·, .service)

def planNodes (roles : Roles) : List BranchPlanNode :=
  (typed parent).filterMap fun (lineageId, nodeType) =>
    (roles lineageId).map (⟨lineageId, nodeType, ·⟩)

/-- Plan a Branch of `parent`; `deployed` lists the lineages the Parent runs. Nothing is returned if
more than `passes` passes over the links are needed. -/
def planBranch (passes : Nat) (deployed focus : List String) (picks : BranchPicks) :
    Option (Except ConfigError BranchPlan) :=
  match known parent focus "focus" with
  | .error error => some (.error error)
  | .ok _ =>
    match pickedNodes parent passes focus picks with
    | none => none
    | some (.error error) => some (.error error)
    | some (.ok picked) => do
      let roles ← closeOver (stepRole parent deployed) (links parent) passes
        (startRoles parent picked)
      let preset ← [BranchPreset.only, .uses, .all].findM? fun preset => do
        let set ← presetPicks parent passes focus preset
        return decide (set = picked)
      return .ok ⟨planNodes parent roles, preset⟩

end

/-! ## The least roles -/

def Picked (parent : SavedEnvironmentIntent) (focus : List String) : BranchPicks → Set String
  | .own own => { id | id ∈ own }
  | .preset .only => { id | id ∈ focus }
  | .preset .all => { id | id ∈ owned parent }
  | .preset .uses => { id | ∃ start ∈ focus,
      ReflTransGen (fun a b => (a, b) ∈ links parent ∧ b ∈ owned parent) start id }

section

variable (parent : SavedEnvironmentIntent) (deployed : List String) (picked : Set String)

/-- A link to an unpicked Volume, or to an unpicked Service of the Parent that it does not run. -/
def CopiesAlong (a b : String) : Prop :=
  (a, b) ∈ links parent ∧ b ∈ owned parent ∧ b ∉ picked ∧ (b ∈ volumes parent ∨ b ∉ deployed)

/-- Reached from a pick through such links. -/
def IsOwn (id : String) : Prop :=
  ∃ start ∈ picked, ReflTransGen (CopiesAlong parent deployed picked) start id

/-- An unpicked deployed Service an Own Copy uses, or a lineage the Parent itself uses live. -/
def IsLive (id : String) : Prop :=
  id ∈ parentLive parent ∨ (id ∈ owned parent ∧ id ∉ picked ∧ id ∉ volumes parent ∧ id ∈ deployed ∧
    ∃ user, IsOwn parent deployed picked user ∧ (user, id) ∈ links parent)

open Classical in
noncomputable def roleOf (id : String) : Option BranchNodeRole :=
  if IsOwn parent deployed picked id then
    some (.own (if id ∈ picked then .picked else if id ∈ volumes parent then .used
      else .parentNotDeployed))
  else if IsLive parent deployed picked id then some .live
  else if id ∈ owned parent then some .leftOut
  else none

end

variable {parent : SavedEnvironmentIntent} {deployed : List String} {picked : Set String}

variable {id : String} {link : String × String}

theorem IsOwn.of_not_picked (h : IsOwn parent deployed picked id) (hid : id ∉ picked) :
    id ∈ owned parent ∧ (id ∈ volumes parent ∨ id ∉ deployed) := by
  obtain ⟨start, hstart, hpath⟩ := h
  rcases hpath.cases_tail with rfl | ⟨user, -, hlink⟩
  · exact absurd hstart hid
  · exact ⟨hlink.2.1, hlink.2.2.2⟩

theorem IsOwn.owned (hpicked : ∀ id ∈ picked, id ∈ owned parent)
    (h : IsOwn parent deployed picked id) : id ∈ BranchPlanning.owned parent := by
  by_cases hid : id ∈ picked
  · exact hpicked id hid
  · exact (h.of_not_picked hid).1

theorem not_owned_of_live (h : id ∈ parentLive parent) : id ∉ owned parent :=
  (Finset.mem_sdiff.mp h).2

theorem IsLive.not_own (hpicked : ∀ id ∈ picked, id ∈ owned parent)
    (h : IsLive parent deployed picked id) : ¬ IsOwn parent deployed picked id := by
  intro hown
  rcases h with hlive | ⟨-, hid, hvolume, hdeployed, -⟩
  · exact not_owned_of_live hlive (hown.owned hpicked)
  · rcases (hown.of_not_picked hid).2 with h | h
    · exact hvolume h
    · exact h hdeployed

/-- What an Own Copy uses is not left out. -/
theorem roleOf_ne_leftOut {user : String} (huser : IsOwn parent deployed picked user)
    (hlink : (user, id) ∈ links parent) : roleOf parent deployed picked id ≠ some .leftOut := by
  intro hleft
  unfold roleOf at hleft
  split_ifs at hleft with hown hp hv hlive howned
  · cases hleft
  · cases hleft
  · cases hleft
  · cases hleft
  · have hid : id ∉ picked := fun h => hown ⟨id, h, .refl⟩
    by_cases hcopies : id ∈ volumes parent ∨ id ∉ deployed
    · obtain ⟨start, hstart, hpath⟩ := huser
      exact hown ⟨start, hstart, hpath.tail ⟨hlink, howned, hid, hcopies⟩⟩
    · rw [not_or, not_not] at hcopies
      exact hlive (.inr ⟨howned, hid, hcopies.1, hcopies.2, user, huser, hlink⟩)

/-! ## Passes over roles -/

/-- Roles that are right as far as they go: a left-out node may still be used by an Own Copy. -/
structure Sound (parent : SavedEnvironmentIntent) (deployed : List String) (picked : Set String)
    (roles : Roles) : Prop where
  same : ∀ id, roles id ≠ some .leftOut → roles id = roleOf parent deployed picked id
  leftOut : ∀ id, roles id = some .leftOut → id ∈ owned parent ∧ id ∉ picked

variable {roles : Roles}

theorem stepRole_eq_some {later : Roles} :
    stepRole parent deployed link roles = some later ↔
      (∃ because, roles link.1 = some (.own because)) ∧ roles link.2 = some .leftOut ∧
        later = Function.update roles link.2 (some (usedRole parent deployed link.2)) := by
  unfold stepRole
  split
  · rename_i because huser hused
    simp [huser, hused, eq_comm]
  · rename_i hnot
    simp only [reduceCtorEq, false_iff]
    rintro ⟨⟨because, huser⟩, hused, -⟩
    exact hnot because huser hused

theorem isOwn_of_roleOf {because : BranchNodeReason}
    (h : roleOf parent deployed picked id = some (.own because)) :
    IsOwn parent deployed picked id := by
  by_contra hown
  rw [roleOf, if_neg hown] at h
  split_ifs at h <;> cases h

theorem usedRole_ne (id : String) : usedRole parent deployed id ≠ .leftOut := by
  unfold usedRole
  split_ifs <;> simp

theorem Sound.start {set : Finset String} (hset : ∀ id, id ∈ set ↔ id ∈ picked)
    (hpicked : ∀ id ∈ picked, id ∈ owned parent) :
    Sound parent deployed picked (startRoles parent set) := by
  constructor
  · intro id hne
    unfold startRoles at hne ⊢
    by_cases hlive : id ∈ parentLive parent
    · have hIsLive : IsLive parent deployed picked id := .inl hlive
      rw [if_pos hlive, roleOf, if_neg (hIsLive.not_own hpicked), if_pos hIsLive]
    by_cases howned : id ∈ owned parent
    · by_cases hid : id ∈ picked
      · have hown : IsOwn parent deployed picked id := ⟨id, hid, .refl⟩
        rw [if_neg hlive, if_pos howned, if_pos ((hset id).mpr hid), roleOf, if_pos hown,
          if_pos hid]
      · rw [if_neg hlive, if_pos howned, if_neg (mt (hset id).mp hid)] at hne
        exact absurd rfl hne
    · have hown : ¬ IsOwn parent deployed picked id := fun h => howned (h.owned hpicked)
      have hnot : ¬ IsLive parent deployed picked id := fun h => h.elim hlive fun h => howned h.1
      rw [if_neg hlive, if_neg howned, roleOf, if_neg hown, if_neg hnot, if_neg howned]
  · intro id hid
    unfold startRoles at hid
    split_ifs at hid with hlive howned hmem
    · cases hid
    · cases hid
    · exact ⟨howned, mt (hset id).mpr hmem⟩

theorem Sound.step (hlink : link ∈ links parent) {later : Roles}
    (h : Sound parent deployed picked roles)
    (hstep : stepRole parent deployed link roles = some later) :
    Sound parent deployed picked later := by
  obtain ⟨⟨because, huser⟩, hused, rfl⟩ := stepRole_eq_some.mp hstep
  obtain ⟨howned, hid⟩ := h.leftOut _ hused
  have hown : IsOwn parent deployed picked link.1 := by
    apply isOwn_of_roleOf
    rw [← h.same link.1 (by simp [huser]), huser]
  have hrole : some (usedRole parent deployed link.2) = roleOf parent deployed picked link.2 := by
    have hcopied (hcopies : link.2 ∈ volumes parent ∨ link.2 ∉ deployed) :
        IsOwn parent deployed picked link.2 := by
      obtain ⟨start, hstart, hpath⟩ := hown
      exact ⟨start, hstart, hpath.tail ⟨hlink, howned, hid, hcopies⟩⟩
    unfold usedRole roleOf
    by_cases hvolume : link.2 ∈ volumes parent
    · rw [if_pos hvolume, if_pos (hcopied (.inl hvolume)), if_neg hid, if_pos hvolume]
    by_cases hdeployed : link.2 ∈ deployed
    · have hnot : ¬ IsOwn parent deployed picked link.2 := by
        intro hcopy
        rcases (hcopy.of_not_picked hid).2 with h | h
        · exact hvolume h
        · exact h hdeployed
      have hlive : IsLive parent deployed picked link.2 :=
        .inr ⟨howned, hid, hvolume, hdeployed, link.1, hown, hlink⟩
      rw [if_neg hvolume, if_pos hdeployed, if_neg hnot, if_pos hlive]
    · rw [if_neg hvolume, if_neg hdeployed, if_pos (hcopied (.inr hdeployed)), if_neg hid,
        if_neg hvolume]
  constructor
  · intro id hne
    by_cases heq : id = link.2
    · rw [heq, Function.update_self, hrole]
    · rw [Function.update_of_ne heq] at hne ⊢
      exact h.same id hne
  · intro id hleft
    by_cases heq : id = link.2
    · rw [heq, Function.update_self] at hleft
      exact absurd (Option.some.inj hleft) (usedRole_ne _)
    · rw [Function.update_of_ne heq] at hleft
      exact h.leftOut id hleft

/-- Roles that no pass changes are the least ones. -/
theorem Sound.eq_roleOf (h : Sound parent deployed picked roles)
    (hstuck : ∀ link ∈ links parent, stepRole parent deployed link roles = none) :
    roles = roleOf parent deployed picked := by
  have huse : ∀ user used, (∃ because, roles user = some (.own because)) →
      (user, used) ∈ links parent → roles used ≠ some .leftOut := by
    intro user used huser hlink hused
    have hnone := hstuck _ hlink
    rw [stepRole_eq_some.mpr ⟨huser, hused, rfl⟩] at hnone
    cases hnone
  have hown : ∀ id, IsOwn parent deployed picked id →
      ∃ because, roles id = some (.own because) := by
    rintro id ⟨start, hstart, hpath⟩
    have hrole : ∀ x, IsOwn parent deployed picked x → roles x ≠ some .leftOut →
        ∃ because, roles x = some (.own because) := by
      intro x hx hne
      rw [h.same x hne, roleOf, if_pos hx]
      exact ⟨_, rfl⟩
    induction hpath with
    | refl => exact hrole _ ⟨_, hstart, .refl⟩ fun hleft => (h.leftOut _ hleft).2 hstart
    | tail hpath hlink ih => exact hrole _ ⟨_, hstart, hpath.tail hlink⟩ (huse _ _ ih hlink.1)
  funext id
  by_cases hleft : roles id = some .leftOut
  · obtain ⟨howned, -⟩ := h.leftOut id hleft
    have hnot : ¬ IsOwn parent deployed picked id := by
      intro hid
      obtain ⟨because, hbecause⟩ := hown id hid
      rw [hleft] at hbecause
      cases hbecause
    have hlive : ¬ IsLive parent deployed picked id := by
      rintro (hlive | ⟨-, -, -, -, user, huser, hlink⟩)
      · exact not_owned_of_live hlive howned
      · exact huse user id (hown user huser) hlink hleft
    rw [hleft, roleOf, if_neg hnot, if_neg hlive, if_pos howned]
  · exact h.same id hleft

/-! ## Passes end -/

def usedCount (parent : SavedEnvironmentIntent) (p : String → Prop) [DecidablePred p] : Nat :=
  (((links parent).map (·.2)).toFinset.filter p).card

theorem usedCount_le (p : String → Prop) [DecidablePred p] :
    usedCount parent p ≤ (links parent).length := by
  refine (Finset.card_filter_le _ _).trans ((List.toFinset_card_le _).trans ?_)
  rw [List.length_map]

theorem usedCount_lt {p q : String → Prop} [DecidablePred p] [DecidablePred q]
    (hqp : ∀ id, q id → p id) (hlink : link ∈ links parent) (hp : p link.2) (hq : ¬ q link.2) :
    usedCount parent q < usedCount parent p := by
  apply Finset.card_lt_card
  refine ⟨fun id hid => ?_, fun hsub => ?_⟩
  · obtain ⟨hmem, hqid⟩ := Finset.mem_filter.mp hid
    exact Finset.mem_filter.mpr ⟨hmem, hqp id hqid⟩
  · have hmem : link.2 ∈ ((links parent).map (·.2)).toFinset :=
      List.mem_toFinset.mpr (List.mem_map_of_mem hlink)
    exact hq (Finset.mem_filter.mp (hsub (Finset.mem_filter.mpr ⟨hmem, hp⟩))).2

/-- Passes over roles end with the least ones. -/
theorem roles_end {set : Finset String} (hset : ∀ id, id ∈ set ↔ id ∈ picked)
    (hpicked : ∀ id ∈ picked, id ∈ owned parent) {passes : Nat}
    (hpasses : (links parent).length < passes) :
    closeOver (stepRole parent deployed) (links parent) passes (startRoles parent set) =
      some (roleOf parent deployed picked) := by
  have hmeasure : ∀ roles later : Roles,
    Changes (stepRole parent deployed) (links parent) roles later →
      usedCount parent (later · = some .leftOut) < usedCount parent (roles · = some .leftOut) := by
    rintro roles later ⟨link, hlink, hstep⟩
    obtain ⟨-, hused, rfl⟩ := stepRole_eq_some.mp hstep
    refine usedCount_lt (fun id hid => ?_) hlink hused (by simp [usedRole_ne])
    by_cases heq : id = link.2
    · rw [heq]
      exact hused
    · rwa [Function.update_of_ne heq] at hid
  obtain ⟨last, hlast, hreached, hstuck⟩ := closeOver_ends hmeasure (startRoles parent set)
  have hsound : Sound parent deployed picked last := by
    clear hlast hstuck
    induction hreached with
    | refl => exact .start hset hpicked
    | tail _ hchange ih =>
      obtain ⟨link, hlink, hstep⟩ := hchange
      exact ih.step hlink hstep
  rw [hlast passes (Nat.lt_of_le_of_lt (usedCount_le _) hpasses), hsound.eq_roleOf hstuck]

/-- Every preset has its picks. -/
theorem exists_presetPicks (parent : SavedEnvironmentIntent) (focus : List String)
    (preset : BranchPreset) :
    ∃ set : Finset String, (∀ id, id ∈ set ↔ id ∈ Picked parent focus (.preset preset)) ∧
      ∀ passes, (links parent).length < passes →
        presetPicks parent passes focus preset = some set := by
  cases preset with
  | only => exact ⟨focus.toFinset, fun id => List.mem_toFinset, fun _ _ => rfl⟩
  | all => exact ⟨owned parent, fun id => Iff.rfl, fun _ _ => rfl⟩
  | uses =>
    have hstep {link : String × String} {set later : Finset String} :
        stepUses parent link set = some later ↔
          (link.1 ∈ set ∧ link.2 ∈ owned parent ∧ link.2 ∉ set) ∧ insert link.2 set = later := by
      unfold stepUses
      split_ifs with h
      · simp [h]
      · simp [h]
    have hmeasure : ∀ set later : Finset String,
        Changes (stepUses parent) (links parent) set later →
        usedCount parent (· ∉ later) < usedCount parent (· ∉ set) := by
      rintro set later ⟨link, hlink, hchange⟩
      obtain ⟨⟨-, -, hnew⟩, rfl⟩ := hstep.mp hchange
      exact usedCount_lt (fun id hid hmem => hid (Finset.mem_insert_of_mem hmem)) hlink hnew
        (not_not.mpr (Finset.mem_insert_self _ _))
    obtain ⟨last, hlast, hreached, hstuck⟩ := closeOver_ends hmeasure focus.toFinset
    refine ⟨last, fun id => ⟨?_, ?_⟩, fun passes hpasses =>
      hlast passes (Nat.lt_of_le_of_lt (usedCount_le _) hpasses)⟩
    · clear hlast hstuck
      induction hreached generalizing id with
      | refl => exact fun hid => ⟨id, List.mem_toFinset.mp hid, .refl⟩
      | tail _ hchange ih =>
        obtain ⟨link, hlink, hchange⟩ := hchange
        obtain ⟨⟨huser, howned, -⟩, rfl⟩ := hstep.mp hchange
        intro hid
        rcases Finset.mem_insert.mp hid with rfl | hid
        · obtain ⟨start, hstart, hpath⟩ := ih link.1 huser
          exact ⟨start, hstart, hpath.tail ⟨hlink, howned⟩⟩
        · exact ih id hid
    · rintro ⟨start, hstart, hpath⟩
      induction hpath with
      | refl =>
        have hsub : ∀ x ∈ focus.toFinset, x ∈ last := by
          clear hlast hstuck
          induction hreached with
          | refl => exact fun _ h => h
          | tail _ hchange ih =>
            obtain ⟨link, -, hchange⟩ := hchange
            obtain ⟨-, rfl⟩ := hstep.mp hchange
            exact fun x hx => Finset.mem_insert_of_mem (ih x hx)
        exact hsub _ (List.mem_toFinset.mpr hstart)
      | tail _ hlink ih =>
        by_contra hnot
        have hnone := hstuck _ hlink.1
        rw [hstep.mpr ⟨⟨ih, hlink.2, hnot⟩, rfl⟩] at hnone
        cases hnone

/-! ## Plans -/

theorem mem_planNodes {node : BranchPlanNode} :
    node ∈ planNodes parent roles ↔
      (node.lineageId, node.nodeType) ∈ typed parent ∧ roles node.lineageId = some node.role := by
  simp only [planNodes, List.mem_filterMap, Option.map_eq_some_iff]
  constructor
  · rintro ⟨pair, hpair, role, hrole, rfl⟩
    exact ⟨hpair, hrole⟩
  · rintro ⟨hpair, hrole⟩
    exact ⟨_, hpair, node.role, hrole, rfl⟩

theorem mem_of_typed {pair : String × EnvironmentNodeType} (h : pair ∈ typed parent) :
    pair.1 ∈ owned parent ∨ pair.1 ∈ parentLive parent := by
  simp only [typed, List.mem_append, List.mem_map, Finset.mem_sort] at h
  rcases h with (⟨service, hservice, rfl⟩ | ⟨volume, hvolume, rfl⟩) | ⟨id, hid, rfl⟩
  · exact .inl (Finset.mem_union_left _ (List.mem_toFinset.mpr (List.mem_map_of_mem hservice)))
  · exact .inl (Finset.mem_union_right _ (List.mem_toFinset.mpr (List.mem_map_of_mem hvolume)))
  · exact .inr hid

theorem exists_roleOf (deployed : List String) (picked : Set String)
    (h : id ∈ owned parent ∨ id ∈ parentLive parent) :
    ∃ role, roleOf parent deployed picked id = some role := by
  unfold roleOf
  by_cases hown : IsOwn parent deployed picked id
  · exact ⟨_, if_pos hown⟩
  by_cases hlive : IsLive parent deployed picked id
  · exact ⟨_, by rw [if_neg hown, if_pos hlive]⟩
  · have howned := h.resolve_right fun h => hlive (.inl h)
    exact ⟨_, by rw [if_neg hown, if_neg hlive, if_pos howned]⟩

theorem lineages_planNodes :
    (planNodes parent (roleOf parent deployed picked)).map (·.lineageId) =
      (typed parent).map (·.1) := by
  rw [planNodes, List.map_filterMap, ← List.filterMap_eq_map]
  refine List.filterMap_congr fun pair hpair => ?_
  obtain ⟨role, hrole⟩ := exists_roleOf deployed picked (mem_of_typed hpair)
  simp [hrole]

/-- The focus and the picks name nodes the Parent owns. -/
def Known (parent : SavedEnvironmentIntent) (focus : List String) : BranchPicks → Prop
  | .preset _ => ∀ id ∈ focus, id ∈ owned parent
  | .own own => (∀ id ∈ focus, id ∈ owned parent) ∧ ∀ id ∈ own, id ∈ owned parent

theorem known_eq (ids : List String) (path : String) :
    known parent ids path = if ∀ id ∈ ids, id ∈ owned parent then .ok ()
      else .error ⟨path, "Unknown lineage in the Parent"⟩ := rfl

theorem owned_of_known {focus : List String} {picks : BranchPicks} (h : Known parent focus picks) :
    ∀ id ∈ Picked parent focus picks, id ∈ owned parent := by
  cases picks with
  | own own => exact h.2
  | preset preset =>
    cases preset with
    | only => exact h
    | all => exact fun _ hid => hid
    | uses =>
      rintro id ⟨start, hstart, hpath⟩
      rcases hpath.cases_tail with rfl | ⟨_, -, hlink⟩
      · exact h _ hstart
      · exact hlink.2

/-- What planning ends with: the least roles, or an error about the focus or the picks. -/
def Planned (parent : SavedEnvironmentIntent) (deployed focus : List String) (picks : BranchPicks)
    (result : Except ConfigError BranchPlan) : Prop :=
  (Known parent focus picks ∧ ∃ preset, result =
    .ok ⟨planNodes parent (roleOf parent deployed (Picked parent focus picks)), preset⟩) ∨
  (¬ Known parent focus picks ∧ result = .error ⟨if ∀ id ∈ focus, id ∈ owned parent then "picks.own"
    else "focus", "Unknown lineage in the Parent"⟩)

theorem planBranch_ends (parent : SavedEnvironmentIntent) (deployed focus : List String)
    (picks : BranchPicks) :
    ∃ result, (∀ passes, (links parent).length < passes →
      planBranch parent passes deployed focus picks = some result) ∧
      Planned parent deployed focus picks result := by
  obtain ⟨uses, -, huses⟩ := exists_presetPicks parent focus .uses
  -- The same picks are found with any number of passes that is large enough.
  have hpicked : Known parent focus picks → ∃ set : Finset String,
      (∀ id, id ∈ set ↔ id ∈ Picked parent focus picks) ∧
      ∀ passes, (links parent).length < passes →
        pickedNodes parent passes focus picks = some (.ok set) := by
    intro hknown
    cases picks with
    | own own =>
      refine ⟨own.toFinset, fun id => List.mem_toFinset, fun passes _ => ?_⟩
      rw [pickedNodes, known_eq, if_pos hknown.2]
      rfl
    | preset preset =>
      obtain ⟨set, hset, hpreset⟩ := exists_presetPicks parent focus preset
      refine ⟨set, hset, fun passes hpasses => ?_⟩
      rw [pickedNodes, hpreset passes hpasses]
      rfl
  by_cases hknown : Known parent focus picks
  · have hfocus : ∀ id ∈ focus, id ∈ owned parent := by
      cases picks with
      | own own => exact hknown.1
      | preset preset => exact hknown
    obtain ⟨set, hset, hpicks⟩ := hpicked hknown
    refine ⟨.ok ⟨planNodes parent (roleOf parent deployed (Picked parent focus picks)),
      if focus.toFinset = set then some .only else if uses = set then some .uses
        else if owned parent = set then some .all else none⟩, fun passes hpasses => ?_,
      .inl ⟨hknown, _, rfl⟩⟩
    rw [planBranch, known_eq, if_pos hfocus]
    dsimp only
    rw [hpicks passes hpasses]
    dsimp only
    rw [roles_end hset (owned_of_known hknown) hpasses]
    have honly : presetPicks parent passes focus .only = some focus.toFinset := rfl
    have hall : presetPicks parent passes focus .all = some (owned parent) := rfl
    simp only [List.findM?, honly, hall, huses passes hpasses, Option.bind_eq_bind,
      Option.bind_some, Option.pure_def]
    by_cases h1 : focus.toFinset = set
    · simp [h1]
    by_cases h2 : uses = set
    · simp [h1, h2]
    by_cases h3 : owned parent = set
    · simp [h1, h2, h3]
    · simp [h1, h2, h3]
  · refine ⟨_, fun passes _ => ?_, .inr ⟨hknown, rfl⟩⟩
    rw [planBranch, known_eq]
    split_ifs with hfocus
    · cases picks with
      | preset preset => exact absurd hfocus hknown
      | own own =>
        have hown : ¬ ∀ id ∈ own, id ∈ owned parent := fun h => hknown ⟨hfocus, h⟩
        simp only [pickedNodes, known_eq, if_neg hown]
        rfl
    · rfl

/-! ## Order -/

/-- A Service with its variables and mounts in another order. -/
def SameService (service other : SavedServiceIntent) : Prop :=
  ∃ vars volumeAttachments, service.vars.Perm vars ∧
    service.volumeAttachments.Perm volumeAttachments ∧
    other = { service with vars, volumeAttachments }

/-- A document with its Services, their variables and mounts in another order. -/
def Reordered (parent other : SavedEnvironmentIntent) : Prop :=
  ∃ services, List.Forall₂ SameService parent.services services ∧
    ∃ reordered, services.Perm reordered ∧ other = { parent with services := reordered }

inductive SamePicks : BranchPicks → BranchPicks → Prop
  | preset (preset : BranchPreset) : SamePicks (.preset preset) (.preset preset)
  | own {own other : List String} (h : own.Perm other) : SamePicks (.own own) (.own other)

/-- Two plans with the same nodes in the same roles, or the same refusal. -/
def SameRoles : Except ConfigError BranchPlan → Except ConfigError BranchPlan → Prop
  | .ok plan, .ok other => ∀ node, node ∈ plan.nodes ↔ node ∈ other.nodes
  | .error error, .error other => error = other
  | _, _ => False

variable {service other : SavedServiceIntent}

theorem SameService.mem_links (h : SameService service other)
    {reordered : List SavedServiceIntent} :
    link ∈ serviceLinks parent service ↔
      link ∈ serviceLinks { parent with services := reordered } other := by
  obtain ⟨vars, attachments, hvars, hattachments, rfl⟩ := h
  simp only [serviceLinks, List.mem_append]
  rw [(hvars.flatMap_right _).mem_iff, (hattachments.filterMap _).mem_iff]

theorem SameService.lineageId (h : SameService service other) :
    other.lineageId = service.lineageId := by
  obtain ⟨vars, attachments, -, -, rfl⟩ := h
  rfl

section

variable {services reordered : List SavedServiceIntent}

theorem mem_services_iff (hsame : List.Forall₂ SameService parent.services services)
    (hperm : services.Perm reordered) {p q : SavedServiceIntent → Prop}
    (hpq : ∀ service other, SameService service other → (p service ↔ q other)) :
    (∃ service ∈ parent.services, p service) ↔ ∃ service ∈ reordered, q service := by
  constructor
  · rintro ⟨service, hservice, hp⟩
    obtain ⟨other, hother, hR⟩ := Run.exists_of_mem_right hsame.flip hservice
    exact ⟨other, hperm.mem_iff.mp hother, (hpq service other hR).mp hp⟩
  · rintro ⟨other, hother, hq⟩
    obtain ⟨service, hservice, hR⟩ := Run.exists_of_mem_right hsame (hperm.mem_iff.mpr hother)
    exact ⟨service, hservice, (hpq service other hR).mpr hq⟩

theorem links_reordered (hsame : List.Forall₂ SameService parent.services services)
    (hperm : services.Perm reordered) (link : String × String) :
    link ∈ links parent ↔ link ∈ links { parent with services := reordered } := by
  simp only [links, List.mem_flatMap]
  exact mem_services_iff hsame hperm fun _ _ h => h.mem_links

theorem owned_reordered (hsame : List.Forall₂ SameService parent.services services)
    (hperm : services.Perm reordered) :
    owned { parent with services := reordered } = owned parent := by
  ext id
  have hiff := mem_services_iff (p := fun s => s.lineageId = id) (q := fun s => s.lineageId = id)
    hsame
    hperm fun _ _ h => by rw [h.lineageId]
  simp [owned, volumes, ← hiff]

end

/-- Own Copies, live and left-out nodes do not depend on the order of a document or of the picks. -/
theorem sameRoles_of_reordered {other : SavedEnvironmentIntent} (h : Reordered parent other)
    {deployed' focus focus' : List String} {picks picks' : BranchPicks}
    (hdeployed : deployed.Perm deployed') (hfocus : focus.Perm focus')
    (hpicks : SamePicks picks picks') {result result' : Except ConfigError BranchPlan}
    (hresult : Planned parent deployed focus picks result)
    (hresult' : Planned other deployed' focus' picks' result') : SameRoles result result' := by
  obtain ⟨services, hsame, reordered, hperm, rfl⟩ := h
  have howned := owned_reordered hsame hperm
  have hlinks (a b : String) : ((a, b) ∈ links { parent with services := reordered }) =
      ((a, b) ∈ links parent) := propext (links_reordered hsame hperm (a, b)).symm
  have hlive : parentLive { parent with services := reordered } = parentLive parent := by
    ext id
    simp only [parentLive, howned, Finset.mem_sdiff, List.mem_toFinset, List.mem_map, Prod.exists,
      hlinks]
  have hvolumes : volumes { parent with services := reordered } = volumes parent := rfl
  have hset : Picked { parent with services := reordered } focus' picks' =
      Picked parent focus picks := by
    ext id
    cases hpicks with
    | own hown => exact hown.symm.mem_iff
    | preset preset =>
      cases preset with
      | only => exact hfocus.symm.mem_iff
      | all => simp [Picked, howned]
      | uses => simp only [Picked, howned, hlinks, hfocus.mem_iff]
  have hrole : roleOf { parent with services := reordered } deployed' (Picked parent focus picks) =
      roleOf parent deployed (Picked parent focus picks) := by
    have hcopies : CopiesAlong { parent with services := reordered } deployed'
        (Picked parent focus picks) = CopiesAlong parent deployed (Picked parent focus picks) := by
      funext a b
      simp only [CopiesAlong, howned, hlinks, hvolumes, hdeployed.mem_iff]
    have hIsOwn : IsOwn { parent with services := reordered } deployed'
        (Picked parent focus picks) = IsOwn parent deployed (Picked parent focus picks) := by
      funext id
      rw [IsOwn, IsOwn, hcopies]
    have hIsLive : IsLive { parent with services := reordered } deployed'
        (Picked parent focus picks) = IsLive parent deployed (Picked parent focus picks) := by
      funext id
      simp only [IsLive, hIsOwn, howned, hlinks, hvolumes, hlive, hdeployed.mem_iff]
    funext id
    rw [roleOf, roleOf, hIsOwn, hIsLive, howned, hvolumes]
  have hknown : Known { parent with services := reordered } focus' picks' ↔
      Known parent focus picks := by
    cases hpicks with
    | own hown => simp only [Known, howned, hfocus.mem_iff, hown.mem_iff]
    | preset preset => simp only [Known, howned, hfocus.mem_iff]
  rcases hresult with ⟨hk, preset, rfl⟩ | ⟨hk, rfl⟩
  · obtain ⟨-, preset', rfl⟩ := hresult'.resolve_right fun h => h.1 (hknown.mpr hk)
    intro node
    rw [hset, hrole, mem_planNodes, mem_planNodes]
    have htyped : (node.lineageId, node.nodeType) ∈ typed parent ↔
        (node.lineageId, node.nodeType) ∈ typed { parent with services := reordered } := by
      have hiff := mem_services_iff
        (p := fun s => (s.lineageId, EnvironmentNodeType.service) = (node.lineageId, node.nodeType))
        (q := fun s => (s.lineageId, EnvironmentNodeType.service) = (node.lineageId, node.nodeType))
        hsame hperm fun _ _ h => by rw [h.lineageId]
      simp only [typed, List.mem_append, List.mem_map, hiff, hlive]
    rw [htyped]
  · obtain ⟨-, rfl⟩ := hresult'.resolve_left fun h => hk (hknown.mp h.1)
    show (_ : ConfigError) = _
    simp only [howned, hfocus.mem_iff]

/-- Planning ends, with a plan exactly where the Parent owns what is focused and picked; Own Copies
are the nodes reached from the picks through links to unpicked Volumes and unpicked undeployed
Services of the Parent, live nodes the unpicked deployed Services that are no Volume's lineage an
Own Copy uses and those the Parent uses live; no Own Copy uses a left-out node; and the order of
Services, variables, mounts and picks does not matter. -/
theorem branch_roles (parent : SavedEnvironmentIntent) (deployed focus : List String)
    (picks : BranchPicks) :
    ∃ result, (∀ passes, (links parent).length < passes →
      planBranch parent passes deployed focus picks = some result) ∧
    ((∃ plan, result = .ok plan) ↔ Known parent focus picks) ∧
    (∀ plan, result = .ok plan →
      plan.nodes.map (·.lineageId) = (typed parent).map (·.1) ∧
      (∀ node ∈ plan.nodes,
        ((∃ because, node.role = .own because) ↔
          IsOwn parent deployed (Picked parent focus picks) node.lineageId) ∧
        (node.role = .live ↔ IsLive parent deployed (Picked parent focus picks) node.lineageId)) ∧
      ∀ node ∈ plan.nodes, ∀ other ∈ plan.nodes, (∃ because, node.role = .own because) →
        (node.lineageId, other.lineageId) ∈ links parent → other.role ≠ .leftOut) ∧
    ∀ parent' deployed' focus' picks', Reordered parent parent' → deployed.Perm deployed' →
      focus.Perm focus' → SamePicks picks picks' →
      ∃ result', (∀ passes, (links parent').length < passes →
        planBranch parent' passes deployed' focus' picks' = some result') ∧
        SameRoles result result' := by
  obtain ⟨result, hends, hplanned⟩ := planBranch_ends parent deployed focus picks
  refine ⟨result, hends, ?_, ?_, fun parent' deployed' focus' picks' h hdeployed hfocus hpicks =>
    ?_⟩
  · rcases hplanned with ⟨hknown, preset, rfl⟩ | ⟨hunknown, rfl⟩
    · exact iff_of_true ⟨_, rfl⟩ hknown
    · exact iff_of_false (by simp) hunknown
  · rintro plan rfl
    obtain ⟨hknown, preset, hplan⟩ := hplanned.resolve_right (by simp)
    obtain rfl := Except.ok.inj hplan
    have howned := owned_of_known hknown
    have hroles : ∀ node ∈ planNodes parent (roleOf parent deployed (Picked parent focus picks)),
        ((∃ because, node.role = .own because) ↔
          IsOwn parent deployed (Picked parent focus picks) node.lineageId) ∧
        (node.role = .live ↔
          IsLive parent deployed (Picked parent focus picks) node.lineageId) := by
      intro node hnode
      obtain ⟨-, hrole⟩ := mem_planNodes.mp hnode
      by_cases hown : IsOwn parent deployed (Picked parent focus picks) node.lineageId
      · rw [roleOf, if_pos hown] at hrole
        rw [← Option.some.inj hrole]
        exact ⟨iff_of_true ⟨_, rfl⟩ hown, iff_of_false (by simp) fun h => h.not_own howned hown⟩
      · rw [roleOf, if_neg hown] at hrole
        by_cases hlive : IsLive parent deployed (Picked parent focus picks) node.lineageId
        · rw [if_pos hlive] at hrole
          rw [← Option.some.inj hrole]
          exact ⟨iff_of_false (by simp) hown, iff_of_true rfl hlive⟩
        · rw [if_neg hlive] at hrole
          split_ifs at hrole
          rw [← Option.some.inj hrole]
          exact ⟨iff_of_false (by simp) hown, iff_of_false (by simp) hlive⟩
    refine ⟨lineages_planNodes, hroles, fun node hnode other hother hown hlink hleft => ?_⟩
    have hrole := (mem_planNodes.mp hother).2
    rw [hleft] at hrole
    exact roleOf_ne_leftOut ((hroles node hnode).1.mp hown) hlink hrole
  · obtain ⟨result', hends', hplanned'⟩ := planBranch_ends parent' deployed' focus' picks'
    exact ⟨result', hends', sameRoles_of_reordered h hdeployed hfocus hpicks hplanned hplanned'⟩

/-- A Service and a Volume of one lineage. The Service is deployed and an Own Copy mounts the
Volume, but the lineage is copied. -/
def shared : SavedEnvironmentIntent :=
  let mounting := SavedServiceIntent.unset "00000000-0000-4000-8000-000000000001"
    "00000000-0000-4000-8000-000000000011" ⟨"web", Eq.refl true⟩
  .holding
    [{ mounting with volumeAttachments := [⟨"00000000-0000-4000-8000-000000000003", "/data"⟩] },
      .unset "00000000-0000-4000-8000-000000000002" "00000000-0000-4000-8000-000000000012"
        ⟨"api", Eq.refl true⟩]
    [.docker "00000000-0000-4000-8000-000000000003" "00000000-0000-4000-8000-000000000012" "data"]

theorem shared_lineage_is_copied :
    Run.succeeds (parseEnvironmentIntent shared) (· = shared) = true ∧
    "00000000-0000-4000-8000-000000000012" ∈ shared.services.map (·.lineageId) ∧
    ("00000000-0000-4000-8000-000000000011", "00000000-0000-4000-8000-000000000012") ∈
      links shared ∧
    (planBranch shared 9 ["00000000-0000-4000-8000-000000000012"] []
      (.own ["00000000-0000-4000-8000-000000000011"])).map (·.map (·.nodes.map (·.role))) =
      some (.ok [.own .picked, .own .used, .own .used]) := by
  decide +kernel

end Ployz.BranchPlanning
