import Ployz.Lib.Ranked
import Ployz.Lib.Reach
import Ployz.Lib.Run
import Ployz.Store.Error

/-!
# Taking a Project off the Servers

A Project goes one Environment at a time: Branches before their Parents, and the Default
Environment after every other but its own Parents. `teardownOrder` computes that order from the
Parents' chains, while `guardRemoval` refuses a removal by rules of its own.

Main theorem: `teardown_never_stuck`. In every forest of Environments the two agree, so the first
Environment in order that may still run is one whose removal is not refused.
-/

namespace Ployz.Removal

open Relation Run

/-- One Environment of a Project, as teardown orders them. -/
structure Member where
  id : String
  name : String
  parent : Option String
deriving DecidableEq, Repr

/-- The last Deployment of an Environment that may run on the Servers. -/
structure DeploymentSummary where
  id : String
  inFlight : Bool
deriving DecidableEq, Repr

inductive Teardown
  | removed (environments : List String)
  | needsRemoval (environment deployment : String)
  | waiting (environment deployment : String)
deriving DecidableEq, Repr

/-! ## The order -/

def parents (members : List Member) : List (String × List String) :=
  members.map fun member => (member.id, member.parent.toList)

/-- The Parent of `environment`, its Parent's Parent, and so on until there is none or it was met:
a search in which every Environment leads to its Parent only. -/
def ancestors (members : List Member) (environment : String) : List String :=
  (Reach.reach (parents members) environment).reverse

def teardownClass (members : List Member) (default : String) (member : Member) : Nat :=
  if member.id = default then 1
  else if member.id ∈ ancestors members default then 2
  else 0

/-- The order a Project's Environments come off the Servers and out of the Store: Branches before
their Parents, and the Default Environment after every other but its own Parents. -/
def teardownOrder (members : List Member) (default : String) : List Member :=
  Ranked.sortBy (fun member => toLex (teardownClass members default member,
    OrderDual.toDual (ancestors members member.id).length)) members

section Guard

variable (members : List Member) (default project : String)
  (onServers : String → Option DeploymentSummary)

/-- The names of `members` that may still run on the Servers. -/
def stillRunning (members : List Member) : List String :=
  (members.filter fun member => (onServers member.id).isSome).map (·.name)

/-- Refuse to take an Environment off the Servers while a Branch of it may still run there; or, for
the Default Environment, while any other Environment of its Project but its Parents may. -/
def guardRemoval (environment : Member) : Except RpcError Unit :=
  let branches := stillRunning onServers
    (members.filter fun member => member.parent = some environment.id)
  if branches ≠ [] then
    let names := String.intercalate ", " branches
    .error (.clash s!"{environment.name} has Branches that may still run ({names}). Remove them first")
  else if environment.id ≠ default then .ok ()
  else
    let others := stillRunning onServers (members.filter fun member =>
      member.id ≠ environment.id ∧ member.id ∉ ancestors members environment.id)
    if others ≠ [] then
      let names := String.intercalate ", " others
      .error (.clash (s!"{environment.name} is the Default Environment: it comes off the " ++
        s!"Servers only after the rest of Project {project} ({names})"))
    else .ok ()

/-- The first Environment in order that may still run, with its Deployment. -/
def firstRunning (order : List Member) : Option (Member × DeploymentSummary) :=
  order.findSome? fun member => (onServers member.id).map (member, ·)

/-- Not deleting `name` while `deployment` may run it. -/
def stillOnServers (name : String) (deployment : DeploymentSummary) : Teardown :=
  if deployment.inFlight then .waiting name deployment.id else .needsRemoval name deployment.id

def removeProject : Teardown :=
  let order := teardownOrder members default
  match firstRunning onServers order with
  | some (member, running) => stillOnServers member.name running
  | none => .removed (order.map (·.name))

end Guard

/-! ## Parents in a forest -/

/-- `b` is the Parent of the Environment `a`. -/
abbrev ParentOf (members : List Member) : String → String → Prop := Reach.Leads (parents members)

/-- Environments with their own IDs, none of them its own ancestor. -/
structure Forest (members : List Member) : Prop where
  ids : (members.map (·.id)).Nodup
  acyclic : ∀ id, ¬ TransGen (ParentOf members) id id

variable {members : List Member} {default : String}

theorem mem_ancestors {id ancestor : String} :
    ancestor ∈ ancestors members id ↔ TransGen (ParentOf members) id ancestor := by
  rw [ancestors, List.mem_reverse, Reach.mem_reach]

theorem Forest.parentOf (h : Forest members) {member : Member} (hmem : member ∈ members)
    {parent : String} (hparent : member.parent = some parent) :
    ParentOf members member.id parent := by
  have hkeys : ((parents members).map (·.1)).Nodup := by
    rw [parents, List.map_map]
    exact h.ids
  have hentry : (member.id, member.parent.toList) ∈ parents members :=
    List.mem_map.mpr ⟨member, hmem, rfl⟩
  rw [ParentOf, Reach.Leads, Reach.outs_of_mem hkeys hentry, hparent]
  exact List.mem_singleton_self parent

/-- A Parent has fewer ancestors than its Branches. -/
theorem Forest.length_ancestors_lt (h : Forest members) {child parent : String}
    (hparent : ParentOf members child parent) :
    (ancestors members parent).length < (ancestors members child).length := by
  have hsub : parent :: ancestors members parent ⊆ ancestors members child := by
    intro x hx
    rw [mem_ancestors]
    rcases List.mem_cons.mp hx with rfl | hx
    · exact .single hparent
    · exact .head hparent (mem_ancestors.mp hx)
  have hnodup : (parent :: ancestors members parent).Nodup := by
    refine List.nodup_cons.mpr ⟨fun hself => h.acyclic parent (mem_ancestors.mp hself), ?_⟩
    exact List.nodup_reverse.mpr (Reach.reach_nodup _ _)
  exact (List.subperm_of_subset hnodup hsub).length_le

/-- What comes before `b` in the order has a smaller class, or the same and more ancestors. -/
def Precedes (members : List Member) (default : String) (a b : Member) : Prop :=
  teardownClass members default a < teardownClass members default b ∨
    teardownClass members default a = teardownClass members default b ∧
      (ancestors members b.id).length < (ancestors members a.id).length

/-- A member that precedes another comes before it wherever the order is cut there. -/
theorem mem_before {a b : Member} (ha : a ∈ members) (hprecedes : Precedes members default a b)
    {before after : List Member} (h : teardownOrder members default = before ++ b :: after) :
    a ∈ before := by
  have hmem : a ∈ before ++ b :: after := h ▸ Ranked.mem_sortBy.mpr ha
  have hsorted := Ranked.pairwise_sortBy (fun member => toLex (teardownClass members default member,
    OrderDual.toDual (ancestors members member.id).length)) members
  change (teardownOrder members default).Pairwise _ at hsorted
  rw [h, List.pairwise_append, List.pairwise_cons] at hsorted
  -- In the rest only members whose key is not smaller are left.
  have hlater (hle : toLex (teardownClass members default b,
      OrderDual.toDual (ancestors members b.id).length) ≤ toLex (teardownClass members default a,
      OrderDual.toDual (ancestors members a.id).length)) : False := by
    rw [Prod.Lex.toLex_le_toLex, OrderDual.toDual_le_toDual] at hle
    unfold Precedes at hprecedes
    omega
  rcases List.mem_append.mp hmem with hbefore | hrest
  · exact hbefore
  · rcases List.mem_cons.mp hrest with rfl | hafter
    · exact (hlater le_rfl).elim
    · exact (hlater (hsorted.2.1.1 a hafter)).elim

theorem Forest.precedes_parent (h : Forest members) {branch parent : Member}
    (hbranch : branch ∈ members) (hparent : branch.parent = some parent.id) :
    Precedes members default branch parent := by
  have hleads := h.parentOf hbranch hparent
  have hfewer := h.length_ancestors_lt hleads
  by_cases hdefault : branch.id = default
  · -- The Default's Parent is one of its ancestors.
    rw [hdefault] at hleads
    have hne : parent.id ≠ default := by
      intro heq
      rw [heq] at hleads
      exact h.acyclic default (.single hleads)
    have hmem : parent.id ∈ ancestors members default := mem_ancestors.mpr (.single hleads)
    left
    rw [teardownClass, teardownClass, if_pos hdefault, if_neg hne, if_pos hmem]
    omega
  · by_cases hmem : branch.id ∈ ancestors members default
    · have hup : TransGen (ParentOf members) default parent.id :=
        (mem_ancestors.mp hmem).tail hleads
      have hne : parent.id ≠ default := fun heq => h.acyclic default (heq ▸ hup)
      right
      rw [teardownClass, teardownClass, if_neg hdefault, if_pos hmem, if_neg hne,
        if_pos (mem_ancestors.mpr hup)]
      exact ⟨rfl, hfewer⟩
    · have hclass : teardownClass members default branch = 0 := by
        rw [teardownClass, if_neg hdefault, if_neg hmem]
      unfold Precedes
      omega

theorem precedes_default {member environment : Member} (hdefault : environment.id = default)
    (hne : member.id ≠ environment.id) (hmem : member.id ∉ ancestors members environment.id) :
    Precedes members default member environment := by
  subst hdefault
  left
  rw [teardownClass, teardownClass, if_pos rfl, if_neg hne, if_neg hmem]
  omega

/-! ## Removing in order -/

theorem stillRunning_eq_nil {onServers : String → Option DeploymentSummary} :
    stillRunning onServers members = [] ↔ ∀ member ∈ members, onServers member.id = none := by
  simp [stillRunning]

/-- Every Environment is listed once, each Branch before its Parent and the Default Environment
after all but its own ancestors, and the first one that may still run may be removed. -/
theorem teardown_never_stuck (hforest : Forest members) (default project : String)
    (onServers : String → Option DeploymentSummary) :
    (teardownOrder members default).Perm members ∧
    (∀ before parent after, teardownOrder members default = before ++ parent :: after →
      ∀ branch ∈ members, branch.parent = some parent.id → branch ∈ before) ∧
    (∀ before environment after,
      teardownOrder members default = before ++ environment :: after → environment.id = default →
      ∀ other ∈ members, other.id ≠ default → other.id ∉ ancestors members default →
        other ∈ before) ∧
    ∀ member running, firstRunning onServers (teardownOrder members default) =
      some (member, running) →
      removeProject members default onServers = stillOnServers member.name running ∧
      guardRemoval members default project onServers member = .ok () := by
  have hbranches : ∀ before parent after,
      teardownOrder members default = before ++ parent :: after →
      ∀ branch ∈ members, branch.parent = some parent.id → branch ∈ before :=
    fun before parent after h branch hbranch hparent =>
      mem_before hbranch (hforest.precedes_parent hbranch hparent) h
  have hdefault : ∀ before environment after,
      teardownOrder members default = before ++ environment :: after → environment.id = default →
      ∀ other ∈ members, other.id ≠ default → other.id ∉ ancestors members default →
        other ∈ before := by
    rintro before environment after h rfl other hother hne hmem
    exact mem_before hother (precedes_default rfl hne hmem) h
  refine ⟨Ranked.perm_sortBy _ _, hbranches, hdefault, ?_⟩
  intro member running hfirst
  refine ⟨by rw [removeProject]; simp only [hfirst], ?_⟩
  obtain ⟨before, at_, after, horder, hat, hbefore⟩ := List.findSome?_eq_some_iff.mp hfirst
  obtain ⟨deployment, -, heq⟩ := Option.map_eq_some_iff.mp hat
  obtain ⟨rfl, rfl⟩ := Prod.mk.inj heq
  -- Nothing before it in order may run.
  have hidle : ∀ other ∈ before, onServers other.id = none := fun other hother =>
    Option.map_eq_none_iff.mp (hbefore other hother)
  have hnoBranch : stillRunning onServers (members.filter fun other => other.parent = some at_.id) =
      [] := by
    rw [stillRunning_eq_nil]
    intro other hother
    obtain ⟨hmem, hparent⟩ := List.mem_filter.mp hother
    exact hidle other (hbranches before at_ after horder other hmem (of_decide_eq_true hparent))
  rw [guardRemoval, if_neg (by simpa using hnoBranch)]
  by_cases hid : at_.id = default
  · have hnoOther : stillRunning onServers (members.filter fun other =>
        other.id ≠ at_.id ∧ other.id ∉ ancestors members at_.id) = [] := by
      rw [stillRunning_eq_nil]
      intro other hother
      obtain ⟨hmem, hcond⟩ := List.mem_filter.mp hother
      obtain ⟨hne, hnot⟩ := of_decide_eq_true hcond
      exact hidle other (hdefault before at_ after horder hid other hmem (hid ▸ hne) (hid ▸ hnot))
    rw [if_neg (not_not.mpr hid), if_neg (not_not.mpr hnoOther)]
  · rw [if_pos hid]

def branched : List Member := [⟨"1", "production", none⟩, ⟨"2", "preview", some "1"⟩]

theorem leads_branched {a b : String} (h : ParentOf branched a b) : a = "2" ∧ b = "1" := by
  rw [ParentOf, Reach.Leads, parents, branched, List.map_cons, List.map_singleton, Reach.outs_cons,
    Reach.outs_cons] at h
  split_ifs at h with h1 h2
  · cases h
  · exact ⟨h2, List.mem_singleton.mp h⟩
  · cases h

theorem branched_removed_in_order :
    firstRunning (fun _ => some ⟨"d", false⟩) (teardownOrder branched "1") =
      some (⟨"2", "preview", some "1"⟩, ⟨"d", false⟩) ∧
    guardRemoval branched "1" "app" (fun _ => some ⟨"d", false⟩) ⟨"2", "preview", some "1"⟩ =
      .ok () := by
  have hforest : Forest branched := by
    refine ⟨by decide, fun id hcycle => ?_⟩
    have hpath : ∀ b, TransGen (ParentOf branched) id b → id = "2" ∧ b = "1" := by
      intro b hb
      induction hb with
      | single h => exact leads_branched h
      | tail _ h ih => exact absurd (ih.2.symm.trans (leads_branched h).1) (by decide)
    exact absurd ((hpath id hcycle).1.symm.trans (hpath id hcycle).2) (by decide)
  have hfirst : firstRunning (fun _ => some ⟨"d", false⟩) (teardownOrder branched "1") =
      some (⟨"2", "preview", some "1"⟩, ⟨"d", false⟩) := by decide +kernel
  exact ⟨hfirst, ((teardown_never_stuck hforest "1" "app" _).2.2.2 _ _ hfirst).2⟩

end Ployz.Removal
