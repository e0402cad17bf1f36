import Mathlib.Logic.Relation
import Mathlib.Data.List.Nodup
import Mathlib.Order.WellFounded
import Mathlib.Algebra.Order.BigOperators.Group.List
import Mathlib.Algebra.Order.Group.Nat
import Mathlib.Data.Set.Finite.Basic
import Mathlib.Tactic.Common
import Mathlib.Algebra.GroupWithZero.Nat

/-!
# Searching a finite graph

A graph is a list of its nodes, each with the nodes it leads to. `reach` searches it depth first
from a node with a stack and what it has seen. `mem_reach` says that it finds exactly the nodes
some path of at least one edge leads to, and `wellFounded_of_acyclic` that a graph in which no
node finds itself has no endless path. `acc_of_no_cycle` and `not_transGen_of_acc` say the same of
one starting point of a relation.
-/

namespace Ployz.Reach

variable {α : Type*} [DecidableEq α]

/-- The nodes `node` leads to. -/
def outs (edges : List (α × List α)) (node : α) : List α := (edges.lookup node).getD []

/-- A search with the stack `next`, its top first, after `seen`. -/
def search (succ : α → List α) : Nat → List α → List α → List α
  | 0, _, seen => seen
  | _ + 1, [], seen => seen
  | fuel + 1, node :: next, seen =>
    if seen.contains node then search succ fuel next seen
    else search succ fuel ((succ node).reverse ++ next) (node :: seen)

/-- Whether a search comes to `target`, where it stops. -/
def finds (succ : α → List α) (target : α) : Nat → List α → List α → Bool
  | 0, _, _ => false
  | _ + 1, [], _ => false
  | fuel + 1, node :: next, seen =>
    if node = target then true
    else if seen.contains node then finds succ target fuel next seen
    else finds succ target fuel ((succ node).reverse ++ next) (node :: seen)

/-- How often a search can take a node off its stack. -/
def work (edges : List (α × List α)) (next seen : List α) : Nat :=
  next.length + (edges.map fun entry => if entry.1 ∈ seen then 0 else entry.2.length).sum

/-- The nodes a path of at least one edge from `node` leads to. -/
def reach (edges : List (α × List α)) (node : α) : List α :=
  let next := (outs edges node).reverse
  search (outs edges) (work edges next []) next []

/-- `b` is one of the nodes `a` leads to. -/
def Leads (edges : List (α × List α)) (a b : α) : Prop := b ∈ outs edges a

variable {edges : List (α × List α)}

/-! ## What a search takes -/

theorem outs_cons (node a : α) (out : List α) :
    outs ((a, out) :: edges) node = if node = a then out else outs edges node := by
  unfold outs
  rw [List.lookup_cons]
  by_cases h : node = a
  · simp [h]
  · simp [h, beq_false_of_ne h]

variable {node : α}

theorem outs_eq_nil (h : ∀ entry ∈ edges, entry.1 ≠ node) : outs edges node = [] := by
  induction edges with
  | nil => rfl
  | cons entry rest ih =>
    rw [outs_cons, if_neg (Ne.symm (h entry List.mem_cons_self))]
    exact ih fun entry hentry => h entry (List.mem_cons_of_mem _ hentry)

theorem outs_of_mem (hedges : (edges.map (·.1)).Nodup) {out : List α} (h : (node, out) ∈ edges) :
    outs edges node = out := by
  induction edges with
  | nil => cases h
  | cons entry rest ih =>
    rw [List.map_cons, List.nodup_cons] at hedges
    rw [outs_cons]
    rcases List.mem_cons.mp h with rfl | h
    · rw [if_pos rfl]
    · have hne : node ≠ entry.1 := fun heq => hedges.1 (List.mem_map.mpr ⟨_, h, heq⟩)
      rw [if_neg hne, ih hedges.2 h]

theorem reach_eq_nil (h : outs edges node = []) : reach edges node = [] := by
  rw [reach, h]
  cases hwork : work edges (List.reverse []) [] <;> rfl

/-- Seeing a node takes the edges out of it off the work left. -/
theorem work_seen {seen : List α} (hnode : node ∉ seen) :
    (edges.map fun entry => if entry.1 ∈ node :: seen then 0 else entry.2.length).sum +
        (outs edges node).length ≤
      (edges.map fun entry => if entry.1 ∈ seen then 0 else entry.2.length).sum := by
  induction edges with
  | nil => exact le_rfl
  | cons entry rest ih =>
    obtain ⟨a, out⟩ := entry
    rw [outs_cons, List.map_cons, List.map_cons, List.sum_cons, List.sum_cons]
    dsimp only
    by_cases ha : node = a
    · subst ha
      have hrest : (rest.map fun entry =>
        if entry.1 ∈ node :: seen then 0 else entry.2.length).sum ≤
          (rest.map fun entry => if entry.1 ∈ seen then 0 else entry.2.length).sum := by
        refine List.sum_le_sum fun entry _ => ?_
        by_cases h : entry.1 ∈ seen
        · rw [if_pos (List.mem_cons_of_mem _ h)]
          exact Nat.zero_le _
        · rw [if_neg h]
          split_ifs <;> omega
      rw [if_pos List.mem_cons_self, if_neg hnode, if_pos rfl]
      omega
    · have hiff : a ∈ node :: seen ↔ a ∈ seen := by simp [Ne.symm ha]
      rw [if_neg ha, if_congr hiff rfl rfl]
      omega

/-- What was seen, and everything on the stack, leads only to what was found. -/
structure Closed (edges : List (α × List α)) (next seen result : List α) : Prop where
  seen : seen ⊆ result
  next : next ⊆ result
  outs : ∀ a ∈ result, outs edges a ⊆ result

variable {fuel : Nat} {next seen : List α}

theorem search_closed (hfuel : work edges next seen ≤ fuel)
    (hseen : ∀ a ∈ seen, ∀ b ∈ outs edges a, b ∈ seen ∨ b ∈ next) :
    Closed edges next seen (search (outs edges) fuel next seen) := by
  induction fuel generalizing next seen with
  | zero =>
    have hnext : next = [] := by
      rw [← List.length_eq_zero_iff]
      rw [work] at hfuel
      omega
    subst hnext
    exact ⟨fun _ h => h, by simp, fun a ha b hb => (hseen a ha b hb).resolve_right (by simp)⟩
  | succ fuel ih =>
    cases next with
    | nil =>
      exact ⟨fun _ h => h, by simp, fun a ha b hb => (hseen a ha b hb).resolve_right (by simp)⟩
    | cons node next =>
      rw [search]
      split_ifs with hnode
      · have hmem : node ∈ seen := by simpa using hnode
        rw [work, List.length_cons] at hfuel
        have hrest : Closed edges next seen (search (outs edges) fuel next seen) := by
          refine ih (by rw [work]; omega) fun a ha b hb => ?_
          rcases hseen a ha b hb with h | h
          · exact .inl h
          · rcases List.mem_cons.mp h with rfl | h
            · exact .inl hmem
            · exact .inr h
        exact ⟨hrest.seen, List.cons_subset.mpr ⟨hrest.seen hmem, hrest.next⟩, hrest.outs⟩
      · have hmem : node ∉ seen := by simpa using hnode
        have hwork : _ + (outs edges node).length ≤ _ := work_seen hmem
        rw [work, List.length_cons] at hfuel
        have hrest : Closed edges ((outs edges node).reverse ++ next) (node :: seen)
            (search (outs edges) fuel ((outs edges node).reverse ++ next) (node :: seen)) := by
          refine ih (by rw [work, List.length_append, List.length_reverse]; omega)
            fun a ha b hb => ?_
          rcases List.mem_cons.mp ha with rfl | ha
          · exact .inr (List.mem_append_left _ (List.mem_reverse.mpr hb))
          · rcases hseen a ha b hb with h | h
            · exact .inl (List.mem_cons_of_mem _ h)
            · rcases List.mem_cons.mp h with rfl | h
              · exact .inl List.mem_cons_self
              · exact .inr (List.mem_append_right _ h)
        exact ⟨fun a ha => hrest.seen (List.mem_cons_of_mem _ ha),
          List.cons_subset.mpr ⟨hrest.seen List.mem_cons_self, fun a ha =>
            hrest.next (List.mem_append_right _ ha)⟩, hrest.outs⟩

/-- Everything found was seen, or a path from the stack leads to it. -/
theorem search_sound {x : α} (hx : x ∈ search (outs edges) fuel next seen) :
    x ∈ seen ∨ ∃ a ∈ next, Relation.ReflTransGen (Leads edges) a x := by
  induction fuel generalizing next seen with
  | zero => exact .inl hx
  | succ fuel ih =>
    cases next with
    | nil => exact .inl hx
    | cons node next =>
      rw [search] at hx
      split_ifs at hx with hnode
      · rcases ih hx with h | ⟨a, ha, hpath⟩
        · exact .inl h
        · exact .inr ⟨a, List.mem_cons_of_mem _ ha, hpath⟩
      · rcases ih hx with h | ⟨a, ha, hpath⟩
        · rcases List.mem_cons.mp h with rfl | h
          · exact .inr ⟨x, List.mem_cons_self, .refl⟩
          · exact .inl h
        · rcases List.mem_append.mp ha with ha | ha
          · exact .inr ⟨node, List.mem_cons_self, .head (List.mem_reverse.mp ha) hpath⟩
          · exact .inr ⟨a, List.mem_cons_of_mem _ ha, hpath⟩

theorem search_nodup (hseen : seen.Nodup) : (search (outs edges) fuel next seen).Nodup := by
  induction fuel generalizing next seen with
  | zero => exact hseen
  | succ fuel ih =>
    cases next with
    | nil => exact hseen
    | cons node next =>
      rw [search]
      split_ifs with hnode
      · exact ih hseen
      · exact ih (List.nodup_cons.mpr ⟨by simpa using hnode, hseen⟩)

theorem subset_search {succ : α → List α} : seen ⊆ search succ fuel next seen := by
  induction fuel generalizing next seen with
  | zero => exact List.Subset.refl _
  | succ fuel ih =>
    cases next with
    | nil => exact List.Subset.refl _
    | cons node next =>
      rw [search]
      split_ifs with hnode
      · exact ih
      · exact fun x hx => ih (List.mem_cons_of_mem _ hx)

/-- A search that stops at what it looks for comes to what one that goes on sees. -/
theorem finds_eq_true {succ : α → List α} {target : α} (hseen : target ∉ seen) :
    finds succ target fuel next seen = true ↔ target ∈ search succ fuel next seen := by
  induction fuel generalizing next seen with
  | zero => simp [finds, search, hseen]
  | succ fuel ih =>
    cases next with
    | nil => simp [finds, search, hseen]
    | cons node next =>
      rw [finds, search]
      by_cases htarget : node = target
      · subst htarget
        rw [if_pos rfl, if_neg (by simpa using hseen)]
        exact iff_of_true rfl (subset_search List.mem_cons_self)
      · rw [if_neg htarget]
        split_ifs with hnode
        · exact ih hseen
        · exact ih (List.not_mem_cons_of_ne_of_not_mem (Ne.symm htarget) hseen)

/-! ## What a search finds -/

theorem finds_from {node target : α} :
    finds (outs edges) target (work edges [node] []) [node] [] = true ↔
      Relation.ReflTransGen (Leads edges) node target := by
  rw [finds_eq_true List.not_mem_nil]
  constructor
  · intro h
    rcases search_sound h with h | ⟨a, ha, hpath⟩
    · cases h
    · rwa [List.mem_singleton.mp ha] at hpath
  · intro hpath
    have hclosed : Closed edges [node] [] _ := search_closed le_rfl (by simp)
    induction hpath with
    | refl => exact hclosed.next (List.mem_singleton_self _)
    | tail _ h ih => exact hclosed.outs _ ih h

theorem reach_nodup (edges : List (α × List α)) (node : α) : (reach edges node).Nodup :=
  search_nodup List.nodup_nil

/-- A search finds exactly what a path of at least one edge leads to. -/
theorem mem_reach {node x : α} :
    x ∈ reach edges node ↔ Relation.TransGen (Leads edges) node x := by
  constructor
  · intro hx
    rcases search_sound hx with h | ⟨a, ha, hpath⟩
    · cases h
    · exact .head' (List.mem_reverse.mp ha) hpath
  · intro hpath
    have hnone : ∀ a ∈ ([] : List α), ∀ b ∈ outs edges a, b ∈ [] ∨
        b ∈ (outs edges node).reverse := by
      simp
    have hclosed := search_closed le_rfl hnone
    induction hpath with
    | single h => exact hclosed.next (List.mem_reverse.mpr h)
    | tail _ h ih => exact hclosed.outs _ ih h

/-- A graph in which no node finds itself has no endless path. -/
theorem wellFounded_of_acyclic (hacyclic : ∀ node, node ∉ reach edges node) :
    WellFounded fun b a => Leads edges a b := by
  refine Subrelation.wf (r := InvImage (· < ·) fun node => (reach edges node).length) ?_
    (InvImage.wf _ wellFounded_lt)
  intro b a hleads
  -- What `b` finds `a` finds too, and `b` itself besides.
  have hsub : b :: reach edges b ⊆ reach edges a := by
    intro x hx
    rw [mem_reach]
    rcases List.mem_cons.mp hx with rfl | hx
    · exact .single hleads
    · exact .head hleads (mem_reach.mp hx)
  have hnodup : (b :: reach edges b).Nodup := List.nodup_cons.mpr ⟨hacyclic b, reach_nodup edges b⟩
  exact (List.subperm_of_subset hnodup hsub).length_le

/-! ## Endless paths of a relation -/

section Relations

omit [DecidableEq α]

variable {r : α → α → Prop} {a : α}

theorem not_transGen_of_acc (h : Acc (fun b a => r a b) a) {b : α}
    (hpath : Relation.ReflTransGen r a b) :
    ¬ Relation.TransGen r b b := by
  induction h generalizing b with
  | intro a _ ih =>
    intro hcycle
    rcases hpath.cases_head with rfl | ⟨c, hc, hpath⟩
    · obtain ⟨c, hc, hback⟩ := Relation.TransGen.head'_iff.mp hcycle
      exact ih c hc .refl (.tail' hback hc)
    · exact ih c hc hpath hcycle

/-- Where only finitely many points follow another, a path that never comes into a cycle ends. -/
theorem acc_of_no_cycle (nodes : List α) (hnodes : ∀ a b, r a b → b ∈ nodes)
    (h : ∀ b, Relation.ReflTransGen r a b → ¬ Relation.TransGen r b b) :
    Acc (fun b a => r a b) a := by
  let Point := { b // b ∈ nodes ∧ Relation.ReflTransGen r a b }
  let Behind (x y : Point) : Prop := Relation.TransGen r y.1 x.1
  have : Finite Point := (nodes.finite_toSet.subset fun _ hb => hb.1).to_subtype
  have : IsTrans Point Behind := ⟨fun _ _ _ hxy hyz => hyz.trans hxy⟩
  have : Std.Irrefl Behind := ⟨fun x => h x.1 x.2.2⟩
  have hwf : WellFounded Behind := Finite.wellFounded_of_trans_of_irrefl _
  have hpoints : ∀ x : Point, Acc (fun b a => r a b) x.1 := by
    intro x
    induction x using hwf.induction with
    | _ x ih =>
      constructor
      intro c hc
      exact ih ⟨c, hnodes _ _ hc, x.2.2.tail hc⟩ (.single hc)
  constructor
  intro c hc
  exact hpoints ⟨c, hnodes _ _ hc, .single hc⟩

end Relations

end Ployz.Reach
