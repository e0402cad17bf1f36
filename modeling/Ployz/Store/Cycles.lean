import Ployz.Store.Rules

/-!
# Reference cycles

The groups `cycles` finds are the strongly connected groups of the reference graph that have a
cycle. `RefersTo` reads the references off a document; the graph the checker builds has exactly them
(`leads_iff`). Main theorem: `cycles_are_components`.
-/

namespace Ployz

open Relation

/-- The variable `a` has, among its parts, a reference to `b`. -/
def RefersTo (working : SavedEnvironmentIntent) (a b : VariableNode) : Prop :=
  ∃ s ∈ working.services, ∃ v ∈ s.vars, ∃ parts, v.value = .template parts ∧
    a = (s.lineageId, v.key) ∧
    (ValuePart.ref (.service b.1) b.2 ∈ parts ∨ ValuePart.ref .self b.2 ∈ parts ∧ b.1 = s.lineageId)

/-- `a` and `b` reference each other, through other variables or not. -/
def Mutual (working : SavedEnvironmentIntent) (a b : VariableNode) : Prop :=
  TransGen (RefersTo working) a b ∧ TransGen (RefersTo working) b a

section

variable {working : SavedEnvironmentIntent} {edges : VariableGraph} {n t : VariableNode}

/-- The graph gains only the Service's references. -/
theorem outs_addService {s : SavedServiceIntent} (h : t ∈ Reach.outs (addService edges s) n) :
    t ∈ Reach.outs edges n ∨ ∃ r ∈ references s, n = (s.lineageId, r.key) ∧ t = r.target s := by
  have hvars : ∀ (vars : List SavedVariableIntent) (edges : VariableGraph),
      Reach.outs (vars.foldl (fun edges v => orDefault edges (s.lineageId, v.key)) edges) n =
        Reach.outs edges n := by
    intro vars
    induction vars with
    | nil => exact fun _ => rfl
    | cons v vars ih => exact fun edges => (ih _).trans outs_orDefault
  have hrefs : ∀ (refs : List Reference) (edges : VariableGraph),
      t ∈ Reach.outs (refs.foldl (fun edges r =>
        pushEdge edges (s.lineageId, r.key) (r.target s)) edges) n →
      t ∈ Reach.outs edges n ∨ ∃ r ∈ refs, n = (s.lineageId, r.key) ∧ t = r.target s := by
    intro refs
    induction refs with
    | nil => exact fun _ h => .inl h
    | cons r refs ih =>
      intro edges h
      rcases ih _ h with h | ⟨r', hr', heq⟩
      · rw [outs_pushEdge, List.mem_append] at h
        rcases h with h | h
        · exact .inl h
        · split_ifs at h with hn
          · exact .inr ⟨r, List.mem_cons_self, hn, List.mem_singleton.mp h⟩
          · cases h
      · exact .inr ⟨r', List.mem_cons_of_mem _ hr', heq⟩
  rcases hrefs _ _ h with h | h
  · rw [hvars] at h
    exact .inl h
  · exact .inr h

theorem refersTo_iff : RefersTo working n t ↔
    ∃ s ∈ working.services, ∃ r ∈ references s, n = (s.lineageId, r.key) ∧ t = r.target s := by
  obtain ⟨lineage, key⟩ := t
  constructor
  · rintro ⟨s, hs, v, hv, parts, hparts, hn, href | ⟨href, rfl⟩⟩
    · exact ⟨s, hs, _, mem_references hv hparts href, hn, rfl⟩
    · exact ⟨s, hs, _, mem_references hv hparts href, hn, rfl⟩
  · rintro ⟨s, hs, r, hr, hn, ht⟩
    obtain ⟨v, hv, hr⟩ := List.mem_flatMap.mp hr
    split at hr
    · next parts hparts =>
      obtain ⟨part, hpart, hr⟩ := List.mem_filterMap.mp hr
      cases part with
      | text text => cases hr
      | ref owner wanted =>
        obtain rfl := Option.some.inj hr
        refine ⟨s, hs, v, hv, parts, hparts, hn, ?_⟩
        cases owner with
        | self =>
          obtain ⟨rfl, rfl⟩ := Prod.mk.inj ht
          exact .inr ⟨hpart, rfl⟩
        | service owner =>
          obtain ⟨rfl, rfl⟩ := Prod.mk.inj ht
          exact .inl hpart
    · cases hr

/-- The graph has exactly the references of the document. -/
theorem leads_iff : Reach.Leads (referenceGraph working) n t ↔ RefersTo working n t := by
  rw [refersTo_iff]
  constructor
  · intro h
    suffices hfold : ∀ (services : List SavedServiceIntent) (edges : VariableGraph),
        t ∈ Reach.outs (services.foldl addService edges) n → t ∈ Reach.outs edges n ∨
          ∃ s ∈ services, ∃ r ∈ references s, n = (s.lineageId, r.key) ∧ t = r.target s by
      rcases hfold working.services [] h with h | h
      · cases h
      · exact h
    intro services
    induction services with
    | nil => exact fun _ h => .inl h
    | cons s services ih =>
      intro edges h
      rcases ih _ h with h | ⟨s', hs', h⟩
      · rcases outs_addService h with h | h
        · exact .inl h
        · exact .inr ⟨s, List.mem_cons_self, h⟩
      · exact .inr ⟨s', List.mem_cons_of_mem _ hs', h⟩
  · rintro ⟨s, hs, r, hr, rfl, rfl⟩
    exact leads_of_reference hs hr

theorem mem_reach_iff :
    t ∈ Reach.reach (referenceGraph working) n ↔ TransGen (RefersTo working) n t := by
  have hleads : Reach.Leads (referenceGraph working) = RefersTo working := by
    funext a b
    exact propext leads_iff
  rw [Reach.mem_reach, hleads]

theorem exists_entry (h : TransGen (RefersTo working) n t) :
    n ∈ (referenceGraph working).map (·.1) := by
  by_contra hnone
  have houts : Reach.outs (referenceGraph working) n = [] := by
    apply Reach.outs_eq_nil
    rintro entry hentry rfl
    exact hnone (List.mem_map_of_mem hentry)
  have hreach := mem_reach_iff.mpr h
  rw [Reach.reach_eq_nil houts] at hreach
  cases hreach

/-- Whether a search from `x` finds `n`, as the checker looks it up. -/
theorem lookup_reached (edges : VariableGraph) (f : VariableNode → List VariableNode)
    (hf : ∀ x, x ∉ edges.map (·.1) → n ∉ f x) {x : VariableNode} :
    ((edges.map fun entry => (entry.1, f entry.1)).lookup x).any (·.contains n) = true ↔
    n ∈ f x := by
  by_cases hx : x ∈ edges.map (·.1)
  · clear hf
    induction edges with
    | nil => cases hx
    | cons entry rest ih =>
      rw [List.map_cons, List.lookup_cons]
      by_cases heq : x = entry.1
      · simp [heq]
      · rw [beq_false_of_ne heq]
        rw [List.map_cons, List.mem_cons] at hx
        exact ih (hx.resolve_left heq)
  · have hnone : (edges.map fun entry => (entry.1, f entry.1)).lookup x = none := by
      rw [List.lookup_eq_none_iff]
      intro pair hpair
      obtain ⟨entry, hentry, rfl⟩ := List.mem_map.mp hpair
      rw [bne_iff_ne]
      rintro rfl
      exact hx (List.mem_map.mpr ⟨entry, hentry, rfl⟩)
    rw [hnone]
    exact ⟨(fun h => by cases h), fun h => absurd h (hf x hx)⟩

/-- The group the checker makes of a variable. -/
def groupOf (working : SavedEnvironmentIntent) (node : VariableNode) : List VariableNode :=
  let edges := referenceGraph working
  (Reach.reach edges node).filter fun other =>
    ((edges.map fun entry => (entry.1, Reach.reach edges entry.1)).lookup other).any
      (·.contains node)

theorem mem_cycles {group : List VariableNode} : group ∈ cycles working ↔
    ∃ node, TransGen (RefersTo working) node node ∧ group = groupOf working node := by
  constructor
  · intro h
    obtain ⟨pair, hpair, rfl⟩ := List.mem_map.mp h
    obtain ⟨hmem, hself⟩ := List.mem_filter.mp hpair
    obtain ⟨entry, hentry, rfl⟩ := List.mem_map.mp hmem
    exact ⟨entry.1, mem_reach_iff.mp (by simpa using hself), rfl⟩
  · rintro ⟨node, hcycle, rfl⟩
    obtain ⟨entry, hentry, rfl⟩ := List.mem_map.mp (exists_entry hcycle)
    exact List.mem_map.mpr ⟨(entry.1, Reach.reach (referenceGraph working) entry.1),
      List.mem_filter.mpr ⟨List.mem_map.mpr ⟨entry, hentry, rfl⟩,
        by simpa using mem_reach_iff.mpr hcycle⟩, rfl⟩

theorem mem_groupOf {node x : VariableNode} : x ∈ groupOf working node ↔ Mutual working node x := by
  have hentry : ∀ y, y ∉ (referenceGraph working).map (·.1) →
      node ∉ Reach.reach (referenceGraph working) y :=
    fun y hy h => hy (exists_entry (mem_reach_iff.mp h))
  rw [groupOf, List.mem_filter, lookup_reached _ _ hentry, mem_reach_iff, mem_reach_iff, Mutual]

theorem Mutual.trans {a b c : VariableNode} (hab : Mutual working a b) (hbc : Mutual working b c) :
    Mutual working a c := ⟨hab.1.trans hbc.1, hbc.2.trans hab.2⟩

theorem Mutual.symm {a b : VariableNode} (h : Mutual working a b) : Mutual working b a := ⟨h.2, h.1⟩

/-- The groups are, as sets, the strongly connected groups with a cycle. Two of them that share a
variable have the same, and a document with fewer references has its groups inside them. -/
theorem cycles_are_components (working : SavedEnvironmentIntent) :
    { group | ∃ g ∈ cycles working, group = { x | x ∈ g } } =
      { group | ∃ node, TransGen (RefersTo working) node node ∧
        group = { x | Mutual working node x } } ∧
    (∀ g ∈ cycles working, ∀ h ∈ cycles working, ∀ x, x ∈ g → x ∈ h → ∀ y, y ∈ g ↔ y ∈ h) ∧
    ∀ fewer : SavedEnvironmentIntent, (∀ a b, RefersTo fewer a b → RefersTo working a b) →
      ∀ g ∈ cycles fewer, ∃ h ∈ cycles working, g ⊆ h := by
  refine ⟨?_, ?_, ?_⟩
  · ext group
    constructor
    · rintro ⟨g, hg, rfl⟩
      obtain ⟨node, hcycle, rfl⟩ := mem_cycles.mp hg
      exact ⟨node, hcycle, Set.ext fun x => mem_groupOf⟩
    · rintro ⟨node, hcycle, rfl⟩
      exact ⟨_, mem_cycles.mpr ⟨node, hcycle, rfl⟩, Set.ext fun x => mem_groupOf.symm⟩
  · intro g hg h hh x hxg hxh y
    obtain ⟨a, -, rfl⟩ := mem_cycles.mp hg
    obtain ⟨b, -, rfl⟩ := mem_cycles.mp hh
    rw [mem_groupOf] at hxg hxh ⊢
    rw [mem_groupOf]
    have hab : Mutual working a b := hxg.trans hxh.symm
    exact ⟨fun hy => hab.symm.trans hy, fun hy => hab.trans hy⟩
  · intro fewer hfewer g hg
    obtain ⟨node, hcycle, rfl⟩ := mem_cycles.mp hg
    refine ⟨_, mem_cycles.mpr ⟨node, TransGen.mono hfewer _ _ hcycle, rfl⟩, fun x hx => ?_⟩
    rw [mem_groupOf] at hx ⊢
    exact ⟨TransGen.mono hfewer _ _ hx.1, TransGen.mono hfewer _ _ hx.2⟩

end

end Ployz
