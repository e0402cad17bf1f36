import Ployz.Deploy.Replay

/-!
# Deploy order

The apply set of an intent is the selection closed under dependencies, and ordering it puts every
Service after its dependencies unless they run in a circle.

Main theorem: `deploy_order`. A walk that comes to a Service it is still in has found a cycle
(`visit_settles`), and one that goes through has left every Service after what it depends on.
-/

namespace Ployz.Deploy

open Run Relation

variable {intent : DeployIntent} {included : List ServiceName}

/-- `a` depends on `b`, which is included. -/
def DependsOn (intent : DeployIntent) (included : List ServiceName) (a b : ServiceName) : Prop :=
  (∃ dependency ∈ intent.dependenciesOf a, dependency.service = b) ∧ b ∈ included

/-- Names listed after the included dependencies of each, the latest first. -/
def Settled (intent : DeployIntent) (included : List ServiceName) : List ServiceName → Prop
  | [] => True
  | name :: rest => (∀ b, DependsOn intent included name b → b ∈ rest) ∧
      Settled intent included rest

theorem Settled.mem_after {names before after : List ServiceName} {name b : ServiceName}
    (h : Settled intent included names) (hnames : names = before ++ name :: after)
    (hb : DependsOn intent included name b) : b ∈ after := by
  induction before generalizing names with
  | nil =>
    subst hnames
    exact h.1 b hb
  | cons first before ih =>
    subst hnames
    exact ih h.2 rfl

variable {name : ServiceName}

theorem Settled.acc {names : List ServiceName} (h : Settled intent included names)
    (hname : name ∈ names) : Acc (fun b a => DependsOn intent included a b) name := by
  induction names generalizing name with
  | nil => cases hname
  | cons first rest ih =>
    rcases List.mem_cons.mp hname with rfl | hname
    · exact ⟨_, fun b hb => ih h.2 (h.1 b hb)⟩
    · exact ih h.2 hname

/-! ## Walking -/

/-- A walk has ordered the specs of what it has visited, each Service after its dependencies. -/
structure Walk.Settles (intent : DeployIntent) (included : List ServiceName) (walk : Walk) :
    Prop where
  ordered : walk.Ordered intent included
  settled : Settled intent included walk.visited
  names : walk.ordered.map (·.name) =
    walk.visited.reverse.filter (intent.target.map (·.name)).contains

/-- The Services a walk is in when it comes to `name`, and the steps it has left. -/
structure Walk.Within (intent : DeployIntent) (included : List ServiceName) (name : ServiceName)
    (fuel : Nat) (visiting : List ServiceName) : Prop where
  distinct : visiting.Nodup
  inside : visiting ⊆ included
  path : ∀ outer ∈ visiting, TransGen (DependsOn intent included) outer name
  fuel : included.length < fuel + visiting.length

/-- A walk goes on to one that has visited `wanted` too, or finds a cycle. -/
def Walk.Ends (intent : DeployIntent) (included : List ServiceName) (walk : Walk)
    (wanted : List ServiceName) (result : Except PlanError Walk) : Prop :=
  (∃ later, result = .ok later ∧ walk.Extends later ∧ later.Settles intent included ∧
    wanted ⊆ later.visited) ∨
  (∃ service, result = .error (.dependencyCycle service)) ∧
    ∃ name ∈ included, TransGen (DependsOn intent included) name name

/-- A walk through specs or dependencies, each of which ends well or in a cycle. -/
theorem ends_of_fold {α : Type} (fuel : Nat) (names : α → ServiceName) (xs : List α)
    {visiting : List ServiceName}
    (hvisit : ∀ x ∈ xs, names x ∈ included → ∀ walk : Walk, walk.visiting = visiting →
      walk.Settles intent included →
      walk.Ends intent included [names x] (visit intent included fuel (names x) walk))
    (walk : Walk) (hvisiting : walk.visiting = visiting) (hwalk : walk.Settles intent included) :
    walk.Ends intent included ((xs.map names).filter (· ∈ included)) (xs.foldlM (fun walk x =>
      if included.contains (names x) then visit intent included fuel (names x) walk
      else pure walk) walk) := by
  induction xs generalizing walk with
  | nil => exact .inl ⟨walk, rfl, .refl _, hwalk, List.nil_subset _⟩
  | cons x xs ih =>
    have hrest := ih fun y hy => hvisit y (List.mem_cons_of_mem _ hy)
    rw [List.foldlM_cons, List.map_cons]
    by_cases hincluded : names x ∈ included
    · rw [if_pos (by simpa using hincluded), List.filter_cons_of_pos (by simpa using hincluded)]
      rcases hvisit x List.mem_cons_self hincluded walk hvisiting hwalk with
        ⟨later, hlater, hextends, hsettles, hwanted⟩ | ⟨⟨service, hservice⟩, hcycle⟩
      · rw [hlater, ok_bind]
        rcases hrest later (hextends.visiting.trans hvisiting) hsettles with
          ⟨last, hlast, hmore, hdone, hall⟩ | hfails
        · refine .inl ⟨last, hlast, hextends.trans hmore, hdone, List.cons_subset.mpr ⟨?_, hall⟩⟩
          exact hmore.visited (hwanted (List.mem_singleton_self _))
        · exact .inr hfails
      · rw [hservice]
        exact .inr ⟨⟨service, rfl⟩, hcycle⟩
    · rw [if_neg (by simpa using hincluded), List.filter_cons_of_neg (by simpa using hincluded),
        pure_bind]
      exact hrest walk hvisiting hwalk

/-- Leaving a Service whose dependencies are visited settles it. -/
theorem Walk.Settles.leave {walk later : Walk} (hwalk : walk.Settles intent included)
    (hlater : later.Ordered intent included) (hvisited : later.visited = name :: walk.visited)
    (hordered : later.ordered = walk.ordered ++ (intent.target.find? (·.name == name)).toList)
    (hdependencies : ∀ b, DependsOn intent included name b → b ∈ walk.visited) :
    later.Settles intent included := by
  refine ⟨hlater, hvisited ▸ ⟨hdependencies, hwalk.settled⟩, ?_⟩
  rw [hvisited, hordered, List.map_append, hwalk.names, List.reverse_cons, List.filter_append]
  congr 1
  cases hfind : intent.target.find? (·.name == name) with
  | none =>
    have hnot : name ∉ intent.target.map (·.name) := by
      rw [List.find?_eq_none] at hfind
      intro hmem
      obtain ⟨spec, hspec, heq⟩ := List.mem_map.mp hmem
      exact hfind spec hspec (by simpa using heq)
    rw [List.filter_cons_of_neg (by simpa using hnot)]
    rfl
  | some spec =>
    have heq : spec.name = name := by simpa using List.find?_some hfind
    have hmem : name ∈ intent.target.map (·.name) :=
      List.mem_map.mpr ⟨spec, List.mem_of_find?_eq_some hfind, heq⟩
    rw [List.filter_cons_of_pos (by simpa using hmem), Option.toList_some, List.map_singleton, heq]
    rfl

/-- Ordering a Service settles it, or finds a cycle. -/
theorem visit_settles (htarget : (intent.target.map (·.name)).Nodup) {fuel : Nat}
    (hname : name ∈ included) {walk : Walk}
    (hwithin : Walk.Within intent included name fuel walk.visiting)
    (hwalk : walk.Settles intent included) :
    walk.Ends intent included [name] (visit intent included fuel name walk) := by
  induction fuel generalizing name walk with
  | zero =>
    -- More Services are being visited than there are.
    have hle := (List.subperm_of_subset hwithin.distinct hwithin.inside).length_le
    have hmore := hwithin.fuel
    omega
  | succ fuel ih =>
    by_cases hvisited : name ∈ walk.visited
    · rw [visit, if_pos (by simpa using hvisited)]
      exact .inl ⟨walk, rfl, .refl _, hwalk, List.cons_subset.mpr ⟨hvisited, List.nil_subset _⟩⟩
    by_cases hvisiting : name ∈ walk.visiting
    · rw [visit, if_neg (by simpa using hvisited), if_pos (by simpa using hvisiting)]
      exact .inr ⟨⟨_, rfl⟩, name, hname, hwithin.path name hvisiting⟩
    let inside : Walk := { walk with visiting := name :: walk.visiting }
    have hinside : inside.Settles intent included := by
      have hordered := hwalk.ordered
      refine ⟨⟨fun other hother => ?_, hordered.nodup, hordered.visited, hordered.targets,
        hordered.complete⟩, hwalk.settled, hwalk.names⟩
      rcases List.mem_cons.mp hother with rfl | hother
      · exact hvisited
      · exact hordered.apart other hother
    have hdeeper : ∀ b, DependsOn intent included name b →
        Walk.Within intent included b fuel inside.visiting := by
      intro b hb
      refine ⟨List.nodup_cons.mpr ⟨hvisiting, hwithin.distinct⟩,
        List.cons_subset.mpr ⟨hname, hwithin.inside⟩, fun outer houter => ?_, ?_⟩
      · rcases List.mem_cons.mp houter with rfl | houter
        · exact .single hb
        · exact (hwithin.path outer houter).tail hb
      · have hfuel := hwithin.fuel
        rw [List.length_cons]
        omega
    have hdependencies := ends_of_fold fuel ServiceDependency.service (intent.dependenciesOf name)
      (fun dependency hdependency hincluded between hsame =>
        ih hincluded (hsame ▸ hdeeper _ ⟨⟨dependency, hdependency, rfl⟩, hincluded⟩))
      inside rfl hinside
    rcases hdependencies with
      ⟨middle, hmiddle, hextends, hsettles, hall⟩ | ⟨⟨service, hservice⟩, hcycle⟩
    · have hleft : visit intent included (fuel + 1) name walk =
          .ok ⟨middle.visiting.filter (· != name), name :: middle.visited,
            middle.ordered ++ (intent.target.find? (·.name == name)).toList⟩ := by
        rw [visit, if_neg (by simpa using hvisited), if_neg (by simpa using hvisiting), hmiddle]
        rfl
      obtain ⟨hordered, hmore, hdone⟩ := ordered_of_visit htarget hname hwalk.ordered hleft
      refine .inl ⟨_, hleft, hmore, hsettles.leave hordered rfl rfl ?_,
        List.cons_subset.mpr ⟨hdone, List.nil_subset _⟩⟩
      rintro b ⟨⟨dependency, hdependency, rfl⟩, hincluded⟩
      exact hall (List.mem_filter.mpr ⟨List.mem_map_of_mem hdependency, by simpa using hincluded⟩)
    · rw [visit, if_neg (by simpa using hvisited), if_neg (by simpa using hvisiting), hservice]
      exact .inr ⟨⟨service, rfl⟩, hcycle⟩

/-- Services in an order that puts each after its included dependencies. -/
def InOrder (intent : DeployIntent) (included : List ServiceName)
    (specs : List RequestedServiceSpec) : Prop :=
  ∀ before spec after, specs = before ++ spec :: after → ∀ b ∈ intent.target.map (·.name),
    DependsOn intent included spec.name b → b ∈ before.map (·.name)

/-- Ordering the included Services of a target lists them in order, unless they depend on each
other in a circle. -/
theorem orderIncluded_ends (htarget : (intent.target.map (·.name)).Nodup)
    (included : List ServiceName) :
    (∃ specs, orderIncluded intent included = .ok specs ∧ InOrder intent included specs ∧
      (included ⊆ intent.target.map (·.name) →
        ∀ name ∈ included, ¬ TransGen (DependsOn intent included) name name)) ∨
    (∃ service, orderIncluded intent included = .error (.dependencyCycle service)) ∧
      ∃ name ∈ included, TransGen (DependsOn intent included) name name := by
  have hstart : Walk.Settles intent included ⟨[], [], []⟩ :=
    ⟨⟨by simp, by simp, by simp, by simp, by simp⟩, trivial, rfl⟩
  have hends := ends_of_fold (included.length + 1) RequestedServiceSpec.name intent.target
    (fun spec _ hincluded walk hsame hwalk =>
      visit_settles htarget hincluded (by rw [hsame]; exact ⟨.nil, by simp, by simp, by simp⟩)
        hwalk)
    ⟨[], [], []⟩ rfl hstart
  simp only [orderIncluded, repeatedName_eq_none.mpr htarget]
  rcases hends with ⟨walk, hwalk, -, hsettles, hall⟩ | ⟨⟨service, hservice⟩, hcycle⟩
  · rw [hwalk]
    refine .inl ⟨walk.ordered, rfl, ?_, fun hsub name hname => ?_⟩
    · intro before spec after hsplit b hb hdepends
      have hnames := hsettles.names
      rw [hsplit, List.map_append, List.map_cons, eq_comm, List.filter_eq_append_iff] at hnames
      obtain ⟨first, rest, hvisited, hfirst, hrest⟩ := hnames
      obtain ⟨skipped, last, hlast, hskipped, -, -⟩ := List.filter_eq_cons_iff.mp hrest
      -- What was visited before `spec`, the latest first.
      have hbefore : walk.visited = last.reverse ++ spec.name :: (first ++ skipped).reverse := by
        rw [← List.reverse_reverse walk.visited, hvisited, hlast]
        simp
      have hmem := hsettles.settled.mem_after hbefore hdepends
      rw [← hfirst, List.mem_filter]
      refine ⟨?_, by simpa using hb⟩
      rcases List.mem_append.mp (List.mem_reverse.mp hmem) with h | h
      · exact h
      · exact absurd (by simpa using hb) (hskipped b h)
    · have hmem : name ∈ walk.visited :=
        hall (List.mem_filter.mpr ⟨hsub hname, by simpa using hname⟩)
      exact Reach.not_transGen_of_acc (hsettles.settled.acc hmem) .refl
  · rw [hservice]
    exact .inr ⟨⟨service, rfl⟩, hcycle⟩

/-! ## The apply set -/

/-- The names a command starts from: those selected that the target has, or the whole target when
none is selected. -/
def DeployIntent.wanted (intent : DeployIntent) : Set ServiceName :=
  { name | name ∈ intent.target.map (·.name) ∧
    (intent.options.selected = [] ∨ name ∈ intent.options.selected) }

/-- A set with every dependency of its members that the target has. -/
def DeployIntent.ClosedUnder (intent : DeployIntent) (names : Set ServiceName) : Prop :=
  ∀ a ∈ names, ∀ b, DependsOn intent (intent.target.map (·.name)) a b → b ∈ names

theorem leads_presentDependencies {a b : ServiceName} :
    Reach.Leads intent.presentDependencies a b ↔
      DependsOn intent (intent.target.map (·.name)) a b := by
  have houts : Reach.outs intent.presentDependencies a = ((intent.dependenciesOf a).map
      (·.service)).filter (intent.target.map (·.name)).contains := by
    rw [DeployIntent.presentDependencies, DeployIntent.dependenciesOf]
    induction intent.dependencies with
    | nil => rfl
    | cons entry rest ih =>
      rw [List.map_cons, Reach.outs_cons, ih, List.lookup_cons]
      by_cases h : a = entry.1
      · rw [if_pos h, h, beq_self_eq_true]
        rfl
      · rw [if_neg h, beq_false_of_ne h]
  rw [Reach.Leads, houts, List.mem_filter, List.mem_map, DependsOn]
  simp only [List.contains_iff_mem]

theorem isLeast_appliedNames (intent : DeployIntent) :
    IsLeast { names : Set ServiceName | intent.wanted ⊆ names ∧ intent.ClosedUnder names }
      { name | name ∈ intent.appliedNames } := by
  by_cases hselected : intent.options.selected = []
  · have happlied : intent.appliedNames = intent.target.map (·.name) := by
      rw [DeployIntent.appliedNames, hselected]
      rfl
    rw [happlied]
    refine ⟨⟨fun name hname => hname.1, fun _ _ b hb => hb.2⟩, ?_⟩
    rintro names ⟨hwanted, -⟩ name hname
    exact hwanted ⟨hname, .inl hselected⟩
  · let pending := (intent.options.selected.filter (intent.target.map (·.name)).contains).reverse
    have happlied : intent.appliedNames = Reach.search (Reach.outs intent.presentDependencies)
        (Reach.work intent.presentDependencies pending []) pending [] := by
      rw [DeployIntent.appliedNames, if_neg (by simpa using hselected)]
    have hpending (name : ServiceName) : name ∈ pending ↔ name ∈ intent.wanted := by
      rw [List.mem_reverse, List.mem_filter, DeployIntent.wanted, Set.mem_ofPred_eq,
        List.contains_iff_mem]
      simp only [hselected, false_or, and_comm]
    rw [happlied]
    constructor
    · have hclosed : Reach.Closed intent.presentDependencies pending [] _ :=
        Reach.search_closed le_rfl (by simp)
      refine ⟨fun name hname => hclosed.next ((hpending name).mpr hname), fun a ha b hb => ?_⟩
      exact hclosed.outs a ha (leads_presentDependencies.mpr hb)
    · rintro names ⟨hwanted, hclosed⟩ name hname
      rcases Reach.search_sound hname with h | ⟨start, hstart, hpath⟩
      · cases h
      · clear hname
        induction hpath with
        | refl => exact hwanted ((hpending _).mp hstart)
        | tail _ hleads ih => exact hclosed _ ih _ (leads_presentDependencies.mp hleads)

theorem appliedNames_subset (intent : DeployIntent) :
    intent.appliedNames ⊆ intent.target.map (·.name) := by
  have hsub := (isLeast_appliedNames intent).2
    (show { name | name ∈ intent.target.map (·.name) } ∈ _ from
      ⟨fun _ h => h.1, fun _ _ _ hb => hb.2⟩)
  exact fun name hname => hsub hname

/-- The apply set is the least one with the selected names of the target, or the whole target when
none is selected, that is closed under dependencies in the target. Ordering it lists each applied
Service once, after all its applied dependencies, or reports a cycle, exactly when there is one. -/
theorem deploy_order (htarget : (intent.target.map (·.name)).Nodup) :
    IsLeast { names : Set ServiceName | intent.wanted ⊆ names ∧ intent.ClosedUnder names }
      { name | name ∈ intent.appliedNames } ∧
    ((∃ specs, orderIncluded intent intent.appliedNames = .ok specs ∧
      (∀ spec ∈ specs, spec ∈ intent.target) ∧ (specs.map (·.name)).Nodup ∧
      (∀ name, name ∈ specs.map (·.name) ↔ name ∈ intent.appliedNames) ∧
      ∀ before spec after, specs = before ++ spec :: after →
        ∀ b, DependsOn intent intent.appliedNames spec.name b → b ∈ before.map (·.name)) ∨
      ∃ service, orderIncluded intent intent.appliedNames = .error (.dependencyCycle service)) ∧
    ((∃ service, orderIncluded intent intent.appliedNames = .error (.dependencyCycle service)) ↔
      ∃ name ∈ intent.appliedNames,
        TransGen (DependsOn intent intent.appliedNames) name name) := by
  have hsub := appliedNames_subset intent
  refine ⟨isLeast_appliedNames intent, ?_⟩
  rcases orderIncluded_ends htarget _ with ⟨specs, hspecs, horder, hacyclic⟩ | ⟨hfails, hcycle⟩
  · have hall := isOrder_of_orderIncluded hspecs
    refine ⟨.inl ⟨specs, hspecs, fun spec hspec => ((hall.mem spec).mp hspec).1, hall.nodup, ?_,
      ?_⟩, ?_⟩
    · intro name
      constructor
      · intro hname
        obtain ⟨spec, hspec, rfl⟩ := List.mem_map.mp hname
        exact ((hall.mem spec).mp hspec).2
      · intro hname
        obtain ⟨spec, hspec, rfl⟩ := List.mem_map.mp (hsub hname)
        exact List.mem_map_of_mem ((hall.mem spec).mpr ⟨hspec, hname⟩)
    · intro before spec after hsplit b hb
      exact horder before spec after hsplit b (hsub hb.2) hb
    · constructor
      · rintro ⟨service, hservice⟩
        rw [hspecs] at hservice
        cases hservice
      · rintro ⟨name, hname, hcycle⟩
        exact absurd hcycle (hacyclic hsub name hname)
  · exact ⟨.inr hfails, fun _ => hcycle, fun _ => hfails⟩

namespace Sample

def dependent : DeployIntent :=
  { deploy [spec web single "web:1" [], spec api single "api:1" []] with
    options := applying [web]
    dependencies := [(web, [⟨api, .serviceStarted⟩])] }

theorem dependent_is_ordered : ∃ specs,
    orderIncluded dependent dependent.appliedNames = .ok specs ∧ specs.map (·.name) = [api, web] ∧
    ∀ name, name ∈ specs.map (·.name) ↔ name ∈ dependent.appliedNames := by
  obtain ⟨specs, hspecs, horder⟩ : ∃ specs : List RequestedServiceSpec,
      orderIncluded dependent dependent.appliedNames = .ok specs ∧
        specs.map (·.name) = [api, web] :=
    exists_ok _ (by decide +kernel)
  refine ⟨specs, hspecs, horder, ?_⟩
  obtain ⟨-, ⟨ordered, hordered, -, -, hnames, -⟩ | ⟨service, hfails⟩, -⟩ :=
    deploy_order (show (dependent.target.map (·.name)).Nodup by decide)
  · obtain rfl := Except.ok.inj (hspecs.symm.trans hordered)
    exact hnames
  · rw [hspecs] at hfails
    cases hfails

/-- A selected name that the target does not have is not applied. -/
theorem absent_name_is_not_applied :
    let intent : DeployIntent := { deploy [] with options := applying [web] }
    (intent.target.map (·.name)).Nodup ∧ web ∈ intent.options.selected ∧
      web ∉ intent.appliedNames := by
  decide +kernel

end Sample

end Ployz.Deploy
