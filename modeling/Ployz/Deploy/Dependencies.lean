import Ployz.Deploy.Order
import Ployz.Lib.Ranked
import Ployz.Store.Resolution

/-!
# Lowered dependencies

A deployed Service waits for every deployed Service its variables reference, except that edges
inside a reference cycle are dropped. Each edge is tested on its own: it stays where the Service it
leads to cannot come back through references.

Main theorem: `lowered_dependencies_never_deadlock`. What stays has no cycle, so a Deploy of it can
always be ordered.
-/

namespace Ployz.Lowering

open Relation Deploy

/-- A captured Service: its config and its ID, when it has one. -/
abbrev Snapshot := ServiceConfig × Option String

section

variable (snapshots : List Snapshot) (lineages : List (String × String))

def deployed : List Snapshot :=
  snapshots.filter fun snapshot => match snapshot.1.settings.source with
    | .empty _ _ => false
    | _ => true

/-- The deployed Service of an ID, the last one captured with it. -/
def byId (id : String) : Option ServiceConfig :=
  ((deployed snapshots).filterMap fun snapshot =>
    snapshot.2.map (·, snapshot.1)).reverse.lookup id

/-- The names of the other deployed Services a Service's variables reference, in order. -/
def references (config : ServiceConfig) : List ServiceName :=
  let parts := config.env.flatMap fun entry => match entry.2 with
    | .literal _ parts => parts.getD []
    | .secret .. => []
  let dependencies := parts.filterMap fun
    | .ref (.service lineageId) _ => (lineages.lookup lineageId).bind (byId snapshots)
    | .ref .self _ | .text _ => none
  Ranked.sortBy ServiceName.value ((dependencies.map (·.settings.privateDns)).filter
    (· ≠ config.settings.privateDns)).dedup

/-- Deployed Services by name with what they reference. The last one with a name takes its place, so
it stands first. -/
def graph : List (ServiceName × ServiceConfig × List ServiceName) :=
  ((deployed snapshots).map fun snapshot =>
    (snapshot.1.settings.privateDns, snapshot.1, references snapshots lineages snapshot.1)).reverse

def edges : List (ServiceName × List ServiceName) :=
  (graph snapshots lineages).map fun entry => (entry.1, entry.2.2)

/-- Whether references lead from a Service to another. -/
def reaches (start target : ServiceName) : Bool :=
  Reach.finds (Reach.outs (edges snapshots lineages)) target
    (Reach.work (edges snapshots lineages) [start] []) [start] []

/-- An HTTP healthcheck makes the wait for health. -/
def condition (dependency : ServiceName) : DependencyCondition :=
  match (graph snapshots lineages).lookup dependency with
  | some (config, _) => match config.settings.healthcheck with
    | .http _ _ => .serviceHealthy
    | .none => .serviceStarted
  | none => .serviceStarted

def keptDependencies (name : ServiceName) : List ServiceDependency :=
  ((Reach.outs (edges snapshots lineages) name).filter fun dependency =>
    !reaches snapshots lineages dependency name).map fun dependency =>
      ⟨dependency, condition snapshots lineages dependency⟩

def deploymentDependencies : List (ServiceName × List ServiceDependency) :=
  (Ranked.sortBy ServiceName.value
    ((graph snapshots lineages).map (·.1)).dedup).filterMap fun name =>
    if (keptDependencies snapshots lineages name).isEmpty then none
    else some (name, keptDependencies snapshots lineages name)

end

variable {snapshots : List Snapshot} {lineages : List (String × String)}

/-- A variable of the deployed Service named `a`, the last one captured with that name, has a
reference to a deployed Service of another name `b`. -/
def References (snapshots : List Snapshot) (lineages : List (String × String))
    (a b : ServiceName) : Prop :=
  a ≠ b ∧ ∃ found, (deployed snapshots).reverse.find? (·.1.settings.privateDns == a) = some found ∧
    ∃ entry ∈ found.1.env, ∃ value parts, entry.2 = .literal value (some parts) ∧
      ∃ lineage wanted, ValuePart.ref (.service lineage) wanted ∈ parts ∧
        ∃ id other, lineages.lookup lineage = some id ∧ byId snapshots id = some other ∧
          other.settings.privateDns = b

/-- A lowered dependency. -/
def Kept (snapshots : List Snapshot) (lineages : List (String × String)) (a b : ServiceName) :
    Prop :=
  ∃ dependency ∈ ((deploymentDependencies snapshots lineages).lookup a).getD [],
    dependency.service = b

/-- Looking a name up among the names that have something. -/
theorem lookup_nonempty {α : Type} (f : ServiceName → List α) (names : List ServiceName)
    (name : ServiceName) :
    ((names.filterMap fun n => if (f n).isEmpty then none else some (n, f n)).lookup name).getD [] =
      if name ∈ names then f name else [] := by
  induction names with
  | nil => rfl
  | cons first rest ih =>
    by_cases hempty : (f first).isEmpty = true
    · rw [List.filterMap_cons_none (by simp [hempty]), ih]
      by_cases hname : name = first
      · subst hname
        have hnil := List.isEmpty_iff.mp hempty
        simp [hnil]
      · simp [hname]
    · rw [List.filterMap_cons_some (by rw [if_neg hempty]), List.lookup_cons]
      by_cases hname : name = first
      · simp [hname]
      · rw [beq_false_of_ne hname, ih]
        simp [hname]

theorem kept_eq (name : ServiceName) :
    ((deploymentDependencies snapshots lineages).lookup name).getD [] =
      keptDependencies snapshots lineages name := by
  rw [deploymentDependencies, lookup_nonempty]
  split_ifs with hname
  · rfl
  · have houts : Reach.outs (edges snapshots lineages) name = [] := by
      refine Reach.outs_eq_nil fun entry hentry heq => hname ?_
      obtain ⟨source, hsource, rfl⟩ := List.mem_map.mp hentry
      rw [Ranked.mem_sortBy, List.mem_dedup]
      exact List.mem_map.mpr ⟨source, hsource, heq⟩
    rw [keptDependencies, houts]
    rfl

theorem lookup_map {α β γ : Type} [DecidableEq β] (key : α → β) (value : α → γ) (xs : List α)
    (b : β) :
    (xs.map fun x => (key x, value x)).lookup b = (xs.find? (key · == b)).map value := by
  induction xs with
  | nil => rfl
  | cons x xs ih =>
    rw [List.map_cons, List.lookup_cons, List.find?_cons, ih, Bool.beq_comm]
    cases key x == b <;> rfl

theorem mem_references {config : ServiceConfig} {b : ServiceName} :
    b ∈ references snapshots lineages config ↔ config.settings.privateDns ≠ b ∧
      ∃ entry ∈ config.env, ∃ value parts, entry.2 = .literal value (some parts) ∧
        ∃ lineage wanted, ValuePart.ref (.service lineage) wanted ∈ parts ∧
          ∃ id other, lineages.lookup lineage = some id ∧ byId snapshots id = some other ∧
            other.settings.privateDns = b := by
  simp only [references, Ranked.mem_sortBy, List.mem_dedup, List.mem_filter, List.mem_map,
    List.mem_filterMap, List.mem_flatMap, decide_eq_true_eq]
  constructor
  · rintro ⟨⟨other, ⟨part, ⟨entry, hentry, hpart⟩, hother⟩, rfl⟩, hne⟩
    refine ⟨Ne.symm hne, entry, hentry, ?_⟩
    split at hpart
    · next value parts hvalue =>
      cases parts with
      | none => cases hpart
      | some parts =>
        refine ⟨value, parts, hvalue, ?_⟩
        split at hother
        · next lineage wanted =>
          obtain ⟨id, hid, hby⟩ := Option.bind_eq_some_iff.mp hother
          exact ⟨lineage, wanted, hpart, id, other, hid, hby, rfl⟩
        · cases hother
        · cases hother
    · cases hpart
  · rintro ⟨hne, entry, hentry, value, parts, hvalue, lineage, wanted, hpart, id, other, hid, hby,
      rfl⟩
    refine ⟨⟨other, ⟨.ref (.service lineage) wanted, ⟨entry, hentry, ?_⟩, ?_⟩, rfl⟩, Ne.symm hne⟩
    · rw [hvalue]
      exact hpart
    · simp [hid, hby]

/-- The graph has exactly the references of the deployed Services. -/
theorem leads_iff {a b : ServiceName} :
    Reach.Leads (edges snapshots lineages) a b ↔ References snapshots lineages a b := by
  have hedges : edges snapshots lineages = (deployed snapshots).reverse.map fun snapshot =>
      (snapshot.1.settings.privateDns, references snapshots lineages snapshot.1) := by
    simp [edges, graph, List.map_reverse]
  rw [Reach.Leads, Reach.outs, hedges, lookup_map, References]
  cases hfound : (deployed snapshots).reverse.find? (·.1.settings.privateDns == a) with
  | none => simp
  | some found =>
    have hname : found.1.settings.privateDns = a := by simpa using List.find?_some hfound
    simp only [Option.map_some, Option.getD_some, mem_references, hname, Option.some.injEq,
      exists_eq_left']

/-- An edge stays exactly where what it leads to cannot come back. -/
theorem kept_iff {a b : ServiceName} :
    Kept snapshots lineages a b ↔ References snapshots lineages a b ∧
      ¬ ReflTransGen (References snapshots lineages) b a := by
  have hleads : References snapshots lineages = Reach.Leads (edges snapshots lineages) :=
    funext₂ fun _ _ => propext leads_iff.symm
  rw [Kept, kept_eq, keptDependencies, hleads, ← Reach.finds_from]
  simp [reaches, Reach.Leads]

theorem kept_acyclic (name : ServiceName) : ¬ TransGen (Kept snapshots lineages) name name := by
  intro hcycle
  obtain ⟨next, hnext, hback⟩ := TransGen.head'_iff.mp hcycle
  exact (kept_iff.mp hnext).2 (hback.lift id fun _ _ h => (kept_iff.mp h).1)

/-- The dependencies kept have no cycle, each is kept exactly when the Service it leads to cannot
come back through references, and ordering any apply set of an intent with them never reports a
cycle. -/
theorem lowered_dependencies_never_deadlock (snapshots : List Snapshot)
    (lineages : List (String × String)) :
    (∀ name, ¬ TransGen (Kept snapshots lineages) name name) ∧
    (∀ a b, Kept snapshots lineages a b ↔ References snapshots lineages a b ∧
      ¬ ReflTransGen (References snapshots lineages) b a) ∧
    ∀ (intent : DeployIntent) (included : List ServiceName) (service : String),
      orderIncluded { intent with dependencies := deploymentDependencies snapshots lineages }
        included ≠ .error (.dependencyCycle service) := by
  refine ⟨kept_acyclic, fun a b => kept_iff, fun intent included service hfails => ?_⟩
  by_cases htarget : (intent.target.map (·.name)).Nodup
  · let lowered : DeployIntent :=
      { intent with dependencies := deploymentDependencies snapshots lineages }
    have hlowered : (lowered.target.map (·.name)).Nodup := htarget
    rcases orderIncluded_ends hlowered included with ⟨specs, hspecs, -⟩ | ⟨-, name, -, hcycle⟩
    · rw [hspecs] at hfails
      cases hfails
    · exact kept_acyclic name (hcycle.lift id fun _ _ h => h.1)
  · obtain ⟨name, hname⟩ :=
      Option.ne_none_iff_exists'.mp (mt repeatedName_eq_none.mp htarget)
    simp [orderIncluded, hname] at hfails

end Ployz.Lowering
