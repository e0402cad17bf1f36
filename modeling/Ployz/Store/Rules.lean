import Ployz.Lib.Keyed
import Ployz.Lib.Reach
import Ployz.Store.Variables
import Mathlib.Data.List.Find

/-!
# The rules an Environment keeps as a whole

`problems` finds what no single setting can show: a Volume with more writers than it takes,
references to what is not there, variables that reference each other in a cycle, and Setup
Commands in no Service. The checker reads the authored graph by lineage; the resolver reads
compiled producers by owner. `resolves_without_problems` relates the two: where the checker finds
no broken reference and no cycle and nothing is used live, every template resolves, without a
warning.
-/

namespace Ployz

open Run Keyed

/-- A command run once in a new Branch's Service. -/
structure SetupCommand where
  service : ServiceName
  command : String

/-- What the rules read of one Environment. -/
structure Facts where
  /-- Its Working State. -/
  working : SavedEnvironmentIntent
  /-- The name of each node it uses live, by lineage. -/
  live : List (String × String)
  /-- The Setup Commands it hands each new Branch. -/
  setup : List SetupCommand

/-- What a broken reference names that isn't there. -/
inductive Wants
  /-- A Service, by lineage, neither in the Environment nor used live. -/
  | service (lineage : String)
  /-- Variable `key` of the Service `owner` (a lineage), which it doesn't have. -/
  | variableOf (owner key : String)
deriving DecidableEq, Repr

/-- One way an Environment breaks a rule, by lineage so a Branch copy has the same. -/
inductive Problem
  /-- A Volume without Shared Writes, by lineage, and how many replicas write it. -/
  | writers (volume : String) (replicas : Nat)
  /-- Variable `key` of Service `service` (a lineage) references what isn't there. -/
  | broken (service key : String) (wants : Wants)
  /-- Variables, as (Service lineage, key), that reference each other in a cycle. -/
  | cycle (members : List (String × String))
  /-- A Setup Command runs in this Service name, which no Service has. -/
  | noSetupService (service : ServiceName)
deriving DecidableEq

/-- A reference in a Service's variables: its variable, the owner, the key. -/
structure Reference where
  key : String
  owner : ValuePartOwner
  wanted : String

/-- Each reference in the Service's variables. -/
def references (service : SavedServiceIntent) : List Reference :=
  service.vars.flatMap fun v => match v.value with
    | .template parts => parts.filterMap fun
      | .ref owner key => some ⟨v.key, owner, key⟩
      | .text _ => none
    | _ => []

/-- The Services of `intent` that mount Volume `id` and run a replica. -/
def writers (intent : SavedEnvironmentIntent) (id : String) : List SavedServiceIntent :=
  (intent.services.filter (0 < ·.config.replicas)).filter fun service =>
    service.volumeAttachments.any (·.volumeResourceId == id)

/-- The Service of `working` with lineage `lineage`. -/
def serviceOf (working : SavedEnvironmentIntent) (lineage : String) : Option SavedServiceIntent :=
  working.services.find? (·.lineageId == lineage)

/-- What a reference of `referrer` is broken by, if it is. -/
def brokenBy (facts : Facts) (referrer : SavedServiceIntent) (reference : Reference) :
    Option Wants :=
  let wants (owner : SavedServiceIntent) : Option Wants :=
    if owner.vars.any (·.key == reference.wanted) || builtInVariables.contains reference.wanted then
      none
    else some (.variableOf owner.lineageId reference.wanted)
  match reference.owner with
  | .self => wants referrer
  | .service lineage => match serviceOf facts.working lineage with
    | some owner => wants owner
    -- A node used live: its owner provides its variables.
    | none => if (facts.live.lookup lineage).isSome then none else some (.service lineage)

/-- A variable, by its Service's lineage and its key. -/
abbrev VariableNode := String × String

def Reference.target (service : SavedServiceIntent) (reference : Reference) : VariableNode :=
  match reference.owner with
  | .self => (service.lineageId, reference.wanted)
  | .service lineage => (lineage, reference.wanted)

/-- The variables each one references. -/
abbrev VariableGraph := List (VariableNode × List VariableNode)

def orDefault (edges : VariableGraph) (node : VariableNode) : VariableGraph :=
  if edges.any (·.1 == node) then edges else edges ++ [(node, [])]

def pushEdge (edges : VariableGraph) (node target : VariableNode) : VariableGraph :=
  modifyFirst (·.1 == node) (fun entry => (entry.1, entry.2 ++ [target])) (orDefault edges node)

/-- The graph with a Service's variables and their references. -/
def addService (edges : VariableGraph) (service : SavedServiceIntent) : VariableGraph :=
  let edges := service.vars.foldl (fun edges v => orDefault edges (service.lineageId, v.key)) edges
  (references service).foldl (fun edges reference =>
    pushEdge edges (service.lineageId, reference.key) (reference.target service)) edges

def referenceGraph (working : SavedEnvironmentIntent) : VariableGraph :=
  working.services.foldl addService []

/-- The groups of variables that reference each other in a cycle, including one that references
itself. -/
def cycles (working : SavedEnvironmentIntent) : List (List VariableNode) :=
  let edges := referenceGraph working
  let reached := edges.map fun entry => (entry.1, Reach.reach edges entry.1)
  (reached.filter fun entry => entry.2.contains entry.1).map fun entry =>
    entry.2.filter fun other => (reached.lookup other).any (·.contains entry.1)

def problems (facts : Facts) : List Problem :=
  let working := facts.working
  ((working.volumes.filter (!·.sharedWrites)).filterMap fun volume =>
    let replicas := ((writers working volume.resourceId).map (·.config.replicas.toNat)).sum
    if 1 < replicas then some (.writers volume.resourceLineageId replicas) else none) ++
  (working.services.flatMap fun referrer => (references referrer).filterMap fun reference =>
    (brokenBy facts referrer reference).map (.broken referrer.lineageId reference.key)) ++
  (cycles working).map .cycle ++
  facts.setup.filterMap fun command =>
    if working.services.any (·.slug == command.service.value) then none
    else some (.noSetupService command.service)

/-! ## The graph of references -/

section

variable {edges : VariableGraph} {node target n t : VariableNode}

theorem outs_orDefault : Reach.outs (orDefault edges node) n = Reach.outs edges n := by
  have happend : ∀ edges : VariableGraph,
      Reach.outs (edges ++ [(node, [])]) n = Reach.outs edges n := by
    intro edges
    induction edges with
    | nil =>
      rw [List.nil_append, Reach.outs_cons]
      exact ite_self _
    | cons entry rest ih => rw [List.cons_append, Reach.outs_cons, Reach.outs_cons, ih]
  rw [orDefault]
  split_ifs with h
  · rfl
  · exact happend edges

theorem outs_modifyFirst (h : edges.any (·.1 == node) = true) :
    Reach.outs (modifyFirst (·.1 == node) (fun entry => (entry.1, entry.2 ++ [target])) edges) n =
      Reach.outs edges n ++ if n = node then [target] else [] := by
  induction edges with
  | nil => cases h
  | cons entry rest ih =>
    obtain ⟨a, out⟩ := entry
    rw [modifyFirst, Reach.outs_cons]
    by_cases ha : a = node
    · subst ha
      rw [if_pos (beq_self_eq_true a), Reach.outs_cons]
      by_cases hn : n = a
      · simp [hn]
      · simp [hn]
    · have hrest : rest.any (·.1 == node) = true := by simpa [ha] using h
      rw [if_neg (by simpa using ha), Reach.outs_cons, ih hrest]
      by_cases hn : n = a
      · subst hn
        simp [ha]
      · simp [hn]

theorem any_orDefault : (orDefault edges node).any (·.1 == node) = true := by
  rw [orDefault]
  split_ifs with h
  · exact h
  · simp

theorem outs_pushEdge : Reach.outs (pushEdge edges node target) n =
    Reach.outs edges n ++ if n = node then [target] else [] := by
  rw [pushEdge, outs_modifyFirst any_orDefault, outs_orDefault]

theorem nodup_orDefault (h : (edges.map (·.1)).Nodup) :
    ((orDefault edges node).map (·.1)).Nodup := by
  rw [orDefault]
  split_ifs with hnode
  · exact h
  · rw [List.map_append, List.map_singleton, List.nodup_append]
    refine ⟨h, List.nodup_singleton _, ?_⟩
    rintro a ha b hb rfl
    obtain ⟨entry, hentry, heq⟩ := List.mem_map.mp ha
    rw [List.mem_singleton.mp hb] at heq
    exact hnode (List.any_eq_true.mpr ⟨entry, hentry, by simp [heq]⟩)

theorem nodup_pushEdge (h : (edges.map (·.1)).Nodup) :
    ((pushEdge edges node target).map (·.1)).Nodup := by
  have hkeys := map_modifyFirst (p := (·.1 == node)) (g := Prod.fst)
    (f := fun entry : VariableNode × List VariableNode => (entry.1, entry.2 ++ [target]))
    (fun _ => rfl) (orDefault edges node)
  rw [pushEdge]
  exact hkeys ▸ nodup_orDefault h

end

/-- A graph that has each node once, and every edge of another. -/
structure Extends (edges edges' : VariableGraph) : Prop where
  nodup : (edges'.map (·.1)).Nodup
  outs : ∀ n, Reach.outs edges n ⊆ Reach.outs edges' n

theorem Extends.foldl {α : Type*} {f : VariableGraph → α → VariableGraph}
    (hf : ∀ edges x, (edges.map (·.1)).Nodup → Extends edges (f edges x)) (xs : List α)
    {edges : VariableGraph} (h : (edges.map (·.1)).Nodup) : Extends edges (xs.foldl f edges) := by
  induction xs generalizing edges with
  | nil => exact ⟨h, fun _ => List.Subset.refl _⟩
  | cons x xs ih =>
    have hx := hf edges x h
    have hrest := ih hx.nodup
    exact ⟨hrest.nodup, fun n => List.Subset.trans (hx.outs n) (hrest.outs n)⟩

/-- What one step of a fold adds, the fold has. -/
theorem Extends.mem_foldl {α : Type*} {f : VariableGraph → α → VariableGraph}
    (hf : ∀ edges x, (edges.map (·.1)).Nodup → Extends edges (f edges x)) {xs : List α} {x : α}
    (hx : x ∈ xs) {n t : VariableNode}
    (hadds : ∀ edges : VariableGraph, (edges.map (·.1)).Nodup → t ∈ Reach.outs (f edges x) n)
    {edges : VariableGraph} (h : (edges.map (·.1)).Nodup) :
    t ∈ Reach.outs (xs.foldl f edges) n := by
  induction xs generalizing edges with
  | nil => cases hx
  | cons y ys ih =>
    have hy := (hf edges y h).nodup
    rcases List.mem_cons.mp hx with rfl | hx
    · exact (Extends.foldl hf ys hy).outs n (hadds edges h)
    · exact ih hx hy

theorem extends_orDefault (edges : VariableGraph) (node : VariableNode)
    (h : (edges.map (·.1)).Nodup) : Extends edges (orDefault edges node) :=
  ⟨nodup_orDefault h, fun _ => by rw [outs_orDefault]; exact List.Subset.refl _⟩

theorem extends_pushEdge (edges : VariableGraph) (node target : VariableNode)
    (h : (edges.map (·.1)).Nodup) : Extends edges (pushEdge edges node target) :=
  ⟨nodup_pushEdge h, fun _ => by rw [outs_pushEdge]; exact List.subset_append_left _ _⟩

theorem extends_addService (edges : VariableGraph) (service : SavedServiceIntent)
    (h : (edges.map (·.1)).Nodup) : Extends edges (addService edges service) := by
  have hvars := Extends.foldl (f := fun edges v => orDefault edges (service.lineageId, v.key))
    (fun edges v => extends_orDefault edges _) service.vars h
  have hrefs := Extends.foldl (f := fun edges reference =>
    pushEdge edges (service.lineageId, reference.key) (reference.target service))
    (fun edges reference => extends_pushEdge edges _ _) (references service) hvars.nodup
  exact ⟨hrefs.nodup, fun n => List.Subset.trans (hvars.outs n) (hrefs.outs n)⟩

variable {s : SavedServiceIntent} {parts : List ValuePart} {r : Reference}

section

variable {working : SavedEnvironmentIntent}

/-- Every reference is an edge. -/
theorem leads_of_reference (hs : s ∈ working.services) (hr : r ∈ references s) :
    Reach.Leads (referenceGraph working) (s.lineageId, r.key) (r.target s) := by
  refine Extends.mem_foldl extends_addService hs (fun edges hedges => ?_) List.nodup_nil
  have hvars := Extends.foldl (f := fun edges v => orDefault edges (s.lineageId, v.key))
    (fun edges v => extends_orDefault edges _) s.vars hedges
  refine Extends.mem_foldl (fun edges reference => extends_pushEdge edges _ _) hr
    (fun edges _ => ?_) hvars.nodup
  rw [outs_pushEdge, if_pos rfl]
  exact List.mem_append_right _ (List.mem_singleton_self _)

/-- Without a cycle no variable finds itself, so references end. -/
theorem wellFounded_of_cycles (h : cycles working = []) :
    WellFounded fun b a => Reach.Leads (referenceGraph working) a b := by
  refine Reach.wellFounded_of_acyclic fun node hnode => ?_
  rw [cycles, List.map_eq_nil_iff, List.filter_eq_nil_iff] at h
  -- A node that finds anything has an entry.
  have hentry : ∃ entry ∈ referenceGraph working, entry.1 = node := by
    by_contra hnone
    have houts : Reach.outs (referenceGraph working) node = [] :=
      Reach.outs_eq_nil fun entry hentry heq => hnone ⟨entry, hentry, heq⟩
    rw [Reach.reach_eq_nil houts] at hnode
    cases hnode
  obtain ⟨entry, hentry, rfl⟩ := hentry
  exact h (entry.1, Reach.reach (referenceGraph working) entry.1)
    (List.mem_map_of_mem hentry) (by simpa using hnode)

end

/-! ## The producers of a document -/

section

variable {environmentId : String} {opener : Option SealingKey} {working : SavedEnvironmentIntent}

theorem Provides.same_iff (hworking : WellFormed working) {t : SavedServiceIntent}
    (hs : s ∈ working.services) (ht : t ∈ working.services) {p q : SavedVariableProducer}
    (hp : Provides s p) (hq : Provides t q) :
    p.ownerId = q.ownerId ↔ p.ownerLineageId = q.ownerLineageId := by
  rw [hp.ownerId, hq.ownerId, hp.lineage, hq.lineage]
  constructor
  · intro h
    rw [List.inj_on_of_nodup_map hworking.serviceIds.nodup hs ht h]
  · intro h
    rw [List.inj_on_of_nodup_map hworking.serviceLineages.nodup hs ht h]

/-- The producer any reference reads is the one its own Service reads under its key. -/
theorem found_self_of_findable (hworking : WellFormed working) {p : VariableProducer}
    (hp : Findable ((compileProducers environmentId working).map (·.plain opener)) p) :
    found ((compileProducers environmentId working).map (·.plain opener)) p.ownerId .self p.key =
      some p := by
  obtain ⟨self, owner, key, h⟩ := hp
  have hanswers : p.answers self owner key = true := List.find?_some h
  obtain rfl := VariableProducer.key_of_answers hanswers
  cases owner with
  | self =>
    rw [(VariableProducer.answers_self.mp hanswers).2]
    exact h
  | service lineage =>
    rw [← h, found, found]
    refine List.find?_congr fun x hx => ?_
    -- The Service of that lineage is the one of that ID.
    obtain ⟨x', hx', rfl⟩ := List.mem_map.mp (List.mem_reverse.mp hx)
    obtain ⟨p', hp', rfl⟩ := List.mem_map.mp (List.mem_reverse.mp (List.mem_of_find?_eq_some h))
    obtain ⟨s, hs, hxs⟩ := provides_of_compile hx'
    obtain ⟨t, ht, hpt⟩ := provides_of_compile hp'
    have hlineage : p'.ownerLineageId = lineage :=
      ValuePartOwner.service.inj (VariableProducer.answers_service.mp hanswers).2
    have hiff := hxs.same_iff hworking hs ht hpt
    rw [Bool.eq_iff_iff, VariableProducer.answers_self, VariableProducer.answers_service]
    refine and_congr_right fun _ => hiff.trans ?_
    rw [hlineage]
    exact ValuePartOwner.service.injEq .. ▸ Iff.rfl

theorem agree_compile (hworking : WellFormed working) :
    Agree ((compileProducers environmentId working).map (·.plain opener)) := by
  intro p q hp hq hid depth
  obtain ⟨howner, hkey⟩ := Prod.mk.inj hid
  have hself := found_self_of_findable hworking hp
  rw [howner, hkey, found_self_of_findable hworking hq] at hself
  rw [Option.some.inj hself]

/-- A producer with a template is a variable of its Service. -/
theorem template_of_mem {p : VariableProducer}
    (hp : p ∈ (compileProducers environmentId working).map (·.plain opener))
    (hparts : p.value = .template parts) :
    ∃ s ∈ working.services, ∃ v ∈ s.vars, v.value = .template parts ∧ p.ownerId = s.id ∧
      p.owner = .service s.lineageId ∧ p.key = v.key := by
  obtain ⟨q, hq, rfl⟩ := List.mem_map.mp hp
  obtain ⟨s, hs, hprovides⟩ := provides_of_compile hq
  cases hprovides with
  | builtIn => cases hparts
  | @own v hv =>
    refine ⟨s, hs, v, hv, ?_, rfl, rfl, rfl⟩
    cases hvalue : v.value with
    | template parts' =>
      simp only [SavedVariableProducer.plain, hvalue, SavedVariableValue.plain] at hparts
      rw [ResolverValue.template.inj hparts]
    | _ =>
      simp only [SavedVariableProducer.plain, hvalue, SavedVariableValue.plain] at hparts
      cases hparts

/-- What a reference to a Service's built-in variable or one of its own finds. -/
theorem isSome_found {t : SavedServiceIntent} (ht : t ∈ working.services) {self : String}
    {owner : ValuePartOwner} {key : String}
    (howner : owner = .self ∧ self = t.id ∨ owner = .service t.lineageId)
    (hkey : key ∈ builtInVariables ∨ ∃ v ∈ t.vars, v.key = key) :
    (found ((compileProducers environmentId working).map (·.plain opener)) self owner key).isSome =
      true := by
  obtain ⟨p, hp, hid, hlineage, rfl⟩ := exists_compileProducers ht hkey
  rw [found, List.find?_isSome]
  refine ⟨p.plain opener, List.mem_reverse.mpr (List.mem_map_of_mem hp), ?_⟩
  rcases howner with ⟨rfl, rfl⟩ | rfl
  · exact VariableProducer.answers_self.mpr ⟨rfl, hid⟩
  · exact VariableProducer.answers_service.mpr ⟨rfl, congrArg ValuePartOwner.service hlineage⟩

end

/-! ## Templates resolve -/

section

variable {facts : Facts} {environmentId : String} {opener : Option SealingKey}

variable {v : SavedVariableIntent}

theorem mem_references (hv : v ∈ s.vars) (hparts : v.value = .template parts)
    {owner : ValuePartOwner} {key : String} (href : ValuePart.ref owner key ∈ parts) :
    (⟨v.key, owner, key⟩ : Reference) ∈ references s := by
  refine List.mem_flatMap.mpr ⟨v, hv, ?_⟩
  rw [hparts]
  exact List.mem_filterMap.mpr ⟨_, href, rfl⟩

/-- A reference that is not broken names a Service there is and a variable it provides. -/
theorem owner_of_unbroken (hlive : facts.live = []) (hs : s ∈ facts.working.services)
    (h : brokenBy facts s r = none) :
    ∃ t ∈ facts.working.services, (r.owner = .self ∧ s.id = t.id ∨ r.owner = .service t.lineageId) ∧
      r.target s = (t.lineageId, r.wanted) ∧
      (r.wanted ∈ builtInVariables ∨ ∃ v ∈ t.vars, v.key = r.wanted) := by
  have hwants : ∀ t : SavedServiceIntent,
      (if t.vars.any (·.key == r.wanted) || builtInVariables.contains r.wanted then none
        else some (Wants.variableOf t.lineageId r.wanted)) = none →
      (r.wanted ∈ builtInVariables ∨ ∃ v ∈ t.vars, v.key = r.wanted) := by
    intro t ht
    split_ifs at ht with hcond
    rcases Bool.or_eq_true_iff.mp hcond with hany | hbuilt
    · obtain ⟨v, hv, hkey⟩ := List.any_eq_true.mp hany
      exact .inr ⟨v, hv, by simpa using hkey⟩
    · exact .inl (by simpa using hbuilt)
  rw [brokenBy] at h
  cases howner : r.owner with
  | self =>
    rw [howner] at h
    exact ⟨s, hs, .inl ⟨rfl, rfl⟩, by rw [Reference.target, howner], hwants s h⟩
  | service lineage =>
    rw [howner] at h
    dsimp only at h
    split at h
    · next t hfind =>
      have hlineage : t.lineageId = lineage := by simpa using List.find?_some hfind
      subst hlineage
      exact ⟨t, List.mem_of_find?_eq_some hfind, .inr rfl, by rw [Reference.target, howner],
        hwants t h⟩
    · rw [hlive] at h
      cases h

theorem brokenBy_eq_none
    (hbroken : ∀ service key wants, .broken service key wants ∉ problems facts)
    (hs : s ∈ facts.working.services) (hr : r ∈ references s) : brokenBy facts s r = none := by
  cases hwants : brokenBy facts s r with
  | none => rfl
  | some wants =>
    refine absurd ?_ (hbroken s.lineageId r.key wants)
    unfold problems
    simp only [List.mem_append]
    refine .inl (.inl (.inr (List.mem_flatMap.mpr ⟨s, hs, List.mem_filterMap.mpr ⟨r, hr, ?_⟩⟩)))
    rw [hwants]
    rfl

theorem cycles_eq_nil (hcycle : ∀ members, .cycle members ∉ problems facts) :
    cycles facts.working = [] := by
  rw [List.eq_nil_iff_forall_not_mem]
  intro members hmembers
  refine hcycle members ?_
  unfold problems
  simp only [List.mem_append]
  exact .inl (.inr (List.mem_map_of_mem hmembers))

theorem provided_of_unbroken (hlive : facts.live = [])
    (hbroken : ∀ service key wants, .broken service key wants ∉ problems facts)
    (hs : s ∈ facts.working.services) (hv : v ∈ s.vars) (hparts : v.value = .template parts) :
    Provided ((compileProducers environmentId facts.working).map (·.plain opener)) s.id parts := by
  intro owner key href
  obtain ⟨t, ht, howner, -, hkey⟩ := owner_of_unbroken hlive hs
    (brokenBy_eq_none hbroken hs (mem_references hv hparts href))
  exact isSome_found ht howner hkey

/-- Parts that are each said to some depth are said on end. -/
theorem readParts_of_parts {producers : List VariableProducer} {self : String}
    (h : ∀ part ∈ parts, ∃ depth v, readPart producers (readAt producers depth) self part =
      some v) :
    ∃ depth v, readParts producers (readAt producers depth) self parts = some v := by
  induction parts with
  | nil => exact ⟨0, ("", false), rfl⟩
  | cons part rest ih =>
    obtain ⟨d, v, hv⟩ := h part List.mem_cons_self
    obtain ⟨d', w, hw⟩ := ih fun other hother => h other (List.mem_cons_of_mem _ hother)
    refine ⟨max d d', v.append w, ?_⟩
    rw [readParts, readPart_mono (fun _ _ _ => readAt_mono (Nat.le_max_left d d')) hv,
      readParts_mono (fun _ _ _ => readAt_mono (Nat.le_max_right d d')) hw]
    rfl

/-- Every template is said: by induction along references, which end. -/
theorem exists_readAt (hworking : WellFormed facts.working) (hlive : facts.live = [])
    (hbroken : ∀ service key wants, .broken service key wants ∉ problems facts)
    (hcycle : ∀ members, .cycle members ∉ problems facts) (hs : s ∈ facts.working.services)
    (hv : v ∈ s.vars) (hparts : v.value = .template parts) {producers : List VariableProducer}
    (hproducers : producers = (compileProducers environmentId facts.working).map (·.plain opener)) :
    ∃ depth said, readAt producers depth s.id parts = some said := by
  obtain ⟨node, hnode⟩ : ∃ node, node = (s.lineageId, v.key) := ⟨_, rfl⟩
  induction node using (wellFounded_of_cycles (cycles_eq_nil hcycle)).induction
    generalizing s v parts with
  | _ node ih =>
    suffices hsaid : ∀ part ∈ parts, ∃ depth said,
        readPart producers (readAt producers depth) s.id part = some said by
      obtain ⟨depth, said, hsaid⟩ := readParts_of_parts hsaid
      exact ⟨depth + 1, said, hsaid⟩
    intro part hpart
    cases part with
    | text text => exact ⟨0, _, rfl⟩
    | ref owner key =>
      have href := mem_references hv hparts hpart
      obtain ⟨t, ht, howner, htarget, hkey⟩ :=
        owner_of_unbroken hlive hs (brokenBy_eq_none hbroken hs href)
      obtain ⟨p, hp⟩ := Option.isSome_iff_exists.mp (isSome_found ht howner hkey)
      rw [← hproducers] at hp
      have hread : ∀ depth, readPart producers (readAt producers depth) s.id (.ref owner key) =
          p.value.read (readAt producers depth p.ownerId) := by
        intro depth
        rw [readPart, hp]
      simp only [hread]
      cases hvalue : p.value with
      | literal | secret => exact ⟨0, _, rfl⟩
      | template deeper =>
        have hmem : p ∈ producers := Findable.mem ⟨_, _, _, hp⟩
        obtain ⟨u, hu, w, hw, hwparts, hid, hlineage, hwkey⟩ :=
          template_of_mem (hproducers ▸ hmem) hvalue
        -- It is the variable the reference names, one edge on.
        have hanswers : p.answers s.id owner key = true := List.find?_some hp
        have hpkey := VariableProducer.key_of_answers hanswers
        have hsame : u = t := by
          rcases howner with ⟨rfl, hst⟩ | rfl
          · refine List.inj_on_of_nodup_map hworking.serviceIds.nodup hu ht ?_
            rw [← hid, ← hst, (VariableProducer.answers_self.mp hanswers).2]
          · refine List.inj_on_of_nodup_map hworking.serviceLineages.nodup hu ht ?_
            exact ValuePartOwner.service.inj
              (hlineage.symm.trans (VariableProducer.answers_service.mp hanswers).2)
        subst hsame
        obtain ⟨depth, said, hsaid⟩ := ih (u.lineageId, w.key) (by
          rw [hnode, ← hwkey, hpkey]
          exact htarget ▸ leads_of_reference hs href) hu hw hwparts rfl
        rw [hid]
        exact ⟨depth, said, hsaid⟩

/-- Where the rules find no broken reference and no cycle, and nothing is used live, every
template resolves over the compiled producers, without a warning. -/
theorem resolves_without_problems (hworking : WellFormed facts.working) (hlive : facts.live = [])
    (hbroken : ∀ service key wants, .broken service key wants ∉ problems facts)
    (hcycle : ∀ members, .cycle members ∉ problems facts) {producers : List VariableProducer}
    (hproducers : resolverProducers opener (compileProducers environmentId facts.working) =
      .ok producers)
    {s : SavedServiceIntent} (hs : s ∈ facts.working.services) {v : SavedVariableIntent}
    (hv : v ∈ s.vars) {parts : List ValuePart} (hparts : v.value = .template parts) :
    ∃ value secret, resolveVariables ⟨parts, s.id, producers⟩ = .resolved value secret [] := by
  obtain rfl := resolverProducers_eq_map hproducers
  obtain ⟨depth, said, hsaid⟩ := exists_readAt hworking hlive hbroken hcycle hs hv hparts rfl
  refine ⟨said.1, said.2, resolveVariables_quiet (agree_compile hworking) ?_
    (provided_of_unbroken hlive hbroken hs hv hparts) hsaid⟩
  intro p hp deeper hdeeper
  obtain ⟨t, ht, w, hw, hwparts, hid, -, -⟩ := template_of_mem hp hdeeper
  rw [hid]
  exact provided_of_unbroken hlive hbroken ht hw hwparts

end

namespace Sample

def shopId : String := "a0000000000000000000000000000001"
def baseId : String := "b0000000000000000000000000000001"

/-- A Service reads the address and a secret of another through a template of its own. -/
def reading : Facts where
  working :=
    { version := 1, environmentSlug := "production", volumes := []
      services := [
        { SavedServiceIntent.unset shopId shopId ⟨"shop", Eq.refl true⟩ with vars := [
          ⟨"e0000000000000000000000000000001", "URL", none, false, "fp",
            .template [.text "db://", .ref (.service baseId) "PASSWORD", .text "@",
              .ref (.service baseId) "PLOYZ_PRIVATE_DOMAIN"]⟩,
          ⟨"e0000000000000000000000000000002", "BOTH", none, false, "fp",
            .template [.ref .self "URL", .text " ", .ref .self "URL"]⟩] },
        { SavedServiceIntent.unset baseId baseId ⟨"base", by decide⟩ with vars := [
          ⟨"e0000000000000000000000000000003", "PASSWORD", none, false, "fp", .secret none⟩] }] }
  live := []
  setup := []

theorem reading_resolves : ∃ producers,
    resolverProducers none (compileProducers "env" reading.working) = .ok producers ∧
    ∀ s ∈ reading.working.services, ∀ v ∈ s.vars, ∀ parts, v.value = .template parts →
      ∃ value secret, resolveVariables ⟨parts, s.id, producers⟩ = .resolved value secret [] := by
  have hparse : parseEnvironmentIntent reading.working = .ok reading.working := by decide +kernel
  have hproblems : problems reading = [] := by decide +kernel
  obtain ⟨producers, hproducers, -⟩ := exists_ok (fun _ => True) (by decide +kernel :
    succeeds (resolverProducers none (compileProducers "env" reading.working)) _ = true)
  refine ⟨producers, hproducers, fun s hs v hv parts hparts => ?_⟩
  exact resolves_without_problems (wellFormed_of_parse hparse) rfl (by simp [hproblems])
    (by simp [hproblems]) hproducers hs hv hparts

/-- Without the key the secret is blank, and still marks what reads it. -/
example : (resolverProducers none (compileProducers "env" reading.working)).toOption.map
    (fun producers => resolveVariables ⟨[.ref .self "BOTH"], shopId, producers⟩) =
      some (.resolved "db://@base.internal db://@base.internal" true []) := by
  decide +kernel

end Sample

end Ployz
