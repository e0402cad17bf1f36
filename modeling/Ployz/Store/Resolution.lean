import Ployz.Config.Taint
import Ployz.Store.Variables

/-!
# Resolved environments

`resolve` makes each Service's environment from a compiled document. With the sealing key secrets
and what references one resolve to plaintext; without it they are left out. What is kept without the
key does not depend on a secret: `kept_without_secrets`.
-/

namespace Ployz

open Run

inductive CompiledNodeConfig
  | service (config : ServiceConfig)
  | volume

structure CompiledNode where
  nodeId : String
  config : CompiledNodeConfig

structure CompiledEnvironmentIntent where
  nodeSnapshots : List CompiledNode
  variableProducers : List SavedVariableProducer

/-- The text before and after the first `::`. -/
def splitOnceColons : List Char → Option (List Char × List Char)
  | [] => none
  | ':' :: ':' :: rest => some ([], rest)
  | c :: rest => (splitOnceColons rest).map fun (owner, key) => (c :: owner, key)

def CompiledNodeConfig.name : CompiledNodeConfig → String
  | .service config => config.settings.privateDns.value
  | .volume => ""

/-- A step of a cycle, named by Service and variable. -/
def cycleStep (nodes : List CompiledNode) (step : String) : String :=
  let (owner, key) := match splitOnceColons step.toList with
    | some (owner, key) => (String.ofList owner, String.ofList key)
    | none => ("", step)
  let service := (nodes.find? (·.nodeId == owner)).elim "" (·.config.name)
  service ++ ".env." ++ key

/-- A reference cycle, named by Service and variable. -/
def cycleError (nodes : List CompiledNode) (path : List String) : RpcError :=
  .invalid ("Variables reference each other in a cycle: " ++
    String.intercalate " -> " (path.map (cycleStep nodes)))

/-- One variable of the Service `nodeId`; none if it is left out. -/
def resolveEnvValue (nodes : List CompiledNode) (opener : Option SealingKey)
    (producers : List VariableProducer) (nodeId : String) :
    ServiceEnvValue → Except RpcError (Option String)
  | .literal value none => pure (some value)
  | .literal _ (some parts) => match resolveVariables ⟨parts, nodeId, producers⟩ with
    | .resolved value secret _ => pure (if opener.isSome || !secret then some value else none)
    | .cycle path => throw (cycleError nodes path)
  | .secret _ encryptedValue _ _ => openSecret opener encryptedValue

/-- The variables of one Service that are not left out. -/
def resolveEnv (nodes : List CompiledNode) (opener : Option SealingKey)
    (producers : List VariableProducer) (nodeId : String) (env : List (String × ServiceEnvValue)) :
    Except RpcError (List (String × String)) := do
  let values ← env.mapM fun (key, value) =>
    (key, ·) <$> resolveEnvValue nodes opener producers nodeId value
  return values.filterMap fun (key, value) => value.map (key, ·)

def resolveNode (nodes : List CompiledNode) (opener : Option SealingKey)
    (producers : List VariableProducer) (node : CompiledNode) :
    Except RpcError (Option (String × List (String × String))) :=
  match node.config with
  | .volume => pure none
  | .service config => (fun env => some (node.nodeId, env)) <$>
      resolveEnv nodes opener producers node.nodeId config.env

/-- Every Service's environment resolved from compiled Saved State, by Service ID. -/
def resolve (compiled : CompiledEnvironmentIntent) (opener : Option SealingKey) :
    Except RpcError (List (String × List (String × String))) := do
  let producers ← resolverProducers opener compiled.variableProducers
  let resolved ← compiled.nodeSnapshots.mapM (resolveNode compiled.nodeSnapshots opener producers)
  return resolved.filterMap id

/-! ## Documents that differ in their secrets -/

structure SameButSealed (p q : SavedVariableProducer) : Prop where
  ownerId : p.ownerId = q.ownerId
  lineage : p.ownerLineageId = q.ownerLineageId
  key : p.key = q.key
  value : p.value = q.value ∨ p.value.isSecret = true ∧ q.value.isSecret = true

inductive SameEnv : String × ServiceEnvValue → String × ServiceEnvValue → Prop
  | refl (variable_ : String × ServiceEnvValue) : SameEnv variable_ variable_
  | secret (key : String) {id id' : Option String} {a b : Option EncryptedSecretValue}
      {print print' : String} {interpolated interpolated' : Option Bool} :
      SameEnv (key, .secret id a print interpolated) (key, .secret id' b print' interpolated')

inductive SameNode : CompiledNode → CompiledNode → Prop
  | volume (nodeId : String) : SameNode ⟨nodeId, .volume⟩ ⟨nodeId, .volume⟩
  | service (nodeId : String) (config : ServiceConfig) {env : List (String × ServiceEnvValue)}
      (henv : List.Forall₂ SameEnv config.env env) :
      SameNode ⟨nodeId, .service config⟩ ⟨nodeId, .service { config with env }⟩

structure SameDocument (compiled compiled' : CompiledEnvironmentIntent) : Prop where
  nodes : List.Forall₂ SameNode compiled.nodeSnapshots compiled'.nodeSnapshots
  producers : List.Forall₂ SameButSealed compiled.variableProducers compiled'.variableProducers

section

variable {compiled compiled' : CompiledEnvironmentIntent} {nodes nodes' : List CompiledNode}
  {producers producers' : List VariableProducer}

/-- Opened with any key or none, producers differ only in secrets. -/
theorem SameButSealed.plain {p q : SavedVariableProducer} (h : SameButSealed p q)
    (opener opener' : Option SealingKey) : SameButSecret (p.plain opener) (q.plain opener') := by
  refine ⟨h.ownerId, congrArg ValuePartOwner.service h.lineage, h.key, ?_⟩
  rcases h.value with heq | ⟨hp, hq⟩
  · rw [SavedVariableProducer.plain, SavedVariableProducer.plain, heq]
    cases q.value with
    | literal | template => exact .inl rfl
    | secret | secretWithoutValue => exact .inr ⟨_, _, rfl, rfl⟩
  · right
    have hsecret : ∀ (value : SavedVariableValue) (opener : Option SealingKey),
        value.isSecret = true → ∃ text, value.plain opener = .secret text := by
      intro value opener hvalue
      cases value with
      | literal | template => cases hvalue
      | secret | secretWithoutValue => exact ⟨_, rfl⟩
    obtain ⟨a, ha⟩ := hsecret p.value opener hp
    obtain ⟨b, hb⟩ := hsecret q.value opener' hq
    exact ⟨a, b, ha, hb⟩

theorem SameDocument.plain (h : SameDocument compiled compiled')
    {opener opener' : Option SealingKey}
    (hp : resolverProducers opener compiled.variableProducers = .ok producers)
    (hq : resolverProducers opener' compiled'.variableProducers = .ok producers') :
    List.Forall₂ SameButSecret producers producers' := by
  rw [resolverProducers_eq_map hp, resolverProducers_eq_map hq]
  rw [List.forall₂_map_left_iff, List.forall₂_map_right_iff]
  exact h.producers.imp fun p q hpq => hpq.plain opener opener'

variable {opener : Option SealingKey}

/-- A variable kept without the key is what any key resolves it to. -/
theorem kept_of_same (h : List.Forall₂ SameButSecret producers producers') {nodeId : String}
    {a b : String × ServiceEnvValue} (hab : SameEnv a b) {value : String} {opened : Option String}
    (hkept : resolveEnvValue nodes none producers nodeId a.2 = .ok (some value))
    (hopened : resolveEnvValue nodes' opener producers' nodeId b.2 = .ok opened) :
    opened = some value := by
  cases hab with
  | @secret key _ _ a b =>
    cases a <;> cases hkept
  | refl =>
    obtain ⟨key, variable_⟩ := a
    cases variable_ with
    | secret _ encrypted => cases encrypted <;> cases hkept
    | literal text parts =>
      cases parts with
      | none =>
        cases hkept
        cases hopened
        rfl
      | some parts =>
        rw [resolveEnvValue] at hkept hopened
        split at hkept
        · next value' secret warnings hresolved =>
          have hplain := pure_eq_ok.mp hkept
          cases secret with
          | true => cases hplain
          | false =>
            cases hplain
            rw [resolveVariables_untainted h hresolved] at hopened
            have hopened := pure_eq_ok.mp hopened
            rw [← hopened]
            simp
        · cases hkept

/-- Every variable kept of a Service without the key is there with any key. -/
theorem resolveEnv_kept (h : List.Forall₂ SameButSecret producers producers') {nodeId : String}
    {env env' : List (String × ServiceEnvValue)} (henv : List.Forall₂ SameEnv env env')
    {kept opened : List (String × String)}
    (hkept : resolveEnv nodes none producers nodeId env = .ok kept)
    (hopened : resolveEnv nodes' opener producers' nodeId env' = .ok opened) : kept ⊆ opened := by
  obtain ⟨values, hvalues, hlist⟩ := bind_eq_ok.mp hkept
  obtain ⟨values', hvalues', hlist'⟩ := bind_eq_ok.mp hopened
  obtain rfl := pure_eq_ok.mp hlist
  obtain rfl := pure_eq_ok.mp hlist'
  clear hkept hopened hlist hlist'
  replace hvalues := mapM_eq_ok.mp hvalues
  replace hvalues' := mapM_eq_ok.mp hvalues'
  induction henv generalizing values values' with
  | nil =>
    cases hvalues
    exact List.nil_subset _
  | @cons a b as bs hab _ ih =>
    cases hvalues with
    | cons ha hvalues => cases hvalues' with
      | cons hb hvalues' =>
        obtain ⟨one, hone, rfl⟩ := map_eq_ok.mp ha
        obtain ⟨other, hother, rfl⟩ := map_eq_ok.mp hb
        have hrest := ih _ _ hvalues hvalues'
        have hkey : a.1 = b.1 := by cases hab <;> rfl
        cases one with
        | none =>
          cases other with
          | none => exact hrest
          | some text => exact List.subset_cons_of_subset _ hrest
        | some text =>
          obtain rfl := kept_of_same h hab hone hother
          rw [List.filterMap_cons, List.filterMap_cons]
          simp only [Option.map_some, hkey]
          exact List.cons_subset_cons _ hrest

/-- The Services kept without the key are there with any key, with all their variables. -/
theorem resolveNodes_kept (h : List.Forall₂ SameButSecret producers producers')
    {own own' : List CompiledNode} (hnodes : List.Forall₂ SameNode own own')
    {kept opened : List (Option (String × List (String × String)))}
    (hkept : own.mapM (resolveNode nodes none producers) = .ok kept)
    (hopened : own'.mapM (resolveNode nodes' opener producers') = .ok opened) :
    List.Forall₂ (fun k o => k.1 = o.1 ∧ k.2 ⊆ o.2) (kept.filterMap id) (opened.filterMap id) := by
  replace hkept := mapM_eq_ok.mp hkept
  replace hopened := mapM_eq_ok.mp hopened
  induction hnodes generalizing kept opened with
  | nil =>
    cases hkept
    cases hopened
    exact .nil
  | cons hnode _ ih =>
    cases hkept with
    | cons hone hkept => cases hopened with
      | cons hother hopened =>
        have hrest := ih hkept hopened
        cases hnode with
        | volume nodeId =>
          cases hone
          cases hother
          exact hrest
        | service nodeId config henv =>
          obtain ⟨env, henv₁, rfl⟩ := map_eq_ok.mp hone
          obtain ⟨env', henv₂, rfl⟩ := map_eq_ok.mp hother
          exact .cons ⟨rfl, resolveEnv_kept h henv henv₁ henv₂⟩ hrest

/-! ## Without the key -/

theorem SameButSealed.resolver {p q : SavedVariableProducer} (h : SameButSealed p q) :
    resolverProducer none p = resolverProducer none q := by
  rw [resolverProducer, resolverProducer, h.ownerId, h.lineage, h.key]
  rcases h.value with heq | ⟨hp, hq⟩
  · rw [heq]
  · have hblank : ∀ value : SavedVariableValue, value.isSecret = true →
        resolverValue none value = .ok (.secret "") := by
      intro value hvalue
      cases value with
      | literal | template => cases hvalue
      | secret | secretWithoutValue => rfl
    rw [hblank _ hp, hblank _ hq]

theorem SameNode.nodeId {a b : CompiledNode} (h : SameNode a b) : a.nodeId = b.nodeId := by
  cases h <;> rfl

theorem SameNode.name {a b : CompiledNode} (h : SameNode a b) : a.config.name = b.config.name := by
  cases h <;> rfl

theorem cycleStep_same (h : List.Forall₂ SameNode nodes nodes') :
    cycleStep nodes = cycleStep nodes' := by
  have hfind : ∀ owner : String, (nodes.find? (·.nodeId == owner)).elim "" (·.config.name) =
      (nodes'.find? (·.nodeId == owner)).elim "" (·.config.name) := by
    intro owner
    induction h with
    | nil => rfl
    | @cons a b as bs hab _ ih =>
      rw [List.find?_cons, List.find?_cons, hab.nodeId]
      cases b.nodeId == owner with
      | true => exact hab.name
      | false => exact ih
  funext step
  simp only [cycleStep, hfind]

theorem SameEnv.resolve {a b : String × ServiceEnvValue} (h : SameEnv a b)
    (nodes : List CompiledNode) (producers : List VariableProducer) (nodeId : String) :
    (a.1, ·) <$> resolveEnvValue nodes none producers nodeId a.2 =
      (b.1, ·) <$> resolveEnvValue nodes none producers nodeId b.2 := by
  cases h <;> rfl

theorem SameNode.resolve {a b : CompiledNode} (h : SameNode a b) (nodes : List CompiledNode)
    (producers : List VariableProducer) :
    resolveNode nodes none producers a = resolveNode nodes none producers b := by
  cases h with
  | volume => rfl
  | service nodeId config henv =>
    have hvalues := mapM_same (henv.imp fun a b hab => hab.resolve nodes producers nodeId)
    simp only [resolveNode, resolveEnv, hvalues]

/-- Without the key, a document resolves to what any other with the same open values does. -/
theorem resolve_sealed (h : SameDocument compiled compiled') :
    resolve compiled none = resolve compiled' none := by
  have hproducers : resolverProducers none compiled.variableProducers =
      resolverProducers none compiled'.variableProducers :=
    mapM_same (h.producers.imp fun p q hpq => hpq.resolver)
  have herror : cycleError compiled.nodeSnapshots = cycleError compiled'.nodeSnapshots := by
    funext path
    rw [cycleError, cycleError, cycleStep_same h.nodes]
  have hnode : resolveNode compiled.nodeSnapshots none =
      resolveNode compiled'.nodeSnapshots none := by
    funext producers node
    have hvalue : resolveEnvValue compiled.nodeSnapshots none =
        resolveEnvValue compiled'.nodeSnapshots none := by
      funext producers nodeId value
      unfold resolveEnvValue
      rw [herror]
    simp only [resolveNode, resolveEnv, hvalue]
  unfold resolve
  rw [hproducers, hnode]
  congr 1
  funext producers
  rw [mapM_same (h.nodes.imp fun a b hab => hab.resolve compiled'.nodeSnapshots producers)]

/-- What is not marked secret is the same whatever the secrets are, and what is kept without the
sealing key is what every key resolves, in every document with other secrets. -/
theorem kept_without_secrets :
    (∀ producers producers', List.Forall₂ SameButSecret producers producers' →
      ∀ parts self value warnings,
        resolveVariables ⟨parts, self, producers⟩ = .resolved value false warnings →
          resolveVariables ⟨parts, self, producers'⟩ = .resolved value false warnings) ∧
    ∀ compiled compiled', SameDocument compiled compiled' →
      resolve compiled none = resolve compiled' none ∧
      ∀ kept key opened, resolve compiled none = .ok kept →
        resolve compiled' (some key) = .ok opened →
        List.Forall₂ (fun k o => k.1 = o.1 ∧ k.2 ⊆ o.2) kept opened := by
  refine ⟨fun _ _ h _ _ _ _ => resolveVariables_untainted h, fun compiled compiled' h => ?_⟩
  refine ⟨resolve_sealed h, fun kept key opened hkept hopened => ?_⟩
  obtain ⟨producers, hproducers, hkept⟩ := bind_eq_ok.mp hkept
  obtain ⟨producers', hproducers', hopened⟩ := bind_eq_ok.mp hopened
  obtain ⟨own, hown, hkept⟩ := bind_eq_ok.mp hkept
  obtain ⟨own', hown', hopened⟩ := bind_eq_ok.mp hopened
  obtain rfl := pure_eq_ok.mp hkept
  obtain rfl := pure_eq_ok.mp hopened
  exact resolveNodes_kept (h.plain hproducers hproducers') h.nodes hown hown'

def portBeside (secret : String) : List VariableProducer :=
  [⟨"api", .service "api-lineage", "PORT", .literal "80"⟩,
    ⟨"api", .service "api-lineage", "TOKEN", .secret secret⟩]

theorem port_without_secrets :
    resolveVariables ⟨[.ref .self "PORT"], "api", portBeside "new"⟩ = .resolved "80" false [] := by
  have hsame : List.Forall₂ SameButSecret (portBeside "old") (portBeside "new") :=
    .cons ⟨rfl, rfl, rfl, .inl rfl⟩ (.cons ⟨rfl, rfl, rfl, .inr ⟨_, _, rfl, rfl⟩⟩ .nil)
  exact kept_without_secrets.1 _ _ hsame _ _ _ _ (by decide)

end

end Ployz
