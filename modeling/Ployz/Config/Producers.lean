import Ployz.Config.Canonical
import Ployz.Config.Variables

/-!
# The variable producers of a document

What `compileProducers` makes of a document: for each Service its built-in variables and its own,
in order of lineage and key. The sort is stable, so a variable of a built-in's name follows the
built-in and is the one a reference reads. `mem_compileProducers` says what is there.
-/

namespace Ployz

/-- A variable value associated with its stable producer owner and lineage. -/
structure SavedVariableProducer where
  ownerScope : String
  ownerId : String
  ownerLineageId : String
  key : String
  value : SavedVariableValue
deriving DecidableEq

/-- The built-in variable that holds a Service's private address. -/
def privateDomainKey : String := "PLOYZ_PRIVATE_DOMAIN"

/-- The variables every Service provides without declaring them, which any reference may read. -/
def builtInVariables : List String :=
  [privateDomainKey, "PORT", "PLOYZ_ENVIRONMENT_NAME", "PLOYZ_SERVICE_NAME", "PLOYZ_ENVIRONMENT_ID",
    "PLOYZ_SERVICE_ID"]

/-- A Service's private address: its Private DNS name in the `.internal` zone. -/
def privateDomain (privateDns : ServiceName) : String := privateDns.value ++ ".internal"

def defaultServicePort : UInt16 := 8080

/-- The values of the built-in variables, in their order. -/
def builtInValues (environmentId environmentSlug : String) (service : SavedServiceIntent) :
    List String :=
  [privateDomain service.config.privateDns, toString defaultServicePort.toNat, environmentSlug,
    service.config.privateDns.value, environmentId, service.id]

/-- What a Service provides: the built-in variables, then its own. -/
def serviceProducers (environmentId environmentSlug : String) (service : SavedServiceIntent) :
    List SavedVariableProducer :=
  (builtInVariables.zip (builtInValues environmentId environmentSlug service)).map
      (fun (key, value) => ⟨"service", service.id, service.lineageId, key, .literal value⟩) ++
    service.vars.map fun v => ⟨"service", service.id, service.lineageId, v.key, v.value⟩

/-- The order of producers: by scope, lineage and key. -/
def SavedVariableProducer.before (a b : SavedVariableProducer) : Prop :=
  a.ownerScope < b.ownerScope ∨ a.ownerScope = b.ownerScope ∧
    (a.ownerLineageId < b.ownerLineageId ∨ a.ownerLineageId = b.ownerLineageId ∧ a.key ≤ b.key)

instance : DecidableRel SavedVariableProducer.before :=
  fun _ _ => inferInstanceAs (Decidable (_ ∨ _))

/-- The variable producers of a validated authored document. -/
def compileProducers (environmentId : String) (intent : SavedEnvironmentIntent) :
    List SavedVariableProducer :=
  let intent := canonicalizeEnvironmentIntent intent
  (intent.services.flatMap
    (serviceProducers environmentId intent.environmentSlug)).insertionSort
      SavedVariableProducer.before

/-- What a Service provides: a built-in variable's text or a variable of its own. -/
inductive Provides (s : SavedServiceIntent) : SavedVariableProducer → Prop
  | builtIn {key text : String} (hkey : key ∈ builtInVariables) :
      Provides s ⟨"service", s.id, s.lineageId, key, .literal text⟩
  | own {v : SavedVariableIntent} (hv : v ∈ s.vars) :
      Provides s ⟨"service", s.id, s.lineageId, v.key, v.value⟩

section

variable {environmentId slug : String} {s : SavedServiceIntent} {p : SavedVariableProducer}

theorem Provides.ownerId (h : Provides s p) : p.ownerId = s.id := by cases h <;> rfl

theorem Provides.lineage (h : Provides s p) : p.ownerLineageId = s.lineageId := by cases h <;> rfl

theorem provides_of_mem (h : p ∈ serviceProducers environmentId slug s) : Provides s p := by
  rcases List.mem_append.mp h with h | h
  · obtain ⟨⟨key, text⟩, hmem, rfl⟩ := List.mem_map.mp h
    exact .builtIn (List.of_mem_zip hmem).1
  · obtain ⟨v, hv, rfl⟩ := List.mem_map.mp h
    exact .own hv

/-- Every built-in variable and every variable of a Service has a producer. -/
theorem exists_serviceProducers (environmentId slug : String) {key : String}
    (h : key ∈ builtInVariables ∨ ∃ v ∈ s.vars, v.key = key) :
    ∃ p ∈ serviceProducers environmentId slug s, p.ownerId = s.id ∧
      p.ownerLineageId = s.lineageId ∧ p.key = key := by
  rcases h with h | ⟨v, hv, rfl⟩
  · have hzip : (builtInVariables.zip (builtInValues environmentId slug s)).map Prod.fst =
        builtInVariables := List.map_fst_zip (Nat.le_refl 6)
    rw [← hzip] at h
    obtain ⟨⟨key', text⟩, hmem, rfl⟩ := List.mem_map.mp h
    exact ⟨_, List.mem_append_left _ (List.mem_map_of_mem hmem), rfl, rfl, rfl⟩
  · exact ⟨_, List.mem_append_right _ (List.mem_map_of_mem hv), rfl, rfl, rfl⟩

variable {intent : SavedEnvironmentIntent}

theorem mem_compileProducers :
    p ∈ compileProducers environmentId intent ↔
      ∃ s ∈ intent.services,
        p ∈ serviceProducers environmentId intent.environmentSlug s.canonical := by
  rw [compileProducers, List.mem_insertionSort, List.mem_flatMap]
  constructor
  · rintro ⟨service, hservice, hp⟩
    obtain ⟨s, hs, rfl⟩ := (mem_canonicalize_services intent).mp hservice
    exact ⟨s, hs, hp⟩
  · rintro ⟨s, hs, hp⟩
    exact ⟨s.canonical, (mem_canonicalize_services intent).mpr ⟨s, hs, rfl⟩, hp⟩

theorem Provides.of_canonical (h : Provides s.canonical p) : Provides s p := by
  cases h with
  | builtIn hkey => exact .builtIn hkey
  | own hv => exact .own (s.vars_canonical.mem_iff.mp hv)

theorem provides_of_compile (h : p ∈ compileProducers environmentId intent) :
    ∃ s ∈ intent.services, Provides s p := by
  obtain ⟨s, hs, hp⟩ := mem_compileProducers.mp h
  exact ⟨s, hs, (provides_of_mem hp).of_canonical⟩

theorem exists_compileProducers (hs : s ∈ intent.services) {key : String}
    (h : key ∈ builtInVariables ∨ ∃ v ∈ s.vars, v.key = key) :
    ∃ p ∈ compileProducers environmentId intent, p.ownerId = s.id ∧
      p.ownerLineageId = s.lineageId ∧ p.key = key := by
  have hcanonical : key ∈ builtInVariables ∨ ∃ v ∈ s.canonical.vars, v.key = key := by
    rcases h with h | ⟨v, hv, hkey⟩
    · exact .inl h
    · exact .inr ⟨v, s.vars_canonical.mem_iff.mpr hv, hkey⟩
  obtain ⟨p, hp, hp'⟩ := exists_serviceProducers environmentId intent.environmentSlug hcanonical
  exact ⟨p, mem_compileProducers.mpr ⟨s, hs, hp⟩, hp'⟩

end

end Ployz
