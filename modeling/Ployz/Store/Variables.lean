import Ployz.Config.Producers
import Ployz.Store.Error

/-!
# Producers for a resolution

A resolution reads the compiled producers with their secrets opened, or blank without the key.
The producers keep their owners, lineages and keys: `resolverProducers_eq_map`.
-/

namespace Ployz

open Run

def SavedVariableValue.isSecret : SavedVariableValue → Bool
  | .literal _ | .template _ => false
  | .secret _ | .secretWithoutValue => true

/-- What opens sealed values, if the caller has it. -/
abbrev SealingKey := EncryptedSecretValue → Except RpcError String

/-- A sealed value's text; none without the key. -/
def openSecret (opener : Option SealingKey) (encrypted : Option EncryptedSecretValue) :
    Except RpcError (Option String) :=
  match opener, encrypted with
  | some key, some encrypted => some <$> key encrypted
  | some _, none => throw (.corrupt "sealed secret")
  | none, _ => pure none

/-- A producer's value as the resolver reads it. Without the key a secret still marks what
references it. -/
def resolverValue (opener : Option SealingKey) : SavedVariableValue → Except RpcError ResolverValue
  | .literal value => pure (.literal value)
  | .template parts => pure (.template parts)
  | .secret encryptedValue =>
    (fun text => .secret (text.getD "")) <$> openSecret opener encryptedValue
  -- Deploy refuses it, so a claim never meets one.
  | .secretWithoutValue => (fun text => .secret (text.getD "")) <$> openSecret opener none

def resolverProducer (opener : Option SealingKey) (producer : SavedVariableProducer) :
    Except RpcError VariableProducer :=
  (fun value => ⟨producer.ownerId, .service producer.ownerLineageId, producer.key, value⟩) <$>
    resolverValue opener producer.value

def resolverProducers (opener : Option SealingKey) (producers : List SavedVariableProducer) :
    Except RpcError (List VariableProducer) :=
  producers.mapM (resolverProducer opener)

/-- A secret's text where it opens. -/
def secretText (opener : Option SealingKey) (encrypted : Option EncryptedSecretValue) : String :=
  match openSecret opener encrypted with
  | .ok text => text.getD ""
  | .error _ => ""

/-- A value as the resolver reads it, where its secrets open. -/
def SavedVariableValue.plain (opener : Option SealingKey) : SavedVariableValue → ResolverValue
  | .literal value => .literal value
  | .template parts => .template parts
  | .secret encryptedValue => .secret (secretText opener encryptedValue)
  | .secretWithoutValue => .secret (secretText opener none)

/-- A producer as the resolver reads it, where its secrets open. -/
def SavedVariableProducer.plain (opener : Option SealingKey) (producer : SavedVariableProducer) :
    VariableProducer :=
  ⟨producer.ownerId, .service producer.ownerLineageId, producer.key, producer.value.plain opener⟩

theorem resolverProducer_eq_plain {opener : Option SealingKey} {p : SavedVariableProducer}
    {producer : VariableProducer} (h : resolverProducer opener p = .ok producer) :
    producer = p.plain opener := by
  obtain ⟨value, hvalue, rfl⟩ := map_eq_ok.mp h
  suffices hplain : value = p.value.plain opener by rw [hplain]; rfl
  cases hkind : p.value with
  | literal | template =>
    rw [hkind] at hvalue
    exact (pure_eq_ok.mp hvalue).symm
  | secret | secretWithoutValue =>
    rw [hkind] at hvalue
    obtain ⟨text, htext, rfl⟩ := map_eq_ok.mp hvalue
    rw [SavedVariableValue.plain, secretText, htext]

theorem resolverProducers_eq_map {opener : Option SealingKey} {ps : List SavedVariableProducer}
    {producers : List VariableProducer} (h : resolverProducers opener ps = .ok producers) :
    producers = ps.map (·.plain opener) := by
  have hpairs := mapM_eq_ok.mp h
  clear h
  induction hpairs with
  | nil => rfl
  | cons hp _ ih => rw [List.map_cons, resolverProducer_eq_plain hp, ih]

end Ployz
