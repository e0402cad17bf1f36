import Ployz.Store.Deployment.Record

/-!
# Admission

A Deploy publishes Working State when Saved State doesn't hold it yet, freezes its targets
against Applied State and queues it; the Store's own Deploys ship the latest Saved revision; a
removal ships the empty Environment, and applies without a runner when nothing ever ran or no
Server is left; a retry ships what an ended Deployment froze.
-/

namespace Ployz

/-- What Cloud checked for one write. -/
structure Trusted where
  servers : Option Nat
  volumes : Option VolumeObservation
  clusterDomain : Option String

namespace Trusted

/-- Cloud counted no Server: nothing runs, and nothing is left on one. -/
def noServers (trusted : Trusted) : Bool := trusted.servers == some 0

/-- Refuse to admit a Deployment no Server could run. -/
def runnable (trusted : Trusted) : Except RpcError Unit :=
  if trusted.noServers then
    throw (.clash "This Organization has no Server to run a Deployment: add one first")
  else pure ()

end Trusted

/-- What is settled of an admission outside the Deployments: whether the caller's version names
the latest review, whether the gate of secrets and domains passes and the document lowers,
whether the version is the one a refusal to delete data handed back, and the Environment's
Namespace. -/
structure Review where
  check : Except RpcError Unit
  gate : Except RpcError Unit
  lowers : Except RpcError Unit
  bound : Bool
  accepted : List String
  namespace_ : String

/-- The Volume data shipping `target` would delete. Only a full Deploy's losses come back: it
alone deletes them. -/
def destructive (latest : Option (Nat × SavedEnvironmentIntent))
    (applied target : SavedEnvironmentIntent) (full : Bool) (review : Review)
    (observed : Option VolumeObservation) : Except RpcError (List VolumeLoss) := do
  let publishes := latest.all fun saved => saved.2 ≠ target
  let removed := if full || publishes then removedVolumes applied target review.namespace_ else []
  let losses ← reviewRemoval removed observed review.accepted review.bound
  return if full then losses else []

namespace Environment

variable (env : Environment) (now : Nat)

/-- Deploy Working State: all of it, or only some Services. -/
def deploy (admission : Admission) (trusted : Trusted) (review : Review) :
    Except RpcError Environment := do
  trusted.runnable
  review.check
  let applied := env.appliedState
  let latest ← env.latestSaved
  let intent := canonicalizeEnvironmentIntent env.working
  review.gate
  let losses ← destructive latest applied intent admission.services.isEmpty review trusted.volumes
  let (env, saved) ← env.publish env.working latest
  let frozen ← freeze intent applied admission.services review.namespace_ trusted.clusterDomain
    losses review.lowers
  env.admitRow now admission saved frozen

/-- Admit the Store's own Deployment of a Saved revision: `services` (none: every one). It
removes nothing. -/
def autoAdmit (admission : Admission) (saved : Nat × SavedEnvironmentIntent) (trusted : Trusted)
    (review : Review) : Except RpcError Environment := do
  trusted.runnable
  review.gate
  let frozen ← freeze saved.2 env.appliedState admission.services review.namespace_
    trusted.clusterDomain [] review.lowers
  env.admitRow now { admission with upload := none, message := none } saved.1 frozen

/-- The last Deployment that ran the Environment on the Servers, unless it was a removal that
applied. -/
def ran : Option Stored :=
  ((env.latestWhere fun stored => stored.startedAt.isSome ||
    (stored.status == .applied && stored.remove)).map (·.read now)).filter fun stored =>
      !(stored.remove && stored.status == .applied)

/-- How a removal applies without a runner, if it can: nothing of the Environment ever ran on a
Server, or Cloud counted no Server left to run it. -/
def forgettable (trusted : Trusted) : Option Outcome :=
  if (env.ran now).isNone then some .neverRan
  else if trusted.noServers then some .forgotten
  else none

/-- Apply removal `id` without a runner. Applied State lets go of every node, which Unknown
reads. -/
def forget (id : String) (outcome : Outcome) : Except RpcError Environment := do
  let stored ← env.load now id
  let stored : Stored := { stored with run := { stored.run with
    nodes := Std.TreeMap.ofList (stored.nodes.map fun node => (node.id, NodeStatus.unknown)) } }
  let env : Environment := { env with applied := ∅ }
  env.endWith now stored outcome .applied (pure ())

/-- A running Deployment must end first, so the removal's targets are everything that ran. -/
def refuseRunning : Except RpcError Unit :=
  match (env.inFlight now).filter (·.status.claimed) with
  | some running => throw (.clash (s!"Deployment #{running.number} is running: wait for it or " ++
      s!"cancel it before removing {env.slug}"))
  | none => pure ()

/-- The Volume data a removal deletes: none when it applies without a runner. -/
def removalLosses (forget : Option Outcome) (trusted : Trusted) (review : Review) :
    Except RpcError (List VolumeLoss) :=
  if forget.isSome then pure []
  else do
    let latest ← env.latestSaved
    destructive latest env.appliedState (emptyIntent env.slug) true review trusted.volumes

/-- Queue the Deployment that removes the Environment from the Servers: the empty
Environment against everything Applied State holds. When nothing of it ever ran, or no Server is
left, it applies at once. -/
def removal (admission : Admission) (trusted : Trusted) (review : Review)
    (guard : Except RpcError Unit) : Except RpcError Environment := do
  guard
  env.refuseRunning now
  let forget := env.forgettable now trusted
  review.check
  let losses ← env.removalLosses forget trusted review
  let frozen ← freeze (emptyIntent env.slug) env.appliedState [] review.namespace_ none losses
    review.lowers
  let env ← env.admitRow now { admission with services := [], upload := none, message := none }
    NOTHING frozen
  match forget with
  | some outcome => env.forget now admission.id outcome
  | none => return env

/-- Retry an ended Deployment. A retried removal applies without a runner when it can. -/
def retryAdmit (id source : String) (admittedBy : Option String) (trusted : Trusted)
    (guard : Except RpcError Unit) : Except RpcError Environment := do
  let env ← env.retry now id source admittedBy guard
  let retried ← env.load now id
  match if retried.remove then env.forgettable now trusted else none with
  | some outcome => env.forget now id outcome
  | none =>
    trusted.runnable
    return env

end Environment

end Ployz
