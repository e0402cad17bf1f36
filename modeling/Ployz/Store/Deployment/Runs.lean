import Ployz.Store.Deployment.Admit

/-!
# Runs of an Environment's Deployments

The operations on one Environment's Deployments as a transition system: a refused operation
leaves everything as it was, and time only moves forward.
-/

namespace Ployz

open Run
open Std (TreeMap)

structure World where
  env : Environment
  /-- Seconds since the Unix epoch. -/
  clock : Nat

/-- The operations on an Environment's Deployments, and what else moves its Applied State. `edit`
stands for every write of Working State, whichever command makes it. -/
inductive Op
  | edit (working : SavedEnvironmentIntent)
  | publish
  | deploy (admission : Admission) (trusted : Trusted) (review : Review)
  | autoDeploy (admission : Admission) (trusted : Trusted) (review : Review)
  | remove (admission : Admission) (trusted : Trusted) (review : Review)
      (guard : Except RpcError Unit)
  | retry (id source : String) (admittedBy : Option String) (trusted : Trusted)
      (guard : Except RpcError Unit)
  | start (id : String)
  | claim (id runner : String) (handed : Except RpcError Unit)
  | cancel (id : String)
  | forgetCluster
  | record (id runner : String) (evidence : RunEvidence) (follow : Except RpcError Unit)
  | wait (seconds : Nat)

/-- The name of an Environment; a document without one is refused. -/
structure EnvironmentSlug where
  value : String
  nonempty : value ≠ ""

namespace World

def created (slug : EnvironmentSlug) (clock : Nat) : World where
  env := ⟨slug.value, emptyIntent slug.value, [], ∅, [], ∅, ∅⟩
  clock := clock

/-- What an operation on the Environment does, or why it is refused. -/
def envStep (env : Environment) (now : Nat) : Op → Except RpcError Environment
  | .edit working =>
    match parseEnvironmentIntent working with
    | .ok working => env.saveWorking working
    | .error error => throw (.invalid error.message)
  | .publish => do
    let latest ← env.latestSaved
    let (env, _) ← env.publish env.working latest
    return env
  | .deploy admission trusted review => env.deploy now admission trusted review
  | .autoDeploy admission trusted review => do
    match ← env.latestSaved with
    | some saved => env.autoAdmit now admission saved trusted review
    | none => return env
  | .remove admission trusted review guard => env.removal now admission trusted review guard
  | .retry id source admittedBy trusted guard =>
    env.retryAdmit now id source admittedBy trusted guard
  | .start id => env.start now id
  | .claim id runner handed => do
    let (env, _) ← env.claim now id runner handed
    return env
  | .cancel id => env.cancel now id
  | .forgetCluster => pure (env.forgetCluster now)
  | .record id runner evidence follow => env.record now id runner evidence follow
  | .wait _ => pure env

/-- The world after an operation: as it was when the operation is refused. -/
def next (w : World) (op : Op) : World where
  env := match envStep w.env w.clock op with
    | .ok env => env
    | .error _ => w.env
  clock := match op with
    | .wait seconds => w.clock + seconds
    | _ => w.clock

/-- The world after a sequence of operations. -/
def after (w : World) (ops : List Op) : World := ops.foldl next w

def statusOf (w : World) (id : String) : Option DeploymentStatus :=
  (w.env.deployments.find? (·.id == id)).map (·.statusAt w.clock)

/-- What holds at first and is kept by each operation holds after every sequence of them. -/
theorem after_induction {P : World → Prop} (hnext : ∀ w op, P w → P (w.next op)) {w : World}
    (hw : P w) (ops : List Op) : P (w.after ops) := by
  induction ops generalizing w with
  | nil => exact hw
  | cons op ops ih => exact ih (hnext w op hw)

theorem next_ok {w : World} {op : Op} (h : (envStep w.env w.clock op).isOk = true) :
    envStep w.env w.clock op = .ok (w.next op).env := by
  unfold next
  cases hstep : envStep w.env w.clock op with
  | ok env => rfl
  | error e => rw [hstep] at h; cases h

end World

/-! ## A small Environment -/

namespace Sample

def slug : EnvironmentSlug := ⟨"production", by decide⟩

def web : ServiceName := ⟨"web", Eq.refl true⟩
def job : ServiceName := ⟨"job", by decide⟩

def webId : String := "a0000000000000000000000000000000"
def jobId : String := "b0000000000000000000000000000000"
def dataId : String := "c0000000000000000000000000000000"

def mounting (id : String) (name : ServiceName) (volumes : List String) : SavedServiceIntent :=
  { SavedServiceIntent.unset id id name with
    volumeAttachments := volumes.map fun volume => ⟨volume, "/" ++ volume⟩ }

def volume (id name : String) : SavedVolumeIntent := .docker id id name

/-- Deploy Working State whole, from an upload, deleting the data of no Volume that holds any. -/
def deployAll (id : String) (sought : List String) : Op :=
  .deploy ⟨id, [], some ⟨"digest", none, none⟩, none, none⟩
    ⟨some 1, some ⟨sought, [], []⟩, none⟩ ⟨pure (), pure (), pure (), true, [], "production"⟩

/-- A preview with one operation for each of these Services. -/
def previewOf (names : List ServiceName) : DeployPreview :=
  ⟨⟨"production", Eq.refl true⟩,
    names.map fun name => ⟨"server", .stopHook "server" name.value, some name⟩⟩

def completed (names : List ServiceName) : DeployOutcome :=
  .success (names.map fun name => .stopHook "server" name.value)

def record (id : String) (evidence : RunEvidence) : Op := .record id "runner" evidence (pure ())

def claim (id : String) : Op := .claim id "runner" (pure ())

end Sample

end Ployz
