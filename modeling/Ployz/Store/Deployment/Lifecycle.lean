import Ployz.Store.Deployment.Applied

/-!
# A Deployment's life

Admitted, claimed, recorded, retried, started, cancelled: each operation of the Store on the
Deployments of one Environment, as a function that refuses or answers the Environment after
it. Time is an argument. A claimed Deployment is held until its lease; every read takes one
whose lease lapsed as unknown.

What other parts of the Store settle comes in as an argument: whether the review, the gate and
the lowering of a Deploy pass, whether Branches can follow what advanced, and what was stored
beside a Deployment's builds.
-/

namespace Ployz

open Std (TreeMap)

/-- Where a Deployment is in its life. -/
inductive DeploymentStatus
  | queued
  | superseded
  | running
  | applied
  | failed
  | unknown
  | cancelling
  | cancelled
deriving DecidableEq, Repr

namespace DeploymentStatus

/-- Whether it may still run. -/
def inFlight : DeploymentStatus → Bool
  | queued | running | cancelling => true
  | _ => false

/-- Whether a runner claimed it and recorded no outcome yet. -/
def claimed : DeploymentStatus → Bool
  | running | cancelling => true
  | _ => false

end DeploymentStatus

/-- A directory's content, identified by its digest, with the commit it was checked out at and
whether it held changes that commit doesn't. -/
structure UploadedSource where
  digest : String
  base : Option (String × Bool)
  uploader : Option String
deriving DecidableEq, Repr

/-- What a Deployment's runner recorded at its end. -/
inductive Outcome
  | executed (summary : RuntimeOutcomeSummary) (reason : Option String)
  | notExecuted (reason : String) (needsUpload : List ServiceName)
  | neverRan
  | forgotten
deriving DecidableEq, Repr

/-- The runner's evidence so far. A digest of the Executed evidence is kept, so that a replay
must match it; here it is that evidence. -/
structure Run where
  preview : Option DeployPreview := none
  outcome : Option Outcome := none
  executed : Option (DeployOutcome × List VolumeRemoval) := none
  nodes : TreeMap String NodeStatus := ∅

/-- A Deployment as stored. -/
structure Stored where
  id : String
  number : Nat
  status : DeploymentStatus
  saved : Nat
  services : List ServiceName
  nodes : List TargetNode
  namespace_ : String
  clusterDomain : Option String
  upload : Option UploadedSource
  message : Option String
  admittedBy : Option String
  admittedAt : Nat
  run : Run := {}
  runner : Option String := none
  /-- Until when, in seconds, its runner holds it without recording anything. -/
  lease : Nat := 0
  startedAt : Option Nat := none
  endedAt : Option Nat := none

/-- The Saved revision a removal ships: the empty Environment. Saved revisions count from 1. -/
def NOTHING : Nat := 0

/-- How long a runner holds a claimed Deployment without recording anything. -/
def LEASE : Nat := 10 * 60

/-- The most characters a Deployment message has. -/
def MESSAGE_MAX : Nat := 500

namespace Stored

def remove (stored : Stored) : Bool := stored.saved == NOTHING

/-- Whether a claimed Deployment's runner is gone: its lease lapsed, so what ran is unknown. -/
def lapsed (stored : Stored) (now : Nat) : Bool := stored.status.claimed && stored.lease ≤ now

/-- The status it reads: every read takes a lapsed one as unknown. -/
def statusAt (stored : Stored) (now : Nat) : DeploymentStatus :=
  if stored.lapsed now then .unknown else stored.status

def read (stored : Stored) (now : Nat) : Stored := { stored with status := stored.statusAt now }

/-- Whether it may still run: queued, or claimed by a runner whose lease holds. -/
def inFlight (stored : Stored) (now : Nat) : Bool :=
  stored.status == .queued || (stored.status.claimed && now < stored.lease)

/-- A row with the columns that are written after admission taken from `stored`. -/
def written (row stored : Stored) : Stored :=
  { row with
    status := stored.status, run := stored.run, runner := stored.runner
    lease := stored.lease, startedAt := stored.startedAt, endedAt := stored.endedAt }

def put (stored row : Stored) : Stored := if row.id = stored.id then row.written stored else row

/-- A row after a newer admission. -/
def supersede (row : Stored) : Stored :=
  if row.status = .queued then { row with status := .superseded } else row

/-- A row after another Deployment was claimed. -/
def lose (row : Stored) : Stored :=
  if row.status.claimed then { row with status := .unknown } else row

/-- A row after its Servers are gone. -/
def giveUp (now : Nat) (row : Stored) : Stored :=
  if row.inFlight now then { row with status := .cancelled, endedAt := some now } else row

end Stored

/-- What the Store holds of one Environment. -/
structure Environment where
  slug : String
  working : SavedEnvironmentIntent
  /-- Saved State: one document per Saved revision. -/
  saved : List SavedEnvironmentIntent
  /-- The storage each Volume is fixed to. -/
  storage : TreeMap String VolumeKind
  deployments : List Stored
  applied : AppliedTable
  /-- What each node was first created as. -/
  introduced : TreeMap String EnvironmentNodeType

namespace Environment

variable (env : Environment)

def savedAt (revision : Nat) : Except RpcError SavedEnvironmentIntent :=
  if revision = NOTHING then pure (emptyIntent env.slug)
  else match env.saved[revision - 1]? with
  | none => throw (.corrupt "Saved State")
  | some intent =>
    match parseEnvironmentIntent intent with
    | .ok intent => pure (canonicalizeEnvironmentIntent intent)
    | .error _ => throw (.corrupt "Saved State")

def latestSaved : Except RpcError (Option (Nat × SavedEnvironmentIntent)) :=
  if env.saved.isEmpty then pure none
  else return some (env.saved.length, ← env.savedAt env.saved.length)

def appliedState : SavedEnvironmentIntent := Ployz.appliedState env.slug env.applied

/-- Introduce one node that Working State is to hold: its ID is a key, so it never names a node
of another type. -/
def introduceNode (introduced : TreeMap String EnvironmentNodeType) (node : Node) :
    Except RpcError (TreeMap String EnvironmentNodeType) :=
  match introduced[node.id]? with
  | none => pure (introduced.insert node.id node.nodeType)
  | some held => if held = node.nodeType then pure introduced else throw .taken

/-- Write Working State, with the introductions of the nodes it gains. -/
def saveWorking (working : SavedEnvironmentIntent) : Except RpcError Environment := do
  let introduced ← (nodesOf working).foldlM introduceNode env.introduced
  return { env with working, introduced }

/-! ## Volume storage -/

/-- Refuse `intent` when it gives a Volume storage other than its fixed one. -/
def checkStorage (intent : SavedEnvironmentIntent) : Except RpcError Unit :=
  forM intent.volumes fun volume =>
    if env.storage[volume.resourceId]?.any (· != volume.storage) then
      throw (.clash s!"Volume {volume.name} storage cannot change after deployment has been requested")
    else pure ()

/-- Fix the storage of each Volume of `intent` that `targets` names, the first time a
Deployment targets it. Refuse any other storage. -/
def fixStorage (intent : SavedEnvironmentIntent) (targets : List TargetNode) :
    Except RpcError Environment := do
  let named := intent.volumes.filter fun volume => targets.any (·.id == volume.resourceId)
  let env := { env with storage := named.foldl (fun storage volume =>
    storage.insertIfNew volume.resourceId volume.storage) env.storage }
  env.checkStorage intent
  return env

/-- Publish `intent` as the next Saved revision, or keep the latest when it already holds the
same document. -/
def publish (intent : SavedEnvironmentIntent) (latest : Option (Nat × SavedEnvironmentIntent)) :
    Except RpcError (Environment × Nat) := do
  let intent := canonicalizeEnvironmentIntent intent
  env.checkStorage intent
  match latest with
  | some (revision, held) =>
    if held = intent then return (env, revision)
    else return ({ env with saved := env.saved ++ [intent] }, revision + 1)
  | none => return ({ env with saved := env.saved ++ [intent] }, 1)

/-! ## Reading and writing Deployments -/

/-- The Deployment of this ID, as read at `now`. -/
def load (now : Nat) (id : String) : Except RpcError Stored :=
  match env.deployments.find? (·.id == id) with
  | some stored => pure (stored.read now)
  | none => throw (.missing s!"No Deployment {id}")

def save (stored : Stored) : Environment :=
  { env with deployments := env.deployments.map stored.put }

/-- The Deployment of the greatest number that `p` holds of. -/
def latestWhere (p : Stored → Bool) : Option Stored :=
  env.deployments.foldl (fun best stored =>
    if p stored && best.all (·.number < stored.number) then some stored else best) none

/-- The Deployment that may still run, if any. -/
def inFlight (now : Nat) : Option Stored :=
  (env.latestWhere (·.inFlight now)).map (·.read now)

/-! ## Admission -/

/-- Supersede the queued Deployment, if any, and number the next one. -/
def queue : Environment × Nat :=
  ({ env with deployments := env.deployments.map (·.supersede) },
    (env.deployments.map (·.number)).foldl max 0 + 1)

/-- Insert a Deployment; its ID is its key. -/
def insert (stored : Stored) : Except RpcError Environment :=
  if env.deployments.any (·.id == stored.id) then throw .taken
  else pure { env with deployments := env.deployments ++ [stored] }

/-- A Deployment message as kept: trimmed, and none when nothing is left. -/
def shownMessage (message : Option String) : Except RpcError (Option String) :=
  let message := (message.map trim).filter (· != "")
  if message.any (MESSAGE_MAX < ·.length) then
    throw (.invalid s!"A Deployment message is at most {MESSAGE_MAX} characters")
  else pure message

end Environment

/-- What a caller names of the Deployment it admits. -/
structure Admission where
  id : String
  services : List ServiceName
  upload : Option UploadedSource
  message : Option String
  admittedBy : Option String

namespace Environment

variable (env : Environment) (now : Nat)

/-- The upload a Deployment builds from: a new one, else the latest. -/
def uploadFor (upload : Option UploadedSource) : Option UploadedSource :=
  upload.or ((env.latestWhere (·.upload.isSome)).bind (·.upload))

/-- A Service with nothing to run would fail the whole Deploy on the Servers. -/
def checkSourceless (upload : Option UploadedSource) (sourceless : List String) :
    Except RpcError Unit :=
  match upload, sourceless.head? with
  | none, some name => throw (.invalid
      s!"{name} has nothing to run yet: add an image or connect a repository")
  | _, _ => pure ()

/-- Admit a frozen Deployment of Saved revision `saved`. A Deployment still queued is
superseded: the newest admission replaces the pending one. -/
def admitRow (admission : Admission) (saved : Nat) (frozen : Frozen) :
    Except RpcError Environment := do
  let intent ← env.savedAt saved
  let env ← env.fixStorage intent frozen.nodes
  let upload := env.uploadFor admission.upload
  checkSourceless upload frozen.sourceless
  let message ← shownMessage admission.message
  env.queue.1.insert {
    id := admission.id, number := env.queue.2, status := .queued, saved, services :=
      admission.services
    nodes := frozen.nodes, namespace_ := frozen.namespace_, clusterDomain := frozen.clusterDomain
    upload, message, admittedBy := admission.admittedBy, admittedAt := now }

def superseded : RpcError := .clash "A newer Deployment replaced this one before it started"
def ended : RpcError := .clash "This Deployment already ended"
def ownedElsewhere : RpcError := .clash "Another runner owns this Deployment"

/-- Whether a Deployment ended without applying, so that it can be retried. -/
def retriable (stored : Stored) : Except RpcError Unit :=
  match stored.status with
  | .failed | .unknown | .cancelled => pure ()
  | .applied => throw (.clash "This Deployment applied, so there is nothing to retry")
  | .queued | .running | .cancelling =>
    throw (.clash "This Deployment hasn't ended: cancel it or wait before retrying it")
  | .superseded => throw superseded

/-- Shipping an older revision over one that applied since would roll it back without saying
so. -/
def checkNewer (stored : Stored) : Except RpcError Unit :=
  match env.latestWhere fun newer => stored.number < newer.number && newer.status == .applied with
  | some newer => throw (.clash (s!"Deployment #{newer.number} applied after this one, so " ++
      "retrying it would roll that back: deploy again instead"))
  | none => pure ()

/-- A removal is retried only while the Environment may come off the Servers. -/
def guardRemoval (stored : Stored) (guard : Except RpcError Unit) : Except RpcError Unit :=
  if stored.remove then guard else pure ()

/-- The Deployment that ships again what `stored` froze. -/
def retried (stored : Stored) (id : String) (number : Nat) (admittedBy : Option String) : Stored :=
  { stored with
    id, number, status := .queued, run := {}, runner := none, lease := 0
    admittedBy, admittedAt := now, startedAt := none, endedAt := none }

/-- Queue Deployment `id` shipping exactly what `source` froze, whatever changed since. `guard`
is whether the Environment may come off the Servers. -/
def retry (id source : String) (admittedBy : Option String) (guard : Except RpcError Unit) :
    Except RpcError Environment := do
  let stored ← env.load now source
  retriable stored
  env.checkNewer stored
  guardRemoval stored guard
  env.queue.1.insert (retried now stored id env.queue.2 admittedBy)

/-! ## Claiming and cancelling -/

/-- A queued Deployment, checked that a runner may still claim it. Nothing changes. -/
def start (id : String) : Except RpcError Environment := do
  let stored ← env.load now id
  match stored.status with
  | .queued => return env
  | .running | .cancelling => throw (.clash "This Deployment is already running")
  | .superseded => throw superseded
  | .applied | .failed | .unknown | .cancelled => throw ended

/-- Claiming again as the same runner keeps the Deployment until it records a Deploy Preview;
after that it may have executed, so a second claim leaves it unknown and refuses. -/
def claimAgain (stored : Stored) (handed : Except RpcError Unit) :
    Except RpcError (Environment × Except RpcError Unit) :=
  if stored.run.preview.isSome then
    pure (env.save { stored with status := .unknown }, throw (.clash
      ("This Deployment's runner lost track of it after preparing it, so what ran is " ++
        "unknown. Start a new Deployment")))
  else do
    handed
    return (env.save { stored with lease := now + LEASE }, pure ())

/-- Bind a queued Deployment to `runner`. A Deployment another runner still holds without an
outcome reads unknown from here on. -/
def claimQueued (stored : Stored) (runner : String) (handed : Except RpcError Unit) :
    Except RpcError (Environment × Except RpcError Unit) := do
  handed
  let env : Environment := { env with deployments := env.deployments.map (·.lose) }
  return (env.save { stored with
    status := .running, runner := some runner, startedAt := some now
    lease := now + LEASE }, pure ())

/-- Claim a Deployment for `runner`. The outer error rolls back; the inner one is a refusal that
keeps what it recorded. `handed` is whether the frozen Deploy Intent can be handed over. -/
def claim (id runner : String) (handed : Except RpcError Unit) :
    Except RpcError (Environment × Except RpcError Unit) := do
  let stored ← env.load now id
  match stored.status with
  | .running | .cancelling =>
    if stored.runner = some runner then env.claimAgain now stored handed
    else return (env, throw ownedElsewhere)
  | .superseded => return (env, throw superseded)
  | .applied | .failed | .unknown | .cancelled => return (env, throw ended)
  | .queued => env.claimQueued now stored runner handed

/-- Cancel a Deployment. A queued one never runs; a running one reads cancelling until its
runner stops it and records what ran. Cancelling again changes nothing. -/
def cancel (id : String) : Except RpcError Environment := do
  let stored ← env.load now id
  match stored.status with
  | .queued => return env.save { stored with status := .cancelled, endedAt := some now }
  | .running => return env.save { stored with status := .cancelling }
  | .cancelling | .cancelled => return env
  | .superseded | .applied | .failed | .unknown => throw ended

/-- Cancel every Deployment that may still run, without waiting on a runner. -/
def cancelInFlight : Environment :=
  { env with deployments := env.deployments.map (·.giveUp now) }

/-- Forget the Cluster the Environment runs on: nothing is applied any more, and nothing that may
still run does. -/
def forgetCluster : Environment :=
  { env.cancelInFlight now with applied := ∅, storage := ∅ }

end Environment

end Ployz
