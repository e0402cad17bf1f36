import Ployz.Store.Deployment.Lifecycle

/-!
# What a runner records, and what is admitted

`record` takes a runner's evidence: the preview it prepared, the Services it confirmed while
executing, what executing did, or that nothing executed. What it confirms enters Applied State
at once. `deploy`, `autoAdmit` and `removal` admit a Deployment: they publish what they ship,
freeze its targets against Applied State and queue it.
-/

namespace Ployz

/-- Evidence a runner records about the Deployment it claimed. What a build stores beside the
Deployment comes in as whether that was stored. -/
inductive RunEvidence
  | prepared (preview : DeployPreview)
  | confirmed (services : List ServiceName)
  | executed (outcome : DeployOutcome) (removed : List VolumeRemoval)
  | notExecuted (reason : String)
  | abandoned
  | built (stored : Except RpcError Unit)
  | build (stored : Except RpcError Unit)
  | uploadNeeded (services : List ServiceName)
  | alive

/-- The current name of the target Service that lowers to runtime Service `runtime`. -/
def currentName (nodes : List TargetNode) (runtime : ServiceName) : String :=
  (nodes.findSome? fun
    | .service _ name target => if target = runtime then some name else none
    | .volume .. => none).getD runtime.value

def truncated (text : String) : String := String.ofList (text.toList.take 500)

/-- Why a Deploy failed, for users. -/
def failure (outcome : DeployOutcome) (nodes : List TargetNode) : Option String :=
  match outcome with
  | .success _ => none
  | .failed _ stopped _ =>
    let text := stopped.error.text
    some (truncated (match stopped.deployOperation.serviceName with
      | some service => s!"{currentName nodes service}: {text}"
      | none => text))

def invalidEvidence (what : String) : RpcError :=
  .invalid s!"The runner's {what} does not match this Deployment"

/-- Refuse evidence about a Deployment that does not run. -/
def running (stored : Stored) : Except RpcError Unit :=
  match stored.status with
  | .running | .cancelling => pure ()
  | .unknown => throw (.clash ("This Deployment's runner lost it, or another took over, so its " ++
      "outcome stays unknown. Start a new Deployment"))
  | .applied | .failed | .cancelled => throw Environment.ended
  | .queued | .superseded =>
    throw (.clash "Claim this Deployment before recording what it did")

/-- The runtime Services confirmed so far: those given, and each target already advanced. -/
def confirmedSoFar (stored : Stored) (services : List ServiceName) : List ServiceName :=
  stored.nodes.foldl (fun confirmed node =>
    match node with
    | .service id _ runtime =>
      if stored.run.nodes[id]?.any (·.advances) && !confirmed.contains runtime then
        confirmed ++ [runtime]
      else confirmed
    | .volume .. => confirmed) services

/-- How a Deploy that executed ends. One that left a Volume's data behind didn't finish: a retry
removes it. -/
def executedStatus (outcome : DeployOutcome) (nodes : Std.TreeMap String NodeStatus) :
    DeploymentStatus :=
  if outcome.isSuccess && nodes.toList.all (·.2 != .failed) then .applied else .failed

/-- Any record while it runs shows the runner is still there. -/
def Stored.renew (stored : Stored) (now : Nat) : Stored :=
  if stored.status.claimed then { stored with lease := now + LEASE } else stored

def Stored.withNodes (stored : Stored) (nodes : Std.TreeMap String NodeStatus) : Stored :=
  { stored with run := { stored.run with nodes } }

/-- The Deployment with the preview its runner prepared. -/
def Stored.prepared (stored : Stored) (preview : DeployPreview)
    (nodes : Std.TreeMap String NodeStatus) : Stored :=
  { stored with run := { stored.run with nodes, preview := some preview } }

/-- The Deployment with what executing it did. -/
def Stored.executed (stored : Stored) (outcome : DeployOutcome) (removed : List VolumeRemoval)
    (nodes : Std.TreeMap String NodeStatus) : Stored :=
  { stored with run := { stored.run with nodes, executed := some (outcome, removed) } }

/-- The Deployment once it ended. A cancelled one that stopped short reads cancelled, not
failed. -/
def Stored.ended (stored : Stored) (now : Nat) (outcome : Outcome) (status : DeploymentStatus) :
    Stored :=
  { stored with
    status := if stored.status = .cancelling ∧ status = .failed then .cancelled else status
    endedAt := some now
    run := { stored.run with outcome := some outcome } }

namespace Environment

variable (env : Environment) (now : Nat)

/-- Put what `stored` confirmed into Applied State. `follow` is whether its Branches can follow
what it runs now. -/
def advanced (stored : Stored) (succeeded : Bool) (follow : Except RpcError Unit) :
    Except RpcError Environment := do
  if (stored.nodes.filter (entersWith stored.run.nodes succeeded)).isEmpty then return env
  let saved ← env.savedAt stored.saved
  follow
  return { env with applied := advance saved stored.nodes stored.run.nodes succeeded env.applied }

/-- End `stored` with `outcome`: what it confirmed enters Applied State. -/
def endWith (stored : Stored) (outcome : Outcome) (status : DeploymentStatus)
    (follow : Except RpcError Unit) : Except RpcError Environment := do
  let env ← env.advanced stored (status == .applied) follow
  return env.save (stored.ended now outcome status)

/-- End a running Deployment; the same outcome again changes nothing. -/
def finish (stored : Stored) (outcome : Outcome) (status : DeploymentStatus)
    (follow : Except RpcError Unit) : Except RpcError Environment :=
  match stored.run.outcome with
  | some recorded =>
    if recorded = outcome then pure env
    else throw (.clash "This Deployment already recorded a different outcome")
  | none => do
    running stored
    env.endWith now stored outcome status follow

/-- The Deploy Preview preparation produced. What it already settles shows while it runs. -/
def recordPrepared (stored : Stored) (preview : DeployPreview) : Except RpcError Environment :=
  let preview := parseRuntimePreview preview
  match stored.run.preview with
  | some recorded =>
    if recorded = preview then pure env
    else throw (.clash "This Deployment already recorded a different Deploy Preview")
  | none => do
    running stored
    let saved ← env.savedAt stored.saved
    return env.save (stored.prepared preview
      (settled stored.nodes saved env.appliedState preview []))

/-- What executing the preview did, and what deleting the Docker Volumes of the Volumes it
removes did. -/
def recordExecuted (stored : Stored) (outcome : DeployOutcome) (removed : List VolumeRemoval)
    (follow : Except RpcError Unit) : Except RpcError Environment :=
  if stored.run.outcome.isSome then
    -- A replay must carry the same evidence: Applied State moved since.
    if stored.run.executed = some (outcome, removed) then pure env
    else throw (.clash "This Deployment already recorded a different outcome")
  else match stored.run.preview with
  | none => throw (.clash "Record the Deploy Preview before what executing it did")
  | some preview =>
    match projectRuntimeOutcome preview outcome with
    | .error _ => throw (invalidEvidence "Deploy Outcome")
    | .ok projection => do
      let saved ← env.savedAt stored.saved
      let nodes := keepAdvanced stored.run.nodes
        (nodeOutcomes stored.nodes saved env.appliedState (.executed projection removed))
      env.finish now (stored.executed outcome removed nodes)
        (.executed projection.summary (failure outcome stored.nodes))
        (executedStatus outcome nodes) follow

/-- These runtime Services completed every planned operation while execution still runs: each
enters Applied State now. -/
def recordConfirmed (stored : Stored) (services : List ServiceName)
    (follow : Except RpcError Unit) : Except RpcError Environment := do
  running stored
  match stored.run.preview, stored.run.outcome with
  | some preview, none =>
    let saved ← env.savedAt stored.saved
    let stored := stored.withNodes (keepAdvanced stored.run.nodes (settled stored.nodes saved
      env.appliedState preview (confirmedSoFar stored services)))
    let env ← env.advanced stored false follow
    return env.save stored
  | _, _ => throw (.clash "Confirm Services between the Deploy Preview and the outcome")

/-- The runner stopped without knowing whether it executed. -/
def recordAbandoned (stored : Stored) (follow : Except RpcError Unit) :
    Except RpcError Environment :=
  if stored.run.outcome.isSome || stored.status == .unknown then pure env
  else do
    running stored
    if stored.run.preview.isNone then
      env.finish now stored (.notExecuted "Its runner stopped before executing anything" [])
        .failed follow
    else return env.save { stored with status := .unknown }

/-- Record evidence about `stored`, as its runner holds it. -/
def recordFor (stored : Stored) (follow : Except RpcError Unit) :
    RunEvidence → Except RpcError Environment
  | .alive => do
    running stored
    return env.save stored
  | .prepared preview => env.recordPrepared stored preview
  | .executed outcome removed => env.recordExecuted now stored outcome removed follow
  | .confirmed services => env.recordConfirmed stored services follow
  | .built saved | .build saved => do
    running stored
    saved
    return env
  | .notExecuted reason =>
    env.finish now stored (.notExecuted (truncated reason) []) .failed follow
  | .uploadNeeded services =>
    let names := ", ".intercalate (services.map (currentName stored.nodes))
    env.finish now stored (.notExecuted (s!"{names} has no source to build: its last upload is " ++
      "gone and no image is left to reuse. Upload it again or add an image.") services)
      .failed follow
  | .abandoned => env.recordAbandoned now stored follow

/-- Record `runner`'s evidence. Only the runner that claimed the Deployment may. -/
def record (id runner : String) (evidence : RunEvidence) (follow : Except RpcError Unit) :
    Except RpcError Environment := do
  let stored ← env.load now id
  if stored.runner = some runner then env.recordFor now (stored.renew now) follow evidence
  else throw ownedElsewhere

end Environment

end Ployz
