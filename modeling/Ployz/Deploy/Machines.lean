import Ployz.Deploy.Intent

/-!
# Eligible Machines

The Machines a Service may go to: those that are not down, match its placement, accept its work
and can host its Volumes, in an order shuffled by the placement seed and the Service's name.
-/

namespace Ployz.Deploy

def scramble (state : UInt64) : UInt64 :=
  let state := (state ^^^ (state >>> 30)) * 0xbf58476d1ce4e5b9
  let state := (state ^^^ (state >>> 27)) * 0x94d049bb133111eb
  state ^^^ (state >>> 31)

def advance (state : UInt64) : UInt64 := state + 0x9e3779b97f4a7c15

/-- The seed of a Service's shuffle. Service names are ASCII, so their characters are their bytes.
-/
def placementState (seed : UInt64) (name : ServiceName) : UInt64 :=
  name.value.toList.foldl
    (fun state char => scramble (advance (state + UInt64.ofNat char.toNat))) seed

/-- A list with the elements at `i` and `j` exchanged. -/
def swap {α : Type} (values : List α) (i j : Nat) : List α :=
  match values[i]?, values[j]? with
  | some a, some b => (values.set i b).set j a
  | _, _ => values

/-- The index at or below `upper` that a state gives. -/
def pick (upper : Nat) (state : UInt64) : Nat := (scramble state).toNat % (upper + 1)

/-- Exchange the element at each index from `upper` down to 1 with one at or below it, which
`pick` takes from a state that `next` moves on. -/
def shuffleFrom {α σ : Type} (next : σ → σ) (pick : Nat → σ → Nat) : Nat → List α → σ → List α
  | 0, values, _ => values
  | upper + 1, values, state =>
    shuffleFrom next pick upper (swap values (upper + 1) (pick (upper + 1) (next state)))
      (next state)

def shuffle {α : Type} (values : List α) (state : UInt64) : List α :=
  shuffleFrom advance pick (values.length - 1) values state

section

variable (given : Given) (requested : RequestedServiceSpec) (owner : Namespace)
  (snapshot : DeploySnapshot)

def placementError : PlanError :=
  if snapshot.machines.isEmpty then .noEligible [.noMachines]
  else
    let matched := snapshot.machines.filter fun machine =>
      machineMatchesPlacement machine.machine requested.placement
    if matched.isEmpty then .noEligible [.unknownPlacement requested.placement.constraints]
    else
      let down := matched.filter (·.membership == .down)
      let refused := matched.filter fun machine => machine.membership != .down &&
        placementEligibility given owner requested machine == .workNotAccepted
      .noEligible
        ((if down.isEmpty then [] else [.machineDown (down.map (·.machine.name))]) ++
          (if refused.isEmpty then [] else [.workNotAccepted (refused.map (·.machine.name))]))

/-- A Machine that is up, matches the placement and accepts the work. -/
def isCandidate (machine : MachineObservation) : Bool :=
  machine.membership != .down &&
    match placementEligibility given owner requested machine with
    | .placementMismatch | .workNotAccepted => false
    | _ => true

def placementCandidates : Except PlanError (List MachineObservation) :=
  let candidates := snapshot.machines.filter (isCandidate given requested owner)
  if candidates.isEmpty then .error (placementError given requested owner snapshot)
  else .ok candidates

def eligibleMachines (options : PlanOptions) : Except PlanError (List MachineObservation) := do
  let candidates ← placementCandidates given requested owner snapshot
  let eligibility := placementEligibility given owner requested
  let machines := candidates.filter fun machine => eligibility machine == .eligible
  let unknown := candidates.filter fun machine => eligibility machine == .missingStorageEvidence
  if machines.isEmpty then
    if !unknown.isEmpty then
      .error (.provisionedVolumeStorageUnknown (unknown.map (·.machine.name)))
    else if !requested.placement.constraints.isEmpty && candidates.length == 1 then
      .error (.provisionedVolumeStorageRequired ((candidates.head?.map (·.machine.name)).getD ""))
    else .error .provisionedVolumeStorageUnavailable
  else pure (shuffle machines (placementState options.placementSeed requested.name))

end

end Ployz.Deploy
