import Ployz.Config.Environment
import Ployz.Deploy.Operation
import Ployz.Lib.Table

/-!
# What executing a Deploy did

A runner prepares a Deploy Preview, executes its operations and reports which of them
completed, failed or never ran. `projectRuntimeOutcome` matches the report against the
preview and says, for each Service, how far its planned operations got.

Main results:

* `projectRuntimeOutcome_success`: a Deploy that succeeded leaves no Service failed or
  unattempted;
* `projectRuntimeOutcome_in_order`: what a report in the order of its preview is projected to.
-/

namespace Ployz

open Run
open Std (TreeMap)

export Deploy (DockerVolumeId DeployOperation OperationRow DeployPreview RuntimeFailureKind
  ExecutionError DeployOutcome)

/-- A spec without its resolved values. -/
def redact (spec : Deploy.ResolvedServiceSpec) : Deploy.ResolvedServiceSpec :=
  { spec with
    container := { spec.container with environment := [] }
    mountGraph := { spec.mountGraph with
      configs := spec.mountGraph.configs.map fun config => { config with content := [] } } }

def redactOperation : DeployOperation → DeployOperation
  | .runContainer machineId spec skip => .runContainer machineId (redact spec) skip
  | .runHook machineId spec old => .runHook machineId (redact spec) old
  | .replaceContainer machineId old spec skip => .replaceContainer machineId old (redact spec) skip
  | operation => operation

/-- Remove the resolved values of a preview's operations. -/
def parseRuntimePreview (preview : DeployPreview) : DeployPreview :=
  { preview with operations := preview.operations.map fun row =>
      { row with operation := redactOperation row.operation } }

inductive RuntimeOutcomeSummary
  | success (completed : Nat)
  | failed (completed unexecuted : Nat) (reason : RuntimeFailureKind)
deriving DecidableEq, Repr

def RuntimeOutcomeSummary.isSuccess : RuntimeOutcomeSummary → Bool
  | .success _ => true
  | .failed .. => false

/-- Each planned Service by what this outcome did to it. -/
structure RuntimeOutcomeProjection where
  summary : RuntimeOutcomeSummary
  /-- Services whose every planned operation completed. -/
  confirmedServices : List ServiceName
  /-- Services work started on but didn't finish. -/
  failedServices : List ServiceName
  /-- Services with planned operations an earlier failure stopped before any ran. -/
  unattemptedServices : List ServiceName
deriving DecidableEq, Repr

/-- How far a Service's planned operations got. -/
inductive Progress
  | completed
  | failed
  | unattempted
deriving DecidableEq, Repr

/-- The Service's progress with one more operation's. -/
def Progress.merge : Progress → Progress → Progress
  | .completed, .completed => .completed
  | .unattempted, .unattempted => .unattempted
  | _, _ => .failed

instance : Ord ServiceName := ⟨fun a b => compare a.value b.value⟩

/-- The first element `p` holds of, and the others. -/
def takeFirst {α : Type*} (p : α → Bool) : List α → Option (α × List α)
  | [] => none
  | x :: xs => if p x then some (x, xs) else (takeFirst p xs).map fun found =>
    (found.1, x :: found.2)

def invalidOutcome : ConfigError := ⟨"runtimeOutcome", "Invalid current SDK deployment evidence"⟩

/-- The progress of each Service so far, and the preview's rows not yet matched. -/
abbrev Matching := TreeMap ServiceName Progress × List OperationRow

/-- Whether a reported operation runs where its row says and names no other Service. -/
def Deploy.OperationRow.agrees (row : OperationRow) (operation : DeployOperation) : Bool :=
  row.machineId == operation.machineId &&
    (row.serviceName.isNone || operation.serviceName.isNone ||
      row.serviceName == operation.serviceName)

/-- Match one reported operation against the preview. -/
def matchOperation (state : Matching) (reported : DeployOperation × Progress) :
    Except ConfigError Matching :=
  match takeFirst (·.operation == redactOperation reported.1) state.2 with
  | none => throw invalidOutcome
  | some (row, rest) =>
    if row.agrees (redactOperation reported.1) then
      match row.service with
      | some service =>
        let entry := state.1[service]?.getD reported.2
        pure (state.1.insert service (entry.merge reported.2), rest)
      | none =>
        if reported.1.onVolumes then pure (state.1, rest) else throw invalidOutcome
    else throw invalidOutcome

/-- The reported operations, each with what became of it. -/
def Deploy.DeployOutcome.reported : DeployOutcome → List (DeployOperation × Progress)
  | .success completed => completed.map (·, .completed)
  | .failed completed stopped unexecuted =>
    completed.map (·, .completed) ++ [(stopped.deployOperation, .failed)] ++
      unexecuted.map (·, .unattempted)

def Deploy.DeployOutcome.summary : DeployOutcome → RuntimeOutcomeSummary
  | .success completed => .success completed.length
  | .failed completed stopped unexecuted =>
    .failed completed.length unexecuted.length stopped.error.kind

/-- The Services that got as far as `wanted`, in order. -/
def named (services : TreeMap ServiceName Progress) (wanted : Progress) : List ServiceName :=
  (services.toList.filter (·.2 == wanted)).map (·.1)

/-- Match an outcome against its exact preview, then identify the Services whose every
planned operation completed. -/
def projectRuntimeOutcome (preview : DeployPreview) (outcome : DeployOutcome) :
    Except ConfigError RuntimeOutcomeProjection := do
  if outcome.reported.length != preview.operations.length then throw invalidOutcome
  let (services, _) ← outcome.reported.foldlM matchOperation (∅, preview.operations)
  return {
    summary := outcome.summary
    confirmedServices := named services .completed
    failedServices := named services .failed
    unattemptedServices := named services .unattempted }

/-! ## A Deploy that succeeded -/

theorem compare_serviceName (a b : ServiceName) : compare a b = compare a.value b.value := rfl

instance : Std.TransOrd ServiceName where
  eq_swap {a b} := by
    rw [compare_serviceName, compare_serviceName]
    exact Std.OrientedCmp.eq_swap
  isLE_trans {a b c} := by
    rw [compare_serviceName, compare_serviceName, compare_serviceName]
    exact Std.TransCmp.isLE_trans

instance : Std.LawfulEqOrd ServiceName where
  eq_of_compare {a b} h := by
    rw [compare_serviceName] at h
    have hvalue : a.value = b.value := Std.LawfulEqCmp.eq_of_compare h
    cases a
    cases b
    simp_all

/-- Every Service matched so far completed. -/
def AllCompleted (services : TreeMap ServiceName Progress) : Prop :=
  ∀ (service : ServiceName) (progress : Progress),
    services[service]? = some progress → progress = Progress.completed

theorem matchOperation_completed {state next : Matching} {operation : DeployOperation}
    (h : matchOperation state (operation, .completed) = .ok next)
    (hstate : AllCompleted state.1) : AllCompleted next.1 := by
  unfold matchOperation at h
  split at h
  · cases h
  split at h
  · split at h
    · next service _ =>
      have hentry : state.1[service]?.getD .completed = .completed := by
        cases hs : state.1[service]? with
        | none => rfl
        | some entry => exact hstate service entry hs
      simp only [hentry, pure_eq_ok] at h
      intro other progress hprogress
      rw [← h, TreeMap.getElem?_insert] at hprogress
      split_ifs at hprogress
      · simpa [Progress.merge] using hprogress.symm
      · exact hstate other progress hprogress
    · split at h
      · simp only [pure_eq_ok] at h
        exact h ▸ hstate
      · cases h
  · cases h

variable {services : TreeMap ServiceName Progress} {wanted : Progress}

theorem named_eq_nil (h : AllCompleted services) (hwanted : wanted ≠ .completed) :
    named services wanted = [] := by
  rw [named, List.map_eq_nil_iff, List.filter_eq_nil_iff]
  rintro ⟨service, progress⟩ hmem
  have hprogress : progress = .completed :=
    h service progress (TreeMap.mem_toList_iff_getElem?_eq_some.mp hmem)
  simpa [hprogress] using hwanted.symm

variable {projection : RuntimeOutcomeProjection}

theorem projectRuntimeOutcome_summary {preview : DeployPreview} {outcome : DeployOutcome}
    (h : projectRuntimeOutcome preview outcome = .ok projection) :
    projection.summary.isSuccess = outcome.isSuccess := by
  unfold projectRuntimeOutcome at h
  split_ifs at h
  · cases h
  obtain ⟨⟨services, rest⟩, -, h⟩ := bind_eq_ok.mp h
  obtain rfl := pure_eq_ok.mp h
  cases outcome <;> rfl

/-- A Deploy that succeeded leaves no Service failed or unattempted. -/
theorem projectRuntimeOutcome_success {preview : DeployPreview} {outcome : DeployOutcome}
    (h : projectRuntimeOutcome preview outcome = .ok projection)
    (hsuccess : projection.summary.isSuccess = true) :
    projection.failedServices = [] ∧ projection.unattemptedServices = [] := by
  unfold projectRuntimeOutcome at h
  split_ifs at h
  · cases h
  obtain ⟨⟨services, rest⟩, hfold, h⟩ := bind_eq_ok.mp h
  obtain rfl := pure_eq_ok.mp h
  cases outcome with
  | failed completed stopped unexecuted => cases hsuccess
  | success completed =>
    have hall : AllCompleted services := by
      refine foldlM_invariant (P := fun left state =>
        (∀ reported ∈ left, reported.2 = Progress.completed) ∧ AllCompleted state.1) ?_ ?_ hfold
        |>.2
      · rintro ⟨operation, progress⟩ left state next ⟨hleft, hstate⟩ hstep -
        obtain rfl : progress = .completed := hleft _ List.mem_cons_self
        exact ⟨fun r hr => hleft r (List.mem_cons_of_mem _ hr),
          matchOperation_completed hstep hstate⟩
      · constructor
        · intro reported hreported
          obtain ⟨operation, -, rfl⟩ := List.mem_map.mp hreported
          rfl
        · intro service progress hprogress
          simp at hprogress
    exact ⟨named_eq_nil hall (by simp), named_eq_nil hall (by simp)⟩

/-! ## A report in the order of its preview -/

/-- The progress of a Service after one more operation of a row. -/
def record (services : TreeMap ServiceName Progress) (service : Option ServiceName)
    (progress : Progress) : TreeMap ServiceName Progress :=
  match service with
  | some service => services.insert service ((services[service]?.getD progress).merge progress)
  | none => services

/-- Whether an operation that is reported for its own row is accepted: the two agree, and the row
has a Service unless it works on Volumes. -/
def Deploy.OperationRow.Accepts (row : OperationRow) : Prop :=
  row.agrees row.operation = true ∧ (row.service.isSome = true ∨ row.operation.onVolumes = true)

theorem onVolumes_redactOperation (operation : DeployOperation) :
    (redactOperation operation).onVolumes = operation.onVolumes := by
  cases operation <;> rfl

theorem matchOperation_head {row : OperationRow} {rest : List OperationRow}
    {operation : DeployOperation} {progress : Progress}
    (hsame : row.operation = redactOperation operation) (state : Matching) :
    matchOperation (services, row :: rest) (operation, progress) = .ok state ↔
      row.Accepts ∧ state = (record services row.service progress, rest) := by
  have hhead : takeFirst (·.operation == redactOperation operation) (row :: rest) =
      some (row, rest) := by
    rw [takeFirst, if_pos (by simpa using hsame)]
  unfold matchOperation Deploy.OperationRow.Accepts record
  simp only [hhead, hsame, onVolumes_redactOperation]
  by_cases hagrees : row.agrees (redactOperation operation) = true
  · simp only [hagrees, if_true, true_and]
    cases hservice : row.service with
    | some service =>
      simp only [Option.isSome_some, true_or, true_and, pure_eq_ok]
      exact eq_comm
    | none =>
      by_cases hvolumes : operation.onVolumes = true
      · simp only [hvolumes, if_true, or_true, true_and, pure_eq_ok]
        exact eq_comm
      · simp [hvolumes, throw_ne_ok]
  · simp [hagrees, throw_ne_ok]

/-- The rows of a preview, each with the operation reported for it. -/
abbrev Pairs := List (OperationRow × (DeployOperation × Progress))

theorem foldlM_matchOperation {pairs : Pairs}
    (hsame : ∀ pair ∈ pairs, pair.1.operation = redactOperation pair.2.1)
    (services : TreeMap ServiceName Progress) (state : Matching) :
    (pairs.map (·.2)).foldlM matchOperation (services, pairs.map (·.1)) = .ok state ↔
      (∀ pair ∈ pairs, pair.1.Accepts) ∧
        state = (pairs.foldl (fun services pair => record services pair.1.service pair.2.2)
          services, []) := by
  induction pairs generalizing services with
  | nil =>
    rw [List.map_nil, List.map_nil, List.foldlM_nil, pure_eq_ok, eq_comm]
    simp
  | cons pair pairs ih =>
    obtain ⟨hhead, htail⟩ := List.forall_mem_cons.mp hsame
    simp only [List.map_cons, List.foldlM_cons, bind_eq_ok, List.forall_mem_cons, List.foldl_cons]
    constructor
    · rintro ⟨between, hstep, hrest⟩
      obtain ⟨haccepts, rfl⟩ := (matchOperation_head hhead between).mp hstep
      obtain ⟨hall, rfl⟩ := (ih htail _).mp hrest
      exact ⟨⟨haccepts, hall⟩, rfl⟩
    · rintro ⟨⟨haccepts, hall⟩, rfl⟩
      exact ⟨_, (matchOperation_head hhead _).mpr ⟨haccepts, rfl⟩, (ih htail _).mpr ⟨hall, rfl⟩⟩

/-- A Service's progress with that of more of its operations. -/
def Progress.gather (progress : Option Progress) (others : List Progress) : Option Progress :=
  others.foldl (fun gathered other => some ((gathered.getD other).merge other)) progress

/-- What became of the operations of a Service. -/
def progressOf (pairs : Pairs) (service : ServiceName) : List Progress :=
  (pairs.filter fun pair => pair.1.service == some service).map (·.2.2)

theorem getElem?_record (services : TreeMap ServiceName Progress) (service : ServiceName)
    (pair : OperationRow × (DeployOperation × Progress)) :
    (record services pair.1.service pair.2.2)[service]? =
      Progress.gather services[service]? (progressOf [pair] service) := by
  unfold record progressOf
  cases hrow : pair.1.service with
  | none => simp [hrow, Progress.gather]
  | some other =>
    by_cases hsame : other = service
    · subst hsame
      simp [hrow, Progress.gather]
    · have hne : compare other service ≠ .eq := fun h => hsame (Std.LawfulEqOrd.eq_of_compare h)
      simp [hrow, hsame, hne, TreeMap.getElem?_insert, Progress.gather]

theorem getElem?_foldl_record (pairs : Pairs) (services : TreeMap ServiceName Progress)
    (service : ServiceName) :
    (pairs.foldl (fun services pair => record services pair.1.service pair.2.2)
        services)[service]? =
      Progress.gather services[service]? (progressOf pairs service) := by
  induction pairs generalizing services with
  | nil => rfl
  | cons pair pairs ih =>
    rw [List.foldl_cons, ih, getElem?_record]
    unfold Progress.gather progressOf
    rw [← List.foldl_append, ← List.map_append, ← List.filter_append, List.singleton_append]

/-- A Service got as far as one of its operations exactly when all of them did. -/
theorem Progress.gather_some_iff {progress wanted : Progress} (hwanted : wanted ≠ .failed)
    (others : List Progress) : Progress.gather (some progress) others = some wanted ↔
      progress = wanted ∧ ∀ other ∈ others, other = wanted := by
  induction others generalizing progress with
  | nil => simp [Progress.gather]
  | cons other others ih =>
    have hstep : Progress.gather (some progress) (other :: others) =
      Progress.gather (some (progress.merge other)) others := rfl
    have hmerge : progress.merge other = wanted ↔ progress = wanted ∧ other = wanted := by
      cases progress <;> cases other <;> cases wanted <;> simp_all [Progress.merge]
    rw [hstep, ih, hmerge, List.forall_mem_cons, and_assoc]

theorem Progress.gather_none_iff (hwanted : wanted ≠ .failed) (others : List Progress) :
    Progress.gather none others = some wanted ↔
      others ≠ [] ∧ ∀ other ∈ others, other = wanted := by
  cases others with
  | nil => simp [Progress.gather]
  | cons other others =>
    have hstep : Progress.gather none (other :: others) =
      Progress.gather (some (other.merge other)) others := rfl
    have hmerge : other.merge other = other := by cases other <;> rfl
    rw [hstep, hmerge, Progress.gather_some_iff hwanted, List.forall_mem_cons]
    simp

theorem Progress.isSome_gather {others : List Progress} (h : others ≠ []) :
    (Progress.gather none others).isSome = true := by
  induction others using List.reverseRecOn with
  | nil => exact absurd rfl h
  | append_singleton others other _ => simp [Progress.gather]

theorem mem_named {service : ServiceName} :
    service ∈ named services wanted ↔ services[service]? = some wanted := by
  simp only [named, List.mem_map, List.mem_filter, Prod.exists, beq_iff_eq,
    TreeMap.mem_toList_iff_getElem?_eq_some]
  constructor
  · rintro ⟨_, _, ⟨hfound, rfl⟩, rfl⟩
    exact hfound
  · intro hfound
    exact ⟨service, wanted, ⟨hfound, rfl⟩, rfl⟩

/-- An outcome that reports the operations of a preview in its order is accepted when each is for
its row, and then puts each Service where its operations got. -/
theorem projectRuntimeOutcome_in_order (pairs : Pairs) (preview : DeployPreview)
    (outcome : DeployOutcome) (hpreview : preview.operations = pairs.map (·.1))
    (hreported : outcome.reported = pairs.map (·.2))
    (hsame : ∀ pair ∈ pairs, pair.1.operation = redactOperation pair.2.1)
    (projection : RuntimeOutcomeProjection) :
    projectRuntimeOutcome preview outcome = .ok projection ↔
      (∀ pair ∈ pairs, pair.1.Accepts) ∧
        projection =
          let services := pairs.foldl
            (fun services pair => record services pair.1.service pair.2.2) ∅
          ⟨outcome.summary, named services .completed, named services .failed,
            named services .unattempted⟩ := by
  have hlength : outcome.reported.length = preview.operations.length := by
    rw [hreported, hpreview, List.length_map, List.length_map]
  unfold projectRuntimeOutcome
  simp only [hlength, bne_self_eq_false, Bool.false_eq_true, if_false, bind_eq_ok, pure_eq_ok]
  rw [hreported, hpreview]
  constructor
  · rintro ⟨⟨services, rest⟩, hfold, rfl⟩
    obtain ⟨hall, heq⟩ := (foldlM_matchOperation hsame ∅ _).mp hfold
    obtain ⟨rfl, rfl⟩ := Prod.mk.inj heq
    exact ⟨hall, rfl⟩
  · rintro ⟨hall, rfl⟩
    exact ⟨_, (foldlM_matchOperation hsame ∅ _).mpr ⟨hall, rfl⟩, rfl⟩

end Ployz
