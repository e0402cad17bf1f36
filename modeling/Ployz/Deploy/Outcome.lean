import Ployz.Config.RuntimeOutcome
import Ployz.Deploy.Execution
import Ployz.Deploy.Executed

/-!
# What an execution's outcome says

The preview of a plan has a row for each operation, with the Service it belongs to: the one its
container has in the snapshot, or the one its spec names. The outcome of an execution is projected
against the rows, which puts each Service among the confirmed, failed or unattempted ones.

`outcome_says_what_ran_iff` says what the projection tells. The Service of an operation that a
cancellation stopped before it began counts as failed, since the outcome reports that operation
failed, and an outcome is refused where the container a plan replaces shares its ID with one of
another Service.
-/

namespace Ployz.Deploy

open Run

/-! ## Rows -/

/-- The Service of the container a snapshot lists last under an ID. -/
def containerLabels (snapshot : DeploySnapshot) (containerId : ContainerId) : Option ServiceName :=
  (snapshot.containers.filter (·.containerId == containerId)).getLast?.map (·.resolvedSpec.name)

def pendingRow (snapshot : DeploySnapshot) (operation : DeployOperation) : OperationRow :=
  .pending operation (match operation.containerId with
    | none => operation.serviceName
    | some containerId => (containerLabels snapshot containerId).or operation.serviceName)

/-- Pending rows for a planned operation list, with names from this snapshot when known. -/
def pendingRows (operations : List DeployOperation) (snapshot : DeploySnapshot) :
    List OperationRow :=
  operations.map (pendingRow snapshot)

/-! ## The claim of an outcome -/

/-- How many operations an outcome names completed or failed. -/
def DeployOutcome.attempted : DeployOutcome → Nat
  | success completed => completed.length
  | failed completed _ _ => completed.length + 1

/-- An outcome reports the operations of its plan in order, and its projection puts each Service
with planned operations in one list: it is confirmed when all its operations completed, and
unattempted when none of them is among the first `begun`. -/
def SaysWhatRan (owner : Namespace) (operations : List DeployOperation) (snapshot : DeploySnapshot)
    (outcome : DeployOutcome) (begun : Nat) : Prop :=
  outcome.operations = operations ∧
  ∃ projection, projectRuntimeOutcome
      (parseRuntimePreview ⟨owner, pendingRows operations snapshot⟩) outcome = .ok projection ∧
    ∀ service, (∃ row ∈ pendingRows operations snapshot, row.service = some service) →
      ([projection.confirmedServices, projection.failedServices,
        projection.unattemptedServices].filter (service ∈ ·)).length = 1 ∧
      (service ∈ projection.confirmedServices ↔
        ∀ row ∈ (pendingRows operations snapshot).drop outcome.completed.length,
          row.service ≠ some service) ∧
      (service ∈ projection.unattemptedServices ↔
        ∀ row ∈ (pendingRows operations snapshot).take begun, row.service ≠ some service)

/-- The container a replacement takes has, in the snapshot's labels, the Service it is for. -/
def LabelsReplaced (snapshot : DeploySnapshot) (operations : List DeployOperation) : Prop :=
  ∀ operation ∈ operations, ∀ containerId ∈ operation.containerId,
    ∀ name ∈ operation.serviceName, ∀ label ∈ containerLabels snapshot containerId, label = name

/-- No cancellation is seen right before the first operation of a Service. -/
def NotCancelledBeforeFirst {σ : Type} (machines : Machines σ) (owner : Namespace)
    (operations : List DeployOperation) (snapshot : DeploySnapshot) (state : σ) : Prop :=
  ∀ before operation after later, operations = before ++ operation :: after →
    completing machines owner before state = some later → machines.isCancelled later = true →
    ∀ service, (pendingRow snapshot operation).service = some service →
      ∃ earlier ∈ before, (pendingRow snapshot earlier).service = some service

/-! ## Projecting an outcome -/

/-- What an outcome says became of the operations of a Service. -/
def DeployOutcome.progressOf (outcome : DeployOutcome) (snapshot : DeploySnapshot)
    (service : ServiceName) : List Progress :=
  (outcome.reported.filter fun reported =>
    (pendingRow snapshot reported.1).service == some service).map (·.2)

variable {operation : DeployOperation} {service : ServiceName}

section

variable {snapshot : DeploySnapshot} {owner : Namespace} {operations : List DeployOperation}
  {outcome : DeployOutcome}

theorem map_fst_reported (outcome : DeployOutcome) :
    outcome.reported.map (·.1) = outcome.operations := by
  cases outcome <;> simp [DeployOutcome.reported, DeployOutcome.operations, Function.comp_def]

/-- The row of an operation as the Store keeps it. -/
def keptRow (snapshot : DeploySnapshot) (operation : DeployOperation) : OperationRow :=
  { pendingRow snapshot operation with operation := redactOperation operation }

theorem operations_parseRuntimePreview :
    (parseRuntimePreview ⟨owner, pendingRows operations snapshot⟩).operations =
      operations.map (keptRow snapshot) := by
  simp [parseRuntimePreview, pendingRows, keptRow, pendingRow, OperationRow.pending]

theorem serviceName_redactOperation (operation : DeployOperation) :
    (redactOperation operation).serviceName = operation.serviceName := by
  cases operation <;> rfl

theorem machineId_redactOperation (operation : DeployOperation) :
    (redactOperation operation).machineId = operation.machineId := by
  cases operation <;> rfl

theorem service_keptRow (operation : DeployOperation) :
    (keptRow snapshot operation).service = (pendingRow snapshot operation).service := by
  rw [OperationRow.service, keptRow, serviceName_redactOperation]
  rfl

/-- An operation whose row has a Service, unless it works on Volumes. -/
def Placed (snapshot : DeploySnapshot) (operation : DeployOperation) : Prop :=
  (pendingRow snapshot operation).service = none →
    (∃ machineId specs, operation = .prepareVolumes machineId specs) ∨
      ∃ id, operation = .removeVolume id

theorem service_pendingRow (operation : DeployOperation) :
    (pendingRow snapshot operation).service =
      (operation.containerId.bind (containerLabels snapshot)).or operation.serviceName := by
  unfold pendingRow OperationRow.pending OperationRow.service
  cases operation.containerId <;> cases operation.serviceName <;> simp

theorem serviceName_pendingRow (operation : DeployOperation) :
    (pendingRow snapshot operation).serviceName = (pendingRow snapshot operation).service := by
  unfold pendingRow OperationRow.pending OperationRow.service
  cases operation.containerId <;> cases operation.serviceName <;> simp

theorem accepts_keptRow (hplaced : Placed snapshot operation) :
    (keptRow snapshot operation).Accepts ↔ LabelsReplaced snapshot [operation] := by
  have hservice : (keptRow snapshot operation).service.isSome = true ∨
      (keptRow snapshot operation).operation.onVolumes = true := by
    rw [service_keptRow]
    cases hrow : (pendingRow snapshot operation).service with
    | some => exact .inl rfl
    | none => rcases hplaced hrow with ⟨_, _, rfl⟩ | ⟨_, rfl⟩ <;> exact .inr rfl
  rw [OperationRow.Accepts, and_iff_left hservice]
  unfold OperationRow.agrees LabelsReplaced
  have hmachine : (pendingRow snapshot operation).machineId = operation.machineId := rfl
  simp only [keptRow, hmachine, machineId_redactOperation, serviceName_redactOperation,
    List.forall_mem_singleton, serviceName_pendingRow, service_pendingRow, beq_self_eq_true,
    Bool.true_and]
  cases operation.serviceName with
  | none => simp
  | some name =>
    cases operation.containerId with
    | none => simp
    | some containerId => cases hlabel : containerLabels snapshot containerId <;> simp [hlabel]

/-- The rows of a preview with the operations an outcome reports for them. -/
def pairs (snapshot : DeploySnapshot) (outcome : DeployOutcome) : Pairs :=
  outcome.reported.map fun reported => (keptRow snapshot reported.1, reported)

theorem progressOf_pairs (service : ServiceName) :
    progressOf (pairs snapshot outcome) service =
      outcome.progressOf snapshot service := by
  unfold progressOf pairs DeployOutcome.progressOf
  rw [List.filter_map, List.map_map]
  simp only [Function.comp_def, service_keptRow]

structure Projects (snapshot : DeploySnapshot) (outcome : DeployOutcome)
    (projection : RuntimeOutcomeProjection) : Prop where
  confirmed : ∀ service, service ∈ projection.confirmedServices ↔
    outcome.progressOf snapshot service ≠ [] ∧
      ∀ progress ∈ outcome.progressOf snapshot service, progress = .completed
  unattempted : ∀ service, service ∈ projection.unattemptedServices ↔
    outcome.progressOf snapshot service ≠ [] ∧
      ∀ progress ∈ outcome.progressOf snapshot service, progress = .unattempted
  one : ∀ service, outcome.progressOf snapshot service ≠ [] →
    ([projection.confirmedServices, projection.failedServices,
      projection.unattemptedServices].filter (service ∈ ·)).length = 1

theorem projectRuntimeOutcome_iff (owner : Namespace)
    (hoperations : outcome.operations = operations)
    (hplaced : ∀ operation ∈ operations, Placed snapshot operation) :
    ((∃ projection, projectRuntimeOutcome
        (parseRuntimePreview ⟨owner, pendingRows operations snapshot⟩) outcome = .ok projection) ↔
          LabelsReplaced snapshot operations) ∧
      ∀ projection, projectRuntimeOutcome
        (parseRuntimePreview ⟨owner, pendingRows operations snapshot⟩) outcome = .ok projection →
          Projects snapshot outcome projection := by
  have horder := projectRuntimeOutcome_in_order (pairs snapshot outcome)
    (parseRuntimePreview ⟨owner, pendingRows operations snapshot⟩) outcome (by
      rw [operations_parseRuntimePreview, ← hoperations, ← map_fst_reported, pairs, List.map_map,
        List.map_map]
      rfl) (by simp [pairs, Function.comp_def]) (by
      rintro _ hpair
      obtain ⟨reported, -, rfl⟩ := List.mem_map.mp hpair
      rfl)
  constructor
  · have hlabels : (∀ pair ∈ pairs snapshot outcome, pair.1.Accepts) ↔
        LabelsReplaced snapshot operations := by
      rw [pairs, List.forall_mem_map]
      unfold LabelsReplaced
      rw [← hoperations, ← map_fst_reported, List.forall_mem_map]
      refine forall₂_congr fun reported hreported => ?_
      have hmem : reported.1 ∈ operations := by
        rw [← hoperations, ← map_fst_reported]
        exact List.mem_map.mpr ⟨reported, hreported, rfl⟩
      rw [accepts_keptRow (hplaced _ hmem), LabelsReplaced, List.forall_mem_singleton]
    rw [← hlabels]
    constructor
    · rintro ⟨projection, hprojection⟩
      exact ((horder projection).mp hprojection).1
    · intro hall
      exact ⟨_, (horder _).mpr ⟨hall, rfl⟩⟩
  · intro projection hprojection
    obtain ⟨-, rfl⟩ := (horder projection).mp hprojection
    have hfound : ∀ service, ((pairs snapshot outcome).foldl
        (fun services pair => record services pair.1.service pair.2.2) ∅)[service]? =
          Progress.gather none (outcome.progressOf snapshot service) := by
      intro service
      rw [getElem?_foldl_record, progressOf_pairs]
      rfl
    refine ⟨fun service => ?_, fun service => ?_, fun service hsome => ?_⟩
    · rw [mem_named, hfound, Progress.gather_none_iff (by simp)]
    · rw [mem_named, hfound, Progress.gather_none_iff (by simp)]
    · simp only [List.filter_cons, List.filter_nil, decide_eq_true_eq, mem_named, hfound]
      obtain ⟨progress, hprogress⟩ := Option.isSome_iff_exists.mp (Progress.isSome_gather hsome)
      rw [hprogress]
      cases progress <;> simp

theorem forall_progressOf {wanted : Progress} :
    (∀ progress ∈ outcome.progressOf snapshot service, progress = wanted) ↔
      ∀ reported ∈ outcome.reported,
        (pendingRow snapshot reported.1).service = some service → reported.2 = wanted := by
  simp only [DeployOutcome.progressOf, List.forall_mem_map, List.mem_filter, beq_iff_eq, and_imp]

theorem progressOf_ne_nil (hoperations : outcome.operations = operations) :
    outcome.progressOf snapshot service ≠ [] ↔
      ∃ row ∈ pendingRows operations snapshot, row.service = some service := by
  rw [← hoperations, ← map_fst_reported, DeployOutcome.progressOf, pendingRows]
  simp [List.filter_eq_nil_iff]

theorem completed_iff (hoperations : outcome.operations = operations) :
    (∀ progress ∈ outcome.progressOf snapshot service, progress = .completed) ↔
      ∀ row ∈ (pendingRows operations snapshot).drop outcome.completed.length,
        row.service ≠ some service := by
  subst hoperations
  rw [forall_progressOf, pendingRows, ← List.map_drop, List.forall_mem_map]
  cases outcome with
  | success completed =>
    simp [DeployOutcome.reported, DeployOutcome.operations, DeployOutcome.completed]
  | failed completed stopped unexecuted =>
    rw [DeployOutcome.reported, List.append_assoc, List.singleton_append, List.forall_mem_append,
      List.forall_mem_cons, List.forall_mem_map, List.forall_mem_map]
    simp [DeployOutcome.operations, DeployOutcome.completed]

theorem unattempted_iff (hoperations : outcome.operations = operations) :
    (∀ progress ∈ outcome.progressOf snapshot service, progress = .unattempted) ↔
      ∀ row ∈ (pendingRows operations snapshot).take outcome.attempted,
        row.service ≠ some service := by
  subst hoperations
  rw [forall_progressOf, pendingRows, ← List.map_take, List.forall_mem_map]
  cases outcome with
  | success completed =>
    simp [DeployOutcome.reported, DeployOutcome.operations, DeployOutcome.attempted]
  | failed completed stopped unexecuted =>
    rw [DeployOutcome.reported, List.append_assoc, List.singleton_append, List.forall_mem_append,
      List.forall_mem_cons, List.forall_mem_map, List.forall_mem_map,
      DeployOutcome.operations, DeployOutcome.attempted,
      List.take_length_add_append, List.forall_mem_append]
    simp

end

/-! ## Planned operations -/

section

variable {given : Given} {intent : DeployIntent} {snapshot : DeploySnapshot} {planned : Planned}

theorem SpecOf.name {requested : RequestedServiceSpec} {spec : ResolvedServiceSpec}
    (h : SpecOf requested spec) : spec.name = requested.name := by
  obtain ⟨_, _, rfl⟩ := h
  rfl

/-- A container a plan touches is in the snapshot, and has the name of the spec that takes its
place. -/
theorem touched_of_operation (stages : Stages given intent snapshot planned)
    (h : operation ∈ planned.operations) {touched : MachineId × ContainerId}
    (htouched : touched ∈ operation.touches) :
    ∃ container ∈ snapshot.containers, (container.machineId, container.containerId) = touched ∧
      ∀ spec, operation.spec = some spec → container.resolvedSpec.name = spec.name := by
  rw [stages.hoperations] at h
  rcases List.mem_append.mp h with hprepared | hremoval
  · rcases mem_finish stages.hprepared hprepared with hdesired | ⟨_, _, rfl⟩
    · rcases stages.hservices.stage_of_operation (ReservedFor.step stages.requestedNodup)
        stages.reservedFor hdesired with ⟨_, _, _, rfl⟩ | ⟨requested, hrequested, stage, hmem⟩
      · cases htouched
      · have hacts := stages.actsWithin hrequested stage
        have hname : ∀ spec, operation.spec = some spec → spec.name = requested.name :=
          fun spec hspec => (stage.started hacts hmem hspec).1.name
        have hfound : ∃ container ∈ snapshot.containers,
            container.identity = ⟨intent.owner, requested.name⟩ ∧
              (container.machineId, container.containerId) = touched := by
          obtain ⟨acts, hlaid, howned, -⟩ := hacts
          rcases hmem with hhook | hplaced
          · obtain ⟨container, hcontainer, hsame⟩ := (touches_of_preDeploy hhook).1 touched htouched
            obtain ⟨hcontainer, hidentity, -⟩ := mem_hooksOf.mp hcontainer
            exact ⟨container, hcontainer, hidentity, hsame⟩
          · obtain ⟨container, hcontainer, hsame⟩ :=
              (touches_of_laid hlaid howned hplaced).1 touched htouched
            obtain ⟨hcontainer, hidentity, -⟩ := mem_containersOf.mp hcontainer
            exact ⟨container, hcontainer, hidentity, hsame⟩
        obtain ⟨container, hcontainer, hidentity, hsame⟩ := hfound
        refine ⟨container, hcontainer, hsame, fun spec hspec => ?_⟩
        exact (congrArg QualifiedService.name hidentity).trans (hname spec hspec).symm
    · cases htouched
  · obtain ⟨container, hcontainer, -, rfl⟩ := mem_removalOperations.mp hremoval
    refine ⟨container, hcontainer, (List.mem_singleton.mp htouched).symm, fun _ hspec => ?_⟩
    cases hspec

theorem touches_of_containerId {containerId : ContainerId}
    (h : operation.containerId = some containerId) :
    (operation.machineId, containerId) ∈ operation.touches := by
  cases operation <;> cases h <;> exact List.mem_singleton.mpr rfl

theorem containerLabels_isSome {container : ContainerObservation}
    (h : container ∈ snapshot.containers) :
    (containerLabels snapshot container.containerId).isSome = true := by
  have hmem : container ∈ snapshot.containers.filter (·.containerId == container.containerId) :=
    List.mem_filter.mpr ⟨h, beq_self_eq_true _⟩
  rw [containerLabels, Option.isSome_map, List.getLast?_isSome]
  exact List.ne_nil_of_mem hmem

theorem placed_of_operation (stages : Stages given intent snapshot planned)
    (h : operation ∈ planned.operations) :
    Placed snapshot operation := by
  intro hnone
  rw [service_pendingRow, Option.or_eq_none_iff] at hnone
  cases hid : operation.containerId with
  | some containerId =>
    obtain ⟨container, hcontainer, hsame, -⟩ :=
      touched_of_operation stages h (touches_of_containerId hid)
    obtain ⟨-, rfl⟩ := Prod.mk.inj hsame
    have hlabel := containerLabels_isSome hcontainer
    rw [hid, Option.bind_some] at hnone
    rw [hnone.1] at hlabel
    cases hlabel
  | none =>
    cases operation with
    | prepareVolumes => exact .inl ⟨_, _, rfl⟩
    | removeVolume => exact .inr ⟨_, rfl⟩
    | waitHealthy | runContainer | runHook => cases hnone.2
    | _ => cases hid

/-- Where no two containers share an ID, the containers a plan replaces have the right labels. -/
theorem labelsReplaced_of_nodup (stages : Stages given intent snapshot planned)
    (hids : (snapshot.containers.map (·.containerId)).Nodup) :
    LabelsReplaced snapshot planned.operations := by
  intro operation hoperation containerId hid name hname label hlabel
  obtain ⟨container, hcontainer, hsame, hspec⟩ :=
    touched_of_operation stages hoperation (touches_of_containerId hid)
  obtain ⟨-, rfl⟩ := Prod.mk.inj hsame
  obtain ⟨found, hfound, rfl⟩ := Option.map_eq_some_iff.mp hlabel
  obtain ⟨hmem, hsameId⟩ := List.mem_filter.mp (List.mem_of_getLast? hfound)
  obtain rfl := List.inj_on_of_nodup_map hids hmem hcontainer (by simpa using hsameId)
  cases operation with
  | replaceContainer _ _ spec _ =>
    obtain rfl := Option.some.inj hname
    exact hspec spec rfl
  | waitHealthy | runContainer | runHook => cases hid
  | _ => cases hname

end

/-! ## The main result -/

section

variable {σ : Type} {given : Given} {intent : DeployIntent} {snapshot : DeploySnapshot}
  {planned : Planned}

/-- What an outcome says is right where its rows have the right labels, and the operations it names
completed or failed tell the same Services apart as those counted as begun. -/
theorem saysWhatRan_iff {owner : Namespace} {operations : List DeployOperation}
    {outcome : DeployOutcome} {begun : Nat} (hoperations : outcome.operations = operations)
    (hplaced : ∀ operation ∈ operations, Placed snapshot operation) :
    SaysWhatRan owner operations snapshot outcome begun ↔ LabelsReplaced snapshot operations ∧
      ∀ service, (∃ row ∈ pendingRows operations snapshot, row.service = some service) →
        ((∀ row ∈ (pendingRows operations snapshot).take outcome.attempted,
          row.service ≠ some service) ↔
        ∀ row ∈ (pendingRows operations snapshot).take begun, row.service ≠ some service) := by
  obtain ⟨hiff, hprojects⟩ := projectRuntimeOutcome_iff owner hoperations hplaced
  rw [← hiff]
  constructor
  · rintro ⟨-, projection, hprojection, hall⟩
    refine ⟨⟨projection, hprojection⟩, fun service hservice => ?_⟩
    have hunattempted := (hprojects projection hprojection).unattempted service
    rw [unattempted_iff hoperations, and_iff_right ((progressOf_ne_nil hoperations).mpr hservice)]
      at hunattempted
    exact hunattempted.symm.trans (hall service hservice).2.2
  · rintro ⟨⟨projection, hprojection⟩, hall⟩
    refine ⟨hoperations, projection, hprojection, fun service hservice => ?_⟩
    have hsome := (progressOf_ne_nil hoperations).mpr hservice
    have hprojected := hprojects projection hprojection
    refine ⟨hprojected.one service hsome, ?_, ?_⟩
    · rw [hprojected.confirmed, and_iff_right hsome, completed_iff hoperations]
    · rw [hprojected.unattempted, and_iff_right hsome, unattempted_iff hoperations]
      exact hall service hservice

/-- Counting an operation among those begun makes no difference to a Service that it is not of, or
that an earlier operation is of. -/
theorem begun_iff {operations before after : List DeployOperation}
    (hsplit : operations = before ++ operation :: after) :
    ((∀ row ∈ (pendingRows operations snapshot).take (before.length + 1),
        row.service ≠ some service) ↔
      ∀ row ∈ (pendingRows operations snapshot).take before.length, row.service ≠ some service) ↔
    ((pendingRow snapshot operation).service = some service →
      ∃ earlier ∈ before, (pendingRow snapshot earlier).service = some service) := by
  subst hsplit
  unfold pendingRows
  rw [← List.map_take, ← List.map_take, List.forall_mem_map, List.forall_mem_map,
    List.take_length_add_append, List.take_left, List.forall_mem_append]
  simp only [List.take_succ_cons, List.take_zero, List.forall_mem_singleton, and_iff_left_iff_imp]
  constructor
  · intro h hservice
    by_contra hnone
    exact h (fun earlier hearlier hsame => hnone ⟨earlier, hearlier, hsame⟩) hservice
  · rintro h hall hservice
    obtain ⟨earlier, hearlier, hsame⟩ := h hservice
    exact hall earlier hearlier hsame

/-- Every execution of a planned Deploy ends with an outcome that reports the plan's operations in
order. Where the containers the plan replaces have the labels of their Services, as they do if no
two containers share an ID, its projection puts each Service among the confirmed ones if all its
operations completed, and among the unattempted ones if none completed and none is named failed.
That none was begun it says only if no cancellation is seen right before the first operation of a
Service. -/
theorem outcome_says_what_ran_iff (machines : Machines σ) (state : σ)
    (hplan : planOperations given intent snapshot = .ok planned) :
    ∃ ran, executeOperationSequence machines intent.owner planned.operations state = some ran ∧
      ran.outcome.operations = planned.operations ∧
      ((snapshot.containers.map (·.containerId)).Nodup →
        LabelsReplaced snapshot planned.operations) ∧
      (SaysWhatRan intent.owner planned.operations snapshot ran.outcome ran.outcome.attempted ↔
        LabelsReplaced snapshot planned.operations) ∧
      (SaysWhatRan intent.owner planned.operations snapshot ran.outcome ran.started ↔
        LabelsReplaced snapshot planned.operations ∧
        NotCancelledBeforeFirst machines intent.owner planned.operations snapshot state) := by
  obtain ⟨stages⟩ := stages_of_plan hplan
  obtain ⟨ran, hran, hends⟩ :=
    executeOperationSequence_ends machines intent.owner planned.operations state
  have hprojects := fun begun =>
    @saysWhatRan_iff snapshot intent.owner planned.operations ran.outcome
    begun hends.operations fun _ hmem => placed_of_operation stages hmem
  refine ⟨ran, hran, hends.operations, labelsReplaced_of_nodup stages, ?_, ?_⟩
  · rw [hprojects]
    exact and_iff_left fun _ _ => Iff.rfl
  rw [hprojects]
  refine and_congr_right fun _ => ⟨fun hall => ?_, fun hnot => ?_⟩
  · intro before operation after later hsplit hbefore hcancelled service hservice
    have hexecuted := executeOperationSequence_of_cancelled operation after hbefore hcancelled
    rw [← hsplit, hran] at hexecuted
    obtain rfl := Option.some.inj hexecuted
    have hrow : pendingRow snapshot operation ∈ pendingRows planned.operations snapshot :=
      List.mem_map.mpr ⟨operation, by simp [hsplit], rfl⟩
    exact (begun_iff hsplit).mp (hall service ⟨_, hrow, hservice⟩) hservice
  · intro service hservice
    cases hends with
    | success => exact Iff.rfl
    | failed => exact Iff.rfl
    | cancelled hsplit hbefore hcancelled =>
      exact (begun_iff hsplit).mpr fun hfirst =>
        hnot _ _ _ _ hsplit hbefore hcancelled service hfirst

end

namespace Sample

/-- Machines that create every container but those of one Service, for a Deploy that is cancelled
from the start or never. -/
def answering (fails : ServiceName) (cancelled : Bool) : Machines Unit where
  isCancelled _ := cancelled
  prepareVolumes _ _ := pure ()
  waitForContainerObservations _ _ := pure ()
  createContainer _ _ _ spec _ := if spec.name = fails then throw ⟨.unavailable, "no route"⟩
    else return "new"
  startContainer _ _ := pure ()
  inspectContainer _ _ := throw ⟨.notFound, "no such container"⟩
  stopContainer _ _ _ := pure ()
  removeContainer _ _ := pure ()
  removeVolume _ := pure ()
  waitHealthy _ := pure ()
  monitorContainer _ _ _ := pure ()
  waitForHook _ _ _ := pure ()

def opening : DeployIntent :=
  deploy [spec api single "api:1" [], spec web single "web:1" []]

def vacant : DeploySnapshot := cluster [machine "m1"] []

/-- The web Service does not start, and the outcome says what ran. -/
theorem opening_stops_at_web : ∃ planned, planOperations given opening vacant = .ok planned ∧
    ∃ ran, executeOperationSequence (answering web false) shop planned.operations () = some ran ∧
      ran.started = 2 ∧
      SaysWhatRan shop planned.operations vacant ran.outcome ran.outcome.attempted ∧
      SaysWhatRan shop planned.operations vacant ran.outcome ran.started := by
  obtain ⟨planned, hplanned, hstarted⟩ := exists_ok (fun planned : Planned =>
      (executeOperationSequence (answering web false) shop planned.operations ()).map (·.started) =
        some 2)
    (by decide +kernel : succeeds (planOperations given opening vacant) _ = true)
  obtain ⟨ran, hran, -, hlabels, hreports, hprojects⟩ :=
    outcome_says_what_ran_iff (answering web false) () hplanned
  have hreplaced := hlabels List.nodup_nil
  refine ⟨planned, hplanned, ran, hran, ?_, hreports.mpr hreplaced, hprojects.mpr ⟨hreplaced, ?_⟩⟩
  · rw [show executeOperationSequence (answering web false) shop planned.operations () = some ran
      from hran] at hstarted
    exact Option.some.inj hstarted
  · intro before operation after later _ _ hcancelled
    cases hcancelled

/-- A Deploy cancelled before its first operation began none, and its outcome says that the Service
of that operation failed. -/
theorem cancelled_opening_fails_api : ∃ planned,
    planOperations given opening vacant = .ok planned ∧
    ∃ ran, executeOperationSequence (answering web true) shop planned.operations () = some ran ∧
      ran.started = 0 ∧
      ¬ SaysWhatRan shop planned.operations vacant ran.outcome ran.started ∧
      ∃ projection, projectRuntimeOutcome
          (parseRuntimePreview ⟨shop, pendingRows planned.operations vacant⟩) ran.outcome =
            .ok projection ∧
        projection.failedServices = [api] ∧ projection.unattemptedServices = [web] := by
  obtain ⟨planned, hplanned, hran⟩ := exists_ok (fun planned : Planned =>
      ∃ ran ∈ executeOperationSequence (answering web true) shop planned.operations (),
        ran.started = 0 ∧ api ∈ (pendingRows planned.operations vacant).filterMap (·.service) ∧
        succeeds (projectRuntimeOutcome
          (parseRuntimePreview ⟨shop, pendingRows planned.operations vacant⟩) ran.outcome)
            fun projection =>
            projection.failedServices = [api] ∧ projection.unattemptedServices = [web])
    (by decide +kernel : succeeds (planOperations given opening vacant) _ = true)
  obtain ⟨ran, hran, hstarted, hplannedFor, hprojects⟩ := hran
  obtain ⟨projection, hprojection, hfailed, hunattempted⟩ := exists_ok _ hprojects
  refine ⟨planned, hplanned, ran, hran, hstarted, ?_, projection, hprojection, hfailed,
    hunattempted⟩
  rintro ⟨-, other, hother, hall⟩
  obtain rfl := Except.ok.inj (hprojection.symm.trans hother)
  obtain ⟨row, hrow, hservice⟩ := List.mem_filterMap.mp hplannedFor
  have hmem := (hall api ⟨row, hrow, hservice⟩).2.2.mpr (by simp [hstarted])
  rw [hunattempted] at hmem
  revert hmem
  decide

end Sample

end Ployz.Deploy
