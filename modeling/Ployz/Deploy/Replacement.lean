import Ployz.Deploy.Execution
import Ployz.Deploy.Replay
import Ployz.Lib.Logged

/-!
# Replacing a container

What a replacement asks of the Machines, whatever they answer and whenever the Deploy is cancelled.
`recorded` keeps every request with its answer, and a relation for each part of the replacement says
which requests it makes (`StopsOld`, `CreateStarts`, `Serves`, `Restores`).

Main theorem: `replacement_keeps_one_working`. It supposes that the Machine does not answer a create
with the old container: `create_answers_old` shows that one removed when it does.
-/

namespace Ployz.Deploy.Replacement

open Logged

/-! ## Requests -/

/-- A request, with its answer where it matters. -/
inductive Event
  | inspected (machineId : MachineId) (containerId : ContainerId)
  | created (machineId : MachineId) (answer : Except RpcError ContainerId)
  | started (machineId : MachineId) (containerId : ContainerId) (answer : Except RpcError Unit)
  | stopped (machineId : MachineId) (containerId : ContainerId) (answer : Except RpcError Unit)
  | removed (machineId : MachineId) (containerId : ContainerId)
  | waited (containerIds : List ContainerId) (condition : ContainerObservationCondition)
      (answer : Except RpcError Unit)
  | other
deriving DecidableEq

/-- Machines that keep what they are asked. -/
@[simps]
def recorded {σ : Type} (machines : Machines σ) : Machines (σ × List Event) where
  isCancelled state := machines.isCancelled state.1
  prepareVolumes machineId specs :=
    logged (fun _ => .other) (machines.prepareVolumes machineId specs)
  waitForContainerObservations containerIds condition := logged (.waited containerIds condition)
    (machines.waitForContainerObservations containerIds condition)
  createContainer machineId kind owner spec replacing := logged (.created machineId)
    (machines.createContainer machineId kind owner spec replacing)
  startContainer machineId containerId := logged (.started machineId containerId)
    (machines.startContainer machineId containerId)
  inspectContainer machineId containerId := logged (fun _ => .inspected machineId containerId)
    (machines.inspectContainer machineId containerId)
  stopContainer machineId containerId grace := logged (.stopped machineId containerId)
    (machines.stopContainer machineId containerId grace)
  removeContainer machineId containerId := logged (fun _ => .removed machineId containerId)
    (machines.removeContainer machineId containerId)
  removeVolume id := logged (fun _ => .other) (machines.removeVolume id)
  waitHealthy service := logged (fun _ => .other) (machines.waitHealthy service)
  monitorContainer machineId containerId spec := logged (fun _ => .other)
    (machines.monitorContainer machineId containerId spec)
  waitForHook machineId containerId spec := logged (fun _ => .other)
    (machines.waitForHook machineId containerId spec)

variable {σ : Type} (machines : Machines σ) (machineId : MachineId) (old : ContainerId)

/-! ## The parts of a replacement -/

/-- How a stop-first replacement may stop the old container. -/
inductive StopsOld : Except ExecutionError Bool → List Event → Prop
  | unanswered (error : ExecutionError) : StopsOld (.error error) [.inspected machineId old]
  | inactive : StopsOld (.ok false) [.inspected machineId old]
  | acknowledged : StopsOld (.ok true) [.inspected machineId old, .stopped machineId old (.ok ())]
  | gone (error : RpcError) :
      StopsOld (.ok false) [.inspected machineId old, .stopped machineId old (.error error)]
  | refused (answer : RpcError) (error : ExecutionError) :
      StopsOld (.error error) [.inspected machineId old, .stopped machineId old (.error answer)]

theorem emits_stopOld :
    Emits (stopOld (recorded machines) machineId old) (StopsOld machineId old) := by
  intro state log
  simp only [stopOld, asked, recorded_inspectContainer, recorded_stopContainer, run_bind, run_adapt,
    run_tryCatch, run_map, run_logged]
  rcases (machines.inspectContainer machineId old).run state with ⟨error | observed, state⟩
  · by_cases hgone : error.code = .notFound
    · simp only [Except.map, hgone, if_true, run_pure, Except.mapError]
      exact ⟨_, _, _, rfl, .inactive⟩
    · simp only [Except.map, hgone, if_false, run_throw, Except.mapError]
      exact ⟨_, _, _, rfl, .unanswered _⟩
  · simp only [Except.map, Except.mapError, Option.any_some]
    by_cases hactive : observed.isActive = true
    · simp only [if_pos hactive, run_adapt, run_tryCatch, run_map, run_logged, List.append_assoc]
      rcases (machines.stopContainer machineId old none).run state with ⟨error | done, state⟩
      · by_cases hgone : error.code = .notFound
        · simp only [Except.map, hgone, if_true, run_pure, Except.mapError]
          exact ⟨_, _, _, rfl, .gone error⟩
        · simp only [Except.map, hgone, if_false, run_throw, Except.mapError]
          exact ⟨_, _, _, rfl, .refused error _⟩
      · exact ⟨_, _, _, rfl, .acknowledged⟩
    · simp only [if_neg hactive, run_pure]
      exact ⟨_, _, _, rfl, .inactive⟩

/-- How a new container may come to start. A failed start may remove what was created. -/
inductive CreateStarts : Except ExecutionError ContainerId → List Event → Prop
  | refused (answer : RpcError) (error : ExecutionError) :
      CreateStarts (.error error) [.created machineId (.error answer)]
  | cancelled (new : ContainerId) {discarded : List Event}
      (hdiscarded : discarded ⊆ [.removed machineId new]) :
      CreateStarts (.error cancelledError) ([.created machineId (.ok new)] ++ discarded)
  | unstarted (new : ContainerId) (answer : RpcError) {discarded : List Event}
      (hdiscarded : discarded ⊆ [.removed machineId new]) :
      CreateStarts (.error (machineError .startContainer answer))
        ([.created machineId (.ok new), .started machineId new (.error answer)] ++ discarded)
  | started (new : ContainerId) : CreateStarts (.ok new)
      [.created machineId (.ok new), .started machineId new (.ok ())]

theorem emits_discard (kind : ContainerKind) (spec : ResolvedServiceSpec) (new : ContainerId) :
    Emits (discard (recorded machines) machineId kind spec new) fun result events =>
      result = .ok () ∧ events ⊆ [.removed machineId new] := by
  intro state log
  unfold discard
  split_ifs
  · simp only [asked, recorded_removeContainer, run_tryCatch, run_adapt, run_logged]
    rcases (machines.removeContainer machineId new).run state with ⟨error | done, state⟩ <;>
      exact ⟨_, _, _, rfl, rfl, List.Subset.refl _⟩
  · exact ⟨_, _, [], by rw [run_pure, List.append_nil], rfl, List.nil_subset _⟩

theorem emits_createAndStart (kind : ContainerKind) (owner : Namespace)
    (spec : ResolvedServiceSpec) (replacing : Option ContainerId) :
    Emits (createAndStart (recorded machines) machineId kind owner spec replacing)
      (CreateStarts machineId) := by
  intro state log
  have hdiscard := emits_discard machines machineId kind spec
  simp only [createAndStart, asked, recorded_createContainer, recorded_startContainer, run_bind,
    run_tryCatch, run_adapt, run_logged, run_get]
  rcases (machines.createContainer machineId kind owner spec replacing).run state with
    ⟨error | new, state⟩
  · by_cases hcancelled :
        (recorded machines).isCancelled (state, log ++ [.created machineId (.error error)]) = true
    · simp only [Except.mapError, if_pos hcancelled, run_bind, run_throw]
      exact ⟨_, _, _, rfl, .refused error _⟩
    · simp only [Except.mapError, if_neg hcancelled, run_throw]
      exact ⟨_, _, _, rfl, .refused error _⟩
  · simp only [Except.mapError]
    by_cases hcancelled :
        (recorded machines).isCancelled (state, log ++ [.created machineId (.ok new)]) = true
    · obtain ⟨result, later, events, hrun, rfl, hevents⟩ :=
        hdiscard new state (log ++ [.created machineId (.ok new)])
      simp only [if_pos hcancelled, run_bind, hrun, run_throw, List.append_assoc]
      exact ⟨_, _, _, rfl, .cancelled new hevents⟩
    · simp only [if_neg hcancelled, run_bind, run_tryCatch, run_adapt, run_logged,
        List.append_assoc]
      rcases (machines.startContainer machineId new).run state with ⟨error | done, state⟩
      · obtain ⟨result, later, events, hrun, rfl, hevents⟩ := hdiscard new state
          (log ++ ([.created machineId (.ok new)] ++ [.started machineId new (.error error)]))
        simp only [Except.mapError, hrun, run_throw, List.append_assoc]
        exact ⟨_, _, _, rfl, .unstarted new error hevents⟩
      · exact ⟨_, _, _, rfl, .started new⟩

/-- How a started container may come to serve. -/
inductive Serves (new : ContainerId) : Except ExecutionError Unit → List Event → Prop
  | unhealthy (error : ExecutionError) : Serves new (.error error) [.other]
  | waited (answer : Except RpcError Unit) {monitored : List Event}
      (hmonitored : monitored ⊆ [.other]) :
      Serves new (answer.mapError (machineError .inspectContainer))
        (monitored ++ [.waited [new] .serving answer])

theorem emits_waitServing (containerId : ContainerId) :
    Emits (waitServing (recorded machines) containerId) fun result events => ∃ answer,
      result = answer.mapError (machineError .inspectContainer) ∧
        events = [.waited [containerId] .serving answer] :=
  (emits_logged _ _).adapt _

theorem emits_serve (new : ContainerId) (spec : ResolvedServiceSpec) (skipHealthMonitor : Bool) :
    Emits (serve (recorded machines) machineId new spec skipHealthMonitor) (Serves new) := by
  have hwait := emits_waitServing machines new
  unfold serve
  cases skipHealthMonitor with
  | true =>
    refine hwait.mono ?_
    rintro result events ⟨answer, rfl, rfl⟩
    exact .waited answer (List.nil_subset _)
  | false =>
    change Emits ((recorded machines).monitorContainer machineId new spec >>= fun _ => _) _
    rw [recorded_monitorContainer]
    refine (Emits.bind (emits_logged _ _) fun _ => hwait).mono ?_
    rintro result events (⟨error, rfl, rfl⟩ | ⟨_, _, _, rfl, rfl, answer, rfl, rfl⟩)
    · exact .unhealthy error
    · exact .waited answer (List.Subset.refl _)

/-- How the new container of a replacement may come to serve, or fail having started or not. -/
inductive StartsNew : Except (Option ContainerId × ExecutionError) Unit → List Event → Prop
  | failed {error : ExecutionError} {events : List Event}
      (hcreate : CreateStarts machineId (.error error) events) :
      StartsNew (.error (none, error)) events
  | started {new : ContainerId} {result : Except ExecutionError Unit} {events : List Event}
      (hserve : Serves new result events) :
      StartsNew (result.mapError (some new, ·))
        ([.created machineId (.ok new), .started machineId new (.ok ())] ++ events)

theorem emits_startNew (owner : Namespace) (spec : ResolvedServiceSpec) (skipHealthMonitor : Bool) :
    Emits (startNew (recorded machines) machineId owner old spec skipHealthMonitor)
      (StartsNew machineId) := by
  refine (Emits.bind ((emits_createAndStart machines machineId _ owner spec (some old)).adapt _)
    fun new => (emits_serve machines machineId new spec skipHealthMonitor).adapt _).mono ?_
  rintro result events
    (⟨_, rfl, error | _, herror, hcreate⟩ | ⟨new, _, _, rfl, ⟨_ | _, hnew, hcreate⟩, inner, rfl,
      hserve⟩)
  · obtain rfl := Except.error.inj herror
    exact .failed hcreate
  · cases herror
  · cases hnew
  · obtain rfl := Except.ok.inj hnew
    cases hcreate
    exact .started hserve

/-- How the old container may be brought back. -/
inductive Restores : Except ExecutionError Unit → List Event → Prop
  | unstarted (answer : RpcError) :
      Restores (.error (machineError .startContainer answer))
        [.started machineId old (.error answer)]
  | waited (answer : Except RpcError Unit) :
      Restores (answer.mapError (machineError .inspectContainer))
        [.started machineId old (.ok ()), .waited [old] .serving answer]

theorem emits_restoreOldContainer :
    Emits (restoreOldContainer (recorded machines) machineId old) (Restores machineId old) := by
  refine (Emits.bind ((emits_logged _ _).adapt _) fun _ => emits_waitServing machines old).mono ?_
  rintro result events
    (⟨_, rfl, answer | _, herror, rfl⟩ | ⟨_, _, _, rfl, ⟨_ | _, hok, rfl⟩, answer, rfl, rfl⟩)
  · obtain rfl := Except.error.inj herror
    exact .unstarted answer
  · cases herror
  · cases hok
  · exact .waited answer

/-- An answer in which a container that is gone is as good as stopped. -/
def goneIsOk : Except RpcError Unit → Except RpcError Unit
  | .ok _ => .ok ()
  | .error error => if error.code = .notFound then .ok () else .error error

def stopAttempt (answer : Except RpcError Unit) : StopAttempt :=
  .ofResult ((goneIsOk answer).mapError (machineError .stopContainer))

theorem emits_ignoreNotFound (event : Except RpcError Unit → Event) (call : Exec σ RpcError Unit) :
    Emits (ignoreNotFound (logged event call)) fun result events => ∃ answer,
      result = goneIsOk answer ∧ events = [event answer] := by
  intro state log
  simp only [ignoreNotFound, run_tryCatch, run_logged]
  rcases call.run state with ⟨error | done, state⟩
  · by_cases hgone : error.code = .notFound
    · simp only [if_pos hgone, run_pure]
      exact ⟨_, _, _, rfl, .error error, (if_pos hgone).symm, rfl⟩
    · simp only [if_neg hgone, run_throw]
      exact ⟨_, _, _, rfl, .error error, (if_neg hgone).symm, rfl⟩
  · exact ⟨_, _, _, rfl, .ok done, rfl, rfl⟩

/-- How a failed replacement may be compensated, and what it reports. -/
inductive Compensates (error : ExecutionError) :
    Bool → Option ContainerId → Except OperationFailure Unit → List Event → Prop
  | ordinary (new : Option ContainerId) :
      Compensates error false new (.error (.ordinary error)) []
  | untouched (new : ContainerId) (answer : Except RpcError Unit) :
      Compensates error false (some new)
        (.error (.replacement error (.oldUntouched (stopAttempt answer))))
        [.stopped machineId new answer]
  | restored {result : Except ExecutionError Unit} {events : List Event}
      (hrestores : Restores machineId old result events) :
      Compensates error true none
        (.error (.replacement error (.oldStopped none (.ofResult result)))) events
  | stopped (new : ContainerId) (answer : Except RpcError Unit)
      {result : Except ExecutionError Unit} {events : List Event}
      (hrestores : Restores machineId old result events) :
      Compensates error true (some new)
        (.error (.replacement error (.oldStopped (some (stopAttempt answer)) (.ofResult result))))
        (.stopped machineId new answer :: events)

theorem emits_compensate (spec : ResolvedServiceSpec) (oldStopped : Bool)
    (new : Option ContainerId) (error : ExecutionError) :
    Emits (compensate (recorded machines) machineId old spec oldStopped new error)
      (Compensates machineId old error oldStopped new) := by
  have hrestore : Emits (attempt (restoreOldContainer (recorded machines) machineId old)) _ :=
    (emits_restoreOldContainer machines machineId old).lift
  have hstop : ∀ containerId grace, Emits (attempt (asked .stopContainer (ignoreNotFound
      ((recorded machines).stopContainer machineId containerId grace)))) fun result events =>
        ∃ answer, result = .ok ((goneIsOk answer).mapError (machineError .stopContainer)) ∧
          events = [.stopped machineId containerId answer] := by
    intro containerId grace
    refine ((emits_ignoreNotFound _ _).adapt _).lift.mono ?_
    rintro _ _ ⟨_, rfl, _, rfl, answer, rfl, rfl⟩
    exact ⟨answer, rfl, rfl⟩
  unfold compensate
  cases oldStopped with
  | true =>
    simp only [Bool.not_true, Bool.false_and, Bool.false_eq_true, if_false]
    cases new with
    | none =>
      simp only [pure_bind]
      refine (hrestore.bind fun _ => emits_throw _).mono ?_
      rintro result events (⟨_, rfl, _, h, -⟩ | ⟨_, before, _, rfl, ⟨_, hok, hrestores⟩, rfl, rfl⟩)
      · cases h
      · obtain rfl := Except.ok.inj hok
        rw [List.append_nil]
        exact .restored hrestores
    | some new =>
      simp only [map_eq_pure_bind, bind_assoc, pure_bind]
      refine ((hstop new _).bind fun _ => hrestore.bind fun _ => emits_throw _).mono ?_
      rintro result events (⟨_, rfl, _, h, -⟩ | ⟨_, _, _, rfl, ⟨answer, hok, rfl⟩, hrest⟩)
      · cases h
      obtain rfl := Except.ok.inj hok
      rcases hrest with ⟨_, rfl, _, h, -⟩ | ⟨_, before, _, rfl, ⟨_, hok, hrestores⟩, rfl, rfl⟩
      · cases h
      · obtain rfl := Except.ok.inj hok
        rw [List.append_nil]
        exact .stopped new answer hrestores
  | false =>
    cases hkind : error.kind != .health with
    | true =>
      refine (emits_throw (OperationFailure.ordinary error)).mono ?_
      rintro _ _ ⟨rfl, rfl⟩
      exact .ordinary new
    | false =>
      cases new with
      | none =>
        refine (emits_throw (OperationFailure.ordinary error)).mono ?_
        rintro _ _ ⟨rfl, rfl⟩
        exact .ordinary none
      | some new =>
        simp only [Bool.not_false, Bool.true_and, Bool.false_eq_true, if_false, map_eq_pure_bind,
          bind_assoc, pure_bind]
        refine ((hstop new _).bind fun _ => emits_throw _).mono ?_
        rintro result events (⟨_, rfl, _, h, -⟩ | ⟨_, _, _, rfl, ⟨answer, hok, rfl⟩, rfl, rfl⟩)
        · cases h
        · obtain rfl := Except.ok.inj hok
          exact .untouched new answer

/-- A request of a replacement whose new container serves. -/
def Finishing (event : Event) : Prop :=
  (∃ answer, event = .stopped machineId old answer) ∨ event = .removed machineId old ∨
    ∃ answer, event = .waited [old] .dropped answer

/-- What happens to the old container before the new one is created, and whether it was stopped. -/
def StopsIf (stopFirst oldStopped : Bool) (events : List Event) : Prop :=
  if stopFirst then StopsOld machineId old (.ok oldStopped) events
  else oldStopped = false ∧ events = []

/-- A replacement: the old container may be stopped, the new one serves or the failure is
compensated, and the old one is removed. -/
inductive Replaces (stopFirst : Bool) : Except OperationFailure Unit → List Event → Prop
  | unstopped {error : ExecutionError} {events : List Event} (hstopFirst : stopFirst = true)
      (hstops : StopsOld machineId old (.error error) events) :
      Replaces stopFirst (.error (.ordinary error)) events
  | failed {oldStopped : Bool} {new : Option ContainerId} {error : ExecutionError}
      {result : Except OperationFailure Unit} {stopping starting compensating : List Event}
      (hstops : StopsIf machineId old stopFirst oldStopped stopping)
      (hstarts : StartsNew machineId (.error (new, error)) starting)
      (hcompensates : Compensates machineId old error oldStopped new result compensating) :
      Replaces stopFirst result (stopping ++ (starting ++ compensating))
  | served {oldStopped : Bool} {result : Except OperationFailure Unit}
      {stopping starting finishing : List Event}
      (hstops : StopsIf machineId old stopFirst oldStopped stopping)
      (hstarts : StartsNew machineId (.ok ()) starting)
      (hfinishing : ∀ event ∈ finishing, Finishing machineId old event) :
      Replaces stopFirst result (stopping ++ (starting ++ finishing))

/-- The end of a replacement, once the new container serves. -/
def finishReplacement (stopFirst : Bool) : Exec (σ × List Event) OperationFailure Unit := do
  if !stopFirst then
    ordinary (asked .stopContainer (ignoreNotFound
      ((recorded machines).stopContainer machineId old none)))
  ordinary (asked .removeContainer (ignoreNotFound
    ((recorded machines).removeContainer machineId old)))
  ordinary (waitDropped (recorded machines) old)

/-- A replacement from the creation of the new container on. -/
def replaceStopped (owner : Namespace) (spec : ResolvedServiceSpec) (skipHealthMonitor : Bool)
    (oldStopped : Bool) : Exec (σ × List Event) OperationFailure Unit := do
  let started ← ExceptT.lift
    (startNew (recorded machines) machineId owner old spec skipHealthMonitor).run
  match started with
  | .error (new, error) => do
    compensate (recorded machines) machineId old spec oldStopped new error
    finishReplacement machines machineId old (spec.update.order == .stopFirst)
  | .ok _ => finishReplacement machines machineId old (spec.update.order == .stopFirst)

/-- What follows the start of the new container, with one way on for every other end. -/
def afterStart (spec : ResolvedServiceSpec) (stopFirst oldStopped : Bool) :
    Except (Option ContainerId × ExecutionError) Unit → Exec (σ × List Event) OperationFailure Unit
  | .error (new, error) =>
    compensate (recorded machines) machineId old spec oldStopped new error >>= fun _ =>
      finishReplacement machines machineId old stopFirst
  | _ => finishReplacement machines machineId old stopFirst

theorem replaceContainer_eq (owner : Namespace) (spec : ResolvedServiceSpec)
    (skipHealthMonitor : Bool) :
    replaceContainer (recorded machines) machineId owner old spec skipHealthMonitor =
      (if spec.update.order == .stopFirst then ordinary (stopOld (recorded machines) machineId old)
        else pure false) >>=
          replaceStopped machines machineId old owner spec skipHealthMonitor := by
  have hrest : replaceStopped machines machineId old owner spec skipHealthMonitor =
    fun oldStopped =>
      ExceptT.lift (startNew (recorded machines) machineId owner old spec skipHealthMonitor).run >>=
        afterStart machines machineId old spec (spec.update.order == .stopFirst) oldStopped := by
    funext oldStopped
    refine congrArg (ExceptT.lift _ >>= ·) (funext fun started => ?_)
    rcases started with ⟨new, error⟩ | done <;> rfl
  rw [hrest]
  unfold replaceContainer
  cases h : spec.update.order == .stopFirst <;> rfl

theorem emits_finishReplacement (stopFirst : Bool) :
    Emits (finishReplacement machines machineId old stopFirst) fun _ events =>
      ∀ event ∈ events, Finishing machineId old event := by
  have hstop : Emits (ordinary (asked .stopContainer (ignoreNotFound
      ((recorded machines).stopContainer machineId old none)))) fun _ events =>
        ∀ event ∈ events, Finishing machineId old event := by
    refine (((emits_ignoreNotFound _ _).adapt _).adapt _).mono ?_
    rintro _ _ ⟨_, -, _, -, answer, -, rfl⟩
    simp [Finishing]
  have hremove : Emits (ordinary (asked .removeContainer (ignoreNotFound
      ((recorded machines).removeContainer machineId old)))) fun _ events =>
        ∀ event ∈ events, Finishing machineId old event := by
    rw [recorded_removeContainer]
    refine (((emits_ignoreNotFound _ _).adapt _).adapt _).mono ?_
    rintro _ _ ⟨_, -, _, -, answer, -, rfl⟩
    simp [Finishing]
  have hwait : Emits (ordinary (waitDropped (recorded machines) old)) fun _ events =>
      ∀ event ∈ events, Finishing machineId old event := by
    refine (((emits_logged _ _).adapt _).adapt _).mono ?_
    rintro _ _ ⟨_, -, _, -, rfl⟩
    simp [Finishing]
  cases stopFirst with
  | true => exact hremove.bind_all fun _ => hwait
  | false => exact hstop.bind_all fun _ => hremove.bind_all fun _ => hwait

theorem emits_replaceContainer (owner : Namespace) (spec : ResolvedServiceSpec)
    (skipHealthMonitor : Bool) :
    Emits (replaceContainer (recorded machines) machineId owner old spec skipHealthMonitor)
      (Replaces machineId old (spec.update.order == .stopFirst)) := by
  have hstarts : Emits (ExceptT.lift (startNew (recorded machines) machineId owner old spec
      skipHealthMonitor).run : Exec _ OperationFailure _) _ :=
    (emits_startNew machines machineId old owner spec skipHealthMonitor).lift
  have hfinish := emits_finishReplacement machines machineId old (spec.update.order == .stopFirst)
  have hrest : ∀ oldStopped, Emits
      (replaceStopped machines machineId old owner spec skipHealthMonitor oldStopped)
      fun result events =>
        (∃ new error starting compensating, events = starting ++ compensating ∧
          StartsNew machineId (.error (new, error)) starting ∧
          Compensates machineId old error oldStopped new result compensating) ∨
        ∃ starting finishing, events = starting ++ finishing ∧
          StartsNew machineId (.ok ()) starting ∧
          ∀ event ∈ finishing, Finishing machineId old event := by
    intro oldStopped
    refine (hstarts.bind (S := fun started result events => match started with
      | .error (new, error) => Compensates machineId old error oldStopped new result events
      | .ok _ => ∀ event ∈ events, Finishing machineId old event) fun started => ?_).mono ?_
    · rcases started with ⟨new, error⟩ | done
      · refine ((emits_compensate machines machineId old spec oldStopped new error).bind
          fun _ => hfinish).mono ?_
        rintro _ _ (⟨_, rfl, h⟩ | ⟨_, _, _, -, h, -⟩)
        · exact h
        · cases h
      · exact hfinish
    · rintro result events (⟨_, rfl, _, h, -⟩ | ⟨started, starting, after, rfl, ⟨_, h, hstarts⟩,
        hafter⟩)
      · cases h
      · obtain rfl := Except.ok.inj h
        rcases started with ⟨new, error⟩ | done
        · exact .inl ⟨new, error, starting, after, rfl, hstarts, hafter⟩
        · exact .inr ⟨starting, after, rfl, hstarts, hafter⟩
  rw [replaceContainer_eq]
  cases horder : spec.update.order == .stopFirst with
  | true =>
    refine (((emits_stopOld machines machineId old).adapt _).bind hrest).mono ?_
    rintro result events (⟨_, rfl, stopped, herror, hstops⟩ | ⟨oldStopped, stopping, _, rfl,
      ⟨stopped, hok, hstops⟩, hrest⟩)
    · rcases stopped with error | stopped
      · obtain rfl := Except.error.inj herror
        exact .unstopped rfl hstops
      · cases herror
    · rcases stopped with error | stopped
      · cases hok
      obtain rfl := Except.ok.inj hok
      rcases hrest with ⟨new, error, starting, compensating, rfl, hstarts, hcompensates⟩ |
        ⟨starting, finishing, rfl, hstarts, hfinishing⟩
      · exact .failed hstops hstarts hcompensates
      · exact .served hstops hstarts hfinishing
  | false =>
    simp only [Bool.false_eq_true, if_false, pure_bind]
    refine (hrest false).mono ?_
    rintro result events (⟨new, error, starting, compensating, rfl, hstarts, hcompensates⟩ |
      ⟨starting, finishing, rfl, hstarts, hfinishing⟩)
    · show Replaces machineId old false result ([] ++ (starting ++ compensating))
      exact .failed ⟨rfl, rfl⟩ hstarts hcompensates
    · show Replaces machineId old false result ([] ++ (starting ++ finishing))
      exact .served ⟨rfl, rfl⟩ hstarts hfinishing

/-! ## What the requests show -/

section

variable {machines machineId old} {events log before after : List Event} {stopFirst : Bool}
  {result : Except OperationFailure Unit}

/-- A container that was created is reported serving. -/
def Reported (machineId : MachineId) (events : List Event) : Prop :=
  ∃ new, .created machineId (.ok new) ∈ events ∧ .waited [new] .serving (.ok ()) ∈ events

theorem CreateStarts.requests {result : Except ExecutionError ContainerId}
    (h : CreateStarts machineId result events) :
    (∀ id answer, .stopped machineId id answer ∉ events) ∧
      ∀ id, .removed machineId id ∈ events → .created machineId (.ok id) ∈ events := by
  cases h with
  | refused => simp
  | started => simp
  | cancelled new hdiscarded | unstarted new answer hdiscarded =>
    refine ⟨fun id answer hmem => ?_, fun id hmem => ?_⟩
    · have := @hdiscarded (.stopped machineId id answer)
      simp_all
    · have := @hdiscarded (.removed machineId id)
      simp_all

theorem Serves.requests {new : ContainerId} {result : Except ExecutionError Unit}
    (h : Serves new result events) {event : Event} (hevent : event ∈ events) :
    event = .other ∨ ∃ answer, event = .waited [new] .serving answer := by
  cases h with
  | unhealthy => exact .inl (List.mem_singleton.mp hevent)
  | waited answer hmonitored =>
    rcases List.mem_append.mp hevent with hevent | hevent
    · exact .inl (List.mem_singleton.mp (hmonitored hevent))
    · exact .inr ⟨answer, List.mem_singleton.mp hevent⟩

theorem StartsNew.requests {result : Except (Option ContainerId × ExecutionError) Unit}
    (h : StartsNew machineId result events) :
    (∀ id answer, .stopped machineId id answer ∉ events) ∧
      ∀ id, .removed machineId id ∈ events → .created machineId (.ok id) ∈ events := by
  cases h with
  | failed hcreate => exact hcreate.requests
  | started hserve =>
    refine ⟨fun id answer hmem => ?_, fun id hmem => ?_⟩ <;>
    · rcases List.mem_append.mp hmem with hmem | hmem
      · simp at hmem
      · rcases hserve.requests hmem with h | ⟨_, h⟩ <;> cases h

theorem StartsNew.reported (h : StartsNew machineId (.ok ()) events) :
    Reported machineId events := by
  generalize hresult : (Except.ok () : Except (Option ContainerId × ExecutionError) Unit) =
    result at h
  cases h with
  | failed => cases hresult
  | @started new result events hserve =>
    refine ⟨new, by simp, List.mem_append_right _ ?_⟩
    cases hserve with
    | unhealthy => cases hresult
    | waited answer =>
      cases answer with
      | error => cases hresult
      | ok => exact List.mem_append_right _ (List.mem_singleton_self _)

/-- What started travels with the failure. -/
theorem StartsNew.started_iff {new : Option ContainerId} {error : ExecutionError}
    (h : StartsNew machineId (.error (new, error)) events) :
    (∀ id, .started machineId id (.ok ()) ∈ events ↔ new = some id) ∧
      ∀ id, new = some id → .created machineId (.ok id) ∈ events := by
  generalize hresult : (Except.error (new, error) :
    Except (Option ContainerId × ExecutionError) Unit) = result at h
  cases h with
  | failed hcreate =>
    obtain ⟨rfl, rfl⟩ := Prod.mk.inj (Except.error.inj hresult)
    refine ⟨fun id => iff_of_false (fun hmem => ?_) nofun, nofun⟩
    cases hcreate with
    | refused => simp at hmem
    | cancelled new hdiscarded | unstarted new answer hdiscarded =>
      have := @hdiscarded (.started machineId id (.ok ()))
      simp_all
  | @started started result events hserve =>
    have hnew : new = some started := by
      cases result with
      | ok => cases hresult
      | error => exact (Prod.mk.inj (Except.error.inj hresult)).1
    subst hnew
    refine ⟨fun id => ⟨fun hmem => ?_, ?_⟩, ?_⟩
    · rcases List.mem_append.mp hmem with hmem | hmem
      · simp at hmem
        exact congrArg some hmem.symm
      · rcases hserve.requests hmem with h | ⟨_, h⟩ <;> cases h
    · rintro ⟨rfl⟩
      simp
    · rintro id ⟨rfl⟩
      simp

theorem StopsOld.requests {result : Except ExecutionError Bool}
    (h : StopsOld machineId old result events) :
    (∀ id, .removed machineId id ∉ events) ∧ (∀ id, .started machineId id (.ok ()) ∉ events) ∧
      (.stopped machineId old (.ok ()) ∈ events → result = .ok true) := by
  cases h <;> simp

theorem StopsIf.requests {oldStopped : Bool}
    (h : StopsIf machineId old stopFirst oldStopped events) :
    (∀ id, .removed machineId id ∉ events) ∧ (∀ id, .started machineId id (.ok ()) ∉ events) ∧
      (.stopped machineId old (.ok ()) ∈ events → oldStopped = true) := by
  unfold StopsIf at h
  split_ifs at h
  · exact ⟨h.requests.1, h.requests.2.1, fun hmem => Except.ok.inj (h.requests.2.2 hmem)⟩
  · simp [h.2]

theorem exists_before {first rest : List Event} {event : Event} (hnot : event ∉ first)
    (h : first ++ rest = before ++ event :: after) : ∃ more, before = first ++ more := by
  rcases List.append_eq_append_iff.mp h with ⟨more, hbefore, -⟩ | ⟨more, hfirst, hafter⟩
  · exact ⟨more, hbefore⟩
  · cases more with
    | nil => exact ⟨[], by simpa using hfirst.symm⟩
    | cons head tail =>
      obtain ⟨rfl, -⟩ := List.cons.inj hafter
      exact absurd (hfirst ▸ by simp) hnot

theorem Replaces.remove_after (h : Replaces machineId old stopFirst result log)
    (hnew : .created machineId (.ok old) ∉ log)
    (hlog : log = before ++ .removed machineId old :: after) : Reported machineId before := by
  have hmem : .removed machineId old ∈ log := by simp [hlog]
  cases h with
  | unstopped _ hstops => exact absurd hmem (hstops.requests.1 old)
  | failed hstops hstarts hcompensates =>
    exfalso
    rcases List.mem_append.mp hmem with hstop | hrest
    · exact hstops.requests.1 old hstop
    rcases List.mem_append.mp hrest with hstart | hcompensate
    · exact hnew (List.mem_append_right _ (List.mem_append_left _ (hstarts.requests.2 old hstart)))
    · cases hcompensates with
      | ordinary => cases hcompensate
      | untouched => simp at hcompensate
      | restored hrestores | stopped _ _ hrestores => cases hrestores <;> simp at hcompensate
  | @served _ _ stopping starting finishing hstops hstarts hfinishing =>
    have hnot : .removed machineId old ∉ stopping ++ starting := by
      intro hmem
      rcases List.mem_append.mp hmem with hstop | hstart
      · exact hstops.requests.1 old hstop
      · exact hnew (List.mem_append_right _
          (List.mem_append_left _ (hstarts.requests.2 old hstart)))
    rw [← List.append_assoc] at hlog
    obtain ⟨more, rfl⟩ := exists_before hnot hlog
    obtain ⟨new, hcreated, hserving⟩ := hstarts.reported
    exact ⟨new, by simp [hcreated], by simp [hserving]⟩

/-- What compensation asks of the old container before it was stopped: nothing. -/
theorem Compensates.not_stopped {error : ExecutionError} {new : Option ContainerId}
    (h : Compensates machineId old error false new result events) (hnew : new ≠ some old)
    (answer : Except RpcError Unit) : .stopped machineId old answer ∉ events := by
  cases h with
  | ordinary => simp
  | untouched new stopped =>
    have : old ≠ new := fun h => hnew (h ▸ rfl)
    simp [this]

theorem Replaces.stop_after (h : Replaces machineId old false result log)
    (hnew : .created machineId (.ok old) ∉ log) {answer : Except RpcError Unit}
    (hlog : log = before ++ .stopped machineId old answer :: after) :
    Reported machineId before := by
  have hmem : .stopped machineId old answer ∈ log := by simp [hlog]
  cases h with
  | unstopped hfirst => cases hfirst
  | failed hstops hstarts hcompensates =>
    obtain ⟨rfl, rfl⟩ := hstops
    have hother : _ ≠ some old := fun hsome => hnew (List.mem_append_right _
      (List.mem_append_left _ (hstarts.started_iff.2 old hsome)))
    rw [List.nil_append] at hmem
    rcases List.mem_append.mp hmem with hstart | hcompensate
    · exact absurd hstart (hstarts.requests.1 old answer)
    · exact absurd hcompensate (hcompensates.not_stopped hother answer)
  | served hstops hstarts hfinishing =>
    obtain ⟨rfl, rfl⟩ := hstops
    obtain ⟨more, rfl⟩ := exists_before (hstarts.requests.1 old answer) hlog
    obtain ⟨new, hcreated, hserving⟩ := hstarts.reported
    exact ⟨new, by simp [hcreated], by simp [hserving]⟩

/-- The end of a log in which the old container is started again, after the new one that started, if
one did, was asked to stop, and the failure that reports both. -/
def Compensated (machineId : MachineId) (old : ContainerId) (result : Except OperationFailure Unit)
    (log : List Event) : Prop :=
  ∃ before restored restoring error, Restores machineId old restored restoring ∧
    ((∀ id, .started machineId id (.ok ()) ∉ before) ∧ log = before ++ restoring ∧
        result = .error (.replacement error (.oldStopped none (.ofResult restored))) ∨
      ∃ new answer, (∀ id, .started machineId id (.ok ()) ∈ before ↔ id = new) ∧
        log = before ++ .stopped machineId new answer :: restoring ∧
        result = .error (.replacement error
          (.oldStopped (some (stopAttempt answer)) (.ofResult restored))))

theorem Replaces.compensated (h : Replaces machineId old stopFirst result log)
    (hnew : .created machineId (.ok old) ∉ log) (hstopped : .stopped machineId old (.ok ()) ∈ log)
    (hunreported : ¬ Reported machineId log) : Compensated machineId old result log := by
  cases h with
  | unstopped _ hstops => cases hstops.requests.2.2 hstopped
  | served hstops hstarts hfinishing =>
    obtain ⟨new, hcreated, hserving⟩ := hstarts.reported
    exact absurd ⟨new, by simp [hcreated], by simp [hserving]⟩ hunreported
  | @failed oldStopped new error result stopping starting compensating hstops hstarts
      hcompensates =>
    have hother : new ≠ some old := fun hsome => hnew (List.mem_append_right _
      (List.mem_append_left _ (hstarts.started_iff.2 old hsome)))
    have hstarted : ∀ id, .started machineId id (.ok ()) ∈ stopping ++ starting ↔
        new = some id := by
      intro id
      rw [List.mem_append, hstarts.started_iff.1 id, or_iff_right (hstops.requests.2.1 id)]
    have hold : oldStopped = true := by
      by_contra hfalse
      rw [Bool.eq_false_iff.mpr hfalse] at hcompensates
      rcases List.mem_append.mp hstopped with hstop | hrest
      · exact hfalse (hstops.requests.2.2 hstop)
      rcases List.mem_append.mp hrest with hstart | hcompensate
      · exact hstarts.requests.1 old _ hstart
      · exact hcompensates.not_stopped hother _ hcompensate
    subst hold
    cases hcompensates with
    | @restored restored _ hrestores =>
      refine ⟨stopping ++ starting, restored, compensating, error, hrestores,
        .inl ⟨fun id hmem => ?_, by simp, rfl⟩⟩
      cases (hstarted id).mp hmem
    | @stopped new answer restored restoring hrestores =>
      refine ⟨stopping ++ starting, restored, restoring, error, hrestores, .inr ⟨new, answer,
        fun id => ?_, by simp, rfl⟩⟩
      rw [hstarted id, Option.some.injEq, eq_comm]

end

/-- For whatever the Machines answer and whenever the Deploy is cancelled, a replacement asks to
remove the old container only once the new one is reported serving, asks to stop it only then too
unless the order is stop-first, and compensates an acknowledged stop after which the new one did not
serve. -/
theorem replacement_keeps_one_working (owner : Namespace) (spec : ResolvedServiceSpec)
    (skipHealthMonitor : Bool) {state later : σ} {result : Except OperationFailure Unit}
    {log : List Event}
    (hrun : (replaceContainer (recorded machines) machineId owner old spec skipHealthMonitor).run
      (state, []) = (result, later, log))
    (hnew : .created machineId (.ok old) ∉ log) :
    (∀ before after, log = before ++ .removed machineId old :: after → Reported machineId before) ∧
    (spec.update.order ≠ .stopFirst → ∀ before answer after,
      log = before ++ .stopped machineId old answer :: after → Reported machineId before) ∧
    (.stopped machineId old (.ok ()) ∈ log → ¬ Reported machineId log →
      Compensated machineId old result log) := by
  obtain ⟨result', later', events, hevents, hreplaces⟩ :=
    emits_replaceContainer machines machineId old owner spec skipHealthMonitor state []
  rw [hrun, List.nil_append] at hevents
  obtain ⟨rfl, hstates⟩ := Prod.mk.inj hevents
  obtain ⟨rfl, rfl⟩ := Prod.mk.inj hstates
  refine ⟨fun before after => hreplaces.remove_after hnew, fun horder before answer after => ?_,
    hreplaces.compensated hnew⟩
  rw [beq_eq_false_iff_ne.mpr horder] at hreplaces
  exact hreplaces.stop_after hnew

/-! ## One Machine -/

/-- A Machine on which every container runs, and which answers a create with `new` and every start
with `start`, and does the rest. -/
def machine (new : ContainerId) (start : Except RpcError Unit) : Machines Unit where
  isCancelled _ := false
  prepareVolumes _ _ := pure ()
  waitForContainerObservations _ _ := pure ()
  createContainer _ _ _ _ _ := pure new
  startContainer _ _ := ExceptT.mk (pure start)
  inspectContainer machineId id := pure (Sample.running id machineId Sample.shop 1
    (Sample.spec Sample.web Sample.single "web:1" []))
  stopContainer _ _ _ := pure ()
  removeContainer _ _ := pure ()
  removeVolume _ := pure ()
  waitHealthy _ := pure ()
  monitorContainer _ _ _ := pure ()
  waitForHook _ _ _ := pure ()

def updating (order : UpdateOrder) : ResolvedServiceSpec :=
  resolve (Sample.spec Sample.web Sample.single "web:2" []) "web" order

def replacing (order : UpdateOrder) (new : ContainerId) (start : Except RpcError Unit) :
    Except OperationFailure Unit × Unit × List Event :=
  (replaceContainer (recorded (machine new start)) "m1" Sample.shop "old" (updating order) true).run
    ((), [])

/-- A start-first replacement that succeeds removes the old container at the end; a stop-first one
whose new container does not start is compensated. -/
theorem replaced_in_order :
    (∃ before after, (replacing .startFirst "new" (.ok ())).2.2 =
      before ++ .removed "m1" "old" :: after ∧ Reported "m1" before) ∧
    Compensated "m1" "old" (replacing .stopFirst "new" (.error (.missing "image"))).1
      (replacing .stopFirst "new" (.error (.missing "image"))).2.2 := by
  constructor
  · have hlog : (replacing .startFirst "new" (.ok ())).2.2 = [.created "m1" (.ok "new"),
        .started "m1" "new" (.ok ()), .waited ["new"] .serving (.ok ()),
        .stopped "m1" "old" (.ok ())] ++
          .removed "m1" "old" :: [.waited ["old"] .dropped (.ok ())] := by decide
    exact ⟨_, _, hlog, (replacement_keeps_one_working (machine "new" (.ok ())) "m1" "old"
      Sample.shop (updating .startFirst) true rfl (by decide)).1 _ _ hlog⟩
  · have hreported : ¬ Reported "m1"
        (replacing .stopFirst "new" (.error (.missing "image"))).2.2 := by
      rintro ⟨id, -, hserving⟩
      have hlog : (replacing .stopFirst "new" (.error (.missing "image"))).2.2 =
          [.inspected "m1" "old", .stopped "m1" "old" (.ok ()), .created "m1" (.ok "new"),
            .started "m1" "new" (.error (.missing "image")), .removed "m1" "new",
            .started "m1" "old" (.error (.missing "image"))] := by decide
      rw [hlog] at hserving
      simp at hserving
    exact (replacement_keeps_one_working (machine "new" (.error (.missing "image"))) "m1" "old"
      Sample.shop (updating .stopFirst) true rfl (by decide)).2.2 (by decide) hreported

/-- A create answered with the old container, which then fails to start: it is removed, and nothing
was reported serving. -/
theorem create_answers_old : (replacing .startFirst "old" (.error (.missing "image"))).2.2 =
    [.created "m1" (.ok "old"), .started "m1" "old" (.error (.missing "image")),
      .removed "m1" "old"] := by
  decide

end Ployz.Deploy.Replacement
