import Ployz.Deploy.Selection
import Ployz.Deploy.Replay

/-!
# The capacity preflight

Before a selection chooses its Machines, `canSupplyPersistent` asks whether they have the endpoints
that its replicas and its hook will keep. The amount is estimated from totals: a container for each
replica beyond those the Service has, and one for the hook unless every replica can be kept.

Main theorem: `preflight_rejects_nothing_placeable`. Each step of a selection that succeeds lowers
the estimate for the steps left by no more than the endpoints it takes (`demand_le_choose`), so the
estimate is within what is free.
-/

namespace Ployz.Deploy

open Run

/-- A sum falls with the value at one of its places. -/
theorem sum_map_update {α : Type*} [DecidableEq α] {f : α → Nat} {a : α} {value fall : Nat}
    (h : value + fall ≤ f a) {places : List α} (ha : a ∈ places) :
    (places.map (Function.update f a value)).sum + fall ≤ (places.map f).sum := by
  have hle : ∀ places : List α,
      (places.map (Function.update f a value)).sum ≤ (places.map f).sum := by
    intro places
    apply List.sum_le_sum
    intro b _
    by_cases hb : b = a
    · subst hb
      rw [Function.update_self]
      omega
    · rw [Function.update_of_ne hb]
  obtain ⟨before, after, rfl⟩ := List.append_of_mem ha
  have hbefore := hle before
  have hafter := hle after
  simp only [List.map_append, List.map_cons, List.sum_append, List.sum_cons, Function.update_self]
  omega

variable {requested : RequestedServiceSpec} {options : PlanOptions} {machines : List MachineId}
  {state : Selecting} {candidate : Candidate}

/-! ## What is free -/

/-- The endpoints free on the Machines together. -/
def totalFree (free : MachineId → Option Nat) (machines : List MachineId) : Nat :=
  (machines.map fun id => (free id).getD 0).sum

variable {free : MachineId → Option Nat}

/-- Machines with enough endpoints together supply them. -/
theorem supplies_of_le {required available : Nat} (hlt : available < required)
    (hmax : required ≤ u64Max) (hle : required ≤ available + totalFree free machines) :
    CapacityBudget.supplies free required machines available = true := by
  induction machines generalizing available with
  | nil =>
    have : required ≤ available := hle
    omega
  | cons machineId rest ih =>
    have hsum : totalFree free (machineId :: rest) = (free machineId).getD 0 +
        totalFree free rest :=
      List.sum_cons
    unfold CapacityBudget.supplies
    cases hfree : free machineId with
    | none =>
      rw [hfree, Option.getD_none, Nat.zero_add] at hsum
      exact ih hlt (hsum ▸ hle)
    | some more =>
      rw [hfree, Option.getD_some] at hsum
      simp only [Bool.or_eq_true, decide_eq_true_eq]
      by_cases henough : required ≤ min (available + more) u64Max
      · exact Or.inl henough
      · exact Or.inr (ih (by omega) (by omega))

/-- A demand is taken from what is free. -/
theorem totalFree_of_reserve {budget later : CapacityBudget} {demand : EndpointDemand}
    {machineId : MachineId} (hfree : budget.free = some free)
    (hpeak : demand.persistent ≤ demand.peak) (hmachine : machineId ∈ machines)
    (h : budget.reserve machineId demand = some later) :
    ∃ rest, later.free = some rest ∧
      totalFree rest machines + demand.persistent ≤ totalFree free machines := by
  unfold CapacityBudget.reserve CapacityBudget.fitsDemand CapacityBudget.fits at h
  rw [hfree] at h
  split_ifs at h with hfits hkept
  · obtain rfl := Option.some.inj h
    have hpos : demand.peak ≠ 0 := by omega
    obtain ⟨count, hcount, hpeakCount⟩ : ∃ count, free machineId = some count ∧
        demand.peak ≤ count := by
      simpa [hpos, Option.any_eq_true] using hfits
    refine ⟨_, rfl, ?_⟩
    have hgetD : (fun id => (Function.update free machineId
        ((free machineId).map (· - demand.persistent)) id).getD 0) =
        Function.update (fun id => (free id).getD 0) machineId (count - demand.persistent) := by
      funext id
      by_cases hid : id = machineId
      · subst hid
        simp [hcount]
      · simp [hid]
    unfold totalFree
    rw [hgetD]
    exact sum_map_update (by simp only [hcount, Option.getD_some]; omega) hmachine
  · obtain rfl := Option.some.inj h
    exact ⟨free, hfree, by omega⟩

/-! ## What is asked -/

/-- The containers of a kind left to choose from. -/
def Selecting.counted (state : Selecting) (machines : List MachineId)
    (p : ContainerObservation → Bool) : Nat :=
  (machines.map fun id => (state.remaining id).countP p).sum

/-- The endpoints that replicas still to be chosen are estimated to keep. -/
def Selecting.demand (requested : RequestedServiceSpec) (options : PlanOptions)
    (machines : List MachineId) (replicas : Nat) (state : Selecting) : Nat :=
  (replicas - state.counted machines fun _ => true) +
    (state.hookPending &&
      decide (state.counted machines (isUpToDate · requested options) < replicas)).toNat

/-- A choice leaves its container to none that follow. -/
theorem counted_choose (h : candidate.Fits requested options machines state)
    (sockets : HostSockets) (p : ContainerObservation → Bool) :
    (state.choose candidate sockets).counted machines p + (candidate.existing.any p).toNat ≤
      state.counted machines p := by
  have hcount : (fun id => ((state.choose candidate sockets).remaining id).countP p) =
      Function.update (fun id => (state.remaining id).countP p) candidate.machineId
        (((state.remaining candidate.machineId).dropLast.filter fun container =>
          !candidate.preStops.contains container.containerId).countP p) := by
    funext id
    by_cases hid : id = candidate.machineId
    · subst hid
      simp [Selecting.choose]
    · simp [Selecting.choose, hid]
  unfold Selecting.counted
  rw [hcount]
  refine sum_map_update ?_ h.machine
  have hfilter := (List.filter_sublist (p := fun container : ContainerObservation =>
    !candidate.preStops.contains container.containerId)
      (l := (state.remaining candidate.machineId).dropLast)).countP_le (p := p)
  rw [h.existing]
  cases hlast : (state.remaining candidate.machineId).getLast? with
  | none =>
    rw [List.getLast?_eq_none_iff] at hlast
    simp [hlast]
  | some container =>
    have hsplit := List.dropLast_append_getLast? container hlast
    have hcounted : (state.remaining candidate.machineId).countP p =
        (state.remaining candidate.machineId).dropLast.countP p + (p container).toNat := by
      conv_lhs => rw [← hsplit, List.countP_append, List.countP_singleton]
      cases p container <;> rfl
    rw [hcounted, Option.any_some]
    omega

theorem forOperation_eq (operation : EndpointOperation) (hookPending : Bool) :
    EndpointDemand.forOperation operation hookPending =
      match operation with
      | .unchanged => ⟨0, 0, false⟩
      | .create => ⟨1 + hookPending.toNat, 1 + hookPending.toNat, hookPending⟩
      | .replace => ⟨1 + hookPending.toNat, hookPending.toNat, hookPending⟩ := by
  cases operation <;> cases hookPending <;> rfl

theorem persistent_le_peak (operation : EndpointOperation) (hookPending : Bool) :
    (EndpointDemand.forOperation operation hookPending).persistent ≤
      (EndpointDemand.forOperation operation hookPending).peak := by
  cases operation <;> simp [forOperation_eq]

/-- One step lowers the estimate by no more than it takes. -/
theorem demand_le_choose (h : candidate.Fits requested options machines state)
    (sockets : HostSockets) (replicas : Nat) :
    state.demand requested options machines (replicas + 1) ≤
      (state.choose candidate sockets).demand requested options machines replicas +
        candidate.demand.persistent := by
  have hall := counted_choose h sockets fun _ => true
  have hcurrent := counted_choose h sockets (isUpToDate · requested options)
  have hpending : (state.choose candidate sockets).hookPending =
      (state.hookPending && !candidate.demand.usesHook) := rfl
  have hoperation := h.operation
  -- a pending hook is asked for once: by this step, or in the estimate for those that follow
  have hhook : ∀ (pending : Bool) (count : Nat), (pending && decide (count < replicas + 1)).toNat ≤
      pending.toNat := fun pending count => by cases pending <;> simp [Bool.toNat_le]
  unfold Selecting.demand
  rw [hpending, h.demand, forOperation_eq]
  cases hexisting : candidate.existing with
  | none =>
    rw [hexisting] at hoperation hall
    rw [show candidate.operation = .create from hoperation]
    have := hhook state.hookPending
      (state.counted machines (isUpToDate · requested options))
    dsimp only
    omega
  | some container =>
    rw [hexisting] at hoperation hall hcurrent
    rw [Option.any_some, Bool.toNat_true] at hall
    by_cases hkept : isUpToDate container requested options = true
    · have hunchanged : candidate.operation = .unchanged := by
        simpa [replicatedOperation, hkept] using hoperation
      rw [Option.any_some, hkept, Bool.toNat_true] at hcurrent
      have hless : (state.hookPending && decide (state.counted machines
          (isUpToDate · requested options) < replicas + 1)).toNat ≤
          (state.hookPending && decide ((state.choose candidate sockets).counted machines
            (isUpToDate · requested options) < replicas)).toNat := by
        refine Bool.toNat_le_toNat fun hpending => ?_
        rw [Bool.and_eq_true, decide_eq_true_eq] at hpending ⊢
        exact ⟨hpending.1, by omega⟩
      rw [hunchanged]
      dsimp only
      rw [Bool.not_false, Bool.and_true]
      omega
    · have hreplace : candidate.operation = .replace := by
        simpa [replicatedOperation, hkept] using hoperation
      rw [hreplace]
      have := hhook state.hookPending
        (state.counted machines (isUpToDate · requested options))
      dsimp only
      omega

/-- A selection that chooses all its replicas finds their estimate free. -/
theorem demand_le_totalFree {error : PlanError} {replicas : Nat} {later : Selecting}
    (h : selectReplicas requested options machines error replicas state = .ok later)
    (hfree : state.capacity.free = some free) :
    state.demand requested options machines replicas ≤ totalFree free machines := by
  induction replicas generalizing state free with
  | zero => simp [Selecting.demand]
  | succ replicas ih =>
    obtain ⟨between, hstep, h⟩ := bind_eq_ok.mp h
    obtain ⟨candidate, sockets, -, hfits, -, rfl⟩ := selectReplica_eq_ok hstep
    have hpeak : candidate.demand.persistent ≤ candidate.demand.peak :=
      hfits.demand ▸ persistent_le_peak _ _
    obtain ⟨rest, hrest, htaken⟩ :=
      totalFree_of_reserve hfree hpeak hfits.machine hfits.capacity
    calc state.demand requested options machines (replicas + 1)
      _ ≤ (state.choose candidate sockets).demand requested options machines replicas +
          candidate.demand.persistent := demand_le_choose hfits sockets replicas
      _ ≤ totalFree rest machines + candidate.demand.persistent :=
        Nat.add_le_add_right (ih h hrest) _
      _ ≤ totalFree free machines := htaken

/-! ## The preflight -/

variable (requested options) (current : List ContainerObservation)

/-- The endpoints a selection asks for before it chooses. -/
def requiredEndpoints (machines : List MachineId) (replicas : Nat) : Nat :=
  (replicas - (machines.map fun id => (byMachine requested options current id).length).sum) +
    (requested.preDeploy.isSome &&
      decide ((machines.map (upToDateOn requested options current)).sum < replicas)).toNat

/-- The replica selection loop alone, from its start and on ranked Machines. -/
def selectionLoop (machines : List MachineId) (occupancy : MachineId → Nat)
    (capacity : CapacityBudget) (sockets : HostSockets) (capacityError : PlanError)
    (replicas : Nat) : Except PlanError Selecting :=
  selectReplicas requested options
    (machines.insertionSort fun a b => rankedBefore requested options current occupancy a b = true)
    capacityError replicas
    { remaining := byMachine requested options current
      capacity := capacity
      sockets := sockets
      cursor := 0
      hookPending := requested.preDeploy.isSome
      hookMachine := none
      choices := [] }

theorem selectReplicated_of_mode {machines : List MachineId} {occupancy : MachineId → Nat}
    {capacity : CapacityBudget} {sockets : HostSockets} {capacityError : PlanError} {replicas : ℕ+}
    (hmode : requested.mode = .replicated replicas) :
    selectReplicated requested options current machines occupancy capacity sockets capacityError =
      if !capacity.canSupplyPersistent machines
          (requiredEndpoints requested options current machines replicas) then .error capacityError
      else (do
        let state ← selectionLoop requested options current machines occupancy capacity sockets
          capacityError replicas
        pure (⟨state.choices, state.hookMachine⟩, state.capacity, state.sockets)) := by
  unfold selectReplicated
  rw [hmode]
  rfl

/-- Where the loop alone places all replicas, the Machines supply what is asked before it, and the
selection is the loop's. -/
theorem preflight_rejects_nothing_placeable (machines : List MachineId)
    (occupancy : MachineId → Nat) (capacity : CapacityBudget) (sockets : HostSockets)
    (capacityError : PlanError) (replicas : ℕ+) (hmode : requested.mode = .replicated replicas)
    (state : Selecting)
    (hloop : selectionLoop requested options current machines occupancy capacity sockets
      capacityError replicas = .ok state) :
    capacity.canSupplyPersistent machines
        (requiredEndpoints requested options current machines replicas) = true ∧
      selectReplicated requested options current machines occupancy capacity sockets capacityError =
        .ok (⟨state.choices, state.hookMachine⟩, state.capacity, state.sockets) := by
  have hsupply : capacity.canSupplyPersistent machines
      (requiredEndpoints requested options current machines replicas) = true := by
    unfold CapacityBudget.canSupplyPersistent
    cases hfree : capacity.free with
    | none => simp
    | some free =>
      have hranked := List.perm_insertionSort
        (fun a b => rankedBefore requested options current occupancy a b = true) machines
      have hdemand := demand_le_totalFree hloop hfree
      have hsame : ∀ f : MachineId → Nat, ((machines.insertionSort fun a b =>
          rankedBefore requested options current occupancy a b = true).map f).sum =
          (machines.map f).sum := fun f => (hranked.map f).sum_eq
      simp only [Selecting.demand, Selecting.counted, totalFree, hsame, List.countP_true] at hdemand
      have hle : requiredEndpoints requested options current machines replicas ≤
          totalFree free machines := hdemand
      simp only [Bool.or_eq_true, beq_iff_eq]
      by_cases hzero : requiredEndpoints requested options current machines replicas = 0
      · exact Or.inl hzero
      · have hmax : 0 < u64Max := by decide
        exact Or.inr (supplies_of_le (by omega) (by omega) (by omega))
  refine ⟨hsupply, ?_⟩
  rw [selectReplicated_of_mode _ _ _ hmode, hsupply, hloop]
  rfl

namespace Sample

/-- A Machine with two endpoints takes a first replica and its hook. -/
theorem hooked_replica_supplied :
    let requested := { spec web (.replicated 1) "web:1" [] with
      preDeploy := some ⟨["migrate"], [], none, none, none⟩ }
    requiredEndpoints requested (applying []) [] ["m1"] 1 = 2 ∧
      CapacityBudget.canSupplyPersistent ⟨some fun _ => some 2⟩ ["m1"]
        (requiredEndpoints requested (applying []) [] ["m1"] 1) = true := by
  intro requested
  obtain ⟨state, hloop, -⟩ := exists_ok (fun _ => True)
    (by decide +kernel : succeeds (selectionLoop requested (applying []) [] ["m1"]
      (fun _ => 0) ⟨some fun _ => some 2⟩ ⟨[]⟩ .insufficientCapacity 1) _ = true)
  refine ⟨by decide +kernel, ?_⟩
  exact (preflight_rejects_nothing_placeable requested (applying []) [] ["m1"] (fun _ => 0)
    ⟨some fun _ => some 2⟩ ⟨[]⟩ .insufficientCapacity 1 rfl state hloop).1

end Sample

end Ployz.Deploy
