import Ployz.Lib.Run
import Mathlib.Data.List.Pairwise
import Mathlib.Algebra.Group.Nat.Defs

/-!
# Enrollment

An operator assigns each joining Machine a /24 of the Cluster's network, from one observation and
the assignments saved so far. `allocateEnrollment` resumes a saved assignment or makes one, and
refuses what disagrees with a saved or observed Machine; `save` keeps what it returns.

Main theorem: `enrollment_runs`, over every sequence of requests. The saved Machines differ in ID,
subnet and key, and each result differs in subnet and key from every other Machine saved or
observed. What an observation holds beside the joining Machine is not checked.
-/

namespace Ployz.Enrollment

open Run

/-! ## Networks -/

/-- An IPv4 /24: the 24 bits its addresses share. -/
structure MachineSubnet where
  block : Fin (2 ^ 24)
deriving DecidableEq

/-- What the `ipnet` crate tells of IPv4 networks: how many bits are the network's, which /24
subnets it lists, and which /24s lie inside. -/
class Networks (N : Type) where
  prefixLen : N → Nat
  /-- The /24 subnets of a network; none if it is smaller. -/
  subnets : N → Option (List MachineSubnet)
  contains : N → MachineSubnet → Bool
  /-- No /24 that lies inside is missing from the list. -/
  complete : ∀ {net candidates subnet}, subnets net = some candidates →
    contains net subnet = true → subnet ∈ candidates

open Networks

/-! ## Requests and Machines -/

inductive StorageChoice
  | none
  | zfs
deriving DecidableEq

/-- Complete policy committed in the first Machine assignment. -/
structure InitialMachinePolicy where
  labels : List (String × String)
  acceptsBuilds : Bool
  acceptsServices : Bool
  acceptsIngress : Bool
deriving DecidableEq

abbrev WireGuardPublicKey := BitVec 256

/-- What a Machine joins with; `R` is what it observes of its own runtime. -/
structure RegisterRequest (R : Type) where
  machineId : String
  assignedSubnet : Option MachineSubnet
  initialPolicy : InitialMachinePolicy
  name : String
  storage : StorageChoice
  publicKey : WireGuardPublicKey
  publicIp : Option String
  advertisedEndpoints : List String
  runtime : R
deriving DecidableEq

structure Machine (R : Type) where
  id : String
  name : String
  subnet : MachineSubnet
  publicKey : WireGuardPublicKey
  publicIp : Option String
  advertisedEndpoints : List String
  runtime : R
  labels : List (String × String)
  acceptsBuilds : Bool
  acceptsServices : Bool
  acceptsIngress : Bool
  buildConcurrency : Option Nat
deriving DecidableEq

/-- One Entry Machine's observation. -/
structure EnrollmentSnapshot (N R : Type) where
  network : N
  machines : List (Machine R)

/-- Durable operator claim retained across failed publication and Join attempts. -/
structure EnrollmentAssignment (N R : Type) where
  request : RegisterRequest R
  network : N
  machine : Machine R
deriving DecidableEq

inductive EnrollmentError
  | invalidIdentity
  | conflict
  | invalidNetwork
  | exhausted
deriving DecidableEq

/-! ## Allocation -/

/-- Select a /24 using observed and pending claims. -/
def allocateMachineSubnet {N : Type} [Networks N] (net : N) (claimed : List MachineSubnet) :
    Except EnrollmentError MachineSubnet :=
  match subnets net with
  | none => throw .invalidNetwork
  | some candidates => match candidates.find? (!claimed.contains ·) with
    | none => throw .exhausted
    | some subnet => pure subnet

section Allocation

variable {N R : Type} [DecidableEq N] [Networks N] [DecidableEq R] [Inhabited R]

/-- Retry identity inputs, excluding assigned subnet and runtime observations. -/
def RegisterRequest.identity (request : RegisterRequest R) : RegisterRequest R :=
  { request with assignedSubnet := none, runtime := default }

def RegisterRequest.machine (request : RegisterRequest R) (subnet : MachineSubnet) : Machine R where
  id := request.machineId
  name := request.name
  subnet := subnet
  publicKey := request.publicKey
  publicIp := request.publicIp
  advertisedEndpoints := request.advertisedEndpoints
  runtime := request.runtime
  labels := request.initialPolicy.labels
  acceptsBuilds := request.initialPolicy.acceptsBuilds
  acceptsServices := request.initialPolicy.acceptsServices
  acceptsIngress := request.initialPolicy.acceptsIngress
  buildConcurrency := none

/-- Another record disagrees with a Machine: one of the same ID that differs in more than its
runtime, or one of another ID with its key or subnet. -/
def disagrees (machine other : Machine R) : Bool :=
  if other.id = machine.id then { other with runtime := machine.runtime } ≠ machine
  else other.publicKey = machine.publicKey || other.subnet = machine.subnet

/-- The subnet of a request: the saved, the observed or the assigned one, or a free one. -/
def chooseSubnet (request : RegisterRequest R) (snapshot : EnrollmentSnapshot N R)
    (saved : List (EnrollmentAssignment N R)) : Except EnrollmentError MachineSubnet :=
  match ((saved.find? (·.machine.id = request.machineId)).map (·.machine.subnet)).or
    (((snapshot.machines.find? (·.id = request.machineId)).map (·.subnet)).or
      request.assignedSubnet) with
  | some subnet => pure subnet
  | none => allocateMachineSubnet snapshot.network
      (snapshot.machines.map (·.subnet) ++ saved.map (·.machine.subnet))

/-- Allocate or resume against one observation and the operator's saved history. -/
def allocateEnrollment (request : RegisterRequest R) (snapshot : EnrollmentSnapshot N R)
    (saved : List (EnrollmentAssignment N R)) :
    Except EnrollmentError (EnrollmentAssignment N R) :=
  let others := snapshot.machines ++ saved.map (·.machine)
  if request.advertisedEndpoints = [] then throw .invalidIdentity
  else if 24 < prefixLen snapshot.network then throw .invalidNetwork
  else if others.any fun m => m.id ≠ request.machineId && m.publicKey = request.publicKey then
    throw .conflict
  else if saved.any (·.network ≠ snapshot.network) then throw .conflict
  else if saved.any fun a => a.machine.id = request.machineId && a.request ≠ request.identity then
    throw .conflict
  else do
    let subnet ← chooseSubnet request snapshot saved
    if !contains snapshot.network subnet || request.assignedSubnet.any (· ≠ subnet) then
      throw .conflict
    else if others.any (disagrees (request.machine subnet)) then throw .conflict
    else match saved.find? (·.machine.id = request.machineId) with
      | some existing => return existing
      | none => return ⟨request.identity, snapshot.network, request.machine subnet⟩

/-- Keep an assignment, unless its Machine has one. -/
def save (saved : List (EnrollmentAssignment N R)) (assignment : EnrollmentAssignment N R) :
    List (EnrollmentAssignment N R) :=
  if saved.any (·.machine.id = assignment.machine.id) then saved else saved ++ [assignment]

/-- The history after a request against an observation of the network. -/
def enroll (net : N) (saved : List (EnrollmentAssignment N R))
    (attempt : RegisterRequest R × List (Machine R)) : List (EnrollmentAssignment N R) :=
  match allocateEnrollment attempt.1 ⟨net, attempt.2⟩ saved with
  | .ok assignment => save saved assignment
  | .error _ => saved

/-! ## One request -/

omit [DecidableEq N] in
theorem of_exhausted {net : N} {claimed : List MachineSubnet}
    (h : allocateMachineSubnet net claimed = .error .exhausted) {subnet : MachineSubnet}
    (hs : contains net subnet = true) : subnet ∈ claimed := by
  unfold allocateMachineSubnet at h
  split at h
  · cases h
  rename_i candidates hc
  split at h
  · rename_i hnone
    simpa using List.find?_eq_none.mp hnone subnet (complete hc hs)
  · cases h

section Requests

variable {request : RegisterRequest R} {snapshot : EnrollmentSnapshot N R}
  {saved : List (EnrollmentAssignment N R)} {assignment : EnrollmentAssignment N R}

omit [Inhabited R] in
theorem disagrees_eq_false {machine other : Machine R} (h : disagrees machine other = false) :
    (other.id = machine.id → { other with runtime := machine.runtime } = machine) ∧
      (other.id ≠ machine.id →
        other.subnet ≠ machine.subnet ∧ other.publicKey ≠ machine.publicKey) := by
  unfold disagrees at h
  split at h
  · rename_i hid
    exact ⟨fun _ => by simpa using h, fun hne => absurd hid hne⟩
  · rename_i hid
    simp only [Bool.or_eq_false_iff, decide_eq_false_iff_not] at h
    exact ⟨fun heq => absurd heq hid, fun _ => ⟨h.2, h.1⟩⟩

omit [Inhabited R] in
theorem disagrees_runtime (machine other : Machine R) (runtime : R) :
    disagrees { machine with runtime := runtime } other = disagrees machine other := by
  unfold disagrees
  obtain ⟨⟩ := machine
  obtain ⟨⟩ := other
  simp

/-- What a success went past, and that its Machine is the request's up to the runtime. -/
structure Granted (request : RegisterRequest R) (snapshot : EnrollmentSnapshot N R)
    (saved : List (EnrollmentAssignment N R)) (assignment : EnrollmentAssignment N R) : Prop where
  endpoints : request.advertisedEndpoints ≠ []
  size : prefixLen snapshot.network ≤ 24
  networks : ∀ a ∈ saved, a.network = snapshot.network
  inside : contains snapshot.network assignment.machine.subnet = true
  assigned : ∀ subnet ∈ request.assignedSubnet, subnet = assignment.machine.subnet
  request_eq : assignment.request = request.identity
  machine_eq : { assignment.machine with runtime := request.runtime } =
    request.machine assignment.machine.subnet
  agrees : ∀ m ∈ snapshot.machines ++ saved.map (·.machine),
    disagrees assignment.machine m = false
  source : assignment ∈ saved ∨
    assignment.network = snapshot.network ∧ ∀ a ∈ saved, a.machine.id ≠ request.machineId

theorem granted (h : allocateEnrollment request snapshot saved = .ok assignment) :
    Granted request snapshot saved assignment := by
  unfold allocateEnrollment at h
  dsimp only at h
  split_ifs at h with hend hsize _ hnet hreq
  obtain ⟨subnet, hsubnet, h⟩ := bind_eq_ok.mp h
  split_ifs at h with hfit hother
  simp only [Bool.or_eq_true, Bool.not_eq_true', not_or, Bool.not_eq_false, Option.any_eq_true,
    decide_eq_true_eq, not_exists, not_and, not_not] at hfit
  simp only [List.any_eq_true, decide_eq_true_eq, Bool.and_eq_true, not_exists, not_and, not_not]
    at hnet hreq
  simp only [List.any_eq_true, not_exists, not_and, Bool.not_eq_true] at hother
  split at h
  · rename_i existing hfind
    cases pure_eq_ok.mp h
    have hmem := List.mem_of_find?_eq_some hfind
    have hid : assignment.machine.id = request.machineId := by
      simpa using List.find?_some hfind
    have hmachine := (disagrees_eq_false (hother _ (List.mem_append_right _
      (List.mem_map.mpr ⟨_, hmem, rfl⟩)))).1 hid
    have heq : assignment.machine.subnet = subnet := congrArg Machine.subnet hmachine
    subst heq
    refine ⟨hend, Nat.le_of_not_lt hsize, hnet, hfit.1, hfit.2, hreq _ hmem hid, hmachine, ?_,
      .inl hmem⟩
    intro m hm
    rw [← disagrees_runtime _ _ request.runtime]
    exact hmachine ▸ hother m hm
  · rename_i hfind
    cases pure_eq_ok.mp h
    refine ⟨hend, Nat.le_of_not_lt hsize, hnet, hfit.1, hfit.2, rfl, rfl, hother, .inr ⟨rfl, ?_⟩⟩
    simpa using hfind

omit [DecidableEq N] [DecidableEq R] [Inhabited R] in
theorem chooseSubnet_exhausted (h : chooseSubnet request snapshot saved = .error .exhausted)
    {subnet : MachineSubnet} (hs : contains snapshot.network subnet = true) :
    subnet ∈ snapshot.machines.map (·.subnet) ++ saved.map (·.machine.subnet) := by
  unfold chooseSubnet at h
  split at h
  · cases h
  · exact of_exhausted h hs

theorem allocateEnrollment_exhausted
    (h : allocateEnrollment request snapshot saved = .error .exhausted)
    {subnet : MachineSubnet} (hs : contains snapshot.network subnet = true) :
    subnet ∈ snapshot.machines.map (·.subnet) ++ saved.map (·.machine.subnet) := by
  unfold allocateEnrollment at h
  dsimp only at h
  -- the checks before the choice report something else
  iterate 5
    split at h
    · cases h
  cases hc : chooseSubnet request snapshot saved with
  | error e =>
    rw [hc] at h
    cases h
    exact chooseSubnet_exhausted hc hs
  | ok subnet =>
    rw [hc, ok_bind] at h
    repeat' split at h
    all_goals cases h

end Requests

/-! ## Runs -/

/-- Two assignments are of different Machines that share neither a subnet nor a key. -/
def Apart (a b : EnrollmentAssignment N R) : Prop :=
  a.machine.id ≠ b.machine.id ∧ a.machine.subnet ≠ b.machine.subnet ∧
    a.machine.publicKey ≠ b.machine.publicKey

omit [DecidableEq R] [Inhabited R] in
instance symmApart : Std.Symm (Apart (N := N) (R := R)) :=
  ⟨fun _ _ h => ⟨h.1.symm, h.2.1.symm, h.2.2.symm⟩⟩

/-- A history that requests against one network make. -/
structure History (net : N) (saved : List (EnrollmentAssignment N R)) : Prop where
  apart : saved.Pairwise Apart
  networks : ∀ a ∈ saved, a.network = net
  inside : ∀ a ∈ saved, contains net a.machine.subnet = true

section Runs

variable {net : N} {request : RegisterRequest R} {observed : List (Machine R)}
  {saved : List (EnrollmentAssignment N R)} {assignment : EnrollmentAssignment N R}

omit [DecidableEq N] in
theorem Granted.id_eq {snapshot : EnrollmentSnapshot N R}
    (h : Granted request snapshot saved assignment) :
    assignment.machine.id = request.machineId :=
  congrArg Machine.id h.machine_eq

omit [DecidableEq N] [Networks N] [DecidableEq R] [Inhabited R] in
theorem mem_save (saved : List (EnrollmentAssignment N R)) {a : EnrollmentAssignment N R}
    (h : a ∈ saved) (assignment : EnrollmentAssignment N R) : a ∈ save saved assignment := by
  unfold save
  split
  · exact h
  · exact List.mem_append_left _ h

omit [DecidableEq N] in
theorem Granted.mem_save {snapshot : EnrollmentSnapshot N R}
    (h : Granted request snapshot saved assignment) : assignment ∈ save saved assignment := by
  rcases h.source with hmem | ⟨_, hnew⟩
  · exact Enrollment.mem_save saved hmem assignment
  · have hfresh : ¬ saved.any (·.machine.id = assignment.machine.id) = true := by
      simpa [h.id_eq] using hnew
    rw [save, if_neg hfresh]
    exact List.mem_append_right _ (List.mem_singleton_self _)

/-- One request, granted or refused, keeps the history. -/
theorem History.enroll (h : History net saved) (attempt : RegisterRequest R × List (Machine R)) :
    History net (enroll net saved attempt) := by
  unfold Enrollment.enroll
  split
  · rename_i assignment hok
    have hg := granted hok
    rcases hg.source with hmem | ⟨hnet, hnew⟩
    · have hold : saved.any (·.machine.id = assignment.machine.id) = true :=
        List.any_eq_true.mpr ⟨assignment, hmem, decide_eq_true rfl⟩
      rwa [save, if_pos hold]
    · have hfresh : ¬ saved.any (·.machine.id = assignment.machine.id) = true := by
        simpa [hg.id_eq] using hnew
      rw [save, if_neg hfresh]
      refine ⟨List.pairwise_append.mpr ⟨h.apart, List.pairwise_singleton _ _, ?_⟩, ?_, ?_⟩
      · intro a ha b hb
        cases List.mem_singleton.mp hb
        have hid : a.machine.id ≠ assignment.machine.id := hg.id_eq ▸ hnew a ha
        have hother := (disagrees_eq_false (hg.agrees a.machine
          (List.mem_append_right _ (List.mem_map.mpr ⟨a, ha, rfl⟩)))).2 hid
        exact ⟨hid, hother.1, hother.2⟩
      · intro a ha
        rcases List.mem_append.mp ha with ha | ha
        · exact h.networks a ha
        · cases List.mem_singleton.mp ha
          exact hnet
      · intro a ha
        rcases List.mem_append.mp ha with ha | ha
        · exact h.inside a ha
        · cases List.mem_singleton.mp ha
          exact hg.inside
  · exact h

theorem History.run (h : History net saved)
    (attempts : List (RegisterRequest R × List (Machine R))) :
    History net (attempts.foldl (Enrollment.enroll net) saved) := by
  induction attempts generalizing saved with
  | nil => exact h
  | cons attempt attempts ih => exact ih (h.enroll attempt)

theorem mem_run (attempts : List (RegisterRequest R × List (Machine R)))
    (h : assignment ∈ saved) : assignment ∈ attempts.foldl (Enrollment.enroll net) saved := by
  induction attempts generalizing saved with
  | nil => exact h
  | cons attempt attempts ih =>
    refine ih ?_
    unfold Enrollment.enroll
    split
    · exact mem_save saved h _
    · exact h

omit [Inhabited R] in
theorem History.eq_of_id (h : History net saved) {a b : EnrollmentAssignment N R} (ha : a ∈ saved)
    (hb : b ∈ saved) (hid : a.machine.id = b.machine.id) : a = b := by
  by_contra hne
  exact (h.apart.forall ha hb hne).1 hid

omit [Inhabited R] in
theorem History.agrees (h : History net saved) {a b : EnrollmentAssignment N R} (ha : a ∈ saved)
    (hb : b ∈ saved) : disagrees a.machine b.machine = false := by
  by_cases heq : b = a
  · subst heq
    simp [disagrees]
  · obtain ⟨hid, hsubnet, hkey⟩ := h.apart.forall hb ha heq
    simp [disagrees, hid, hsubnet, hkey]

/-- A request granted before, made again: the saved assignment, unless an observed Machine
disagrees with it. -/
theorem History.resume (h : History net saved) (hmem : assignment ∈ saved)
    {seen : List (Machine R)} {past : List (EnrollmentAssignment N R)}
    (hg : Granted request ⟨net, seen⟩ past assignment) :
    allocateEnrollment request ⟨net, observed⟩ saved =
      if observed.any (disagrees assignment.machine) then .error .conflict else .ok assignment := by
  have hfind : saved.find? (·.machine.id = request.machineId) = some assignment := by
    cases hf : saved.find? (·.machine.id = request.machineId) with
    | none => exact absurd (decide_eq_true hg.id_eq) (List.find?_eq_none.mp hf _ hmem)
    | some found =>
      have hid : found.machine.id = request.machineId := by simpa using List.find?_some hf
      rw [h.eq_of_id (List.mem_of_find?_eq_some hf) hmem (hid.trans hg.id_eq.symm)]
  have hkey : assignment.machine.publicKey = request.publicKey :=
    congrArg Machine.publicKey hg.machine_eq
  have hdis (m : Machine R) : disagrees (request.machine assignment.machine.subnet) m =
      disagrees assignment.machine m := by
    rw [← hg.machine_eq, disagrees_runtime]
  have hsaved : ¬ saved.any (disagrees assignment.machine ·.machine) = true := by
    simpa using fun a ha => h.agrees hmem ha
  have hnet : ¬ saved.any (·.network ≠ net) = true := by simpa using h.networks
  have hreq : ¬ saved.any (fun a => a.machine.id = request.machineId &&
      a.request ≠ request.identity) = true := by
    simp only [List.any_eq_true, Bool.and_eq_true, decide_eq_true_eq, not_exists, not_and, not_not]
    intro a ha hid
    rw [h.eq_of_id ha hmem (hid.trans hg.id_eq.symm), hg.request_eq]
  have hchoose : chooseSubnet request ⟨net, observed⟩ saved = .ok assignment.machine.subnet := by
    simp only [chooseSubnet, hfind, Option.map_some, Option.some_or]
    rfl
  have hfit : ¬ (!contains net assignment.machine.subnet ||
      request.assignedSubnet.any (· ≠ assignment.machine.subnet)) = true := by
    simpa [h.inside _ hmem, Option.any_eq_true] using hg.assigned
  have hany : (observed ++ saved.map (·.machine)).any
      (disagrees (request.machine assignment.machine.subnet)) =
      observed.any (disagrees assignment.machine) := by
    rw [funext hdis, List.any_append, List.any_map]
    exact Bool.or_eq_left_iff_imp.mpr fun ht => absurd ht hsaved
  simp only [allocateEnrollment, if_neg hg.endpoints, if_neg (Nat.not_lt.mpr hg.size), if_neg hnet,
    if_neg hreq, hchoose, ok_bind, if_neg hfit, hany, hfind]
  split_ifs with hkeys hobs hobs
  · rfl
  · -- another Machine of the key would disagree
    exfalso
    obtain ⟨m, hm, hclash⟩ := List.any_eq_true.mp hkeys
    simp only [Bool.and_eq_true, decide_eq_true_eq] at hclash
    have hm' : disagrees assignment.machine m = true := by
      simp [disagrees, hg.id_eq, hclash.1, hclash.2, hkey]
    exact hobs (hany ▸ List.any_eq_true.mpr ⟨m, hm, (hdis m).trans hm'⟩)
  · rfl
  · rfl

end Runs

/-- Over every sequence of requests against observations of one network, whatever these hold: the
saved Machines differ in ID, subnet and key and lie inside the network; a result lies inside it and
shares neither subnet nor key with another Machine saved or observed; a request granted before gets
its saved assignment again, or is refused where an observed Machine disagrees with it; and the pool
is exhausted only when every /24 of the network is claimed. -/
theorem enrollment_runs (net : N)
    (attempts : List (RegisterRequest R × List (Machine R))) :
    let saved := attempts.foldl (enroll net) []
    saved.Pairwise Apart ∧ (∀ a ∈ saved, contains net a.machine.subnet = true) ∧
      (∀ request observed a, allocateEnrollment request ⟨net, observed⟩ saved = .ok a →
        contains net a.machine.subnet = true ∧
          ∀ m ∈ observed ++ saved.map (·.machine), m.id ≠ a.machine.id →
            m.subnet ≠ a.machine.subnet ∧ m.publicKey ≠ a.machine.publicKey) ∧
      (∀ before request seen after a, attempts = before ++ (request, seen) :: after →
        allocateEnrollment request ⟨net, seen⟩ (before.foldl (enroll net) []) = .ok a →
        ∀ observed, allocateEnrollment request ⟨net, observed⟩ saved =
          if observed.any (disagrees a.machine) then .error .conflict else .ok a) ∧
      ∀ request observed, allocateEnrollment request ⟨net, observed⟩ saved = .error .exhausted →
        ∀ subnet : MachineSubnet, contains net subnet = true →
          subnet ∈ observed.map (·.subnet) ++ saved.map (·.machine.subnet) := by
  intro saved
  have hempty : History net ([] : List (EnrollmentAssignment N R)) :=
    ⟨.nil, fun _ h => absurd h List.not_mem_nil, fun _ h => absurd h List.not_mem_nil⟩
  have hrun : History net saved := hempty.run attempts
  refine ⟨hrun.apart, hrun.inside, ?_, ?_, ?_⟩
  · intro request observed a h
    have hg := granted h
    refine ⟨hg.inside, ?_⟩
    intro m hm hid
    exact (disagrees_eq_false (hg.agrees m hm)).2 hid
  · intro before request seen after a hattempts h observed
    have hg := granted h
    refine hrun.resume ?_ hg
    have hstep : enroll net (before.foldl (enroll net) []) (request, seen) =
        save (before.foldl (enroll net) []) a := by
      simp only [enroll, h]
    show a ∈ attempts.foldl (enroll net) []
    rw [hattempts, List.foldl_append, List.foldl_cons, hstep]
    exact mem_run after hg.mem_save
  · intro request observed h subnet hs
    exact allocateEnrollment_exhausted h hs

end Allocation

instance listedNetworks : Networks (List MachineSubnet) where
  prefixLen _ := 22
  subnets net := some net
  contains net subnet := net.contains subnet
  complete hnet hsubnet := Option.some.inj hnet ▸ List.contains_iff_mem.mp hsubnet

def joining (id : String) (key : WireGuardPublicKey) : RegisterRequest Unit :=
  ⟨id, none, ⟨[], false, true, false⟩, id, .none, key, none, ["198.51.100.1:51820"], ()⟩

/-- Observations are taken as they are: a saved Machine keeps its subnet beside an observed one of
another ID with the same subnet, and a third Machine is granted its own. -/
theorem stale_observation_shares_subnet :
    ∃ (net : List MachineSubnet) (saved : List (EnrollmentAssignment (List MachineSubnet) Unit))
      (request : RegisterRequest Unit) (observed : List (Machine Unit)),
      saved = [(joining "a" 1, [])].foldl (enroll net) [] ∧
        (allocateEnrollment request ⟨net, observed⟩ saved).isOk = true ∧
        ∃ a ∈ saved, ∃ m ∈ observed, m.id ≠ a.machine.id ∧ m.subnet = a.machine.subnet :=
  ⟨[⟨0⟩, ⟨1⟩], _, joining "c" 3, [(joining "b" 2).machine ⟨0⟩], rfl, by decide +kernel,
    by decide +kernel⟩

end Ployz.Enrollment
