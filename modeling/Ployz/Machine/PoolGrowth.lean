import Ployz.Deploy.Spec
import Mathlib.Tactic.SplitIfs
import Mathlib.Algebra.Group.Nat.Defs

/-!
# Growing a Pool that ZFS reports as it likes

The growth loop of the volume plugin, with whatever the commands answer in every round: the length
and allocation of the backing file, the room on the host, the Pool ZFS selects and its size.

Main theorem: `growth_stops_and_is_safe`. A round that does not end the loop either raises the
observed size, or follows a retry of the present file and leaves it; in a round of its own, a size
that stays is refused. The size below the minimum therefore bounds the rounds.
-/

namespace Ployz.Storage

open Run
open Deploy (StorageCapacityError)

/-! ## Storage -/

/-- The first byte count a `u64` does not hold. -/
def u64Limit : Nat := 2 ^ 64

def storageGib : Nat := 1024 * 1024 * 1024

def unknown (message : String) : StorageCapacityError := .storageCapacityUnknown message

def checkedAdd (a b : Nat) (message : String) : Except StorageCapacityError Nat :=
  if a + b < u64Limit then pure (a + b) else throw (unknown message)

/-- Pool headroom applied consistently when planning, creating, and growing. -/
def storageWithHeadroom (commitment : Nat) : Except StorageCapacityError Nat :=
  checkedAdd commitment (max (commitment / 10) storageGib) "commitments overflow u64"

/-- Root space preserved for the operating system. -/
def storageHostReserve (total : Nat) : Nat := max (total / 4) (10 * storageGib)

def wholeGib (bytes : Nat) : Nat := (bytes + (storageGib - 1)) / storageGib * storageGib

/-- Rounded backing growth, preserving the difference between backing length and ZFS size. -/
def storageGrowthTarget (length observed minimum : Nat) : Except StorageCapacityError Nat :=
  if length < observed then throw (unknown "backing length is below the observed Pool size")
  else if observed ≤ minimum ∧ length + wholeGib (minimum - observed) < u64Limit then
    pure (length + wholeGib (minimum - observed))
  else throw (unknown "Pool growth overflow or inconsistent observation")

theorem storageGrowthTarget_eq_ok {length observed minimum target : Nat} :
    storageGrowthTarget length observed minimum = .ok target ↔ observed ≤ length ∧
      observed ≤ minimum ∧ length + wholeGib (minimum - observed) < u64Limit ∧
      target = length + wholeGib (minimum - observed) := by
  unfold storageGrowthTarget
  split_ifs with hobserved hroom
  · simp only [false_iff]
    omega
  · simp only [pure_eq_ok]
    omega
  · simp only [false_iff]
    omega

structure Host where
  total : Nat
  available : Nat
deriving DecidableEq

/-- The file under the managed Pool: its length and the bytes allocated to it. -/
structure Backing where
  length : Nat
  allocated : Nat
deriving DecidableEq

inductive VolumeError
  | capacity (error : StorageCapacityError)
  | message (text : String)
deriving DecidableEq

def poolName : String := "ployz"

def poolBackingPath : String := "/var/lib/ployz-machine-pool"

def checkHostRoot (host : Host) (allocation : Nat) : Except VolumeError Unit :=
  let reserve := storageHostReserve host.total
  if u64Limit ≤ reserve + allocation then
    throw (.message "host-root reserve calculation overflowed u64")
  else if host.available < reserve + allocation then
    throw (.capacity (.insufficientStorage allocation host.available reserve))
  else pure ()

def verifyPreallocation (backing : Backing) (expected : Nat) : Except VolumeError Unit :=
  if backing.length < expected then
    throw (.message (s!"Machine Pool backing file {poolBackingPath} is only " ++
      s!"{backing.length} of {expected} bytes long"))
  else if backing.allocated < expected then
    throw (.message (s!"Machine Pool backing file {poolBackingPath} is sparse: " ++
      s!"{backing.allocated} of {expected} bytes are allocated"))
  else pure ()

/-- The Pool size that a commitment and other data need. -/
def minimumSize (commitment unmanagedUsedBytes : Nat) : Except VolumeError Nat := do
  let headroom ← (storageWithHeadroom commitment).mapError .capacity
  if headroom + unmanagedUsedBytes < u64Limit then return headroom + unmanagedUsedBytes
  else throw (.message "Pool occupancy overflows u64")

end Ployz.Storage

namespace Ployz.Storage.Growth

open Run

/-- A Pool as ZFS reports it. -/
structure Reported where
  name : String
  size : Nat
deriving DecidableEq

/-- What the commands of one round answer, in the order they are run. -/
structure Round where
  backing : Except VolumeError Backing
  host : Except VolumeError Host
  fallocated : Except VolumeError Unit
  verified : Except VolumeError Backing
  online : Except VolumeError Unit
  usable : Except VolumeError (Option Reported)

/-- A length asked of `fallocate`, with the file and the host observed before. -/
structure Allocation where
  backing : Backing
  host : Host
  target : Nat
deriving DecidableEq

/-- How growth ended: what was asked of `fallocate`, the last size reported, and the result. -/
structure Grown where
  allocations : List Allocation
  reported : Nat
  outcome : Except VolumeError Unit

/-- The allocation a round asks for, if any. -/
def allocation (minimum : Nat) (retryBacking : Bool) (observed : Nat) (round : Round) :
    Except VolumeError (Option Allocation) := do
  let backing ← round.backing
  let target ← (if retryBacking then pure backing.length
    else (storageGrowthTarget backing.length observed minimum).mapError .capacity)
  if backing.allocated < target then
    let host ← round.host
    checkHostRoot host (target - backing.allocated)
    return some ⟨backing, host, target⟩
  else return none

/-- Allocates what was asked for, and verifies it. -/
def preallocate (round : Round) : Option Allocation → Except VolumeError Unit
  | none => pure ()
  | some allocation => do
    round.fallocated
    verifyPreallocation (← round.verified) allocation.target

/-- The rest of a round: the size of the Pool after it. -/
def expand (pool : Reported) (round : Round) (asked : Option Allocation) :
    Except VolumeError Nat := do
  preallocate round asked
  round.online
  match ← round.usable with
  | none => throw (.message
      s!"expanded Machine Pool {pool.name}, but ZFS did not report it")
  | some expanded =>
    if expanded.name ≠ pool.name then throw (.message
      s!"expanded Machine Pool {pool.name}, but ZFS selected {expanded.name}")
    else return expanded.size

def noProgress (minimum : Nat) (pool : Reported) (expanded : Nat) : VolumeError :=
  .message (s!"Machine Pool {pool.name} made no usable-capacity progress after growth; ZFS still " ++
    s!"reports {expanded} bytes, below the required {minimum} bytes including headroom")

/-- The growth loop, for at most so many turns. -/
def growLoop (minimum : Nat) (pool : Reported) (rounds : Nat → Round) :
    Nat → Nat → Bool → Nat → List Allocation → Option Grown
  | 0, _, _, _, _ => none
  | turns + 1, round, retryBacking, observed, allocations =>
    match allocation minimum retryBacking observed (rounds round) with
    | .error error => some ⟨allocations, observed, .error error⟩
    | .ok asked =>
      let allocations := allocations ++ asked.toList
      match expand pool (rounds round) asked with
      | .error error => some ⟨allocations, observed, .error error⟩
      | .ok expanded =>
        if minimum ≤ expanded then some ⟨allocations, expanded, .ok ()⟩
        else if expanded < observed ∨ (expanded = observed ∧ retryBacking = false) then
          some ⟨allocations, expanded, .error (noProgress minimum pool expanded)⟩
        else growLoop minimum pool rounds turns (round + 1) (observed < expanded) expanded
          allocations

/-- The file before the first round can be grown, if it is too short. -/
def growable (minimum observed : Nat) (first : Except VolumeError Backing) :
    Except VolumeError Nat := do
  let backing ← first
  if backing.length < minimum then
    let _ ← (storageGrowthTarget backing.length observed minimum).mapError VolumeError.capacity
    return backing.length
  else return backing.length

def notManaged (pool : Reported) : VolumeError :=
  .message (s!"Machine Pool {pool.name} is not the managed root-backed Pool {poolName}; " ++
    s!"automatic growth cannot use {poolBackingPath}")

/-- Makes the managed backing Pool large enough for all requested bounds. `first` is the file as it
is observed before the rounds. -/
def ensureCapacity (turns : Nat) (pool : Reported) (commitment unmanagedUsedBytes : Nat)
    (first : Except VolumeError Backing) (rounds : Nat → Round) : Option Grown :=
  match minimumSize commitment unmanagedUsedBytes with
  | .error error => some ⟨[], pool.size, .error error⟩
  | .ok minimum =>
    if minimum ≤ pool.size then some ⟨[], pool.size, .ok ()⟩
    else if pool.name ≠ poolName then
      some ⟨[], pool.size, .error (notManaged pool)⟩
    else match growable minimum pool.size first with
    | .error error => some ⟨[], pool.size, .error error⟩
    | .ok length => growLoop minimum pool rounds turns 0 (pool.size < length) pool.size []

/-! ## One round -/

section

variable {minimum observed : Nat} {retryBacking : Bool} {pool : Reported} {rounds : Nat → Round}

/-- The allocation is of what a round observed, does not shorten the file, and leaves the host its
reserve. -/
structure Safe (rounds : Nat → Round) (allocation : Allocation) : Prop where
  observed : ∃ round, (rounds round).backing = .ok allocation.backing ∧
    (rounds round).host = .ok allocation.host
  lengthens : allocation.backing.length ≤ allocation.target
  reserve : storageHostReserve allocation.host.total +
    (allocation.target - allocation.backing.allocated) ≤ allocation.host.available

theorem checkHostRoot_eq_ok {host : Host} {allocation : Nat}
    (h : checkHostRoot host allocation = .ok ()) :
    storageHostReserve host.total + allocation ≤ host.available := by
  unfold checkHostRoot at h
  dsimp only at h
  split_ifs at h with hlimit hroom
  omega

theorem le_target {backing : Backing} {target : Nat}
    (h : (if retryBacking then pure backing.length
      else (storageGrowthTarget backing.length observed minimum).mapError .capacity :
        Except VolumeError Nat) = .ok target) : backing.length ≤ target := by
  cases retryBacking with
  | true => exact Nat.le_of_eq (Except.ok.inj h)
  | false =>
    have hgrowth := storageGrowthTarget_eq_ok.mp (mapError_eq_ok.mp h)
    omega

theorem safe_of_allocation {round : Nat} {asked : Allocation}
    (h : allocation minimum retryBacking observed (rounds round) = .ok (some asked)) :
    Safe rounds asked := by
  unfold allocation at h
  obtain ⟨backing, hbacking, h⟩ := bind_eq_ok.mp h
  obtain ⟨target, htarget, h⟩ := bind_eq_ok.mp h
  split_ifs at h with hless
  · obtain ⟨host, hhost, h⟩ := bind_eq_ok.mp h
    obtain ⟨_, hroom, h⟩ := bind_eq_ok.mp h
    obtain rfl := Option.some.inj (Except.ok.inj h)
    exact ⟨⟨round, hbacking, hhost⟩, le_target htarget, checkHostRoot_eq_ok hroom⟩
  · cases h

theorem usable_of_expand {round : Round} {asked : Option Allocation} {expanded : Nat}
    (h : expand pool round asked = .ok expanded) :
    round.usable = .ok (some ⟨pool.name, expanded⟩) := by
  unfold expand at h
  obtain ⟨-, -, h⟩ := bind_eq_ok.mp h
  obtain ⟨-, -, h⟩ := bind_eq_ok.mp h
  obtain ⟨usable, husable, h⟩ := bind_eq_ok.mp h
  cases usable with
  | none => cases h
  | some selected =>
    dsimp only at h
    split_ifs at h with hname
    rw [husable, ← Except.ok.inj h, ← not_not.mp hname]

/-! ## The loop -/

/-- What holds however growth ends. -/
structure Ended (minimum : Nat) (pool : Reported) (rounds : Nat → Round) (grown : Grown) :
    Prop where
  reported : grown.reported = pool.size ∨
    ∃ round, (rounds round).usable = .ok (some ⟨pool.name, grown.reported⟩)
  enough : grown.outcome = .ok () → minimum ≤ grown.reported
  safe : ∀ allocation ∈ grown.allocations, Safe rounds allocation

/-- The loop ends: a round that goes on lowers what is missing, or it was a retry and the next one
is not. -/
theorem growLoop_ends (rounds : Nat → Round) (turns round : Nat) (allocations : List Allocation)
    (hreported : observed = pool.size ∨
      ∃ round, (rounds round).usable = .ok (some ⟨pool.name, observed⟩))
    (hsafe : ∀ allocation ∈ allocations, Safe rounds allocation)
    (hturns : 2 * (minimum - observed) + retryBacking.toNat < turns) :
    ∃ grown, Ended minimum pool rounds grown ∧ ∀ more, turns ≤ more →
      growLoop minimum pool rounds more round retryBacking observed allocations = some grown := by
  induction turns generalizing round retryBacking observed allocations with
  | zero => omega
  | succ turns ih =>
    -- every bound on the turns is a successor, so one turn is taken
    suffices hstep : ∃ grown, Ended minimum pool rounds grown ∧ ∀ more, turns ≤ more →
        growLoop minimum pool rounds (more + 1) round retryBacking observed allocations =
          some grown by
      obtain ⟨grown, hended, hstep⟩ := hstep
      refine ⟨grown, hended, fun more hmore => ?_⟩
      obtain ⟨more, rfl⟩ := Nat.exists_eq_add_of_le' (Nat.le_trans (Nat.le_add_left 1 turns) hmore)
      exact hstep more (by omega)
    unfold growLoop
    cases hasked : allocation minimum retryBacking observed (rounds round) with
    | error error =>
      exact ⟨⟨allocations, observed, .error error⟩, ⟨hreported, nofun, hsafe⟩, fun _ _ => rfl⟩
    | ok asked =>
      have hsafe' : ∀ allocation ∈ allocations ++ asked.toList, Safe rounds allocation := by
        intro allocation hmem
        rcases List.mem_append.mp hmem with hold | hnew
        · exact hsafe allocation hold
        · obtain rfl := Option.mem_toList.mp hnew
          exact safe_of_allocation hasked
      cases hexpanded : expand pool (rounds round) asked with
      | error error =>
        exact ⟨⟨allocations ++ asked.toList, observed, .error error⟩, ⟨hreported, nofun, hsafe'⟩,
          fun _ _ => by simp only [hexpanded]⟩
      | ok expanded =>
        have hreported' : expanded = pool.size ∨
            ∃ round, (rounds round).usable = .ok (some ⟨pool.name, expanded⟩) :=
          .inr ⟨round, usable_of_expand hexpanded⟩
        by_cases henough : minimum ≤ expanded
        · exact ⟨⟨allocations ++ asked.toList, expanded, .ok ()⟩,
            ⟨hreported', fun _ => henough, hsafe'⟩,
            fun _ _ => by simp only [hexpanded, if_pos henough]⟩
        by_cases hstuck : expanded < observed ∨ (expanded = observed ∧ retryBacking = false)
        · exact ⟨⟨allocations ++ asked.toList, expanded, .error (noProgress minimum pool expanded)⟩,
            ⟨hreported', nofun, hsafe'⟩,
            fun _ _ => by simp only [hexpanded, if_neg henough, if_pos hstuck]⟩
        have hless : 2 * (minimum - expanded) + (decide (observed < expanded)).toNat < turns := by
          by_cases hrose : observed < expanded
          · have := Bool.toNat_le retryBacking
            simp only [hrose, decide_true, Bool.toNat_true]
            omega
          · -- the size stayed, so this was a retry
            have hretry : retryBacking = true := by
              by_contra hretry
              exact hstuck (.inr ⟨by omega, Bool.not_eq_true _ ▸ hretry⟩)
            simp only [hretry, Bool.toNat_true] at hturns
            simp only [hrose, decide_false, Bool.toNat_false]
            omega
        obtain ⟨grown, hended, hrun⟩ := ih (round + 1) _ hreported' hsafe' hless
        exact ⟨grown, hended, fun more hmore => by
          simp only [hexpanded, if_neg henough, if_neg hstuck]
          exact hrun more hmore⟩

end

/-- Growth ends within rounds that the sizes bound, whatever ZFS reports and the commands answer. It
succeeds only when the last reported size is the minimum or more, and what it asked of `fallocate`
never shortened the file observed and left the host observed its reserve. -/
theorem growth_stops_and_is_safe (pool : Reported) (commitment unmanagedUsedBytes : Nat) :
    ∃ turns, ∀ (first : Except VolumeError Backing) (rounds : Nat → Round), ∃ grown,
      (∀ more, turns ≤ more →
        ensureCapacity more pool commitment unmanagedUsedBytes first rounds = some grown) ∧
      (grown.reported = pool.size ∨
        ∃ round, (rounds round).usable = .ok (some ⟨pool.name, grown.reported⟩)) ∧
      (grown.outcome = .ok () → ∃ minimum,
        minimumSize commitment unmanagedUsedBytes = .ok minimum ∧ minimum ≤ grown.reported) ∧
      ∀ allocation ∈ grown.allocations, Safe rounds allocation := by
  unfold ensureCapacity
  cases hminimum : minimumSize commitment unmanagedUsedBytes with
  | error error =>
    exact ⟨0, fun _ _ => ⟨⟨[], pool.size, .error error⟩, fun _ _ => rfl, .inl rfl, nofun, nofun⟩⟩
  | ok minimum =>
    by_cases hlarge : minimum ≤ pool.size
    · exact ⟨0, fun _ _ => ⟨⟨[], pool.size, .ok ()⟩, fun _ _ => if_pos hlarge, .inl rfl,
        fun _ => ⟨minimum, rfl, hlarge⟩, nofun⟩⟩
    by_cases hname : pool.name ≠ poolName
    · refine ⟨0, fun _ _ => ⟨⟨[], pool.size, .error (notManaged pool)⟩, fun _ _ => ?_, .inl rfl,
        nofun, nofun⟩⟩
      simp only [if_neg hlarge, if_pos hname]
    refine ⟨2 * (minimum - pool.size) + 2, fun first rounds => ?_⟩
    simp only [if_neg hlarge, if_neg hname]
    cases growable minimum pool.size first with
    | error error =>
      exact ⟨⟨[], pool.size, .error error⟩, fun _ _ => rfl, .inl rfl, nofun, nofun⟩
    | ok length =>
      have hturns : 2 * (minimum - pool.size) + (decide (pool.size < length)).toNat <
          2 * (minimum - pool.size) + 2 := by
        have := Bool.toNat_le (decide (pool.size < length))
        omega
      obtain ⟨grown, hended, hrun⟩ := growLoop_ends rounds _ 0 [] (.inl rfl) nofun hturns
      exact ⟨grown, hrun, hended.reported, fun h => ⟨minimum, rfl, hended.enough h⟩, hended.safe⟩

end Ployz.Storage.Growth
