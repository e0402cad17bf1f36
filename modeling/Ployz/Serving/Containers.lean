import Ployz.Deploy.Snapshot
import Ployz.Lib.Ranked

/-!
# Serving containers

What an observer lets traffic go to: the healthy, addressed containers of each Qualified Service
that have the Serving Shape of the newest such container, for any text the shapes are digests of.
The choice depends on the containers and not on how they are listed (`servingContainers_perm`), one
shape of a Service serves (`servingShape_unique`), and an eligible container is left out only for a
newer one of another shape (`exists_newer`).
-/

namespace Ployz.Serving

open Deploy

/-! ## Observations -/

inductive HealthObservation
  | notConfigured
  | starting
  | healthy
  | unhealthy
  | unrecognized (text : String)
deriving DecidableEq

abbrev ContainerAddress := BitVec 32

/-- A container as it is observed, with the health of a running one and its address. -/
structure Observation extends ContainerObservation where
  health : HealthObservation
  address : Option ContainerAddress
deriving DecidableEq

namespace Observation

/-- Running with health Healthy or NotConfigured. -/
def isHealthy (container : Observation) : Bool :=
  isRunning container.runtime &&
    (container.health == .healthy || container.health == .notConfigured)

/-- Container address when this container is healthy and addressed. -/
def trafficAddress (container : Observation) : Option ContainerAddress :=
  if container.isHealthy then container.address else none

/-- Creation time, then container ID. -/
def creationKey (container : Observation) : Int ×ₗ String :=
  toLex (container.createdAtUnixNanos, container.containerId)

def servingShape (text : ShapeText) (container : Observation) : ServingShape :=
  container.resolvedSpec.servingShape text

end Observation

/-- Service containers from mixed observations. Hook containers are dropped. -/
def serviceContainers (observations : List Observation) : List Observation :=
  observations.filter (·.isService)

def rank (identity : Deploy.QualifiedService) : String ×ₗ String :=
  toLex (identity.owner.value, identity.name.value)

theorem rank_inj {a b : Deploy.QualifiedService} (h : rank a = rank b) : a = b := by
  obtain ⟨⟨owner, _⟩, ⟨name, _⟩⟩ := a
  obtain ⟨⟨owner', _⟩, ⟨name', _⟩⟩ := b
  obtain ⟨rfl, rfl⟩ := Prod.mk.inj (toLex.injective h)
  rfl

/-! ## Who serves -/

structure ServingContainer where
  container : Observation
  address : ContainerAddress
deriving DecidableEq

/-- The newest container of some that can take traffic. -/
def newestEligible (members : List Observation) : Option Observation :=
  Ranked.lastMax Observation.creationKey (members.filter (·.trafficAddress.isSome))

/-- The serving containers among those of one Service. -/
def selectServing (text : ShapeText) (members : List Observation) : List ServingContainer :=
  match newestEligible members with
  | none => []
  | some newest => members.filterMap fun container =>
    container.trafficAddress.bind fun address =>
      if container.servingShape text =
        newest.servingShape text then some ⟨container, address⟩ else none

def membersOf (containers : List Observation) (identity : Deploy.QualifiedService) :
    List Observation :=
  containers.filter (·.identity == identity)

/-- Serving containers for this observer: healthy, addressed, and of the newest traffic-eligible
Serving Shape per Qualified Service. -/
def servingContainers (text : ShapeText) (containers : List Observation) : List ServingContainer :=
  (Ranked.sortBy rank (containers.map (·.identity)).dedup).flatMap fun identity =>
    selectServing text (membersOf containers identity)

/-- No two containers have one ID. -/
def Distinct (containers : List Observation) : Prop := (containers.map (·.containerId)).Nodup

section

variable {text : ShapeText} {containers others : List Observation}

theorem Distinct.sublist (h : Distinct containers) (hsub : others.Sublist containers) :
    Distinct others :=
  List.Nodup.sublist (hsub.map _) h

theorem Distinct.creationKey_inj (h : Distinct containers) {a b : Observation} (ha : a ∈ containers)
    (hb : b ∈ containers) (hkey : a.creationKey = b.creationKey) : a = b :=
  List.inj_on_of_nodup_map h ha hb (Prod.mk.inj (toLex.injective hkey)).2

theorem newestEligible_perm (h : Distinct containers) (hperm : containers.Perm others) :
    newestEligible containers = newestEligible others := by
  refine Ranked.lastMax_perm ?_ (hperm.filter _)
  intro a ha b hb
  exact h.creationKey_inj (List.mem_of_mem_filter ha) (List.mem_of_mem_filter hb)

theorem selectServing_perm (h : Distinct containers) (hperm : containers.Perm others) :
    (selectServing text containers).Perm (selectServing text others) := by
  unfold selectServing
  rw [newestEligible_perm h hperm]
  cases newestEligible others with
  | none => exact .refl _
  | some newest => exact hperm.filterMap _

theorem servingContainers_perm (h : Distinct containers) (hperm : containers.Perm others) :
    (servingContainers text containers).Perm (servingContainers text others) := by
  have hidentities : Ranked.sortBy rank (containers.map (·.identity)).dedup =
      Ranked.sortBy rank (others.map (·.identity)).dedup :=
    Ranked.sortBy_perm (fun _ _ _ _ => rank_inj) (hperm.map _).dedup
  unfold servingContainers
  rw [hidentities]
  refine List.Perm.flatMap_left _ fun identity _ => ?_
  exact selectServing_perm (h.sublist List.filter_sublist) (hperm.filter _)

theorem mem_selectServing {serving : ServingContainer} : serving ∈ selectServing text containers ↔
    serving.container ∈ containers ∧ serving.container.trafficAddress = some serving.address ∧
      ∃ newest, newestEligible containers = some newest ∧
        serving.container.servingShape text = newest.servingShape text := by
  unfold selectServing
  cases newestEligible containers with
  | none => simp
  | some newest =>
    simp only [List.mem_filterMap, Option.bind_eq_some_iff, Option.ite_none_right_eq_some,
      Option.some.injEq, exists_eq_left']
    constructor
    · rintro ⟨container, hmem, address, haddress, hshape, rfl⟩
      exact ⟨hmem, haddress, hshape⟩
    · rintro ⟨hmem, haddress, hshape⟩
      exact ⟨serving.container, hmem, serving.address, haddress, hshape, rfl⟩

theorem mem_servingContainers {serving : ServingContainer} :
    serving ∈ servingContainers text containers ↔
    serving.container ∈ containers ∧ serving.container.trafficAddress = some serving.address ∧
      ∃ newest, newestEligible (membersOf containers serving.container.identity) = some newest ∧
        serving.container.servingShape text = newest.servingShape text := by
  simp only [servingContainers, List.mem_flatMap, Ranked.mem_sortBy, List.mem_dedup, List.mem_map,
    mem_selectServing, membersOf, List.mem_filter, beq_iff_eq]
  constructor
  · rintro ⟨_, _, ⟨hmem, rfl⟩, haddress, hnewest⟩
    exact ⟨hmem, haddress, hnewest⟩
  · rintro ⟨hmem, haddress, hnewest⟩
    exact ⟨serving.container.identity, ⟨serving.container, hmem, rfl⟩, ⟨hmem, rfl⟩, haddress,
      hnewest⟩

theorem mem_of_newestEligible {newest : Observation} (h : newestEligible containers = some newest) :
    newest ∈ containers ∧ newest.trafficAddress.isSome = true := by
  have hmem := Ranked.lastMax_mem h
  exact List.mem_filter.mp hmem

theorem servingShape_unique {a b : ServingContainer} (ha : a ∈ servingContainers text containers)
    (hb : b ∈ servingContainers text containers)
    (hidentity : a.container.identity = b.container.identity) :
    a.container.servingShape text = b.container.servingShape text := by
  obtain ⟨_, _, newest, hnewest, hshape⟩ := mem_servingContainers.mp ha
  obtain ⟨_, _, newest', hnewest', hshape'⟩ := mem_servingContainers.mp hb
  rw [← hidentity, hnewest] at hnewest'
  obtain rfl := Option.some.inj hnewest'
  exact hshape.trans hshape'.symm

/-- A healthy, addressed container is left out only where one of another shape serves that is newer
than all of its own shape that can take traffic. -/
theorem exists_newer (h : Distinct containers) {container : Observation}
    {address : ContainerAddress} (hmem : container ∈ containers)
    (haddress : container.trafficAddress = some address)
    (hleft : ⟨container, address⟩ ∉ servingContainers text containers) :
    ∃ newer ∈ servingContainers text containers, newer.container.identity = container.identity ∧
      newer.container.servingShape text ≠ container.servingShape text ∧
      ∀ same ∈ containers, same.identity = container.identity → same.trafficAddress.isSome = true →
        same.servingShape text = container.servingShape text →
          same.creationKey < newer.container.creationKey := by
  have hmember : container ∈ membersOf containers container.identity := by simp [membersOf, hmem]
  cases hnewest : newestEligible (membersOf containers container.identity) with
  | none =>
    have hnone := Ranked.lastMax_eq_none.mp hnewest
    have hin : container ∈
        (membersOf containers container.identity).filter (·.trafficAddress.isSome) :=
      List.mem_filter.mpr ⟨hmember, by simp [haddress]⟩
    rw [hnone] at hin
    cases hin
  | some newest =>
    obtain ⟨hnewestMem, heligible⟩ := mem_of_newestEligible hnewest
    obtain ⟨newestIn, hidentity⟩ : newest ∈ containers ∧ newest.identity = container.identity := by
      simpa [membersOf] using hnewestMem
    obtain ⟨newestAddress, hnewestAddress⟩ := Option.isSome_iff_exists.mp heligible
    have hshape : newest.servingShape text ≠ container.servingShape text := fun heq =>
      hleft (mem_servingContainers.mpr ⟨hmem, haddress, newest, hnewest, heq.symm⟩)
    refine ⟨⟨newest, newestAddress⟩, mem_servingContainers.mpr
      ⟨newestIn, hnewestAddress, newest, by rw [hidentity]; exact hnewest, rfl⟩, hidentity, hshape,
        ?_⟩
    intro same hsame hsameIdentity hsameEligible hsameShape
    have hsameMember : same ∈
        (membersOf containers container.identity).filter (·.trafficAddress.isSome) := by
      simp [membersOf, hsame, hsameIdentity, hsameEligible]
    refine lt_of_le_of_ne (Ranked.le_lastMax hnewest hsameMember) fun hkey => hshape ?_
    rw [h.creationKey_inj newestIn hsame hkey.symm]
    exact hsameShape

end

end Ployz.Serving
