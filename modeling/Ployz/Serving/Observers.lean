import Mathlib
import Ployz.Serving.Containers
import Ployz.Corrosion.Certificate
import Ployz.Lib.Run

/-!
# Observers of serving containers

Internal DNS answers and ingress routes are projections of the same observations, each with its own
grouping and its own order. `observers_agree` puts them together: none depends on how observations
are listed, a Service serves from one shape, and while no Machine is known to be down every endpoint
of a hostname is an address that DNS gives for the owner of the hostname.
-/

namespace Ployz.Serving

open Deploy
open Corrosion (CertificateMaterial CertificateChallenge CertificateRow)

/-! ## Internal DNS -/

structure MachineServiceTarget where
  machineId : MachineId
  identity : Deploy.QualifiedService
deriving DecidableEq

structure Projection where
  serviceIds : ServiceId → List ContainerAddress
  identities : Deploy.QualifiedService → List ContainerAddress
  machineIdentities : MachineServiceTarget → List ContainerAddress
  callerNamespaces : ContainerAddress → Option Namespace

/-- The Namespace of the only container with an address. -/
def uniqueCallerNamespaces (containers : List Observation) (address : ContainerAddress) :
    Option Namespace :=
  match (containers.filter (·.address == some address)).map (·.owner) with
  | [only] => some only
  | _ => none

/-- Serving containers on Machines that are not known to be down. -/
def reachable (text : ShapeText) (observations : List Observation) (localId : MachineId)
    (downMachines : Option (List MachineId)) : List ServingContainer :=
  (servingContainers text (serviceContainers observations)).filter fun serving =>
    !(serving.container.machineId != localId &&
      downMachines.any (·.contains serving.container.machineId))

/-- The addresses of the serving containers `p` holds of. -/
def addressesOf (serving : List ServingContainer) (p : Observation → Bool) :
    List ContainerAddress :=
  (serving.filter fun serving => p serving.container).map (·.address)

def Projection.fromObservations (text : ShapeText) (observations : List Observation)
    (localId : MachineId) (downMachines : Option (List MachineId)) : Projection :=
  let serving := reachable text observations localId downMachines
  { serviceIds := fun id => addressesOf serving (·.serviceId == id)
    identities := fun identity => addressesOf serving (·.identity == identity)
    machineIdentities := fun target => addressesOf serving fun container =>
      container.machineId == target.machineId && container.identity == target.identity
    callerNamespaces := uniqueCallerNamespaces observations }

inductive InternalQuery
  | empty
  | service (identity : Deploy.QualifiedService)
  | callerService (name : ServiceName)
  | nearest (identity : Deploy.QualifiedService)
  | serviceId (id : ServiceId)
  | machine (target : MachineServiceTarget)
  | regional
deriving DecidableEq

inductive ResponseCode
  | noError
  | nxDomain
deriving DecidableEq

structure Response where
  code : ResponseCode
  answers : List ContainerAddress
deriving DecidableEq

/-- Addresses of one query, rotated by the times the name was asked for. -/
def Projection.addresses (projection : Projection) (localSubnet : ContainerAddress → Bool)
    (source : Option ContainerAddress) (next : Nat) : InternalQuery → List ContainerAddress
  | .empty | .regional => []
  | .service identity => (projection.identities identity).rotate next
  | .callerService name =>
    match source.bind projection.callerNamespaces with
    | some owner => (projection.identities ⟨owner, name⟩).rotate next
    | none => []
  | .nearest identity =>
    Ranked.sortBy (fun address => !localSubnet address) (projection.identities identity)
  | .serviceId id => projection.serviceIds id
  | .machine target => projection.machineIdentities target

/-- The response to an internal query. Records other than A have none. -/
def Projection.planInternal (projection : Projection) (isA : Bool)
    (localSubnet : ContainerAddress → Bool)
    (query : InternalQuery) (source : Option ContainerAddress) (next : Nat) : Response :=
  if isA then
    let addresses := projection.addresses localSubnet source next query
    if addresses = [] then ⟨.nxDomain, []⟩ else ⟨.noError, addresses⟩
  else ⟨.noError, []⟩

/-! ## Ingress routes -/

/-- A certificate's name: a hostname, or a wildcard one label under a parent. -/
inductive CertificateHost
  | host (hostname : String)
  | wildcard (parent : String)
deriving DecidableEq

/-- What follows the first dot of a hostname. -/
def afterDot (hostname : String) : Option String :=
  match hostname.toList.dropWhile (· ≠ '.') with
  | [] => none
  | _ :: rest => some (String.ofList rest)

def CertificateHost.covers (name : CertificateHost) (hostname : String) : Bool :=
  match name with
  | .host own => own = hostname
  | .wildcard parent => afterDot hostname = some parent

/-- Certificate rows in the order of their names. -/
abbrev Certificates := List (CertificateHost × CertificateRow)

/-- Published material that serves `hostname`: its own published row, else a published wildcard one
label above it. -/
def publishedCover (hostname : String) (rows : Certificates) : Option CertificateMaterial :=
  (((rows.lookup (.host hostname)).bind (·.published?)).or
    (rows.findSome? fun row => if row.1.covers hostname then row.2.published? else none))

structure ProjectedCertificate where
  challenge : Option CertificateChallenge := none
  material : Option CertificateMaterial := none
  lastError : Option String := none
deriving DecidableEq

structure IngressEndpoint where
  address : ContainerAddress
  port : Nat
deriving DecidableEq

structure IngressPublication where
  owner : Deploy.QualifiedService
  http : Option (List IngressEndpoint)
  https : Option (List IngressEndpoint)
deriving DecidableEq

structure IngressSite where
  publication : Option IngressPublication
  certificate : Option ProjectedCertificate
deriving DecidableEq

structure SiteBuilder where
  owner : Option Deploy.QualifiedService := none
  http : Option (List IngressEndpoint) := none
  https : Option (List IngressEndpoint) := none
  certificate : Option ProjectedCertificate := none
deriving DecidableEq

namespace SiteBuilder

/-- The list of one protocol is there, with `added` at its end. -/
def publish (owner : Deploy.QualifiedService) (protocol : HttpProtocol)
    (added : List IngressEndpoint) (site : SiteBuilder) : SiteBuilder :=
  match protocol with
  | .http =>
    { site with owner := site.owner.or (some owner), http := some (site.http.getD [] ++ added) }
  | .https =>
    { site with owner := site.owner.or (some owner), https := some (site.https.getD [] ++ added) }

def intoSite (site : SiteBuilder) : IngressSite :=
  ⟨site.owner.map fun owner => ⟨owner, site.http, site.https⟩, site.certificate⟩

end SiteBuilder

abbrev Sites := String → Option SiteBuilder

/-- A hostname as the container of its owner publishes it. -/
structure Publication where
  owner : Deploy.QualifiedService
  hostname : String
  containerPort : Nat
  httpProtocol : HttpProtocol
deriving DecidableEq

def publications (owners : String → Option Deploy.QualifiedService) (container : Observation) :
    List Publication :=
  container.resolvedSpec.ports.filterMap fun port =>
    match port with
    | .ingress hostname _ containerPort httpProtocol =>
      if owners hostname = some container.identity then
        some ⟨container.identity, hostname, containerPort, httpProtocol⟩
      else none
    | .host .. => none

def collect (sites : Sites) (publication : Publication) : Sites :=
  Function.update sites publication.hostname (some
    (((sites publication.hostname).getD {}).publish publication.owner publication.httpProtocol []))

/-- Add an endpoint to a hostname that was collected. -/
def route (sites : Sites) (endpoint : ContainerAddress × Publication) : Except String Sites :=
  match sites endpoint.2.hostname with
  | some site => .ok (Function.update sites endpoint.2.hostname (some
      (site.publish endpoint.2.owner endpoint.2.httpProtocol
        [⟨endpoint.1, endpoint.2.containerPort⟩])))
  | none => .error "published hostname was collected above"

/-- The state of a certificate's own site. A wildcard is not a site. -/
def certify (sites : Sites) (row : CertificateHost × CertificateRow) : Sites :=
  match row.1 with
  | .host hostname => Function.update sites hostname (some
      { (sites hostname).getD {} with
        certificate := some ⟨row.2.challenge?, row.2.material?, row.2.lastError?⟩ })
  | .wildcard _ => sites

/-- Published material wins over what ACME issued. -/
def cover (certificates : Certificates) (hostname : String) (site : SiteBuilder) : SiteBuilder :=
  if site.https = none then site
  else match publishedCover hostname certificates with
    | some material =>
      { site with certificate := some { site.certificate.getD {} with material := some material } }
    | none => site

/-- Containers of the local Machine first, then by Service, creation time and ID. -/
def containerOrder (localMachine : MachineId) (container : Observation) :
    Bool ×ₗ (String ×ₗ String) ×ₗ (Int ×ₗ String) :=
  toLex (container.machineId != localMachine,
    toLex (rank container.identity, container.creationKey))

def hostnameOwners (containers : List Observation) (hostname : String) :
    Option Deploy.QualifiedService :=
  hostnameOwner (containers.map (·.toContainerObservation)) hostname

/-- The endpoints of serving containers, with what each is published as. -/
def endpoints (owners : String → Option Deploy.QualifiedService) (serving : List ServingContainer) :
    List (ContainerAddress × Publication) :=
  serving.flatMap fun serving => (publications owners serving.container).map (serving.address, ·)

/-- The complete ingress-relevant value from replicated observations: its sites by hostname. -/
def derive (text : ShapeText) (machine : MachineId) (observations : List Observation)
    (certificates : Certificates) :
    Except String (String → Option IngressSite) := do
  let containers := serviceContainers observations
  let owners := hostnameOwners containers
  let published := (containers.flatMap (publications owners)).foldl collect fun _ => none
  let serving := Ranked.sortBy (fun serving : ServingContainer =>
    containerOrder machine serving.container)
    (servingContainers text containers)
  let routed ← (endpoints owners serving).foldlM route published
  let certified := certificates.foldl certify routed
  return fun hostname => (certified hostname).map fun site =>
    (cover certificates hostname site).intoSite

/-! ## Any order of observations: DNS -/

section

variable {text : ShapeText} {observations others : List Observation}

theorem Distinct.serviceContainers (h : Distinct observations) :
    Distinct (serviceContainers observations) :=
  h.sublist List.filter_sublist

theorem serviceContainers_perm (hperm : observations.Perm others) :
    (serviceContainers observations).Perm (serviceContainers others) :=
  hperm.filter _

theorem reachable_perm (text : ShapeText) (h : Distinct observations)
    (hperm : observations.Perm others) (localId : MachineId)
    (downMachines : Option (List MachineId)) :
    (reachable text observations localId downMachines).Perm
    (reachable text others localId downMachines) :=
  (servingContainers_perm h.serviceContainers (serviceContainers_perm hperm)).filter _

theorem uniqueCallerNamespaces_perm (hperm : observations.Perm others)
    (address : ContainerAddress) :
    uniqueCallerNamespaces observations address = uniqueCallerNamespaces others address := by
  have howners := (hperm.filter (·.address == some address)).map (·.owner)
  unfold uniqueCallerNamespaces
  generalize (observations.filter _).map _ = left at howners ⊢
  generalize (others.filter _).map _ = right at howners ⊢
  match left, right, howners with
  | [], right, howners => rw [List.nil_perm.mp howners]
  | [only], right, howners => rw [List.singleton_perm.mp howners]
  | _ :: _ :: _, [], howners => cases howners.eq_nil
  | _ :: _ :: _, [_], howners => cases howners.eq_singleton
  | _ :: _ :: _, _ :: _ :: _, _ => rfl

/-- Two responses with the same answers in any order. -/
def Response.Same (a b : Response) : Prop := a.code = b.code ∧ a.answers.Perm b.answers

theorem addressesOf_perm {serving serving' : List ServingContainer} (hperm : serving.Perm serving')
    (p : Observation → Bool) : (addressesOf serving p).Perm (addressesOf serving' p) :=
  (hperm.filter _).map _

theorem addresses_perm (text : ShapeText) (h : Distinct observations)
    (hperm : observations.Perm others) (localId : MachineId)
    (downMachines : Option (List MachineId)) (localSubnet : ContainerAddress → Bool)
    (source : Option ContainerAddress) (next next' : Nat) (query : InternalQuery) :
    ((Projection.fromObservations text observations localId downMachines).addresses localSubnet
      source next
      query).Perm
    ((Projection.fromObservations text others localId downMachines).addresses localSubnet source
      next' query) := by
  have hserving := reachable_perm text h hperm localId downMachines
  have hrotated : ∀ identity, (((Projection.fromObservations text observations localId
      downMachines).identities identity).rotate next).Perm
      (((Projection.fromObservations text others localId downMachines).identities identity).rotate
        next') := by
    intro identity
    refine (List.rotate_perm _ _).trans (.trans ?_ (List.rotate_perm _ _).symm)
    exact addressesOf_perm hserving (·.identity == identity)
  have hcallers : (Projection.fromObservations text observations localId
    downMachines).callerNamespaces =
      (Projection.fromObservations text others localId downMachines).callerNamespaces :=
    funext (uniqueCallerNamespaces_perm hperm)
  cases query with
  | empty | regional => exact .refl _
  | service identity => exact hrotated identity
  | callerService name =>
    simp only [Projection.addresses, hcallers]
    cases source.bind _ with
    | none => exact .refl _
    | some owner => exact hrotated ⟨owner, name⟩
  | nearest identity =>
    refine (Ranked.perm_sortBy _ _).trans (.trans ?_ (Ranked.perm_sortBy _ _).symm)
    exact addressesOf_perm hserving (·.identity == identity)
  | serviceId id => exact addressesOf_perm hserving (·.serviceId == id)
  | machine target =>
    exact addressesOf_perm hserving fun container =>
      container.machineId == target.machineId && container.identity == target.identity

/-- DNS answers do not depend on how observations are listed, nor on how often a name was asked for.
-/
theorem planInternal_perm (h : Distinct observations) (hperm : observations.Perm others)
    (localId : MachineId) (downMachines : Option (List MachineId)) (isA : Bool)
    (localSubnet : ContainerAddress → Bool) (query : InternalQuery)
    (source : Option ContainerAddress)
    (next next' : Nat) :
    ((Projection.fromObservations text observations localId downMachines).planInternal isA
      localSubnet query
      source next).Same
    ((Projection.fromObservations text others localId downMachines).planInternal isA localSubnet
      query source
      next') := by
  have haddresses := addresses_perm text h hperm localId downMachines localSubnet source next next'
    query
  unfold Projection.planInternal
  by_cases hA : isA = true
  · rw [if_pos hA, if_pos hA]
    generalize Projection.addresses _ _ _ next _ = left at haddresses ⊢
    generalize Projection.addresses _ _ _ next' _ = right at haddresses ⊢
    by_cases hempty : left = []
    · rw [hempty] at haddresses ⊢
      rw [List.nil_perm.mp haddresses]
      exact ⟨rfl, .refl _⟩
    · have hother : right ≠ [] := fun heq => hempty (heq ▸ haddresses).eq_nil
      simp only [if_neg hempty, if_neg hother]
      exact ⟨rfl, haddresses⟩
  · rw [if_neg hA, if_neg hA]
    exact ⟨rfl, .refl _⟩

/-! ## Any order of observations: ingress -/

/-- What decides which container gives a hostname its owner. -/
def claimKey (container : ContainerObservation) : Int ×ₗ (String ×ₗ String) ×ₗ String :=
  toLex (container.createdAtUnixNanos, toLex (rank container.identity, container.serviceId))

theorem claimsBefore_iff {a b : ContainerObservation} :
    claimsBefore a b = true ↔ claimKey a < claimKey b := by
  simp only [claimsBefore, claimKey, rank, ContainerObservation.identity, Prod.Lex.toLex_lt_toLex,
    Bool.or_eq_true, Bool.and_eq_true, decide_eq_true_eq, beq_iff_eq, EmbeddingLike.apply_eq_iff_eq,
    Prod.mk.injEq]
  tauto

theorem hostnameWinner_eq (containers : List ContainerObservation) (hostname : String) :
    hostnameWinner containers hostname =
      (containers.filter (·.hosts.contains hostname)).argmin claimKey := by
  unfold hostnameWinner List.argmin
  rw [List.foldl_filter]
  congr 1
  funext winner container
  split
  · cases winner with
    | none => rfl
    | some best => simp only [List.argAux, claimsBefore_iff]
  · rfl

theorem hostnameOwners_perm (hperm : observations.Perm others) (hostname : String) :
    hostnameOwners observations hostname = hostnameOwners others hostname := by
  have hwinner := Ranked.map_argmin_perm (f := claimKey)
    ((hperm.map (·.toContainerObservation)).filter (·.hosts.contains hostname))
  have hrank := congrArg (Option.map fun key => (ofLex (ofLex key).2).1) hwinner
  unfold hostnameOwners hostnameOwner
  rw [hostnameWinner_eq, hostnameWinner_eq]
  rw [Option.map_map, Option.map_map] at hrank
  refine Option.map_injective (fun a b => rank_inj) ?_
  rw [Option.map_map, Option.map_map]
  exact hrank

theorem mem_publications {owners : String → Option Deploy.QualifiedService}
    {container : Observation}
    {publication : Publication} (h : publication ∈ publications owners container) :
    publication.owner = container.identity ∧
      owners publication.hostname = some publication.owner := by
  obtain ⟨port, _, hport⟩ := List.mem_filterMap.mp h
  split at hport
  · next hostname _ containerPort protocol =>
    split at hport
    · next howner =>
      obtain rfl := Option.some.inj hport
      exact ⟨rfl, howner⟩
    · cases hport
  · cases hport

theorem publish_comm (owner : Deploy.QualifiedService) (p q : HttpProtocol) (site : SiteBuilder) :
    (site.publish owner p []).publish owner q [] =
    (site.publish owner q []).publish owner p [] := by
  cases p <;> cases q <;> simp [SiteBuilder.publish]

theorem collect_comm {x y : Publication} (h : x.hostname = y.hostname → x.owner = y.owner)
    (sites : Sites) :
    collect (collect sites x) y = collect (collect sites y) x := by
  by_cases hhost : x.hostname = y.hostname
  · simp only [collect, hhost, Function.update_self, Function.update_idem, Option.getD_some,
      h hhost]
    rw [publish_comm]
  · simp only [collect, Function.update_of_ne hhost, Function.update_of_ne (Ne.symm hhost)]
    exact Function.update_comm hhost _ _ _

/-- Ingress routes do not depend on how observations are listed. -/
theorem derive_perm (h : Distinct observations) (hperm : observations.Perm others)
    (machine : MachineId)
    (certificates : Certificates) :
    derive text machine observations certificates = derive text machine others certificates := by
  have hcontainers := serviceContainers_perm hperm
  have howners : hostnameOwners (serviceContainers observations) =
      hostnameOwners (serviceContainers others) :=
    funext (hostnameOwners_perm hcontainers)
  have hserving : Ranked.sortBy (fun serving : ServingContainer =>
    containerOrder machine serving.container)
      (servingContainers text (serviceContainers observations)) =
      Ranked.sortBy (fun serving : ServingContainer => containerOrder machine serving.container)
      (servingContainers text (serviceContainers others)) := by
    refine Ranked.sortBy_perm ?_ (servingContainers_perm h.serviceContainers hcontainers)
    rintro ⟨a, aAddress⟩ ha ⟨b, bAddress⟩ hb horder
    obtain ⟨hamem, haddress, _⟩ := mem_servingContainers.mp ha
    obtain ⟨hbmem, hbddress, _⟩ := mem_servingContainers.mp hb
    have hkey : a.creationKey = b.creationKey :=
      (Prod.mk.inj (toLex.injective (Prod.mk.inj (toLex.injective horder)).2)).2
    obtain rfl : a = b := h.serviceContainers.creationKey_inj hamem hbmem hkey
    obtain rfl : aAddress = bAddress := Option.some.inj (haddress.symm.trans hbddress)
    rfl
  have hpublished : ((serviceContainers observations).flatMap
      (publications (hostnameOwners (serviceContainers others)))).foldl collect (fun _ => none) =
      ((serviceContainers others).flatMap
      (publications (hostnameOwners (serviceContainers others)))).foldl collect
        (fun _ => none) := by
    refine (hcontainers.flatMap_right _).foldl_eq' ?_ _
    intro x hx y hy sites
    refine collect_comm (fun hhost => ?_) sites
    obtain ⟨_, _, hx⟩ := List.mem_flatMap.mp hx
    obtain ⟨_, _, hy⟩ := List.mem_flatMap.mp hy
    have hxowner := (mem_publications hx).2
    rw [hhost, (mem_publications hy).2] at hxowner
    exact (Option.some.inj hxowner).symm
  simp only [derive, howners, hserving, hpublished]

end

/-! ## Routes of the owner -/

section

variable {text : ShapeText} {owners : String → Option Deploy.QualifiedService}
  {serving : List ServingContainer} {sites : Sites}

def SiteBuilder.endpoints (site : SiteBuilder) : List IngressEndpoint :=
  site.http.getD [] ++ site.https.getD []

def IngressPublication.endpoints (publication : IngressPublication) : List IngressEndpoint :=
  publication.http.getD [] ++ publication.https.getD []

/-- An endpoint of a container that serves for the owner of a hostname. -/
def ServedBy (owners : String → Option Deploy.QualifiedService) (serving : List ServingContainer)
    (hostname : String) (endpoint : IngressEndpoint) : Prop :=
  ∃ container ∈ serving, container.address = endpoint.address ∧
    owners hostname = some container.container.identity

/-- A site has the owner of its hostname, and endpoints of containers that serve for it. -/
structure Owned (owners : String → Option Deploy.QualifiedService) (serving : List ServingContainer)
    (hostname : String) (site : SiteBuilder) : Prop where
  owner : ∀ owner, site.owner = some owner → owners hostname = some owner
  endpoints : ∀ endpoint ∈ site.endpoints, ServedBy owners serving hostname endpoint

def AllOwned (owners : String → Option Deploy.QualifiedService) (serving : List ServingContainer)
    (sites : Sites) : Prop :=
  ∀ hostname site, sites hostname = some site → Owned owners serving hostname site

theorem owned_default (hostname : String) : Owned owners serving hostname {} :=
  ⟨fun _ howner => (by cases howner), fun _ hendpoint => (by cases hendpoint)⟩

theorem AllOwned.getD (h : AllOwned owners serving sites) (hostname : String) :
    Owned owners serving hostname ((sites hostname).getD {}) := by
  cases hsite : sites hostname with
  | none => exact owned_default hostname
  | some site => exact h hostname site hsite

variable {hostname : String} {site : SiteBuilder}

theorem AllOwned.update (h : AllOwned owners serving sites)
    (hsite : Owned owners serving hostname site) :
    AllOwned owners serving (Function.update sites hostname (some site)) := by
  intro other found hfound
  by_cases hsame : other = hostname
  · subst hsame
    rw [Function.update_self] at hfound
    obtain rfl := Option.some.inj hfound
    exact hsite
  · rw [Function.update_of_ne hsame] at hfound
    exact h other found hfound

theorem mem_endpoints_publish {owner : Deploy.QualifiedService} {protocol : HttpProtocol}
    {added : List IngressEndpoint} {endpoint : IngressEndpoint}
    (h : endpoint ∈ (site.publish owner protocol added).endpoints) :
    endpoint ∈ site.endpoints ∨ endpoint ∈ added := by
  cases protocol <;> simp only [SiteBuilder.publish, SiteBuilder.endpoints, Option.getD_some,
    List.mem_append] at h ⊢ <;> tauto

theorem Owned.publish (h : Owned owners serving hostname site) {owner : Deploy.QualifiedService}
    (howner : owners hostname = some owner) (protocol : HttpProtocol) {added : List IngressEndpoint}
    (hadded : ∀ endpoint ∈ added, ServedBy owners serving hostname endpoint) :
    Owned owners serving hostname (site.publish owner protocol added) := by
  refine ⟨fun own hown => ?_, fun endpoint hendpoint => ?_⟩
  · have hor : site.owner.or (some owner) = some own := by
      cases protocol <;> exact hown
    rcases Option.or_eq_some_iff.mp hor with hsite | ⟨_, hnew⟩
    · exact h.owner own hsite
    · rw [← Option.some.inj hnew]
      exact howner
  · rcases mem_endpoints_publish hendpoint with hold | hnew
    · exact h.endpoints endpoint hold
    · exact hadded endpoint hnew

theorem allOwned_collect {containers : List Observation} :
    AllOwned owners serving ((containers.flatMap (publications owners)).foldl collect fun _ =>
      none) := by
  refine List.foldlRecOn (motive := AllOwned owners serving) _ collect
    (fun _ _ hnone => by cases hnone) ?_
  intro sites hsites publication hpublication
  obtain ⟨container, _, hpublished⟩ := List.mem_flatMap.mp hpublication
  refine hsites.update ((hsites.getD publication.hostname).publish (mem_publications hpublished).2 _
    ?_)
  simp

variable {endpoint : ContainerAddress × Publication}

theorem mem_endpoints (h : endpoint ∈ endpoints owners serving) : ∃ container ∈ serving,
      container.address = endpoint.1 ∧ endpoint.2 ∈ publications owners container.container := by
  obtain ⟨container, hcontainer, hpublished⟩ := List.mem_flatMap.mp h
  obtain ⟨publication, hpublication, rfl⟩ := List.mem_map.mp hpublished
  exact ⟨container, hcontainer, rfl, hpublication⟩

theorem route_eq_ok {routed : Sites} (h : route sites endpoint = .ok routed) :
    ∃ site, sites endpoint.2.hostname = some site ∧
      routed = Function.update sites endpoint.2.hostname (some (site.publish endpoint.2.owner
        endpoint.2.httpProtocol [⟨endpoint.1, endpoint.2.containerPort⟩])) := by
  unfold route at h
  split at h
  · next site hsite =>
    obtain rfl := Except.ok.inj h
    exact ⟨site, hsite, rfl⟩
  · cases h

theorem allOwned_route {routed : Sites} (hsites : AllOwned owners serving sites)
    (h : (endpoints owners serving).foldlM route sites = .ok routed) :
    AllOwned owners serving routed := by
  refine (Run.foldlM_invariant (P := fun rest sites => (∀ endpoint ∈ rest,
    endpoint ∈ endpoints owners serving) ∧ AllOwned owners serving sites) ?_
    ⟨fun _ hmem => hmem, hsites⟩ h).2
  rintro endpoint rest sites next ⟨hrest, hsites⟩ hroute _
  refine ⟨fun other hother => hrest other (List.mem_cons_of_mem _ hother), ?_⟩
  obtain ⟨site, hsite, rfl⟩ := route_eq_ok hroute
  obtain ⟨container, hcontainer, haddress, hpublished⟩ :=
    mem_endpoints (hrest endpoint List.mem_cons_self)
  obtain ⟨hidentity, howner⟩ := mem_publications hpublished
  refine hsites.update ((hsites _ site hsite).publish howner _ ?_)
  intro added hadded
  obtain rfl := List.mem_singleton.mp hadded
  exact ⟨container, hcontainer, haddress, by rw [howner, hidentity]⟩

variable {certificates : Certificates}

theorem allOwned_certify (hsites : AllOwned owners serving sites) :
    AllOwned owners serving (certificates.foldl certify sites) := by
  refine List.foldlRecOn (motive := AllOwned owners serving) _ certify hsites ?_
  intro sites hsites row _
  unfold certify
  split
  · next hostname _ =>
    have hown := hsites.getD hostname
    exact hsites.update ⟨hown.owner, hown.endpoints⟩
  · exact hsites

theorem cover_fields (certificates : Certificates) (hostname : String) (site : SiteBuilder) :
    (cover certificates hostname site).owner = site.owner ∧
      (cover certificates hostname site).endpoints = site.endpoints := by
  unfold cover
  split
  · exact ⟨rfl, rfl⟩
  · split <;> exact ⟨rfl, rfl⟩

variable {derived : String → Option IngressSite}

/-- A published site has the owner of its hostname, and endpoints that serve for it. -/
theorem owned_of_derive {machine : MachineId} {observations : List Observation}
    (h : derive text machine observations certificates = .ok derived) {site : IngressSite}
    {publication : IngressPublication} (hsite : derived hostname = some site)
    (hpublication : site.publication = some publication) :
    hostnameOwners (serviceContainers observations) hostname = some publication.owner ∧
      ∀ endpoint ∈ publication.endpoints,
        ∃ container ∈ servingContainers text (serviceContainers observations),
        container.address = endpoint.address ∧
          container.container.identity = publication.owner := by
  simp only [derive, Run.bind_eq_ok, Run.pure_eq_ok] at h
  obtain ⟨routed, hrouted, rfl⟩ := h
  obtain ⟨builder, hbuilder, rfl⟩ := Option.map_eq_some_iff.mp hsite
  obtain ⟨howner, hendpoints⟩ :=
    allOwned_certify (allOwned_route allOwned_collect hrouted) _ _ hbuilder
  obtain ⟨hcover, hcoverEndpoints⟩ := cover_fields certificates hostname builder
  obtain ⟨owner, hown, rfl⟩ := Option.map_eq_some_iff.mp hpublication
  rw [hcover] at hown
  have hhost := howner owner hown
  refine ⟨hhost, fun endpoint hendpoint => ?_⟩
  obtain ⟨container, hcontainer, haddress, hidentity⟩ :=
    hendpoints endpoint (hcoverEndpoints ▸ hendpoint)
  refine ⟨container, Ranked.mem_sortBy.mp hcontainer, haddress, ?_⟩
  exact (Option.some.inj (hhost.symm.trans hidentity)).symm

theorem isSome_collect {list : List Publication} {publication : Publication}
    (h : publication ∈ list)
    (sites : Sites) : (list.foldl collect sites) publication.hostname ≠ none := by
  induction list using List.reverseRecOn with
  | nil => cases h
  | append_singleton list last ih =>
    rw [List.foldl_append, List.foldl_cons, List.foldl_nil, collect]
    by_cases hsame : publication.hostname = last.hostname
    · rw [hsame, Function.update_self]
      simp
    · rw [Function.update_of_ne hsame]
      rcases List.mem_append.mp h with hold | hlast
      · exact ih hold
      · exact absurd (congrArg _ (List.mem_singleton.mp hlast)) hsame

/-- Endpoints of hostnames that are there can be added. -/
theorem exists_route (list : List (ContainerAddress × Publication))
    (h : ∀ endpoint ∈ list, sites endpoint.2.hostname ≠ none) :
    ∃ routed, list.foldlM route sites = .ok routed := by
  have hstep : ∀ (endpoint : ContainerAddress × Publication)
    (rest : List (ContainerAddress × Publication))
      (sites : Sites), (∀ other ∈ endpoint :: rest, sites other.2.hostname ≠ none) →
        ∃ next, route sites endpoint = .ok next ∧ ∀ other ∈ rest, next other.2.hostname ≠ none := by
    intro endpoint rest sites hsites
    obtain ⟨site, hsite⟩ := Option.ne_none_iff_exists'.mp (hsites endpoint List.mem_cons_self)
    refine ⟨_, by rw [route, hsite], fun other hother => ?_⟩
    by_cases hsame : other.2.hostname = endpoint.2.hostname
    · rw [hsame, Function.update_self]
      simp
    · rw [Function.update_of_ne hsame]
      exact hsites other (List.mem_cons_of_mem _ hother)
  obtain ⟨routed, hrouted, _⟩ := Run.foldlM_exists
    (P := fun (rest : List (ContainerAddress × Publication)) (sites : Sites) =>
      ∀ other ∈ rest, sites other.2.hostname ≠ none) hstep h
  exact ⟨routed, hrouted⟩

/-- Ingress sites can always be derived: the hostname of an endpoint was collected before. -/
theorem exists_derive (text : ShapeText) (machine : MachineId) (observations : List Observation)
    (certificates : Certificates) : ∃ derived, derive text machine observations certificates =
    .ok derived := by
  simp only [derive, Run.bind_eq_ok, Run.pure_eq_ok]
  obtain ⟨routed, hrouted⟩ := exists_route (endpoints
    (hostnameOwners (serviceContainers observations))
    (Ranked.sortBy (fun serving : ServingContainer => containerOrder machine serving.container)
      (servingContainers text (serviceContainers observations)))) fun endpoint hendpoint => by
    obtain ⟨container, hcontainer, _, hpublished⟩ := mem_endpoints hendpoint
    have hmem := (mem_servingContainers.mp (Ranked.mem_sortBy.mp hcontainer)).1
    exact isSome_collect (List.mem_flatMap.mpr ⟨container.container, hmem, hpublished⟩) fun _ =>
      none
  exact ⟨_, routed, hrouted, rfl⟩

/-! ## Agreement -/

/-- Each Qualified Service serves from at most one shape. -/
def OneShape (text : ShapeText) (observations : List Observation) : Prop :=
  ∀ a ∈ servingContainers text (serviceContainers observations),
    ∀ b ∈ servingContainers text (serviceContainers observations),
      a.container.identity = b.container.identity →
        a.container.servingShape text = b.container.servingShape text

/-- A healthy, addressed container is left out only if a container of another shape can take traffic
that is newer than every such container of its own shape. -/
def CutsOver (text : ShapeText) (observations : List Observation) : Prop :=
  ∀ container ∈ serviceContainers observations, ∀ address, container.trafficAddress = some address →
    ⟨container, address⟩ ∉ servingContainers text (serviceContainers observations) →
      ∃ newer ∈ serviceContainers observations, newer.trafficAddress.isSome = true ∧
        newer.identity = container.identity ∧
          newer.servingShape text ≠ container.servingShape text ∧
        ∀ same ∈ serviceContainers observations, same.identity = container.identity →
          same.trafficAddress.isSome = true → same.servingShape text = container.servingShape text →
            same.creationKey < newer.creationKey

/-- Every ingress endpoint of a hostname is an address DNS gives for the Service that owns it. -/
def RoutesAnswered (text : ShapeText) (observations : List Observation) (localId : MachineId)
    (downMachines : Option (List MachineId)) (derived : String → Option IngressSite) : Prop :=
  ∀ hostname site publication, derived hostname = some site → site.publication = some publication →
    hostnameOwners (serviceContainers observations) hostname = some publication.owner ∧
      ∀ endpoint ∈ publication.endpoints, endpoint.address ∈
        (Projection.fromObservations text observations localId downMachines).identities
          publication.owner

theorem cutsOver {observations : List Observation} (h : Distinct observations) :
    CutsOver text observations := by
  intro container hcontainer address haddress hleft
  obtain ⟨newer, hnewer, hidentity, hshape, hnewest⟩ :=
    exists_newer h.serviceContainers hcontainer haddress hleft
  obtain ⟨hmem, hserves, _⟩ := mem_servingContainers.mp hnewer
  exact ⟨newer.container, hmem, by simp [hserves], hidentity, hshape, hnewest⟩

theorem routesAnswered {observations : List Observation} {machine localId : MachineId}
    {downMachines : Option (List MachineId)} (hdown : ∀ down, downMachines = some down → down = [])
    (h : derive text machine observations certificates = .ok derived) :
    RoutesAnswered text observations localId downMachines derived := by
  intro hostname site publication hsite hpublication
  obtain ⟨howner, hendpoints⟩ := owned_of_derive h hsite hpublication
  refine ⟨howner, fun endpoint hendpoint => ?_⟩
  obtain ⟨container, hcontainer, haddress, hidentity⟩ := hendpoints endpoint hendpoint
  have hup : downMachines.any (·.contains container.container.machineId) = false := by
    cases hdowns : downMachines with
    | none => rfl
    | some down => simp [hdown down hdowns]
  refine List.mem_map.mpr ⟨container, List.mem_filter.mpr ⟨?_, ?_⟩, haddress⟩
  · exact List.mem_filter.mpr ⟨hcontainer, by rw [hup, Bool.and_false, Bool.not_false]⟩
  · simp [hidentity]

/-- For all observations of distinct containers, listed in any order: serving containers, DNS
responses and ingress routes are the same up to order, each Qualified Service serves from one shape,
a healthy and addressed container is left out only for a newer shape that can take traffic, and with
no Machine known to be down the endpoints of a hostname are addresses DNS gives for its owner. -/
theorem observers_agree (text : ShapeText) (observations others : List Observation)
    (hdistinct : Distinct observations) (hperm : observations.Perm others) :
    (servingContainers text (serviceContainers observations)).Perm
        (servingContainers text (serviceContainers others)) ∧
    (∀ localId downMachines isA localSubnet query source next next',
      ((Projection.fromObservations text observations localId downMachines).planInternal isA
        localSubnet query
        source next).Same
      ((Projection.fromObservations text others localId downMachines).planInternal isA localSubnet
        query
        source next')) ∧
    (∀ machine certificates, ∃ derived, derive text machine observations certificates =
      .ok derived ∧
      derive text machine others certificates = .ok derived ∧
      ∀ localId downMachines, (∀ down, downMachines = some down → down = []) →
        RoutesAnswered text observations localId downMachines derived) ∧
    OneShape text observations ∧ CutsOver text observations := by
  refine ⟨servingContainers_perm hdistinct.serviceContainers (serviceContainers_perm hperm),
    planInternal_perm hdistinct hperm, fun machine certificates => ?_,
    fun a ha b hb => servingShape_unique ha hb, cutsOver hdistinct⟩
  obtain ⟨derived, hderived⟩ := exists_derive text machine observations certificates
  exact ⟨derived, hderived, derive_perm hdistinct hperm machine certificates ▸ hderived,
    fun localId downMachines hdown => routesAnswered hdown hderived⟩

end

namespace Sample

def shop : Namespace := ⟨"shop", Eq.refl true⟩
def web : ServiceName := ⟨"web", Eq.refl true⟩

/-- The web Service with an image, published as `shop.example`. -/
def spec (image : String) : RequestedServiceSpec where
  name := web
  mode := .replicated ⟨1, Nat.one_pos⟩
  container := { image := image, pullPolicy := .missing }
  placement := ⟨[]⟩
  ports := [.ingress "shop.example" 443 8080 .https]
  mountGraph := ⟨.empty, [], []⟩
  preDeploy := none
  update := ⟨none, none⟩

/-- A text of a shape that tells images apart. -/
def shapeText (fields : ShapeFields) : List UInt8 :=
  fields.container.image.toList.map fun c => c.toNat.toUInt8

def container (id image : String) (createdAt : Int) (health : HealthObservation)
    (address : Option ContainerAddress) : Observation where
  containerId := id
  createdAtUnixNanos := createdAt
  machineId := "m1"
  owner := shop
  kind := .serviceContainer
  runtime := .running
  resolvedSpec := (spec image).toResolved "web" ⟨.startFirst, none⟩
  labels := []
  health := health
  address := address

def versions : List Observation :=
  [container "a" "web:1" 1 .healthy (some 1), container "b" "web:2" 2 .healthy (some 2)]

theorem versions_agree : Distinct versions ∧ OneShape shapeText versions ∧
    (servingContainers shapeText (serviceContainers versions)).Perm
      (servingContainers shapeText (serviceContainers versions.reverse)) := by
  have hdistinct : Distinct versions := by
    unfold Distinct
    decide
  obtain ⟨hserving, _, _, hshape, _⟩ :=
    observers_agree shapeText versions versions.reverse hdistinct (List.reverse_perm versions).symm
  exact ⟨hdistinct, hshape, hserving⟩

/-- A healthy container without an address, and a newer one that is starting. -/
def unaddressed : List Observation :=
  [container "a" "web:1" 1 .healthy none, container "b" "web:2" 2 .starting (some 2)]

/-- The healthy container of the older shape is left out, and no container is eligible for traffic.
-/
theorem healthy_unaddressed_left_out :
    (∃ old ∈ serviceContainers unaddressed, ∃ new ∈ serviceContainers unaddressed,
      old.isHealthy = true ∧ old.identity = new.identity ∧
        old.servingShape shapeText ≠ new.servingShape shapeText ∧
        old.createdAtUnixNanos < new.createdAtUnixNanos) ∧
    servingContainers shapeText (serviceContainers unaddressed) = [] ∧
    ∀ container ∈ serviceContainers unaddressed, container.trafficAddress = none := by
  decide +kernel

end Sample

end Ployz.Serving
