import Ployz.Deploy.Executed

/-!
# Hostnames after a Deploy

A plan is refused where a Service asks for a hostname that another one owns or asks for. What a plan
starts publishes what its Service asks for, and what stays was there before, so hostnames that had
one Service keep one (`hostnames_keep_one_service`).
-/

namespace Ployz.Deploy

open Run

/-! ## Claims -/

variable {hostname : String}

section

variable {snapshot : DeploySnapshot} {retired : List QualifiedService}

/-- No container of a Service that stays gives a claimed hostname another owner. -/
def ClaimsHold (snapshot : DeploySnapshot) (retired : List QualifiedService)
    (claimed : List (String × QualifiedService)) : Prop :=
  ∀ hostname identity, claimed.lookup hostname = some identity →
    ∀ owner, hostnameOwner (snapshot.containers.filter fun container =>
      !retired.contains container.identity) hostname = some owner → owner = identity

/-- The claims of one list are those of another. -/
def ClaimsExtend (claimed later : List (String × QualifiedService)) : Prop :=
  ∀ hostname identity, claimed.lookup hostname = some identity →
    later.lookup hostname = some identity

variable {claimed later : List (String × QualifiedService)}

theorem claimHostname_eq_ok {identity : QualifiedService}
    (hhold : ClaimsHold snapshot retired claimed)
    (h : claimHostname snapshot retired identity claimed hostname = .ok later) :
    ClaimsHold snapshot retired later ∧ ClaimsExtend claimed later ∧
      later.lookup hostname = some identity := by
  unfold claimHostname at h
  dsimp only at h
  cases hclaimed : claimed.lookup hostname with
  | some owner =>
    simp only [hclaimed, Option.some_or, Option.isSome_some, if_true] at h
    split_ifs at h with howner
    · obtain rfl := pure_eq_ok.mp h
      have hsame : owner = identity := by simpa using howner
      exact ⟨hhold, fun _ _ h => h, hclaimed.trans (congrArg some hsame)⟩
  | none =>
    have hextend : ClaimsExtend claimed (claimed ++ [(hostname, identity)]) := by
      intro other owner hother
      rw [List.lookup_append, hother]
      rfl
    have hnew : (claimed ++ [(hostname, identity)]).lookup hostname = some identity := by
      rw [List.lookup_append, hclaimed]
      simp
    -- The snapshot's owner, where there is one, is the Service that claims.
    have howner : later = claimed ++ [(hostname, identity)] ∧
        ∀ owner, hostnameOwner (snapshot.containers.filter fun container =>
          !retired.contains container.identity) hostname = some owner → owner = identity := by
      simp only [hclaimed, Option.none_or, Option.isSome_none, Bool.false_eq_true, if_false] at h
      split at h
      · rename_i owner hfound
        split_ifs at h with hne
        refine ⟨(pure_eq_ok.mp h).symm, fun other hother => ?_⟩
        obtain rfl := Option.some.inj (hfound.symm.trans hother)
        simpa using hne
      · rename_i hfound
        refine ⟨(pure_eq_ok.mp h).symm, fun other hother => ?_⟩
        rw [hfound] at hother
        cases hother
    obtain ⟨rfl, howner⟩ := howner
    refine ⟨fun other claimant hother => ?_, hextend, hnew⟩
    rw [List.lookup_append] at hother
    cases hbefore : claimed.lookup other with
    | some earlier =>
      rw [hbefore] at hother
      obtain rfl := Option.some.inj hother
      exact hhold other _ hbefore
    | none =>
      rw [hbefore, Option.none_or] at hother
      obtain ⟨rfl, rfl⟩ : other = hostname ∧ identity = claimant := by
        by_cases hsame : other = hostname
        · subst hsame
          simpa using hother
        · rw [List.lookup_cons, beq_eq_false_iff_ne.mpr hsame] at hother
          cases hother
      exact howner

theorem claimHostnames_eq_ok {identity : QualifiedService} {hostnames : List String}
    (hhold : ClaimsHold snapshot retired claimed)
    (h : hostnames.foldlM (claimHostname snapshot retired identity) claimed = .ok later) :
    ClaimsHold snapshot retired later ∧ ClaimsExtend claimed later ∧
      ∀ hostname ∈ hostnames, later.lookup hostname = some identity := by
  induction hostnames generalizing claimed with
  | nil =>
    obtain rfl := pure_eq_ok.mp h
    exact ⟨hhold, fun _ _ h => h, by simp⟩
  | cons hostname hostnames ih =>
    rw [List.foldlM_cons, bind_eq_ok] at h
    obtain ⟨between, hstep, h⟩ := h
    obtain ⟨hbetween, hextend, hnew⟩ := claimHostname_eq_ok hhold hstep
    obtain ⟨hlater, hextend', hrest⟩ := ih hbetween h
    refine ⟨hlater, fun other owner hother => hextend' _ _ (hextend _ _ hother), ?_⟩
    intro other hother
    rcases List.mem_cons.mp hother with rfl | hother
    · exact hextend' _ _ hnew
    · exact hrest other hother

/-- What the hostname policy leaves: each hostname of the apply set has one claimant, and no Service
that stays has it. -/
theorem claims_of_policy {owner : Namespace} {requested : List RequestedServiceSpec}
    (h : rejectHostnameConflicts owner requested snapshot retired = .ok ()) :
    ∃ claimed, ClaimsHold snapshot retired claimed ∧
      ∀ spec ∈ requested, ∀ hostname ∈ explicitIngressHosts spec.ports,
        claimed.lookup hostname = some ⟨owner, spec.name⟩ := by
  obtain ⟨claimed, hclaimed, -⟩ := bind_eq_ok.mp h
  have hinvariant := foldlM_invariant
    (P := fun left (between : List (String × QualifiedService)) =>
      ClaimsHold snapshot retired between ∧ ∀ spec ∈ requested, spec ∈ left ∨
        ∀ hostname ∈ explicitIngressHosts spec.ports,
          between.lookup hostname = some ⟨owner, spec.name⟩) ?_
    ⟨fun _ _ h => (Option.some_ne_none _ h.symm).elim, fun spec hspec => .inl hspec⟩ hclaimed
  · refine ⟨claimed, hinvariant.1, fun spec hspec => ?_⟩
    exact (hinvariant.2 spec hspec).resolve_left (by simp)
  · rintro spec left between later ⟨hhold, hdone⟩ hstep -
    obtain ⟨hlater, hextend, hnew⟩ := claimHostnames_eq_ok hhold hstep
    refine ⟨hlater, fun other hother => ?_⟩
    rcases hdone other hother with hleft | hclaims
    · rcases List.mem_cons.mp hleft with rfl | hleft
      · exact .inr hnew
      · exact .inl hleft
    · exact .inr fun hostname hhostname => hextend _ _ (hclaims hostname hhostname)

end

/-! ## The whole plan -/

section

variable {given : Given} {intent : DeployIntent} {snapshot : DeploySnapshot} {planned : Planned}
  {births : Nat → Birth}

/-- Containers of two Services publish no hostname in common. -/
def OneServiceEach (containers : List ContainerObservation) : Prop :=
  ∀ a ∈ containers, ∀ b ∈ containers, ∀ hostname ∈ a.hosts, hostname ∈ b.hosts →
    a.identity = b.identity

/-- No container of a snapshot has the digest of a requested Service and other fields. -/
def CollisionFree (intent : DeployIntent) (snapshot : DeploySnapshot) : Prop :=
  ∀ container ∈ snapshot.containers, ∀ spec ∈ intent.target,
    ∀ requested ∈ (scopeRequested spec intent.owner).toOption,
      NoCollision intent.options.shapeText container.resolvedSpec requested

instance decidableCollisionFree : Decidable (CollisionFree intent snapshot) :=
  inferInstanceAs (Decidable (∀ _ ∈ _, _))

theorem SpecOf.hosts {requested : RequestedServiceSpec} {container : ContainerObservation}
    (h : SpecOf requested container.resolvedSpec) (hservice : container.isService = true) :
    container.hosts = explicitIngressHosts requested.ports := by
  obtain ⟨_, _, hspec⟩ := h
  rw [ContainerObservation.hosts, if_pos hservice, hspec]
  rfl

variable {container : ContainerObservation}

theorem isService_of_host (h : hostname ∈ container.hosts) : container.isService = true := by
  unfold ContainerObservation.hosts at h
  split_ifs at h with hservice
  · exact hservice
  · cases h

/-- Where hostnames have one Service each, a claimed one is no other Service's that stays. -/
theorem ClaimsHold.identity {retired : List QualifiedService}
    {claimed : List (String × QualifiedService)} (h : ClaimsHold snapshot retired claimed)
    (hone : OneServiceEach snapshot.containers) {identity : QualifiedService}
    (hclaimed : claimed.lookup hostname = some identity) {container : ContainerObservation}
    (hmem : container ∈ snapshot.containers) (hstays : container.identity ∉ retired)
    (hhost : hostname ∈ container.hosts) : container.identity = identity := by
  have hleft : container ∈ snapshot.containers.filter fun container =>
      !retired.contains container.identity := by
    refine List.mem_filter.mpr ⟨hmem, ?_⟩
    simpa using hstays
  obtain ⟨owner, howner⟩ := exists_hostnameOwner hleft hhost
  obtain ⟨winner, hwinner, hwins, rfl⟩ := exists_of_hostnameOwner howner
  have hsame := hone container hmem winner (List.mem_filter.mp hwinner).1 hostname hhost hwins
  rw [hsame]
  exact h hostname identity hclaimed _ howner

/-- After a plan, hostnames that had one Service each have one Service each. -/
theorem oneServiceEach_executed (stages : Stages given intent snapshot planned)
    (hone : OneServiceEach snapshot.containers) :
    OneServiceEach (executed births intent snapshot planned) := by
  obtain ⟨claimed, hhold, hclaims⟩ := claims_of_policy stages.hhostnames
  -- A container that a plan started publishes what is claimed for its Service.
  have hstarted : ∀ container : ContainerObservation, container.owner = intent.owner →
      (∃ operation ∈ stages.desired, operation.machineId = container.machineId ∧
        operation.spec = some container.resolvedSpec) →
      ∀ hostname ∈ container.hosts, claimed.lookup hostname = some container.identity := by
    rintro container howner ⟨operation, hoperation, -, hspec⟩ hostname hhost
    obtain ⟨requested, hrequested, hspec⟩ := started_of_operation stages hoperation hspec
    rw [hspec.hosts (isService_of_host hhost)] at hhost
    rw [hspec.identity, howner]
    exact hclaims requested hrequested hostname hhost
  intro a ha b hb hostname hhostA hhostB
  rcases mem_executed stages ha with ⟨earlier, hmem, hwas, -, hstays⟩ | ⟨howner, hspec⟩
  · rw [hwas.hosts] at hhostA
    rw [hwas.identity]
    rcases mem_executed stages hb with ⟨earlier', hmem', hwas', -, -⟩ | ⟨howner', hspec'⟩
    · rw [hwas'.hosts] at hhostB
      rw [hwas'.identity]
      exact hone earlier hmem earlier' hmem' hostname hhostA hhostB
    · exact hhold.identity hone (hstarted b howner' hspec' hostname hhostB) hmem hstays hhostA
  · have hclaimed := hstarted a howner hspec hostname hhostA
    rcases mem_executed stages hb with ⟨earlier', hmem', hwas', -, hstays'⟩ | ⟨howner', hspec'⟩
    · rw [hwas'.hosts] at hhostB
      rw [hwas'.identity]
      exact (hhold.identity hone hclaimed hmem' hstays' hhostB).symm
    · exact Option.some.inj (hclaimed.symm.trans (hstarted b howner' hspec' hostname hhostB))

/-- A container left of a requested Service publishes every hostname the request asks for. -/
theorem hosts_executed (stages : Stages given intent snapshot planned)
    (hids : (snapshot.containers.map (·.containerId)).Nodup) {requested : RequestedServiceSpec}
    (hrequested : requested ∈ stages.bound.requested) (hdigest : ∀ container ∈ snapshot.containers,
      NoCollision intent.options.shapeText container.resolvedSpec requested)
    (hmem : container ∈ executed births intent snapshot planned)
    (hidentity : container.identity = ⟨intent.owner, requested.name⟩)
    (hservice : container.isService = true)
    (hhost : hostname ∈ explicitIngressHosts requested.ports) : hostname ∈ container.hosts := by
  rcases spec_of_executed stages hids hrequested hmem hidentity hservice with
    ⟨hspec, hupToDate⟩ | hspec
  · obtain ⟨earlier, hearlier, hsame⟩ := List.mem_map.mp hspec
    have hports := ports_of_upToDate (hsame ▸ hdigest earlier hearlier) hupToDate
    rw [ContainerObservation.hosts, if_pos hservice]
    exact (hports.filterMap _).mem_iff.mpr hhost
  · rwa [hspec.hosts hservice]

/-- A Deploy keeps every hostname with one Service. Where container IDs are distinct and no two
shapes collide, each hostname that a Service of the apply set asks for is that Service's, where it
has a container. -/
theorem hostnames_keep_one_service (h : planOperations given intent snapshot = .ok planned)
    (hone : OneServiceEach snapshot.containers) :
    OneServiceEach (executed births intent snapshot planned) ∧
      ((snapshot.containers.map (·.containerId)).Nodup → CollisionFree intent snapshot →
        ∀ spec ∈ intent.target, spec.name ∈ intent.appliedNames →
          (∃ container ∈ executed births intent snapshot planned,
            container.identity = ⟨intent.owner, spec.name⟩ ∧ container.isService = true) →
          ∀ hostname ∈ explicitIngressHosts spec.ports,
            hostnameOwner (executed births intent snapshot planned) hostname =
              some ⟨intent.owner, spec.name⟩) := by
  obtain ⟨stages⟩ := stages_of_plan h
  have hkept : OneServiceEach (executed births intent snapshot planned) :=
    oneServiceEach_executed stages hone
  refine ⟨hkept, fun hids hcollisions => ?_⟩
  rintro spec hspec happlied ⟨container, hmem, hidentity, hservice⟩ hostname hhost
  obtain ⟨requested, hrequested, hscope⟩ :=
    (isBound_of_bind stages.hbound).exists_requested hspec happlied
  have hname : requested.name = spec.name := name_of_scopeRequested hscope
  have hports : requested.ports = spec.ports :=
    RequestedServiceSpec.ports_of_scope (mapError_eq_ok.mp hscope)
  rw [← hname] at hidentity
  have hdigest : ∀ container ∈ snapshot.containers,
      NoCollision intent.options.shapeText container.resolvedSpec requested := by
    intro container hcontainer
    refine hcollisions container hcontainer spec hspec requested ?_
    rw [hscope]
    rfl
  have hpublished :=
    hosts_executed stages hids hrequested hdigest hmem hidentity hservice (hports ▸ hhost)
  obtain ⟨owner, howner⟩ := exists_hostnameOwner hmem hpublished
  obtain ⟨winner, hwinner, hwins, rfl⟩ := exists_of_hostnameOwner howner
  rw [howner, hkept winner hwinner container hmem hostname hwins hpublished, hidentity, hname]

end

namespace Sample

def ingress (hostname : String) : PortPublication := .ingress hostname 443 8080 .https

/-- The web Service takes a second hostname while it keeps its container's. -/
def published : DeploySnapshot :=
  cluster [machine "m1"]
    [running "old" "m1" shop 1 (spec web single "web:1" [ingress "shop.example"]),
      running "theirs" "m1" other 2 (spec api single "api:1" [ingress "api.example"])]

def rename : DeployIntent :=
  deploy [spec web single "web:1" [ingress "shop.example", ingress "www.example"]]

theorem rename_keeps_hostnames : ∃ planned,
    planOperations given rename published = .ok planned ∧
    OneServiceEach (executed births rename published planned) ∧
    hostnameOwner (executed births rename published planned) "www.example" = some ⟨shop, web⟩ := by
  obtain ⟨planned, hplanned, hleft⟩ := exists_ok (fun planned : Planned =>
    ∃ container ∈ executed births rename published planned,
      container.identity = ⟨shop, web⟩ ∧ container.isService = true)
    (by decide +kernel : succeeds (planOperations given rename published) _ = true)
  have hone : OneServiceEach published.containers := by
    unfold OneServiceEach
    decide +kernel
  obtain ⟨heach, howned⟩ := hostnames_keep_one_service hplanned hone
  exact ⟨planned, hplanned, heach, howned (by decide +kernel) (by decide +kernel) _
    List.mem_cons_self (by decide +kernel) hleft _ (by decide +kernel)⟩

def utf8 (text : String) : List UInt8 := text.toUTF8.data.toList

/-- A shape of the web Service in JSON, by the hostname and the user it has. -/
def webText (hostname user : String) : List UInt8 :=
  utf8 "\x7b\"cap_add\":[],\"cap_drop\":[],\"command\":[],\"config_mounts\":[],\"configs\":[]," ++
    utf8 "\"entrypoint\":[],\"environment\":\x7b\x7d,\"extra_hosts\":[],\"healthcheck\":null," ++
    utf8 "\"hostname\":null,\"image\":\"web:1\",\"init\":null,\"labels\":\x7b\x7d," ++
    utf8 "\"log_driver\":null,\"mode\":\"replicated\",\"mounts\":[],\"name\":\"web\"," ++
    utf8 "\"open_stdin\":false,\"pid_mode\":null,\"placement\":\x7b\"constraints\":[]\x7d," ++
    utf8 "\"ports\":[\x7b\"container_port\":8080,\"hostname\":\"" ++ utf8 hostname ++
    utf8 "\",\"http_protocol\":\"https\",\"load_balancer_port\":443,\"mode\":\"ingress\"\x7d]," ++
    utf8 "\"privileged\":false,\"restart\":\x7b\"name\":\"unless-stopped\"\x7d," ++
    utf8 "\"stop_timeout_secs\":null,\"sysctls\":\x7b\x7d,\"tty\":false,\"user\":\"" ++ utf8 user ++
    utf8 "\",\"volumes\":[],\"working_directory\":null\x7d"

/-- The text of a web Service that publishes one of two hostnames. -/
def json (fields : ShapeFields) : List UInt8 :=
  webText (if ingress "shop.example" ∈ fields.ports then "shop.example" else "blog.example")
    (fields.container.user.getD "")

/-- The web Service under one user and with one hostname. -/
def webOf (user hostname : String) : RequestedServiceSpec :=
  let base := spec web single "web:1" [ingress hostname]
  { base with container := { base.container with user := some user } }

def colliding : DeploySnapshot :=
  cluster [machine "m1"] [running "old" "m1" shop 1 (webOf "cc7g3b3ldcsog" "shop.example")]

def collides : DeployIntent :=
  { deploy [webOf "jtfhfblxcbwjf" "blog.example"] with
    options := { applying [] with shapeText := json } }

/-- Two shapes with one digest: the container stays and publishes the old hostname only. -/
theorem collision_keeps_old_hostname : ∃ planned,
    planOperations given collides colliding = .ok planned ∧
    OneServiceEach colliding.containers ∧
    (colliding.containers.map (·.containerId)).Nodup ∧
    (∃ container ∈ executed births collides colliding planned,
      container.identity = ⟨shop, web⟩ ∧ container.isService = true) ∧
    hostnameOwner (executed births collides colliding planned) "blog.example" = none := by
  obtain ⟨planned, hplanned, hleft⟩ := exists_ok (fun planned : Planned =>
    (∃ container ∈ executed births collides colliding planned,
      container.identity = ⟨shop, web⟩ ∧ container.isService = true) ∧
    hostnameOwner (executed births collides colliding planned) "blog.example" = none)
    (by decide +kernel : succeeds (planOperations given collides colliding) _ = true)
  have hone : OneServiceEach colliding.containers := by
    unfold OneServiceEach
    decide +kernel
  exact ⟨planned, hplanned, hone, by decide +kernel, hleft⟩

end Sample

end Ployz.Deploy
