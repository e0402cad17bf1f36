import Ployz.Config.Sync.Landing

/-!
# Settings through a landing

What a landing writes are settings some valid document holds, so the settings of the
receiver stay in normal form, all but the managed hostnames of a new Service, which it
renames. With a suffix of hostname characters these are in normal form too if they pass.
The check at the end of a landing then returns the document it is given, and
`Landing.next_view` reads the result.
-/

namespace Ployz

open Keyed Run Table Validation

/-! ## One Service -/

/-- A Service whose settings, all but its managed hostnames, do as `grade` says. -/
structure ServiceHolds (grade : Grade) (s : SavedServiceIntent) : Prop where
  id : isUuid s.id = true
  version : s.config.version = 2
  settings : ∀ setting, setting ≠ .managedHostnames → SettingHolds grade s.config setting

/-- A cell that writes a setting as `grade` says. -/
def CellHolds (grade : Grade) : At → SealedCell → Prop
  | .setting setting, .cell (.value value) => ValueHolds grade setting value
  | _, _ => True

theorem SettingPut.config_eq {id : String} {config config' : AuthoredServiceConfig}
    {setting : Setting} {value : Value} (h : SettingPut id config setting value config') :
    config'.managedHostnames = config.managedHostnames ∧ config'.version = config.version := by
  cases h <;> exact ⟨rfl, rfl⟩

variable {grade : Grade} {env : SavedEnvironmentIntent}
  {hosts : List ServiceManagedHostname → Prop}

theorem ServiceChange.holds {uuid : String} {s : SavedServiceIntent} {place : At}
    {cell : SealedCell} {f : SavedServiceIntent → SavedServiceIntent}
    (h : ServiceChange env uuid s place cell f) (hb : place ≠ .setting .branch)
    (hcell : CellHolds grade place cell) {x : SavedServiceIntent} (hx : ServiceHolds grade x) :
    ServiceHolds grade (f x) ∧ (f x).config.managedHostnames = x.config.managedHostnames := by
  have hsame : ∀ {y : SavedServiceIntent}, y.id = x.id → y.config = x.config →
      ServiceHolds grade y ∧ y.config.managedHostnames = x.config.managedHostnames :=
    fun hid hconfig => ⟨⟨hid ▸ hx.id, hconfig ▸ hx.version, hconfig ▸ hx.settings⟩, hconfig ▸ rfl⟩
  have hid := h.keeps.id x
  cases h with
  | detach | attach | drop => exact hsame rfl rfl
  | @set key _ value fingerprint =>
    exact hsame hid (setVariable_config x uuid key value fingerprint).1
  | sealWith key secret =>
    exact hsame hid (setVariable_config x uuid key (.secret none) secret.fingerprint).1
  | @setting setting value cell _ _ _ hvalue =>
    cases hput : putSetting x setting value with
    | none => simpa [hput] using hsame rfl rfl
    | some x' =>
      obtain ⟨config, rfl, hp⟩ := putSetting_cases hput
      obtain ⟨hhosts, hversion⟩ := hp.config_eq
      have hholds : ValueHolds grade setting value := by
        rcases hvalue with ⟨-, rfl⟩ | rfl
        · exact .inl rfl
        · exact hcell
      simp only [hput, Option.getD_some]
      refine ⟨⟨hx.id, hversion.trans hx.version, fun q hq => ?_⟩, hhosts⟩
      exact hp.holds hx.id (by simpa using hb) hholds fun _ => hx.settings q hq

/-! ## A document -/

/-- A document whose Services do as `grade` says and whose managed hostnames are those
`hosts` holds of. -/
def ServicesHold (grade : Grade) (hosts : List ServiceManagedHostname → Prop)
    (env : SavedEnvironmentIntent) : Prop :=
  ∀ s ∈ env.services, ServiceHolds grade s ∧ hosts s.config.managedHostnames

theorem ServicesHold.change {uuid : String} {env' : SavedEnvironmentIntent} {row : RowId}
    {cell : SealedCell} (h : ServicesHold grade hosts env)
    (hchange : Change uuid env row cell env') (hb : row.place ≠ .setting .branch)
    (hcell : CellHolds grade row.place cell) : ServicesHold grade hosts env' := by
  cases hchange with
  | stay | lack | name | storage => exact h
  | leave => exact fun s hs => h s (List.mem_of_mem_filter hs)
  | service _ hf =>
    intro t ht
    rcases mem_modifyFirst ht with ht | ⟨x, hx, -, rfl⟩
    · exact h t ht
    · obtain ⟨hholds, hhosts⟩ := hf.holds hb hcell (h x hx).1
      exact ⟨hholds, hhosts ▸ (h x hx).2⟩

theorem ServicesHold.describe (h : ServicesHold grade hosts env) (plan : Plan)
    (lineage key : String) : ServicesHold grade hosts (plan.describe env lineage key) := by
  rcases describe_cases plan env lineage key with heq | ⟨description, exported, heq⟩
  · rwa [heq]
  · rw [heq]
    intro t ht
    rcases mem_modifyFirst ht with ht | ⟨x, hx, -, rfl⟩
    · exact h t ht
    · exact ⟨⟨(h x hx).1.id, (h x hx).1.version, (h x hx).1.settings⟩, (h x hx).2⟩

/-- A new Service's settings hold where the sender's do. -/
theorem ServiceHolds.copy {source : SavedServiceIntent} (h : ServiceHolds grade source)
    (plan : Plan) (uuid : Uuid) : ServiceHolds grade (plan.serviceCopy uuid.text source) := by
  rw [Plan.serviceCopy_eq]
  refine ⟨uuid.isUuid, h.version, fun setting hne => ?_⟩
  have hbranch := (sourceCell_withCredential uuid.text source.config.source).2
  cases setting with
  | managedHostnames => exact absurd rfl hne
  | privateDns | restartPolicy | buildMethod => trivial
  | routes | preDeployCommand | startCommand | healthcheck | dockerfilePath | buildCommand =>
    exact grade.of_ok rfl
  | maxRetries => exact (by decide : (10 : UInt8) ≤ maxRetriesMax)
  | replicas => exact (by decide : (1 : UInt8) ≤ 1 ∧ 1 ≤ replicasMax)
  | cpuLimit => rfl
  | memLimit => rfl
  | branch =>
    have hb : SettingHolds grade source.config .branch := h.settings .branch (by decide)
    exact fun branch hmem => hb branch (hbranch ▸ hmem)
  | source =>
    have hs : SourceHolds grade source.config.source := h.settings .source (by decide)
    have hcred : imageCredentials (.configured uuid.text) = .ok () := by
      simp [imageCredentials, uuid.isUuid]
    change SourceHolds grade (source.config.source.withCredential uuid.text)
    cases hsource : source.config.source with
    | empty => rwa [hsource] at hs
    | git => rwa [hsource] at hs
    | image version image credentials =>
      rw [hsource] at hs
      cases credentials with
      | none => exact hs
      | configured => exact ⟨hs.1, hs.2.1, hcred⟩

/-! ## Managed hostnames -/

/-- Managed hostnames of hostname characters only. -/
def TidyHosts (hosts : List ServiceManagedHostname) : Prop :=
  ∀ host ∈ hosts, ∀ c ∈ host.prefix_.toList, isHostChar c = true

theorem managedHostnames_eq_self {seen : List String} {hosts out : List ServiceManagedHostname}
    (htidy : TidyHosts hosts) (h : managedHostnames seen hosts = .ok out) : out = hosts := by
  induction hosts generalizing seen out with
  | nil =>
    simp only [managedHostnames, pure_eq_ok] at h
    exact h.symm
  | cons host hosts ih =>
    simp only [managedHostnames, managedHostname, hostnamePrefix, bind_eq_ok, range_eq_ok,
      pure_eq_ok, exists_const] at h
    obtain ⟨_, ⟨_, ⟨-, rfl⟩, -, rfl⟩, -, rest, hrest, rfl⟩ := h
    rw [toLowercase_trim_eq_self (htidy host (by simp))]
    rw [ih (fun h hh => htidy h (by simp [hh])) hrest]

theorem tidyHosts_of_parse {seen : List String} {hosts out : List ServiceManagedHostname}
    (h : managedHostnames seen hosts = .ok out) : TidyHosts out := by
  induction hosts generalizing seen out with
  | nil =>
    simp only [managedHostnames, pure_eq_ok] at h
    subst h
    exact fun _ hmem => absurd hmem (by simp)
  | cons host hosts ih =>
    simp only [managedHostnames, managedHostname, hostnamePrefix, bind_eq_ok, range_eq_ok,
      pure_eq_ok, exists_const] at h
    obtain ⟨_, ⟨_, ⟨hlabel, rfl⟩, -, rfl⟩, -, rest, hrest, rfl⟩ := h
    intro h hmem
    rcases List.mem_cons.mp hmem with rfl | hh
    · exact isHostChar_of_isDnsLabel hlabel
    · exact ih hrest h hh

theorem tidyHosts_copy {hosts : List ServiceManagedHostname} (h : TidyHosts hosts) (plan : Plan)
    (hsuffix : ∀ c ∈ plan.hostnames.into.toList, isHostChar c = true) :
    TidyHosts (hosts.map fun host => { host with prefix_ :=
      (host.unsuffixed plan.hostnames.from_).prefix_ ++ plan.hostnames.into }) := by
  intro _ hmem c hc
  obtain ⟨host, hhost, rfl⟩ := List.mem_map.mp hmem
  simp only [String.toList_append, List.mem_append] at hc
  rcases hc with hc | hc
  · refine h host hhost c ?_
    simp only [ServiceManagedHostname.unsuffixed, stripSuffix] at hc
    split at hc
    · exact List.mem_of_mem_take (by simpa using hc)
    · exact hc
  · exact hsuffix c hc

/-! ## A landing -/

theorem WellFormed.servicesHold (h : WellFormed env) :
    ServicesHold .normal TidyHosts env := by
  intro s hs
  obtain ⟨hversion, hsettings⟩ := parseServiceConfig_self_iff.mp (h.configs s hs)
  have hid := (h.serviceIds.valid s.id (List.mem_map.mpr ⟨s, hs, rfl⟩)).2 rfl
  exact ⟨⟨hid, hversion, fun setting _ => hsettings setting⟩,
    tidyHosts_of_parse (hsettings .managedHostnames)⟩

/-- What a document holds at a row writes it as its own settings do. -/
theorem cellHolds_sealed (h : ServicesHold grade hosts env) (suffix : String) {row : RowId}
    (hplace : row.place ≠ .setting .managedHostnames) :
    CellHolds grade row.place ((view env suffix).sealed row) := by
  obtain ⟨lineage, place⟩ := row
  cases place with
  | setting setting =>
    simp only [View.sealed, view]
    cases hn : nodeAt env lineage with
    | none => trivial
    | some node =>
      cases node with
      | volume v => trivial
      | service s =>
        simp only [placeSealed, placeCell, settingCell]
        split
        · trivial
        · exact .inr ⟨s.config, suffix, rfl,
            (h s (nodeAt_in hn)).1.settings setting (by simpa using hplace)⟩
  | _ => trivial

theorem cellHolds_landing {sides : Sides} (h : ServicesHold grade hosts sides.from_)
    (values : Std.TreeMap RowId SealedSecret) {id : RowId} (arrives : Arrives)
    (hplace : id.place ≠ .setting .managedHostnames) :
    CellHolds grade id.place (sides.landing values id arrives) := by
  have hsecret : ∀ {place : At} {secret : SealedSecret},
      CellHolds grade place (.secret secret) := by
    intro place secret
    cases place <;> trivial
  have hwaiting : ∀ {place : At}, CellHolds grade place (.cell .secretWithoutValue) := by
    intro place
    cases place <;> trivial
  cases arrives with
  | asIs => exact cellHolds_sealed h _ hplace
  | needsValue =>
    simp only [Sides.landing]
    split
    · exact hsecret
    · exact hwaiting

theorem ServicesHold.push_copy (h : ServicesHold grade hosts env) {plan : Plan}
    (hfrom : ServicesHold grade hosts plan.from_)
    (hcopy : ∀ hs, hosts hs → hosts (hs.map fun host => { host with prefix_ :=
      (host.unsuffixed plan.hostnames.from_).prefix_ ++ plan.hostnames.into }))
    (uuid : Uuid) {node : NodeRef} (hnode : node.In plan.from_) :
    ServicesHold grade hosts (env.push (plan.copy uuid.text node)) := by
  cases node with
  | volume v => exact h
  | service source =>
    intro t ht
    rcases List.mem_append.mp ht with ht | ht
    · exact h t ht
    · rw [List.mem_singleton.mp ht]
      refine ⟨(hfrom source hnode).1.copy plan uuid, ?_⟩
      rw [Plan.serviceCopy_eq]
      exact hcopy _ (hfrom source hnode).2

theorem RowLanded.servicesHold
    {plan : Plan} {draws : Draws} {value : SealedCell} {row : PlannedRow} {p p' : Plan.Progress}
    (h : RowLanded plan draws value row p p') (hfrom : ServicesHold grade hosts plan.from_)
    (hcopy : ∀ hs, hosts hs → hosts (hs.map fun host => { host with prefix_ :=
      (host.unsuffixed plan.hostnames.from_).prefix_ ++ plan.hostnames.into }))
    (hnext : ServicesHold grade hosts p.next) (hb : row.id.place ≠ .setting .branch)
    (hcell : CellHolds grade row.id.place value) : ServicesHold grade hosts p'.next := by
  cases h with
  | node _ hnode _ heq => exact heq ▸ hnext.push_copy hfrom hcopy _ (nodeAt_in hnode)
  | put _ hput heq =>
    have hput := hnext.change (putSealed_cases hput) hb hcell
    rcases heq with heq | ⟨key, -, heq⟩
    · exact heq ▸ hput
    · exact heq ▸ hput.describe _ _ _

variable {sides : Sides} {policy : Policy} {draws : Draws} {picks : Std.TreeSet RowId}
  {values : Std.TreeMap RowId SealedSecret} {applied : Applied}

namespace Landing

theorem servicesHold (run : Landing sides policy draws picks values applied)
    (hd : sides.Distinct)
    (hfrom : ServicesHold grade hosts sides.from_) (hinto : ServicesHold grade hosts sides.into)
    (hcopy : ∀ hs, hosts hs → hosts (hs.map fun host => { host with prefix_ :=
      (host.unsuffixed sides.hostnames.from_).prefix_ ++ sides.hostnames.into })) :
    ServicesHold grade hosts run.last.next := by
  refine run.induct (P := fun q => ServicesHold grade hosts q.next) hinto ?_
  rintro ⟨row, arrives⟩ hp q q' hq hstep
  obtain ⟨hlanded, -⟩ := landRow_cases hstep
  obtain ⟨_, _, hmoving⟩ := (run.lands _ hp).moving
  obtain ⟨-, hbranch, hhosts, -⟩ := hmoving.place
  rw [arriving_eq hd] at hlanded
  exact hlanded.servicesHold hfrom hcopy hq hbranch (cellHolds_landing hfrom values arrives hhosts)

/-- The check at the end of a landing changes nothing. -/
theorem next_eq (run : Landing sides policy draws picks values applied) (hd : sides.Distinct)
    (hfrom : WellFormed sides.from_) (hinto : WellFormed sides.into)
    (hsuffix : ∀ c ∈ sides.hostnames.into.toList, isHostChar c = true) :
    applied.next = run.last.next := by
  have hholds := run.servicesHold hd hfrom.servicesHold hinto.servicesHold
    fun hs h => tidyHosts_copy h (plan sides policy) hsuffix
  obtain ⟨-, services, hservices, hnext⟩ := parseEnvironmentIntent_eq_ok.mp run.next
  rw [hnext, NormalizedService.eq_self hservices]
  intro s hs config hconfig
  obtain ⟨hsettings, htidy⟩ := hholds s hs
  exact parseServiceConfig_eq_self hconfig hsettings.settings fun hosts =>
    managedHostnames_eq_self htidy

theorem next_view (run : Landing sides policy draws picks values applied) (hd : sides.Distinct)
    (hfrom : WellFormed sides.from_) (hinto : WellFormed sides.into) (hsingle : Single sides.into)
    (hsuffix : ∀ c ∈ sides.hostnames.into.toList, isHostChar c = true) :
    Sane applied.next ∧ view applied.next sides.hostnames.into = run.landedView := by
  rw [run.next_eq hd hfrom hinto hsuffix]
  exact run.last_view hd ⟨hinto.sound, hsingle, hinto.mounted⟩

end Landing

end Ployz
