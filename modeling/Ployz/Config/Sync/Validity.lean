import Ployz.Config.Sync.Settings

/-!
# Validation, setting by setting

A Service's settings are validated one by one: `parseServiceConfig` takes a configuration
exactly if each setting passes its own check, and leaves it as it is exactly if each
setting is already in normal form. Writing one setting with a value some valid
configuration holds there therefore keeps a configuration valid, `SettingPut.holds`.
-/

namespace Ployz

open Run Validation

/-- How a value does under its normaliser: it passes, or passes unchanged. -/
inductive Grade
  | passes
  | normal

/-- `x` does as `grade` says under a normaliser that answers `r` for it. -/
def Grade.Of {α : Type} : Grade → Except ConfigError α → α → Prop
  | .passes, r, _ => ∃ y, r = .ok y
  | .normal, r, x => r = .ok x

theorem Grade.of_ok {α : Type} (grade : Grade) {r : Except ConfigError α} {x : α} (h : r = .ok x) :
    grade.Of r x := by
  cases grade with
  | passes => exact ⟨x, h⟩
  | normal => exact h

/-- A source but for its branch. -/
def SourceHolds (grade : Grade) : ServiceSource → Prop
  | .empty version path => version = 1 ∧ grade.Of (rootDir path) path
  | .git version repository repositoryId access path _ => version = 2 ∧
      grade.Of (trimmed "source.repository" repositoryMax repository) repository ∧
      positiveSafe repositoryId = true ∧ gitAccess access = .ok () ∧ grade.Of (rootDir path) path
  | .image version image credentials => version = 1 ∧
      grade.Of (trimmed "source.image" imageMax image) image ∧ imageCredentials credentials = .ok ()

/-- One setting's own check. -/
def SettingHolds (grade : Grade) (config : AuthoredServiceConfig) : Setting → Prop
  | .source => SourceHolds grade config.source
  | .branch => ∀ branch ∈ config.source.branch?, grade.Of (gitBranch branch) branch
  | .managedHostnames =>
    grade.Of (managedHostnames [] config.managedHostnames) config.managedHostnames
  | .routes => grade.Of (routes [] config.routes) config.routes
  | .preDeployCommand =>
    grade.Of (optionalTrimmed "command" commandMax config.preDeployCommand) config.preDeployCommand
  | .startCommand =>
    grade.Of (optionalTrimmed "command" commandMax config.startCommand) config.startCommand
  | .healthcheck => grade.Of (healthcheck config.healthcheck) config.healthcheck
  | .maxRetries => config.maxRetries ≤ maxRetriesMax
  | .replicas => 1 ≤ config.replicas ∧ config.replicas ≤ replicasMax
  | .cpuLimit => limit cpuLimitMax "cpuLimit" config.cpuLimit = .ok ()
  | .memLimit => limit memLimitMax "memLimit" config.memLimit = .ok ()
  | .dockerfilePath => grade.Of
      (optionalTrimmed "build.dockerfilePath" dockerfilePathMax config.build.dockerfilePath)
      config.build.dockerfilePath
  | .buildCommand => grade.Of (optionalTrimmed "build.command" commandMax config.build.command)
      config.build.command
  | .privateDns | .restartPolicy | .buildMethod => True

variable {grade : Grade}

theorem Grade.Of.passes {α : Type} {r : Except ConfigError α} {x : α} (h : grade.Of r x) :
    Grade.passes.Of r x := by
  cases grade with
  | passes => exact h
  | normal => exact ⟨x, h⟩

variable {config : AuthoredServiceConfig} {source : ServiceSource}

theorem SettingHolds.passes {setting : Setting} (h : SettingHolds grade config setting) :
    SettingHolds .passes config setting := by
  cases setting with
  | source =>
    simp only [SettingHolds] at h ⊢
    cases hs : config.source with
    | empty => rw [hs] at h; exact ⟨h.1, h.2.passes⟩
    | git => rw [hs] at h; exact ⟨h.1, h.2.1.passes, h.2.2.1, h.2.2.2.1, h.2.2.2.2.passes⟩
    | image => rw [hs] at h; exact ⟨h.1, h.2.1.passes, h.2.2⟩
  | branch => exact fun branch hb => (h branch hb).passes
  | privateDns | restartPolicy | buildMethod | maxRetries | replicas | cpuLimit | memLimit =>
    exact h
  | managedHostnames | routes | preDeployCommand | startCommand | healthcheck | dockerfilePath
  | buildCommand => exact Grade.Of.passes h

/-- A source passes, or is in normal form, exactly if it is but for its branch and the branch is. -/
theorem of_normalizeSource_iff : grade.Of (normalizeSource source) source ↔
    SourceHolds grade source ∧ ∀ branch ∈ source.branch?, grade.Of (gitBranch branch) branch := by
  cases source with
  | empty version path =>
    cases grade <;>
    · simp only [normalizeSource, bind_eq_ok, range_eq_ok, pure_eq_ok, exists_const, beq_iff_eq,
        SourceHolds, Grade.Of, ServiceSource.branch?]
      grind
  | git version repository repositoryId access path branch =>
    cases grade <;>
    · simp only [normalizeSource, bind_eq_ok, range_eq_ok, pure_eq_ok, exists_const, beq_iff_eq,
        SourceHolds, Grade.Of, ServiceSource.branch?, Option.mem_def, Option.some.injEq, forall_eq']
      grind
  | image version image credentials =>
    cases grade <;>
    · simp only [normalizeSource, bind_eq_ok, range_eq_ok, pure_eq_ok, exists_const, beq_iff_eq,
        SourceHolds, Grade.Of, ServiceSource.branch?]
      grind

/-- A configuration passes exactly if each of its settings does. -/
theorem parseServiceConfig_ok_iff :
    (∃ out, parseServiceConfig config = .ok out) ↔
      config.version = 2 ∧ ∀ setting, SettingHolds .passes config setting := by
  simp only [parseServiceConfig, bind_eq_ok, range_eq_ok, pure_eq_ok, exists_const, beq_iff_eq,
    buildConfig]
  constructor
  · rintro ⟨_, hversion, _, ⟨command, hcommand, path, hpath, rfl⟩, _, hcpu, check, hcheck, hosts,
      hhosts, hretries, _, hmem, pre, hpre, hreplicas, domains, hdomains, source, hsource, start,
      hstart, -⟩
    have hpasses : Grade.passes.Of (normalizeSource config.source) config.source :=
      ⟨source, hsource⟩
    replace hsource := of_normalizeSource_iff.mp hpasses
    refine ⟨hversion, fun setting => ?_⟩
    cases setting with
    | source => exact hsource.1
    | branch => exact hsource.2
    | privateDns | restartPolicy | buildMethod => trivial
    | managedHostnames => exact ⟨hosts, hhosts⟩
    | routes => exact ⟨domains, hdomains⟩
    | preDeployCommand => exact ⟨pre, hpre⟩
    | startCommand => exact ⟨start, hstart⟩
    | healthcheck => exact ⟨check, hcheck⟩
    | maxRetries => simpa [SettingHolds] using hretries
    | replicas => simpa [SettingHolds] using hreplicas
    | cpuLimit => exact hcpu
    | memLimit => exact hmem
    | dockerfilePath => exact ⟨path, hpath⟩
    | buildCommand => exact ⟨command, hcommand⟩
  · rintro ⟨hversion, h⟩
    obtain ⟨command, hcommand⟩ := h .buildCommand
    obtain ⟨path, hpath⟩ := h .dockerfilePath
    obtain ⟨check, hcheck⟩ := h .healthcheck
    obtain ⟨hosts, hhosts⟩ := h .managedHostnames
    obtain ⟨pre, hpre⟩ := h .preDeployCommand
    obtain ⟨domains, hdomains⟩ := h .routes
    obtain ⟨source, hsource⟩ := of_normalizeSource_iff.mpr ⟨h .source, h .branch⟩
    obtain ⟨start, hstart⟩ := h .startCommand
    have hretries : config.maxRetries ≤ maxRetriesMax := h .maxRetries
    have hreplicas : 1 ≤ config.replicas ∧ config.replicas ≤ replicasMax := h .replicas
    exact ⟨_, hversion, _, ⟨command, hcommand, path, hpath, rfl⟩, (), h .cpuLimit, check, hcheck,
      hosts, hhosts, by simpa using hretries, (), h .memLimit, pre, hpre, by simpa using hreplicas,
      domains, hdomains, source, hsource, start, hstart, rfl⟩

/-- What validation returns, where every setting but the managed hostnames is in normal
form and these stay as they are if they pass. -/
theorem parseServiceConfig_eq_self {out : AuthoredServiceConfig}
    (h : parseServiceConfig config = .ok out)
    (hn : ∀ setting, setting ≠ .managedHostnames → SettingHolds .normal config setting)
    (hhosts : ∀ hosts, managedHostnames [] config.managedHostnames = .ok hosts →
      hosts = config.managedHostnames) : out = config := by
  simp only [parseServiceConfig, bind_eq_ok, range_eq_ok, pure_eq_ok, exists_const, beq_iff_eq,
    buildConfig] at h
  obtain ⟨_, _, ⟨command, hcommand, path, hpath, rfl⟩, _, -, check, hcheck, hosts, hmanaged, -, _,
    -, pre, hpre, -, domains, hdomains, source, hsource, start, hstart, rfl⟩ := h
  have hself : ∀ {α : Type} {r : Except ConfigError α} {x y : α},
      Grade.normal.Of r x → r = .ok y → y = x := fun hx hy => Except.ok.inj (hy.symm.trans hx)
  rw [hself (hn .buildCommand (by decide)) hcommand, hself (hn .dockerfilePath (by decide)) hpath,
    hself (hn .healthcheck (by decide)) hcheck, hhosts hosts hmanaged,
    hself (hn .preDeployCommand (by decide)) hpre, hself (hn .routes (by decide)) hdomains,
    hself (hn .startCommand (by decide)) hstart,
    hself (of_normalizeSource_iff.mpr ⟨hn .source (by decide), hn .branch (by decide)⟩) hsource]

/-- A configuration is in normal form exactly if each of its settings is. -/
theorem parseServiceConfig_self_iff :
    parseServiceConfig config = .ok config ↔
      config.version = 2 ∧ ∀ setting, SettingHolds .normal config setting := by
  constructor
  · intro h
    obtain ⟨hversion, hpass⟩ := parseServiceConfig_ok_iff.mp ⟨_, h⟩
    simp only [parseServiceConfig, bind_eq_ok, range_eq_ok, pure_eq_ok, exists_const, beq_iff_eq,
      buildConfig] at h
    obtain ⟨_, _, ⟨command, hcommand, path, hpath, rfl⟩, _, -, check, hcheck, hosts, hmanaged, -, _,
      -, pre, hpre, -, domains, hdomains, source, hsource, start, hstart, hout⟩ := h
    have hsource : normalizeSource config.source = .ok config.source :=
      hsource.trans (congrArg Except.ok (congrArg (·.source) hout))
    replace hsource := of_normalizeSource_iff.mp (Grade.normal.of_ok hsource)
    refine ⟨hversion, fun setting => ?_⟩
    cases setting with
    | source => exact hsource.1
    | branch => exact hsource.2
    | privateDns | restartPolicy | buildMethod => trivial
    | managedHostnames =>
      exact hmanaged.trans (congrArg Except.ok (congrArg (·.managedHostnames) hout))
    | routes => exact hdomains.trans (congrArg Except.ok (congrArg (·.routes) hout))
    | preDeployCommand => exact hpre.trans (congrArg Except.ok (congrArg (·.preDeployCommand) hout))
    | startCommand => exact hstart.trans (congrArg Except.ok (congrArg (·.startCommand) hout))
    | healthcheck => exact hcheck.trans (congrArg Except.ok (congrArg (·.healthcheck) hout))
    | maxRetries => exact hpass .maxRetries
    | replicas => exact hpass .replicas
    | cpuLimit => exact hpass .cpuLimit
    | memLimit => exact hpass .memLimit
    | dockerfilePath =>
      exact hpath.trans (congrArg Except.ok (congrArg (·.build.dockerfilePath) hout))
    | buildCommand => exact hcommand.trans (congrArg Except.ok (congrArg (·.build.command) hout))
  · rintro ⟨hversion, h⟩
    have hpass : ∀ setting, SettingHolds .passes config setting := fun setting => (h setting).passes
    obtain ⟨out, hout⟩ := parseServiceConfig_ok_iff.mpr ⟨hversion, hpass⟩
    have hself := parseServiceConfig_eq_self hout (fun setting _ => h setting) fun hosts hhosts =>
      Except.ok.inj (hhosts.symm.trans (h .managedHostnames))
    rwa [hself] at hout

/-! ## Writing a valid setting -/

/-- A value a setting of that grade reads as, or the default. -/
def ValueHolds (grade : Grade) (setting : Setting) (value : Value) : Prop :=
  value = defaultValue setting ∨
    ∃ config suffix, value = settingValue config suffix setting ∧ SettingHolds grade config setting

theorem optional_injective {α : Type} {f : α → Value} (hf : Function.Injective f)
    (hnull : ∀ x, f x ≠ .null) : Function.Injective (optional f) := by
  rintro (_ | x) (_ | y) h
  · rfl
  · exact absurd h.symm (hnull y)
  · exact absurd h (hnull x)
  · exact congrArg some (hf h)

theorem optional_string_injective : Function.Injective (optional Value.string) :=
  optional_injective (fun _ _ => Value.string.inj) (by simp)

theorem sourceHolds_parse {id : String} (hid : isUuid id = true) (current : ServiceSource)
    (h : SourceHolds grade source) :
    SourceHolds grade (keepBranch current ((sourceCell source).parse id)) := by
  cases source with
  | empty => cases current <;> exact h
  | git => cases current <;> exact h
  | image version image credentials =>
    have hcred : ∀ b : Bool, imageCredentials (if b = true then .configured id else .none) =
        .ok () := by
      intro b
      cases b <;> simp [imageCredentials, hid, pure_eq_ok]
    cases current <;> exact ⟨h.1, h.2.1, hcred _⟩

theorem branch?_keepBranch (current source : ServiceSource) (id : String) :
    (keepBranch current ((sourceCell source).parse id)).branch? =
      source.branch?.map fun _ => current.branch?.getD (.disconnected none) := by
  cases source <;> cases current <;> rfl

theorem optionalTrimmed_holds {path : String} {max : Nat} {text : Option String}
    (h : optional .string text = .null ∨ ∃ x, optional .string text = optional .string x ∧
      grade.Of (optionalTrimmed path max x) x) :
    grade.Of (optionalTrimmed path max text) text := by
  rcases h with h | ⟨x, h, hx⟩
  · cases text with
    | none => exact grade.of_ok rfl
    | some _ => cases h
  · rwa [optional_string_injective h]

theorem limit_holds {max : ℚ} {path : String} {value : Value} {amount : Option ℚ}
    (hamount : value.asOptionalFloat = some amount)
    (h : value = .null ∨ ∃ x, value = optional .float x ∧ limit max path x = .ok ()) :
    limit max path amount = .ok () := by
  rcases h with rfl | ⟨x, rfl, hx⟩
  · cases hamount
    rfl
  · cases x <;> cases hamount <;> exact hx

/-- The settings after one is written with a value that holds. -/
theorem SettingPut.holds {id : String} {config' : AuthoredServiceConfig} {setting : Setting}
    {value : Value} (h : SettingPut id config setting value config') (hid : isUuid id = true)
    (hb : setting ≠ .branch) (hvalue : ValueHolds grade setting value) {q : Setting}
    (hq : q ≠ setting → SettingHolds grade config q) : SettingHolds grade config' q := by
  by_cases hqs : q = setting
  · subst hqs
    clear hq
    cases h with
    | noBranch | branch => exact absurd rfl hb
    | privateDns | restartPolicy | buildMethod => trivial
    | source cell =>
      rcases hvalue with hv | ⟨c, suffix, hv, hc⟩
      · cases hv
        have hroot : rootDir "/" = .ok "/" := by decide +kernel
        cases hs : config.source <;> exact ⟨rfl, grade.of_ok hroot⟩
      · cases hv
        exact sourceHolds_parse hid config.source hc
    | healthcheck check =>
      rcases hvalue with hv | ⟨c, suffix, hv, hc⟩
      · cases hv
        exact grade.of_ok rfl
      · cases hv
        exact hc
    | maxRetries n =>
      rcases hvalue with hv | ⟨c, suffix, hv, hc⟩
      · rw [show n = 10 from UInt8.toNat_inj.mp (Value.number.inj hv)]
        exact (by decide : (10 : UInt8) ≤ maxRetriesMax)
      · rwa [show n = c.maxRetries from UInt8.toNat_inj.mp (Value.number.inj hv)]
    | replicas n =>
      rcases hvalue with hv | ⟨c, suffix, hv, hc⟩
      · rw [show n = 1 from UInt8.toNat_inj.mp (Value.number.inj hv)]
        exact (by decide : (1 : UInt8) ≤ 1 ∧ 1 ≤ replicasMax)
      · rwa [show n = c.replicas from UInt8.toNat_inj.mp (Value.number.inj hv)]
    | cpuLimit amount hamount | memLimit amount hamount =>
      exact limit_holds hamount (hvalue.imp_right fun ⟨_, _, hv, hc⟩ => ⟨_, hv, hc⟩)
    | preDeployCommand | startCommand | dockerfilePath | buildCommand =>
      exact optionalTrimmed_holds (hvalue.imp_right fun ⟨_, _, hv, hc⟩ => ⟨_, hv, hc⟩)
  · replace hq := hq hqs
    cases h with
    | source cell =>
      by_cases hbranch : q = .branch
      · subst hbranch
        obtain ⟨source, rfl⟩ : ∃ source, cell = sourceCell source := by
          rcases hvalue with hv | ⟨c, suffix, hv, -⟩
          · exact ⟨.empty 1 "/", Value.source.inj hv⟩
          · exact ⟨c.source, Value.source.inj hv⟩
        intro branch hbranch
        rw [branch?_keepBranch] at hbranch
        obtain ⟨_, -, rfl⟩ := Option.map_eq_some_iff.mp hbranch
        cases hown : config.source.branch? with
        | none => exact grade.of_ok rfl
        | some own => exact hq own hown
      · cases q <;> first | exact absurd rfl hqs | exact absurd rfl hbranch | exact hq
    | noBranch | branch => exact absurd rfl hb
    | _ => cases q <;> first | exact absurd rfl hqs | exact hq

end Ployz
