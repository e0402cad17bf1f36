import Ployz.Config.Sync.Put
import Ployz.Config.Sync.View

/-!
# Writing one setting

`putSetting` changes one setting of a Service: `putSetting_cases` lists everything it can
do. Only that setting reads differently afterwards (`SettingPut.frame`), and it reads as
what was written (`SettingPut.read`). A source is the exception on both counts: it reads
without the git branch it carried, and the Service's git branch follows it
(`branch_keepBranch`).
-/

namespace Ployz

open Run

/-- Everything `putSetting` does to the settings of the Service of `id`. -/
inductive SettingPut (id : String) (config : AuthoredServiceConfig) :
    Setting → Value → AuthoredServiceConfig → Prop
  | source (cell : SourceCell) : SettingPut id config .source (.source cell)
      { config with source := keepBranch config.source (cell.parse id) }
  | noBranch (value : Value) (h : config.source.branch? = none ∨ value = .null) :
      SettingPut id config .branch value config
  | branch (branch : ServiceGitBranch) : SettingPut id config .branch (.branch branch)
      { config with source := config.source.withBranch branch }
  | privateDns (name : ServiceName) : SettingPut id config .privateDns (.string name.value)
      { config with privateDns := name }
  | preDeployCommand (command : Option String) :
      SettingPut id config .preDeployCommand (optional .string command)
      { config with preDeployCommand := command }
  | startCommand (command : Option String) :
      SettingPut id config .startCommand (optional .string command)
      { config with startCommand := command }
  | healthcheck (healthcheck : ServiceHealthcheck) :
      SettingPut id config .healthcheck (.healthcheck healthcheck)
      { config with healthcheck := healthcheck }
  | restartPolicy (policy : ServiceRestartPolicy) {text : String}
      (h : ServiceRestartPolicy.parse text = some policy) :
      SettingPut id config .restartPolicy (.string text) { config with restartPolicy := policy }
  | maxRetries (n : UInt8) :
      SettingPut id config .maxRetries (.number n.toNat) { config with maxRetries := n }
  | replicas (n : UInt8) :
      SettingPut id config .replicas (.number n.toNat) { config with replicas := n }
  | cpuLimit (limit : Option ℚ) {value : Value} (h : value.asOptionalFloat = some limit) :
      SettingPut id config .cpuLimit value { config with cpuLimit := limit }
  | memLimit (limit : Option ℚ) {value : Value} (h : value.asOptionalFloat = some limit) :
      SettingPut id config .memLimit value { config with memLimit := limit }
  | buildMethod (method : BuildMethod) {text : String} (h : BuildMethod.parse text = some method) :
      SettingPut id config .buildMethod (.string text)
      { config with build := { config.build with buildMethod := method } }
  | dockerfilePath (path : Option String) :
      SettingPut id config .dockerfilePath (optional .string path)
      { config with build := { config.build with dockerfilePath := path } }
  | buildCommand (command : Option String) :
      SettingPut id config .buildCommand (optional .string command)
      { config with build := { config.build with command := command } }

variable {value : Value}

theorem Value.asOptionalString_eq {s : Option String} (h : value.asOptionalString = some s) :
    value = optional .string s := by
  cases value <;> cases h <;> rfl

theorem Value.asUInt8_eq {n : UInt8} (h : value.asUInt8 = some n) : value = .number n.toNat := by
  cases value with
  | number m =>
    simp only [Value.asUInt8, Option.ite_none_right_eq_some, Option.some.injEq] at h
    obtain ⟨hm, rfl⟩ := h
    rw [UInt8.toNat_ofNat', Nat.mod_eq_of_lt hm]
  | _ => cases h

variable {setting : Setting}

theorem putSetting_cases {s s' : SavedServiceIntent} (h : putSetting s setting value = some s') :
    ∃ config, s' = { s with config } ∧ SettingPut s.id s.config setting value config := by
  cases setting with
  | routes | managedHostnames => cases h
  | source =>
    cases value with
    | source cell => cases h; exact ⟨_, rfl, .source cell⟩
    | _ => cases h
  | branch =>
    simp only [putSetting] at h
    split at h
    · next hb => cases h; exact ⟨_, rfl, .noBranch _ (.inl hb)⟩
    · cases h; exact ⟨_, rfl, .noBranch _ (.inr rfl)⟩
    · cases h; exact ⟨_, rfl, .branch _⟩
    · cases h
  | privateDns =>
    cases value with
    | string text =>
      simp only [putSetting, Option.map_eq_some_iff, ServiceName.parse] at h
      obtain ⟨name, hname, rfl⟩ := h
      split at hname
      · next hlabel => cases hname; exact ⟨_, rfl, .privateDns ⟨text, hlabel⟩⟩
      · cases hname
    | _ => cases h
  | healthcheck =>
    cases value with
    | healthcheck check => cases h; exact ⟨_, rfl, .healthcheck check⟩
    | _ => cases h
  | restartPolicy =>
    cases value with
    | string text =>
      obtain ⟨policy, hp, rfl⟩ := Option.map_eq_some_iff.mp h
      exact ⟨_, rfl, .restartPolicy policy hp⟩
    | _ => cases h
  | buildMethod =>
    cases value with
    | string text =>
      obtain ⟨method, hm, rfl⟩ := Option.map_eq_some_iff.mp h
      exact ⟨_, rfl, .buildMethod method hm⟩
    | _ => cases h
  | preDeployCommand =>
    obtain ⟨command, hc, rfl⟩ := Option.map_eq_some_iff.mp h
    exact ⟨_, rfl, Value.asOptionalString_eq hc ▸ .preDeployCommand command⟩
  | startCommand =>
    obtain ⟨command, hc, rfl⟩ := Option.map_eq_some_iff.mp h
    exact ⟨_, rfl, Value.asOptionalString_eq hc ▸ .startCommand command⟩
  | dockerfilePath =>
    obtain ⟨path, hp, rfl⟩ := Option.map_eq_some_iff.mp h
    exact ⟨_, rfl, Value.asOptionalString_eq hp ▸ .dockerfilePath path⟩
  | buildCommand =>
    obtain ⟨command, hc, rfl⟩ := Option.map_eq_some_iff.mp h
    exact ⟨_, rfl, Value.asOptionalString_eq hc ▸ .buildCommand command⟩
  | maxRetries =>
    obtain ⟨n, hn, rfl⟩ := Option.map_eq_some_iff.mp h
    exact ⟨_, rfl, Value.asUInt8_eq hn ▸ .maxRetries n⟩
  | replicas =>
    obtain ⟨n, hn, rfl⟩ := Option.map_eq_some_iff.mp h
    exact ⟨_, rfl, Value.asUInt8_eq hn ▸ .replicas n⟩
  | cpuLimit =>
    obtain ⟨limit, hl, rfl⟩ := Option.map_eq_some_iff.mp h
    exact ⟨_, rfl, .cpuLimit limit hl⟩
  | memLimit =>
    obtain ⟨limit, hl, rfl⟩ := Option.map_eq_some_iff.mp h
    exact ⟨_, rfl, .memLimit limit hl⟩

variable {config config' : AuthoredServiceConfig}

theorem SettingPut.frame {id : String} (h : SettingPut id config setting value config')
    (suffix : String) {q : Setting} (hq : q ≠ setting) (hb : ¬(setting = .source ∧ q = .branch))
    (hs : ¬(setting = .branch ∧ q = .source)) :
    settingValue config' suffix q = settingValue config suffix q := by
  cases h <;> cases q <;>
    first | rfl | exact absurd rfl hq | exact absurd ⟨rfl, rfl⟩ hb | exact absurd ⟨rfl, rfl⟩ hs

/-- A value some Service's settings read as there, or the default. -/
def Fitting (setting : Setting) (value : Value) : Prop :=
  value = defaultValue setting ∨ ∃ config suffix, value = settingValue config suffix setting

theorem sourceCell_keepBranch (current : ServiceSource) (cell : SourceCell) (id : String) :
    sourceCell (keepBranch current (cell.parse id)) = sourceCell (cell.parse id) := by
  cases cell <;> cases current <;> rfl

/-- What `putSetting` writes reads back, a source without the branch it carried. -/
theorem SettingPut.read {id : String} (h : SettingPut id config setting value config')
    (hb : setting ≠ .branch) (hs : setting ≠ .source) (hfit : Fitting setting value)
    (suffix : String) : settingValue config' suffix setting = value := by
  cases h with
  | source cell => exact absurd rfl hs
  | noBranch | branch => exact absurd rfl hb
  | restartPolicy policy hp =>
    rcases hfit with hv | ⟨c, sfx, hv⟩
    · cases hv; cases hp; rfl
    · obtain rfl : _ = c.restartPolicy.toString := Value.string.inj hv
      rw [ServiceRestartPolicy.parse_toString] at hp
      cases hp
      rfl
  | buildMethod method hm =>
    rcases hfit with hv | ⟨c, sfx, hv⟩
    · cases hv; cases hm; rfl
    · obtain rfl : _ = c.build.buildMethod.toString := Value.string.inj hv
      rw [BuildMethod.parse_toString] at hm
      cases hm
      rfl
  | cpuLimit limit hl =>
    rcases hfit with rfl | ⟨c, sfx, rfl⟩
    · cases hl; rfl
    · cases hc : c.cpuLimit <;> simp_all [settingValue, optional, Value.asOptionalFloat]
  | memLimit limit hl =>
    rcases hfit with rfl | ⟨c, sfx, rfl⟩
    · cases hl; rfl
    · cases hc : c.memLimit <;> simp_all [settingValue, optional, Value.asOptionalFloat]
  | _ => rfl

theorem optional_ne_source {α : Type} {f : α → Value} (hf : ∀ x cell, f x ≠ .source cell)
    (o : Option α) (cell : SourceCell) : optional f o ≠ .source cell := by
  cases o with
  | none => simp [optional]
  | some x => exact hf x cell

theorem settingValue_ne_source (config : AuthoredServiceConfig) (suffix : String)
    (hs : setting ≠ .source) (cell : SourceCell) :
    settingValue config suffix setting ≠ .source cell := by
  cases setting <;> simp only [settingValue] <;>
    first | exact absurd rfl hs | exact optional_ne_source (by simp) _ _ | simp

theorem settled_value (h : ∀ cell, value ≠ .source cell) :
    View.settled (.cell (.value value)) = .cell (.value value) := by
  cases value <;> first | exact absurd rfl (h _) | rfl

theorem settled_source (cell : SourceCell) (id : String) :
    View.settled (.cell (.value (.source cell))) =
      .cell (.value (.source (sourceCell (cell.parse id)))) := by
  cases cell with
  | image _ _ credentials => cases credentials <;> rfl
  | _ => rfl

theorem settingCell_branch (config : AuthoredServiceConfig) (suffix : String) :
    settingCell config suffix .branch = match config.source.branch? with
      | some branch => .value (.branch branch)
      | none => .absent := by
  cases hs : config.source <;>
    simp [settingCell, settingValue, hs, ServiceSource.branch?, optional, isUnset, defaultValue]

theorem branch_keepBranch (config : AuthoredServiceConfig) (suffix : String) (cell : SourceCell)
    (id : String) :
    SealedCell.cell (settingCell
      { config with source := keepBranch config.source (cell.parse id) } suffix .branch) =
      View.branchAfter (.cell (settingCell config suffix .branch))
        (.cell (.value (.source cell))) := by
  rw [settingCell_branch, settingCell_branch]
  cases cell <;> cases config.source <;> rfl

end Ployz
