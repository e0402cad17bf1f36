import Ployz.Config.Sync.Settings

/-!
# Everything the writer can do

Putting a cell either takes a node away, leaves the document as it is, changes a Volume's
name or storage, or changes one Service: its mounts, its variables or one setting.
`putSealed_cases` says so once, and what a put keeps or writes is read off its cases.
-/

namespace Ployz

open Keyed Run

/-- What putting `cell` at `place` can do to the Service `s` of a document `env`. -/
inductive ServiceChange (env : SavedEnvironmentIntent) (uuid : String) (s : SavedServiceIntent) :
    At → SealedCell → (SavedServiceIntent → SavedServiceIntent) → Prop
  | detach {lineage : String} {v : SavedVolumeIntent} (hv : volume env lineage = some v) :
      ServiceChange env uuid s (.mount lineage) (.cell .absent) (·.detach v.resourceId)
  | attach {lineage : String} {v : SavedVolumeIntent} (hv : volume env lineage = some v)
      (path : String) : ServiceChange env uuid s (.mount lineage) (.cell (.value (.string path)))
        (·.attach v.resourceId path)
  | drop (key : String) : ServiceChange env uuid s (.var key) (.cell .absent) (·.dropVariable key)
  | set (key : String) {cell : Cell} {value : SavedVariableValue} {fingerprint : String}
      (hvalue : variableValue cell = some (value, fingerprint)) :
      ServiceChange env uuid s (.var key) (.cell cell) (·.setVariable uuid key value fingerprint)
  | sealWith (key : String) (secret : SealedSecret) :
      ServiceChange env uuid s (.var key) (.secret secret) fun s =>
        (s.setVariable uuid key (.secret none) secret.fingerprint).modifyVariable key
          (·.sealWith secret.value)
  | setting {setting : Setting} {value : Value} {cell : Cell} {config : AuthoredServiceConfig}
      (hput : SettingPut s.id s.config setting value config)
      (hconfig : putSetting s setting value = some { s with config })
      (hcell : cell = .absent ∧ value = defaultValue setting ∨ cell = .value value) :
      ServiceChange env uuid s (.setting setting) (.cell cell) fun s =>
        (putSetting s setting value).getD s

/-- Nothing to clear: no node, or no Volume to unmount. -/
def Lacks (env : SavedEnvironmentIntent) (row : RowId) : Prop :=
  match row.place with
  | .name | .storage => volume env row.lineage = none
  | .mount lineage => service env row.lineage = none ∨ volume env lineage = none
  | _ => service env row.lineage = none

/-- What putting `cell` at `row` can do to a document. -/
inductive Change (uuid : String) (env : SavedEnvironmentIntent) (row : RowId) (cell : SealedCell) :
    SavedEnvironmentIntent → Prop
  | leave (hplace : row.place = .node) (hcell : cell = .cell .absent) :
      Change uuid env row cell (env.without row.lineage)
  | stay (hplace : row.place = .node) (hnode : (nodes env).contains row.lineage = true) :
      Change uuid env row cell env
  | lack (hplace : row.place ≠ .node) (hcell : cell = .cell .absent) (hlacks : Lacks env row) :
      Change uuid env row cell env
  | name {v : SavedVolumeIntent} (hplace : row.place = .name)
      (hv : volume env row.lineage = some v) (name : String)
      (hcell : cell = .cell (.value (.string name))) :
      Change uuid env row cell (env.modifyVolume row.lineage fun v => { v with name := name })
  | storage {v : SavedVolumeIntent} (hplace : row.place = .storage)
      (hv : volume env row.lineage = some v) (storage : VolumeKind)
      (hcell : cell = .cell (.value (.storage storage))) :
      Change uuid env row cell (env.modifyVolume row.lineage fun v => { v with storage := storage })
  | service {s : SavedServiceIntent} {f : SavedServiceIntent → SavedServiceIntent}
      (hs : service env row.lineage = some s) (hf : ServiceChange env uuid s row.place cell f) :
      Change uuid env row cell (env.modifyService row.lineage f)

theorem modifyService_modifyService (env : SavedEnvironmentIntent) (lineage : String)
    {f g : SavedServiceIntent → SavedServiceIntent} (hf : ∀ s, (f s).lineageId = s.lineageId) :
    (env.modifyService lineage f).modifyService lineage g = env.modifyService lineage (g ∘ f) := by
  simp only [SavedEnvironmentIntent.modifyService, SavedEnvironmentIntent.mk.injEq, true_and,
    and_true]
  exact modifyFirst_modifyFirst (fun s => by simp [hf]) _

theorem setVariable_lineageId (s : SavedServiceIntent) (uuid key : String)
    (value : SavedVariableValue) (fingerprint : String) :
    (s.setVariable uuid key value fingerprint).lineageId = s.lineageId := by
  unfold SavedServiceIntent.setVariable
  split <;> rfl

variable {env env' : SavedEnvironmentIntent} {row : RowId} {cell : Cell} {uuid : String}

theorem missing_eq_ok (h : missing env row cell = .ok env') : cell = .absent ∧ env' = env := by
  cases cell <;> cases h
  exact ⟨rfl, rfl⟩

theorem Change.of_missing (hplace : row.place ≠ .node) (hlacks : Lacks env row)
    (h : missing env row cell = .ok env') : Change uuid env row (.cell cell) env' := by
  obtain ⟨rfl, rfl⟩ := missing_eq_ok h
  exact .lack hplace rfl hlacks

theorem putName_cases (hplace : row.place = .name) (h : putName env row cell = .ok env') :
    Change uuid env row (.cell cell) env' := by
  unfold putName at h
  split at h
  · next hv => exact .of_missing (by simp [hplace]) (by simpa [Lacks, hplace] using hv) h
  · next v hv =>
    split at h <;> cases h
    exact .name hplace hv _ rfl

theorem putStorage_cases (hplace : row.place = .storage) (h : putStorage env row cell = .ok env') :
    Change uuid env row (.cell cell) env' := by
  unfold putStorage at h
  split at h
  · next hv => exact .of_missing (by simp [hplace]) (by simpa [Lacks, hplace] using hv) h
  · next v hv =>
    split at h <;> cases h
    exact .storage hplace hv _ rfl

theorem putMount_cases {lineage : String} (hplace : row.place = .mount lineage)
    (h : putMount env row lineage cell = .ok env') : Change uuid env row (.cell cell) env' := by
  unfold putMount at h
  split at h
  · next hs => exact .of_missing (by simp [hplace]) (by simpa [Lacks, hplace] using .inl hs) h
  · next s hs =>
    split at h <;> cases h
    · next v hv => exact .service hs (hplace ▸ .detach hv)
    · next hv => exact .lack (by simp [hplace]) rfl (by simpa [Lacks, hplace] using .inr hv)
    · next v hv => exact .service hs (hplace ▸ .attach hv _)

theorem putVariable_cases {key : String} (hplace : row.place = .var key)
    (h : putVariable uuid env row key cell = .ok env') : Change uuid env row (.cell cell) env' := by
  unfold putVariable at h
  split at h
  · next hs => exact .of_missing (by simp [hplace]) (by simpa [Lacks, hplace] using hs) h
  · next s hs =>
    split at h
    · cases h
      exact .service hs (hplace ▸ .drop key)
    · split at h <;> cases h
      next hvalue => exact .service hs (hplace ▸ .set key hvalue)

theorem putSettingValue_cases {s : SavedServiceIntent} {setting : Setting} {value : Value}
    (hplace : row.place = .setting setting) (hs : service env row.lineage = some s)
    (hcell : cell = .absent ∧ value = defaultValue setting ∨ cell = .value value)
    (h : putSettingValue env row s setting value = .ok env') :
    Change uuid env row (.cell cell) env' := by
  unfold putSettingValue at h
  split at h
  · next s' hput =>
    obtain ⟨config, rfl, hp⟩ := putSetting_cases hput
    cases h
    exact .service hs (hplace ▸ .setting hp hput hcell)
  · cases h

theorem putSettingRow_cases {setting : Setting} (hplace : row.place = .setting setting)
    (h : putSettingRow env row setting cell = .ok env') :
    Change uuid env row (.cell cell) env' := by
  unfold putSettingRow at h
  split at h
  · next hs => exact .of_missing (by simp [hplace]) (by simpa [Lacks, hplace] using hs) h
  · next s hs =>
    split at h
    · exact putSettingValue_cases hplace hs (.inl ⟨rfl, rfl⟩) h
    · exact putSettingValue_cases hplace hs (.inr rfl) h
    · cases h

theorem putInto_cases (h : putInto uuid env row cell = .ok env') :
    Change uuid env row (.cell cell) env' := by
  unfold putInto at h
  split at h
  · next hplace =>
    unfold putNode at h
    split at h
    · cases h
      exact .leave hplace rfl
    · split at h <;> cases h
      next hn => exact .stay hplace hn
  · cases h
  · next hplace => exact putName_cases hplace h
  · next hplace => exact putStorage_cases hplace h
  · next hplace => exact putMount_cases hplace h
  · next hplace => exact putVariable_cases hplace h
  · next hplace => exact putSettingRow_cases hplace h

/-- Everything `putSealed` can do. -/
theorem putSealed_cases {cell : SealedCell} (h : putSealed uuid env row cell = .ok env') :
    Change uuid env row cell env' := by
  obtain ⟨mid, hmid, h⟩ := bind_eq_ok.mp h
  cases cell with
  | cell cell =>
    simp only [pure_eq_ok] at h
    exact h ▸ putInto_cases hmid
  | secret secret =>
    cases putInto_cases hmid with
    | leave _ hcell | lack _ hcell | name _ _ _ hcell | storage _ _ _ hcell => cases hcell
    | stay hplace hn =>
      simp only [hplace, pure_eq_ok] at h
      exact h ▸ .stay hplace hn
    | service hs hf =>
      obtain ⟨lineage, place⟩ := row
      cases hf with
      | setting _ _ hcell => rcases hcell with ⟨h, -⟩ | h <;> cases h
      | set key hvalue =>
        cases hvalue
        simp only [pure_eq_ok] at h
        rw [modifyService_modifyService _ _ fun s => setVariable_lineageId s uuid key _ _] at h
        exact h ▸ .service hs (.sealWith key secret)

end Ployz
