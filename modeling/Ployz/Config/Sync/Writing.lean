import Ployz.Config.Sync.Changes

/-!
# What the writer writes

Each way the writer changes a document is one of the operations on views: putting a
cell at a row of a node is `View.write`, taking a node away is `View.leave`. Documents
keep their identities distinct throughout.
-/

namespace Ployz

open Keyed Run

/-! ## Looking nodes up in a changed document -/

/-- A change to a Service that leaves its identities alone. -/
structure Keeps (f : SavedServiceIntent → SavedServiceIntent) : Prop where
  id : ∀ s, (f s).id = s.id
  lineageId : ∀ s, (f s).lineageId = s.lineageId
  slug : ∀ s, (f s).slug = s.slug

variable {env env' : SavedEnvironmentIntent} {f : SavedServiceIntent → SavedServiceIntent}
  {v : SavedVolumeIntent} {lineage uuid : String} {s : SavedServiceIntent} {cell : SealedCell}
  {row : RowId}

theorem service_modifyService (hf : ∀ s, (f s).lineageId = s.lineageId) (lineage l : String) :
    service (env.modifyService lineage f) l =
      if l = lineage then (service env l).map f else service env l := by
  split
  · next h => subst h; exact find_modifyFirst_self hf _ _
  · next h => exact find_modifyFirst_of_ne hf h _

theorem volume_modifyVolume {f : SavedVolumeIntent → SavedVolumeIntent}
    (hf : ∀ v, (f v).resourceLineageId = v.resourceLineageId) (lineage l : String) :
    volume (env.modifyVolume lineage f) l =
      if l = lineage then (volume env l).map f else volume env l := by
  split
  · next h => subst h; exact find_modifyFirst_self hf _ _
  · next h => exact find_modifyFirst_of_ne hf h _

theorem service_without (env : SavedEnvironmentIntent) (lineage l : String) :
    service (env.without lineage) l = if l = lineage then none else service env l := by
  split
  · next h => subst h; exact find_filter_self _ _
  · next h => exact find_filter_of_ne h _

theorem volume_without (env : SavedEnvironmentIntent) (lineage l : String) :
    volume (env.without lineage) l = if l = lineage then none else volume env l := by
  split
  · next h => subst h; exact find_filter_self _ _
  · next h => exact find_filter_of_ne h _

/-! ## What a Service holds, changed -/

/-- What `s` holds at each place, in a document of `env`'s Volumes. -/
abbrev held (env : SavedEnvironmentIntent) (suffix : String) (s : SavedServiceIntent) (place : At) :
    SealedCell :=
  placeSealed env suffix (.service s) place

/-- `s'` is `s` with `cell` put at `place`. -/
def Wrote (env : SavedEnvironmentIntent) (suffix : String) (s s' : SavedServiceIntent) (place : At)
    (cell : SealedCell) : Prop :=
  ∀ p, held env suffix s' p =
    if p = place then View.settled cell
    else if place = .setting .source ∧ p = .setting .branch then
      View.branchAfter (held env suffix s p) cell
    else held env suffix s p

theorem mountCell_congr
    (h : ∀ l, (volume env' l).map (·.resourceId) = (volume env l).map (·.resourceId))
    (s : SavedServiceIntent) (lineage : String) :
    mountCell env' s lineage = mountCell env s lineage := by
  have hl := h lineage
  cases hv : volume env lineage with
  | none =>
    rw [hv, Option.map_none, Option.map_eq_none_iff] at hl
    rw [mountCell_of_none hv, mountCell_of_none hl]
  | some v =>
    rw [hv, Option.map_some, Option.map_eq_some_iff] at hl
    obtain ⟨v', hv', hid⟩ := hl
    rw [mountCell_of_some hv, mountCell_of_some hv', hid]

theorem placeSealed_congr
    (h : ∀ l, (volume env' l).map (·.resourceId) = (volume env l).map (·.resourceId))
    (suffix : String) (node : NodeRef) (place : At) :
    placeSealed env' suffix node place = placeSealed env suffix node place := by
  cases node <;> cases place <;> simp [placeSealed, placeCell, mountCell_congr h]

theorem Sound.volume_id_inj (h : Sound env) {l l' : String} {v' : SavedVolumeIntent}
    (hv : volume env l = some v) (hv' : volume env l' = some v')
    (hid : v.resourceId = v'.resourceId) : l = l' := by
  obtain ⟨hm, rfl⟩ := (find_eq_some_iff h.volumes).mp hv
  obtain ⟨hm', rfl⟩ := (find_eq_some_iff h.volumes).mp hv'
  rw [List.inj_on_of_nodup_map h.volumeIds hm hm' hid]

/-- A change to a Service's mounts that only the Volume of `lineage` sees. -/
theorem wrote_mount (h : Sound env) (hv : volume env lineage = some v) (suffix : String)
    (s s' : SavedServiceIntent) (hconfig : s'.config = s.config) (hvars : s'.vars = s.vars)
    (hframe : ∀ id, id ≠ v.resourceId → s'.volumeAttachments.find? (·.volumeResourceId == id) =
      s.volumeAttachments.find? (·.volumeResourceId == id)) :
    Wrote env suffix s s' (.mount lineage) (.cell
      (attachmentCell (s'.volumeAttachments.find? (·.volumeResourceId == v.resourceId)))) := by
  intro place
  cases place with
  | mount l =>
    simp only [held, placeSealed, placeCell, At.mount.injEq]
    by_cases hl : l = lineage
    · subst hl
      rw [if_pos rfl, mountCell_of_some hv]
      cases s'.volumeAttachments.find? (·.volumeResourceId == v.resourceId) <;> rfl
    · simp only [hl, if_false, reduceCtorEq, false_and]
      cases hv' : volume env l with
      | none => rw [mountCell_of_none hv', mountCell_of_none hv']
      | some v' =>
        have hne : v'.resourceId ≠ v.resourceId := fun hid => hl (h.volume_id_inj hv' hv hid)
        rw [mountCell_of_some hv', mountCell_of_some hv', hframe _ hne]
  | _ => simp [held, placeSealed, placeCell, varSealed, hconfig, hvars]

theorem wrote_detach (h : Sound env) (hv : volume env lineage = some v) (suffix : String)
    (s : SavedServiceIntent) :
    Wrote env suffix s (s.detach v.resourceId) (.mount lineage) (.cell .absent) := by
  have hw := wrote_mount h hv suffix s (s.detach v.resourceId) rfl rfl fun id hid =>
    find_filter_of_ne hid s.volumeAttachments
  have hnone : (s.detach v.resourceId).volumeAttachments.find?
      (·.volumeResourceId == v.resourceId) = none := find_filter_self _ _
  rwa [hnone] at hw

theorem wrote_attach (h : Sound env) (hv : volume env lineage = some v) (suffix : String)
    (s : SavedServiceIntent) (path : String) :
    Wrote env suffix s (s.attach v.resourceId path) (.mount lineage)
      (.cell (.value (.string path))) := by
  have hfind : ∀ id, (s.attach v.resourceId path).volumeAttachments.find?
      (·.volumeResourceId == id) = ((s.volumeAttachments.filter
        (·.volumeResourceId != v.resourceId)).find? (·.volumeResourceId == id)).or
      (if v.resourceId = id then some ⟨v.resourceId, path⟩ else none) := fun id => by
    rw [SavedServiceIntent.attach, List.find?_append]
    by_cases hid : v.resourceId = id <;> simp [hid]
  have hw := wrote_mount h hv suffix s (s.attach v.resourceId path) rfl rfl fun id hid => by
    rw [hfind, find_filter_of_ne hid, if_neg hid.symm, Option.or_none]
  rwa [hfind, find_filter_self, if_pos rfl, Option.none_or] at hw

theorem varSealed_of_some {key : String} {v : SavedVariableIntent}
    (h : s.vars.find? (·.key == key) = some v) : varSealed s key = variableSealed v := by
  simp [varSealed, h]

theorem settled_variableSealed (v : SavedVariableIntent) :
    View.settled (variableSealed v) = variableSealed v := by
  unfold variableSealed variableCell
  cases v.value with
  | secret e => cases e <;> rfl
  | _ => rfl

/-- A change to a Service's variables that only `key` sees. -/
theorem wrote_var (env : SavedEnvironmentIntent) (suffix : String) (s s' : SavedServiceIntent)
    (hconfig : s'.config = s.config) (hattached : s'.volumeAttachments = s.volumeAttachments)
    (key : String)
    (hframe : ∀ k, k ≠ key → s'.vars.find? (·.key == k) = s.vars.find? (·.key == k)) :
    Wrote env suffix s s' (.var key) (varSealed s' key) := by
  intro place
  cases place with
  | var k =>
    simp only [held, placeSealed, At.var.injEq]
    by_cases hk : k = key
    · subst hk
      rw [if_pos rfl, varSealed]
      cases s'.vars.find? (·.key == k) with
      | none => rfl
      | some v => exact (settled_variableSealed v).symm
    · simp only [hk, if_false, reduceCtorEq, false_and, varSealed, hframe k hk]
  | _ => simp [held, placeSealed, placeCell, mountCell, hconfig, hattached]

theorem wrote_dropVariable (env : SavedEnvironmentIntent) (suffix : String)
    (s : SavedServiceIntent) (key : String) :
    Wrote env suffix s (s.dropVariable key) (.var key) (.cell .absent) := by
  have hw := wrote_var env suffix s (s.dropVariable key) rfl rfl key fun k hk =>
    find_filter_of_ne hk s.vars
  have hnone : (s.dropVariable key).vars.find? (·.key == key) = none := find_filter_self _ _
  rwa [varSealed, hnone] at hw

theorem find_modifyVariable (s : SavedServiceIntent) (key k : String)
    (f : SavedVariableIntent → SavedVariableIntent) (hf : ∀ v, (f v).key = v.key) :
    (s.modifyVariable key f).vars.find? (·.key == k) =
      if k = key then (s.vars.find? (·.key == k)).map f else s.vars.find? (·.key == k) := by
  split
  · next h => subst h; exact find_modifyFirst_self hf _ _
  · next h => exact find_modifyFirst_of_ne hf h _

theorem find_setVariable (s : SavedServiceIntent) (uuid key k : String)
    (value : SavedVariableValue) (fingerprint : String) :
    (s.setVariable uuid key value fingerprint).vars.find? (·.key == k) =
      if k = key then
        some (((s.vars.find? (·.key == k)).getD
          ⟨uuid, key, none, false, fingerprint, value⟩).setValue
          value fingerprint)
      else s.vars.find? (·.key == k) := by
  unfold SavedServiceIntent.setVariable
  split
  · next v hfind =>
    rw [find_modifyVariable s key k (·.setValue value fingerprint) fun _ => rfl]
    split
    · next h => subst h; simp [hfind]
    · rfl
  · next hfind =>
    by_cases hk : k = key
    · subst hk; simp [List.find?_append, hfind, SavedVariableIntent.setValue]
    · simp [List.find?_append, hk, Ne.symm hk]

theorem setVariable_config (s : SavedServiceIntent) (uuid key : String)
    (value : SavedVariableValue) (fingerprint : String) :
    (s.setVariable uuid key value fingerprint).config = s.config ∧
      (s.setVariable uuid key value fingerprint).volumeAttachments = s.volumeAttachments := by
  unfold SavedServiceIntent.setVariable
  split <;> exact ⟨rfl, rfl⟩

/-- A variable's cell, written as `variableValue` says. -/
theorem wrote_setVariable (env : SavedEnvironmentIntent) (suffix : String)
    (s : SavedServiceIntent) (uuid key : String) {cell : Cell} {value : SavedVariableValue}
    {fingerprint : String} (hvalue : variableValue cell = some (value, fingerprint)) :
    Wrote env suffix s (s.setVariable uuid key value fingerprint) (.var key) (.cell cell) := by
  obtain ⟨hconfig, hattached⟩ := setVariable_config s uuid key value fingerprint
  have hw := wrote_var env suffix s (s.setVariable uuid key value fingerprint) hconfig hattached key
    fun k hk => by rw [find_setVariable, if_neg hk]
  have hcell : ∀ v : SavedVariableIntent,
      variableSealed (v.setValue value fingerprint) = .cell cell := fun v => by
    cases cell with
    | absent => cases hvalue
    | secret _ => cases hvalue; rfl
    | secretWithoutValue => cases hvalue; rfl
    | value x =>
      cases x with
      | var y _ => cases y <;> cases hvalue <;> rfl
      | _ => cases hvalue
  rwa [varSealed_of_some ((find_setVariable s uuid key key value fingerprint).trans (if_pos rfl)),
    hcell] at hw

/-- A sealed secret, written: its fingerprint first, then its ciphertext. -/
theorem wrote_sealWith (env : SavedEnvironmentIntent) (suffix : String) (s : SavedServiceIntent)
    (uuid key : String) (secret : SealedSecret) :
    Wrote env suffix s
      ((s.setVariable uuid key (.secret none) secret.fingerprint).modifyVariable key
        (·.sealWith secret.value)) (.var key) (.secret secret) := by
  obtain ⟨hconfig, hattached⟩ := setVariable_config s uuid key (.secret none) secret.fingerprint
  have hfind := fun k => find_modifyVariable
    (s.setVariable uuid key (.secret none) secret.fingerprint) key k (·.sealWith secret.value)
      fun _ => rfl
  have hw := wrote_var env suffix s
    ((s.setVariable uuid key (.secret none) secret.fingerprint).modifyVariable key
      (·.sealWith secret.value)) hconfig hattached key fun k hk => by
    rw [hfind, if_neg hk, find_setVariable, if_neg hk]
  have hself := hfind key
  rw [if_pos rfl, find_setVariable, if_pos rfl, Option.map_some] at hself
  rwa [varSealed_of_some hself] at hw

theorem held_setting (env : SavedEnvironmentIntent) (suffix : String) (s : SavedServiceIntent)
    (setting : Setting) :
    held env suffix s (.setting setting) = .cell (settingCell s.config suffix setting) := rfl

/-- The settings after `putSetting`, as rows read them. -/
theorem wrote_setting {suffix : String}
    {config : AuthoredServiceConfig} {setting : Setting} {value : Value} {cell : Cell}
    (h : SettingPut s.id s.config setting value config) (hb : setting ≠ .branch)
    (hcell : cell = .absent ∧ value = defaultValue setting ∨
      cell = .value value ∧ isUnset setting value = false)
    (hfit : setting ≠ .source → Fitting setting value) :
    Wrote env suffix s { s with config } (.setting setting) (.cell cell) := by
  intro place
  cases place with
  | setting q =>
    rw [held_setting, held_setting]
    by_cases hq : q = setting
    · subst hq
      rw [if_pos rfl]
      by_cases hs : q = .source
      · subst hs
        cases h with
        | source source =>
          rw [settingCell, settingValue, sourceCell_keepBranch]
          rcases hcell with ⟨rfl, hv⟩ | ⟨rfl, hv⟩
          · cases hv; rfl
          · rw [settled_source source s.id, if_neg]
            cases source <;> simp_all [isUnset, defaultValue, SourceCell.parse, sourceCell]
      · have hread := h.read hb hs (hfit hs) suffix
        rw [settingCell, hread]
        rcases hcell with ⟨rfl, rfl⟩ | ⟨rfl, hv⟩
        · simp [isUnset, View.settled]
        · rw [hv, settled_value fun c => hread ▸ settingValue_ne_source config suffix hs c]
          rfl
    · rw [if_neg (by simpa using hq)]
      by_cases hsb : setting = .source ∧ q = .branch
      · obtain ⟨rfl, rfl⟩ := hsb
        rw [if_pos ⟨rfl, rfl⟩]
        cases h with
        | source source =>
          rw [branch_keepBranch]
          rcases hcell with ⟨rfl, hv⟩ | ⟨rfl, -⟩
          · cases hv; rfl
          · rfl
      · rw [if_neg (by simpa using hsb), settingCell, settingCell,
          h.frame suffix hq hsb (fun hc => hb hc.1)]
  | _ => simp [held, placeSealed, placeCell, mountCell, varSealed]

/-! ## Putting a cell is a write -/

/-- A cell its row can hold: a setting's value some Service's settings read as. -/
def Fits : At → SealedCell → Prop
  | .setting setting, .cell (.value value) =>
    isUnset setting value = false ∧ (setting ≠ .source → Fitting setting value)
  | _, _ => True

theorem setVariable_keeps (uuid key : String) (value : SavedVariableValue) (fingerprint : String) :
    Keeps (·.setVariable uuid key value fingerprint) := by
  constructor <;> intro s <;> unfold SavedServiceIntent.setVariable <;> split <;> rfl

theorem putSetting_keeps (setting : Setting) (value : Value) :
    Keeps fun s => (putSetting s setting value).getD s := by
  have hkeep : ∀ s, ∃ config, (putSetting s setting value).getD s = { s with config } := fun s => by
    cases h : putSetting s setting value with
    | none => exact ⟨s.config, rfl⟩
    | some s' =>
      obtain ⟨config, rfl, -⟩ := putSetting_cases h
      exact ⟨config, rfl⟩
  constructor <;> intro s <;> obtain ⟨config, h⟩ := hkeep s <;> simp only [h]

variable {place : At}

theorem ServiceChange.keeps (h : ServiceChange env uuid s place cell f) :
    Keeps f := by
  cases h with
  | detach | attach | drop => constructor <;> intro s <;> rfl
  | set key => exact setVariable_keeps ..
  | sealWith key secret =>
    have hk := setVariable_keeps uuid key (.secret none) secret.fingerprint
    exact ⟨hk.id, hk.lineageId, hk.slug⟩
  | setting => exact putSetting_keeps ..

theorem ServiceChange.wrote (h : ServiceChange env uuid s place cell f) (hsound : Sound env)
    (hb : place ≠ .setting .branch) (hfit : Fits place cell) (suffix : String) :
    Wrote env suffix s (f s) place cell := by
  cases h with
  | detach hv => exact wrote_detach hsound hv suffix s
  | attach hv path => exact wrote_attach hsound hv suffix s path
  | drop key => exact wrote_dropVariable env suffix s key
  | set key hvalue => exact wrote_setVariable env suffix s uuid key hvalue
  | sealWith key secret => exact wrote_sealWith env suffix s uuid key secret
  | setting hput hconfig hcell =>
    simp only [hconfig, Option.getD_some]
    refine wrote_setting hput (by simpa using hb) ?_ ?_
    · rcases hcell with h | rfl
      · exact .inl h
      · exact .inr ⟨rfl, hfit.1⟩
    · rcases hcell with ⟨-, rfl⟩ | rfl
      · exact fun _ => .inl rfl
      · exact hfit.2

theorem nodeAt_of_service (hv : volume env lineage = none) (hs : service env lineage = some s) :
    nodeAt env lineage = some (.service s) := by
  simp [nodeAt, hv, hs]

theorem nodeAt_of_volume (hv : volume env lineage = some v) :
    nodeAt env lineage = some (.volume v) := by
  simp [nodeAt, hv]

/-- A change to a Service is a write to the Services. -/
theorem serviceView_modifyService (hs : service env lineage = some s) (hk : Keeps f)
    {suffix : String} (hw : Wrote env suffix s (f s) place cell) :
    serviceView (env.modifyService lineage f) suffix =
      (serviceView env suffix).write ⟨lineage, place⟩ cell := by
  have hself : service (env.modifyService lineage f) lineage = some (f s) := by
    rw [service_modifyService hk.lineageId, if_pos rfl, hs]
    rfl
  have hother : ∀ l, l ≠ lineage → service (env.modifyService lineage f) l = service env l :=
    fun l hl => by rw [service_modifyService hk.lineageId, if_neg hl]
  have hcongr : ∀ node place, placeSealed (env.modifyService lineage f) suffix node place =
      placeSealed env suffix node place := placeSealed_congr (fun _ => rfl) suffix
  ext1
  · funext l
    by_cases hl : l = lineage
    · subst hl
      simp [View.write, serviceView, hs, hself, hk.slug]
    · simp [View.write, serviceView, hother l hl]
  · funext r
    obtain ⟨l, p⟩ := r
    by_cases hl : l = lineage
    · subst hl
      simp only [View.write, serviceView, hs, hself, hcongr, RowId.mk.injEq, true_and]
      exact hw p
    · simp only [View.write, serviceView, hother l hl, hcongr, RowId.mk.injEq, hl, false_and,
        if_false, and_false]

/-- A change to a Volume's name or storage is a write to the Volumes. -/
theorem volumeView_modifyVolume (f : SavedVolumeIntent → SavedVolumeIntent) (place : At)
    (cell : Cell)
    (hv : volume env lineage = some v)
    (hlineage : ∀ v, (f v).resourceLineageId = v.resourceLineageId) (suffix : String)
    (hplace : place ≠ .setting .source)
    (hcell : View.settled (.cell cell) = .cell cell)
    (hw : ∀ p, placeCell env suffix (.volume (f v)) p =
      if p = place then cell else placeCell env suffix (.volume v) p) :
    volumeView (env.modifyVolume lineage f) suffix =
      (volumeView env suffix).write ⟨lineage, place⟩ (.cell cell) := by
  have hself : volume (env.modifyVolume lineage f) lineage = some (f v) := by
    rw [volume_modifyVolume hlineage, if_pos rfl, hv]
    rfl
  have hother : ∀ l, l ≠ lineage → volume (env.modifyVolume lineage f) l = volume env l :=
    fun l hl => by rw [volume_modifyVolume hlineage, if_neg hl]
  have hcongr : ∀ v p, placeSealed (env.modifyVolume lineage f) suffix (.volume v) p =
      placeSealed env suffix (.volume v) p := fun v p => by
    cases p <;> rfl
  ext1
  · funext l
    by_cases hl : l = lineage
    · subst hl
      simp [View.write, volumeView, hv, hself]
    · simp [View.write, volumeView, hother l hl]
  · funext r
    obtain ⟨l, p⟩ := r
    by_cases hl : l = lineage
    · subst hl
      simp only [View.write, volumeView, hv, hself, hcongr, RowId.mk.injEq, true_and, hplace,
        false_and, if_false, hcell]
      simp only [placeSealed, hw p]
      split <;> rfl
    · simp only [View.write, volumeView, hother l hl, hcongr, RowId.mk.injEq, hl, false_and,
        if_false, and_false]

theorem volumeView_modifyService (env : SavedEnvironmentIntent) (lineage suffix : String)
    (f : SavedServiceIntent → SavedServiceIntent) :
    volumeView (env.modifyService lineage f) suffix = volumeView env suffix := by
  ext1
  · rfl
  · funext r
    have hsame : volume (env.modifyService lineage f) r.lineage = volume env r.lineage := rfl
    simp only [volumeView, hsame]
    cases volume env r.lineage with
    | none => rfl
    | some v => cases r.place <;> rfl

/-- Renaming a Volume is nothing to the Services. -/
theorem serviceView_modifyVolume (env : SavedEnvironmentIntent) (lineage suffix : String)
    (f : SavedVolumeIntent → SavedVolumeIntent)
    (hlineage : ∀ v, (f v).resourceLineageId = v.resourceLineageId)
    (hid : ∀ v, (f v).resourceId = v.resourceId) :
    serviceView (env.modifyVolume lineage f) suffix = serviceView env suffix := by
  have hcongr : ∀ node p, placeSealed (env.modifyVolume lineage f) suffix node p =
      placeSealed env suffix node p := by
    refine placeSealed_congr (fun l => ?_) suffix
    rw [volume_modifyVolume hlineage]
    split <;> simp [Option.map_map, Function.comp_def, hid]
  ext1
  · rfl
  · funext r
    have hsame : service (env.modifyVolume lineage f) r.lineage = service env r.lineage := rfl
    simp only [serviceView, hsame, hcongr]

theorem View.write_absent {v : View} (h : v.cell row = .cell .absent)
    (hb : row.place = .setting .source → v.cell ⟨row.lineage, .setting .branch⟩ = .cell .absent) :
    v.write row (.cell .absent) = v := by
  ext1
  · rfl
  · funext r
    simp only [View.write]
    split
    · next hr => rw [hr, h]; rfl
    · split
      · next hr => rw [hr.2, hb hr.1]; rfl
      · rfl

/-- A Volume's own places. -/
def At.ofVolume : At → Bool
  | .name | .storage => true
  | _ => false

theorem ServiceChange.not_ofVolume (h : ServiceChange env uuid s place cell f) :
    place.ofVolume = false := by
  cases h <;> rfl

theorem serviceView_absent (suffix : String) (h : service env row.lineage = none) :
    (serviceView env suffix).cell row = .cell .absent := by
  simp [serviceView, h]

theorem serviceView_lacks (suffix : String) (hplace : row.place ≠ .node)
    (hvolume : row.place.ofVolume = false) (h : Lacks env row) :
    (serviceView env suffix).write row (.cell .absent) = serviceView env suffix := by
  obtain ⟨l, place⟩ := row
  refine View.write_absent ?_ fun hsource => ?_
  · cases hs : service env l with
    | none => exact serviceView_absent suffix hs
    | some s => cases place <;> simp_all [Lacks, serviceView, placeSealed, placeCell, mountCell,
        At.ofVolume]
  · simp only at hsource
    subst hsource
    exact serviceView_absent suffix h

/-- Putting a cell at a row writes to the Services, but for a Volume's name and storage. -/
theorem serviceView_change (h : Change uuid env row cell env') (hsound : Sound env)
    (hnode : row.place ≠ .node) (hb : row.place ≠ .setting .branch) (hfit : Fits row.place cell)
    (suffix : String) : serviceView env' suffix = if row.place.ofVolume then serviceView env suffix
      else (serviceView env suffix).write row cell := by
  obtain ⟨lineage, place⟩ := row
  cases h with
  | leave hplace | stay hplace => exact absurd hplace hnode
  | lack _ hcell hlacks =>
    subst hcell
    split
    · rfl
    · next hv => exact (serviceView_lacks suffix hnode (by simpa using hv) hlacks).symm
  | name hplace _ name =>
    simp only at hplace
    subst hplace
    exact serviceView_modifyVolume env lineage suffix (fun v => { v with name := name })
      (fun _ => rfl) fun _ => rfl
  | storage hplace _ storage =>
    simp only at hplace
    subst hplace
    exact serviceView_modifyVolume env lineage suffix (fun v => { v with storage := storage })
      (fun _ => rfl) fun _ => rfl
  | service hs hf =>
    rw [hf.not_ofVolume]
    exact serviceView_modifyService hs hf.keeps (hf.wrote hsound hb hfit suffix)

/-- Putting a cell at a Volume's name or storage writes to the Volumes. -/
theorem volumeView_change (h : Change uuid env row cell env') (hnode : row.place ≠ .node)
    (suffix : String) : volumeView env' suffix = if row.place.ofVolume then
      (volumeView env suffix).write row cell else volumeView env suffix := by
  obtain ⟨lineage, place⟩ := row
  cases h with
  | leave hplace | stay hplace => exact absurd hplace hnode
  | lack _ hcell hlacks =>
    subst hcell
    split
    · next hv =>
      have hnone : volume env lineage = none := by
        cases place <;> simp_all [Lacks, At.ofVolume]
      refine (View.write_absent ?_ fun hsource => ?_).symm
      · simp [volumeView, hnone]
      · simp [volumeView, hnone]
    · rfl
  | name hplace hv name hcell =>
    simp only at hplace
    subst hplace hcell
    refine volumeView_modifyVolume (fun v => { v with name := name }) .name (.value (.string name))
      hv
      (fun _ => rfl) suffix (by simp) rfl fun p => ?_
    cases p <;> simp [placeCell]
  | storage hplace hv storage hcell =>
    simp only at hplace
    subst hplace hcell
    refine volumeView_modifyVolume (fun v => { v with storage := storage }) .storage
      (.value (.storage storage)) hv (fun _ => rfl) suffix (by simp) rfl fun p => ?_
    cases p <;> simp [placeCell]
  | service hs hf =>
    rw [hf.not_ofVolume]
    exact volumeView_modifyService ..

/-- Clearing what isn't there is no change. -/
theorem view_lacks (suffix : String) (hplace : row.place ≠ .node) (h : Lacks env row)
    (hshow : volume env row.lineage = none ∨ service env row.lineage = none) :
    (view env suffix).write row (.cell .absent) = view env suffix := by
  obtain ⟨l, place⟩ := row
  refine View.write_absent ?_ fun hsource => ?_
  · simp only [view, nodeAt]
    cases hv : volume env l with
    | some v => cases place <;> simp_all [Lacks, placeSealed, placeCell]
    | none =>
      cases hs : service env l with
      | none => rfl
      | some s => cases place <;> simp_all [Lacks, placeSealed, placeCell, mountCell]
  · simp only at hsource
    subst hsource
    have hnone : service env l = none := h
    simp only [view, nodeAt]
    cases hv : volume env l with
    | some v => rfl
    | none => simp [hnone]

/-- Putting a cell at a row that shows is a write. -/
theorem view_change (h : Change uuid env row cell env') (hsound : Sound env)
    (hnode : row.place ≠ .node) (hb : row.place ≠ .setting .branch) (hfit : Fits row.place cell)
    (hshow : volume env row.lineage = none ∨ service env row.lineage = none) (suffix : String) :
    view env' suffix = (view env suffix).write row cell := by
  have hservices := serviceView_change h hsound hnode hb hfit suffix
  have hvolumes := volumeView_change h hnode suffix
  cases h with
  | leave hplace | stay hplace => exact absurd hplace hnode
  | lack _ hcell hlacks =>
    subst hcell
    exact (view_lacks suffix hnode hlacks hshow).symm
  | name hplace hv | storage hplace hv =>
    rw [hplace] at hservices hvolumes
    simp only [At.ofVolume, if_true] at hservices hvolumes
    rw [view_eq_over, hservices, hvolumes, view_eq_over, View.over_write_top]
    simp [volumeView, hv]
  | service hs hf =>
    have hv : volume env row.lineage = none := hshow.resolve_right (by simp [hs])
    rw [hf.not_ofVolume] at hservices hvolumes
    rw [view_eq_over, hservices, hvolumes, view_eq_over]
    exact View.over_write_bottom _ _ (volumeView_tag_eq_none.mpr hv)

theorem serviceView_without (env : SavedEnvironmentIntent) (lineage suffix : String) :
    serviceView (env.without lineage) suffix = (serviceView env suffix).leave lineage := by
  have hmount : ∀ s m, mountCell (env.without lineage) s m =
      if m = lineage then .absent else mountCell env s m := fun s m => by
    by_cases hm : m = lineage <;> simp [mountCell, volume_without, hm]
  ext1
  · funext l
    simp only [View.leave, serviceView, service_without]
    split <;> rfl
  · funext r
    obtain ⟨l, p⟩ := r
    simp only [View.leave, serviceView, service_without]
    by_cases hl : l = lineage
    · simp [hl]
    · simp only [hl, if_false, false_or]
      cases service env l with
      | none => simp
      | some s =>
        cases p <;> simp [placeSealed, placeCell, hmount]
        split <;> rfl

theorem volumeView_without (env : SavedEnvironmentIntent) (lineage suffix : String) :
    volumeView (env.without lineage) suffix = (volumeView env suffix).leave lineage := by
  ext1
  · funext l
    simp only [View.leave, volumeView, volume_without]
    split <;> rfl
  · funext r
    obtain ⟨l, p⟩ := r
    simp only [View.leave, volumeView, volume_without]
    by_cases hl : l = lineage
    · simp [hl]
    · simp only [hl, if_false, false_or]
      cases volume env l with
      | none => simp
      | some v => cases p <;> simp [placeSealed, placeCell]

theorem view_without (env : SavedEnvironmentIntent) (lineage suffix : String) :
    view (env.without lineage) suffix = (view env suffix).leave lineage := by
  rw [view_eq_over, serviceView_without, volumeView_without, View.over_leave, ← view_eq_over]

/-! ## Identities stay distinct -/

theorem map_modifyVariable {β : Type*} {g : SavedVariableIntent → β} (s : SavedServiceIntent)
    (key : String) (f : SavedVariableIntent → SavedVariableIntent) (hg : ∀ v, g (f v) = g v) :
    (s.modifyVariable key f).vars.map g = s.vars.map g :=
  map_modifyFirst hg _

theorem map_modifyVolume {β : Type*} {g : SavedVolumeIntent → β} (env : SavedEnvironmentIntent)
    (lineage : String) (f : SavedVolumeIntent → SavedVolumeIntent) (hg : ∀ v, g (f v) = g v) :
    (env.modifyVolume lineage f).volumes.map g = env.volumes.map g :=
  map_modifyFirst hg _

theorem map_modifyService {β : Type*} {g : SavedServiceIntent → β} (env : SavedEnvironmentIntent)
    (lineage : String) (f : SavedServiceIntent → SavedServiceIntent) (hg : ∀ s, g (f s) = g s) :
    (env.modifyService lineage f).services.map g = env.services.map g :=
  map_modifyFirst hg _

theorem setVariable_keys (h : (s.vars.map (·.key)).Nodup) (uuid key : String)
    (value : SavedVariableValue) (fingerprint : String) :
    ((s.setVariable uuid key value fingerprint).vars.map (·.key)).Nodup := by
  unfold SavedServiceIntent.setVariable
  split
  · rw [map_modifyVariable s key (·.setValue value fingerprint) fun _ => rfl]
    exact h
  · next hnone =>
    rw [List.map_append, List.nodup_append]
    refine ⟨h, by simp, ?_⟩
    simp only [List.mem_map, List.map_singleton, List.mem_singleton]
    rintro _ ⟨v, hv, rfl⟩ _ rfl hkey
    simpa [hkey] using List.find?_eq_none.mp hnone v hv

theorem ServiceChange.identities (h : ServiceChange env uuid s place cell f)
    {x : SavedServiceIntent} (hkeys : (x.vars.map (·.key)).Nodup)
    (hattached : (x.volumeAttachments.map (·.volumeResourceId)).Nodup) :
    ((f x).vars.map (·.key)).Nodup ∧ ((f x).volumeAttachments.map (·.volumeResourceId)).Nodup := by
  cases h with
  | detach => exact ⟨hkeys, hattached.sublist (List.filter_sublist.map _)⟩
  | @attach _ v _ path => exact ⟨hkeys, nodup_filter_append hattached ⟨v.resourceId, path⟩⟩
  | drop key => exact ⟨hkeys.sublist (List.filter_sublist.map _), hattached⟩
  | @set key _ value fingerprint =>
    have hconfig := setVariable_config x uuid key value fingerprint
    exact ⟨setVariable_keys hkeys .., by simpa only [hconfig.2] using hattached⟩
  | sealWith key secret =>
    have hconfig := setVariable_config x uuid key (.secret none) secret.fingerprint
    refine ⟨?_, by simpa only [SavedServiceIntent.modifyVariable, hconfig.2] using hattached⟩
    simp only
    rw [map_modifyVariable _ key (·.sealWith secret.value) fun _ => rfl]
    exact setVariable_keys hkeys ..
  | @setting setting value =>
    cases hput : putSetting x setting value with
    | none => simpa [hput] using ⟨hkeys, hattached⟩
    | some x' =>
      obtain ⟨config, rfl, -⟩ := putSetting_cases hput
      simpa [hput] using ⟨hkeys, hattached⟩

/-- A put keeps identities distinct. -/
theorem Change.sound (h : Change uuid env row cell env') (hs : Sound env) : Sound env' := by
  cases h with
  | stay | lack => exact hs
  | leave =>
    exact ⟨hs.services.sublist (List.filter_sublist.map _),
      hs.volumes.sublist (List.filter_sublist.map _),
      hs.volumeIds.sublist (List.filter_sublist.map _),
      fun s hm => hs.keys s (List.mem_of_mem_filter hm),
      fun s hm => hs.attachments s (List.mem_of_mem_filter hm)⟩
  | name | storage =>
    refine ⟨hs.services, ?_, ?_, hs.keys, hs.attachments⟩
    · rw [map_modifyVolume env row.lineage _ fun _ => by rfl]
      exact hs.volumes
    · rw [map_modifyVolume env row.lineage _ fun _ => by rfl]
      exact hs.volumeIds
  | @service s f _ hf =>
    have hmem : ∀ t ∈ (env.modifyService row.lineage f).services,
        (t.vars.map (·.key)).Nodup ∧ (t.volumeAttachments.map (·.volumeResourceId)).Nodup := by
      intro t ht
      rcases mem_modifyFirst ht with ht | ⟨x, hx, -, rfl⟩
      · exact ⟨hs.keys t ht, hs.attachments t ht⟩
      · exact hf.identities (hs.keys x hx) (hs.attachments x hx)
    refine ⟨?_, hs.volumes, hs.volumeIds, fun t ht => (hmem t ht).1, fun t ht => (hmem t ht).2⟩
    rw [map_modifyService env row.lineage f hf.keeps.lineageId]
    exact hs.services

/-- No lineage is both a Service's and a Volume's. -/
def Single (env : SavedEnvironmentIntent) : Prop :=
  ∀ lineage, volume env lineage = none ∨ service env lineage = none

/-- Every mount is of a Volume of the document. -/
def Mounted (env : SavedEnvironmentIntent) : Prop :=
  ∀ s ∈ env.services, ∀ a ∈ s.volumeAttachments, ∃ v ∈ env.volumes,
    v.resourceId = a.volumeResourceId

theorem Admits.mounted (h : Admits env) : Mounted env :=
  fun s hs => (h.services s hs).mounted

/-- What a landing keeps of a document: its identities distinct, each lineage one node's,
each mount of one of its Volumes. -/
structure Sane (env : SavedEnvironmentIntent) : Prop where
  sound : Sound env
  single : Single env
  mounted : Mounted env

/-- The mounts after a change are those before, or of a Volume of the document. -/
theorem ServiceChange.attached (h : ServiceChange env uuid s place cell f)
    {x : SavedServiceIntent} {a : VolumeAttachment} (ha : a ∈ (f x).volumeAttachments) :
    a ∈ x.volumeAttachments ∨ ∃ v ∈ env.volumes, v.resourceId = a.volumeResourceId := by
  cases h with
  | detach => exact .inl (List.mem_of_mem_filter ha)
  | @attach _ v hv path =>
    rcases List.mem_append.mp ha with ha | ha
    · exact .inl (List.mem_of_mem_filter ha)
    · exact .inr ⟨v, List.mem_of_find?_eq_some hv, by rw [List.mem_singleton.mp ha]⟩
  | drop => exact .inl ha
  | @set key _ value fingerprint =>
    exact .inl ((setVariable_config x uuid key value fingerprint).2 ▸ ha)
  | sealWith key secret =>
    exact .inl ((setVariable_config x uuid key (.secret none) secret.fingerprint).2 ▸ ha)
  | @setting setting value =>
    cases hput : putSetting x setting value with
    | none => exact .inl (by simpa [hput] using ha)
    | some x' =>
      obtain ⟨config, rfl, -⟩ := putSetting_cases hput
      exact .inl (by simpa [hput] using ha)

theorem Change.single (h : Change uuid env row cell env') (hs : Single env) : Single env' := by
  intro l
  cases h with
  | stay | lack => exact hs l
  | leave =>
    rw [volume_without, service_without]
    split
    · exact .inl rfl
    · exact hs l
  | name | storage =>
    refine (hs l).imp_left fun hnone => ?_
    rw [volume_modifyVolume fun _ => by rfl, hnone]
    split <;> rfl
  | service _ hf =>
    refine (hs l).imp_right fun hnone => ?_
    rw [service_modifyService hf.keeps.lineageId, hnone]
    split <;> rfl

theorem Change.mounted (h : Change uuid env row cell env') (hplace : row.place ≠ .node)
    (hm : Mounted env) : Mounted env' := by
  have hids : ∀ {id : String}, (∃ v ∈ env.volumes, v.resourceId = id) →
      ∀ (f : SavedVolumeIntent → SavedVolumeIntent), (∀ v, (f v).resourceId = v.resourceId) →
      ∃ v ∈ (env.modifyVolume row.lineage f).volumes, v.resourceId = id := fun hid f hf => by
    simp only [← List.mem_map] at hid ⊢
    rwa [map_modifyVolume env row.lineage f hf]
  cases h with
  | leave h | stay h => exact absurd h hplace
  | lack => exact hm
  | name | storage => exact fun s hs a ha => hids (hm s hs a ha) _ fun _ => rfl
  | service hs hf =>
    intro t ht a ha
    rcases mem_modifyFirst ht with ht | ⟨x, hx, -, rfl⟩
    · exact hm t ht a ha
    · rcases hf.attached ha with ha | ha
      · exact hm x hx a ha
      · exact ha

theorem Sane.change (hs : Sane env) (h : Change uuid env row cell env')
    (hplace : row.place ≠ .node) : Sane env' :=
  ⟨h.sound hs.sound, h.single hs.single, h.mounted hplace hs.mounted⟩

end Ployz
