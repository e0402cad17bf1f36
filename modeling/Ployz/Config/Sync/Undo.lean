import Ployz.Config.Sync.Exact

/-!
# An undo inverts its landing

`unapply` puts back what each landed row held before: first the rows, then the nodes that
arrived leave, Services before the Volumes they mount. In views this is `View.restoring`
written at every landed row and `View.leaveAll` of the new lineages, and `writeAll_restoring`
says what that comes to. What is left is that nothing on the way is refused: the landed rows
read as they landed, and each row takes back what it held.
-/

namespace Ployz

open Run Table

/-! ## What a document holds can be put back -/

/-- Whatever lands beside a git branch, its own source brings it back. -/
theorem branchAfter_branchAfter (cell : SealedCell) (version : UInt8) (repository : String)
    (repositoryId : UInt64) (access : ServiceGitAccess) (rootDir : String)
    (branch : ServiceGitBranch) :
    View.branchAfter (View.branchAfter (.cell (.value (.branch branch))) cell)
      (.cell (.value (.source
      (.git version repository repositoryId access rootDir (some branch))))) =
      .cell (.value (.branch branch)) := by
  have hafter : View.branchAfter (.cell (.value (.branch branch))) cell =
      .cell (.value (.branch branch)) ∨
      View.branchAfter (.cell (.value (.branch branch))) cell = .cell .absent := by
    unfold View.branchAfter
    split
    · exact .inl rfl
    · exact .inr rfl
  rcases hafter with h | h <;> rw [h] <;> rfl

/-- A document's own rows are found again by an undo. -/
theorem view_coherent (env : SavedEnvironmentIntent) (suffix : String) :
    (view env suffix).Coherent where
  settled := settled_view env suffix
  branch lineage cell := by
    cases hn : nodeAt env lineage with
    | none => simp [View.restoring, View.sealed, view, hn, View.branchAfter]
    | some node =>
      cases node with
      | volume v =>
        simp [View.restoring, View.sealed, view, hn, View.branchAfter, placeSealed, placeCell]
      | service s =>
        have hcell : ∀ setting, (view env suffix).cell ⟨lineage, .setting setting⟩ =
            .cell (settingCell s.config suffix setting) := fun setting => by
          simp only [view, hn, placeSealed, placeCell]
        have hbranch := hcell .branch
        have hsource := hcell .source
        rw [settingCell_branch] at hbranch
        cases hs : s.config.source with
        | git version repository repositoryId access rootDir branch =>
          have hrestoring : (view env suffix).restoring ⟨lineage, .setting .source⟩ =
              .cell (.value (.source (.git version repository repositoryId access rootDir
                (some branch)))) := by
            simp only [hs, settingCell, settingValue, sourceCell,
              ServiceSource.branch?] at hsource hbranch
            simp only [View.restoring, View.sealed, View.at_, hsource, hbranch]
            rfl
          rw [hrestoring, hbranch, hs]
          exact branchAfter_branchAfter ..
        | empty version rootDir =>
          simp only [settingCell, settingValue, hs, sourceCell] at hsource
          rw [hbranch, hs]
          split at hsource <;> simp only [View.restoring, View.sealed, hsource] <;> rfl
        | image version image credentials =>
          simp only [settingCell, settingValue, hs, sourceCell] at hsource
          rw [hbranch, hs]
          split at hsource <;> simp only [View.restoring, View.sealed, hsource] <;> rfl

theorem fits_restoring (env : SavedEnvironmentIntent) (suffix : String) (row : RowId) :
    Fits row.place ((view env suffix).restoring row) := by
  unfold View.restoring
  split
  · next hplace =>
    rw [hplace]
    split <;> exact ⟨rfl, fun h => absurd rfl h⟩
  · exact fits_sealed env suffix row

/-- A setting takes what any Service reads there. -/
theorem putSetting_settingValue (s : SavedServiceIntent) (config : AuthoredServiceConfig)
    (suffix : String) {setting : Setting} (hb : setting ≠ .branch)
    (hh : setting ≠ .managedHostnames) (hr : setting ≠ .routes) :
    ∃ s', putSetting s setting (settingValue config suffix setting) = some s' := by
  rw [← Option.isSome_iff_exists]
  have hnat : ∀ n : UInt8, n.toNat < 256 := fun n => n.toNat_lt
  have hstring : ∀ o : Option String, (optional Value.string o).asOptionalString = some o := by
    intro o
    cases o <;> rfl
  have hfloat : ∀ o : Option ℚ, (optional Value.float o).asOptionalFloat = some o := fun o => by
    cases o <;> rfl
  cases setting with
  | branch => exact absurd rfl hb
  | managedHostnames => exact absurd rfl hh
  | routes => exact absurd rfl hr
  | _ => simp [putSetting, settingValue, Value.asUInt8, hnat, hstring, hfloat]

/-- A setting takes its default, but a private address has none. -/
theorem putSetting_default (s : SavedServiceIntent) {setting : Setting}
    (hd : setting ≠ .privateDns) (hh : setting ≠ .managedHostnames) (hr : setting ≠ .routes) :
    ∃ s', putSetting s setting (defaultValue setting) = some s' := by
  rw [← Option.isSome_iff_exists]
  cases setting with
  | privateDns => exact absurd rfl hd
  | managedHostnames => exact absurd rfl hh
  | routes => exact absurd rfl hr
  | branch => cases h : s.config.source.branch? <;> simp [putSetting, defaultValue, h]
  | _ => simp [putSetting, defaultValue, Value.asUInt8, Value.asOptionalString,
      Value.asOptionalFloat, ServiceRestartPolicy.parse, BuildMethod.parse]

theorem putSealed_cell (uuid : String) (env : SavedEnvironmentIntent) (row : RowId) (cell : Cell) :
    putSealed uuid env row (.cell cell) = putInto uuid env row cell := by
  simp only [putSealed, SealedCell.toRedacted]
  cases putInto uuid env row cell <;> rfl

variable {env : SavedEnvironmentIntent} {row : RowId} {lineage suffix : String}

/-- Nothing can be put at a row but where there is always something. -/
theorem putSealed_absent (hdata : row.place ≠ .data)
    (hvolume : row.place = .name ∨ row.place = .storage → volume env row.lineage = none)
    (hservice : row.place = .setting .privateDns → service env row.lineage = none)
    (hhosts : row.place ≠ .setting .managedHostnames) (hroutes : row.place ≠ .setting .routes)
    (uuid : String) : ∃ env', putSealed uuid env row (.cell .absent) = .ok env' := by
  rw [putSealed_cell]
  obtain ⟨lineage, place⟩ := row
  cases place with
  | node => exact ⟨_, rfl⟩
  | data => exact absurd rfl hdata
  | name => exact ⟨env, by simp [putInto, putName, hvolume (.inl rfl), missing, pure, Except.pure]⟩
  | storage =>
    exact ⟨env, by simp [putInto, putStorage, hvolume (.inr rfl), missing, pure, Except.pure]⟩
  | mount l =>
    simp only [putInto, putMount]
    cases service env lineage with
    | none => exact ⟨env, rfl⟩
    | some s => cases volume env l <;> exact ⟨_, rfl⟩
  | var key =>
    simp only [putInto, putVariable]
    cases service env lineage <;> exact ⟨_, rfl⟩
  | setting setting =>
    simp only [putInto, putSettingRow, putSettingValue]
    cases hs : service env lineage with
    | none => exact ⟨env, rfl⟩
    | some s =>
      obtain ⟨s', hs'⟩ := @putSetting_default s setting
        (fun h => by simp [hs, h] at hservice) (by simpa using hhosts) (by simpa using hroutes)
      simp only [hs']
      exact ⟨_, rfl⟩

theorem putSealed_variable {key : String} {s : SavedServiceIntent}
    (hs : service env lineage = some s) (uuid : String) (v : SavedVariableIntent) :
    ∃ env', putSealed uuid env ⟨lineage, .var key⟩ (variableSealed v) = .ok env' := by
  unfold variableSealed
  split
  · simp only [putSealed, putInto, putVariable, SealedCell.toRedacted, hs, variableValue]
    exact ⟨_, rfl⟩
  · rw [putSealed_cell]
    simp only [putInto, putVariable, hs, variableCell]
    cases v.value <;> exact ⟨_, rfl⟩

/-- A Service takes any Service's setting. -/
theorem putSealed_setting {env : SavedEnvironmentIntent} {lineage : String} {setting : Setting}
    {s : SavedServiceIntent} (hs : service env lineage = some s) (config : AuthoredServiceConfig)
    (suffix : String) (hb : setting ≠ .branch) (hh : setting ≠ .managedHostnames)
    (hr : setting ≠ .routes) (uuid : String) :
    ∃ env', putSealed uuid env ⟨lineage, .setting setting⟩
      (.cell (settingCell config suffix setting)) = .ok env' := by
  rw [settingCell]
  split
  · next hunset =>
    refine putSealed_absent (by simp) (by simp) (fun h => ?_) (by simpa using hh)
      (by simpa using hr) uuid
    simp only [At.setting.injEq] at h
    subst h
    simp [isUnset, settingValue, defaultValue] at hunset
  · obtain ⟨s', hs'⟩ := putSetting_settingValue s config suffix hb hh hr
    rw [putSealed_cell]
    simp only [putInto, putSettingRow, putSettingValue, hs, hs']
    exact ⟨_, rfl⟩

theorem putSealed_source {s : SavedServiceIntent} (hs : service env lineage = some s)
    (cell : SourceCell) (uuid : String) :
    ∃ env', putSealed uuid env ⟨lineage, .setting .source⟩ (.cell (.value (.source cell))) =
      .ok env' := by
  rw [putSealed_cell]
  simp only [putInto, putSettingRow, putSettingValue, hs, putSetting]
  exact ⟨_, rfl⟩

theorem view_mount_of_tag (h : (view env suffix).tag lineage = none)
    (hplace : row.place = .mount lineage) : (view env suffix).cell row = .cell .absent := by
  have hvolume := (nodeAt_eq_none.mp (view_tag_eq_none.mp h)).1
  cases hn : nodeAt env row.lineage with
  | none => exact view_cell_of_none suffix hn
  | some node =>
    rw [view_cell suffix hn, hplace]
    cases node with
    | volume v => rfl
    | service s => simp [placeSealed, placeCell, mountCell_of_none hvolume]

theorem volume_of_tag (h : (view env suffix).tag lineage = some .volume) :
    ∃ v, volume env lineage = some v := by
  rw [view_tag, Option.map_eq_some_iff] at h
  obtain ⟨node, hn, htag⟩ := h
  cases node with
  | service s => cases htag
  | volume v => exact ⟨v, volume_of_nodeAt hn⟩

theorem service_of_tag {slug : String} (h : (view env suffix).tag lineage = some (.service slug)) :
    ∃ s, service env lineage = some s := by
  rw [view_tag, Option.map_eq_some_iff] at h
  obtain ⟨node, hn, htag⟩ := h
  cases node with
  | service s => exact ⟨s, service_of_nodeAt hn⟩
  | volume v => cases htag

/-- A document of the same nodes takes back what `into` holds. -/
theorem putSealed_restoring {into : SavedEnvironmentIntent} (hsingle : Single env)
    (htag : ∀ l tag, (view into suffix).tag l = some tag → (view env suffix).tag l = some tag)
    (hnode : row.place ≠ .node) (hdata : row.place ≠ .data)
    (hbranch : row.place ≠ .setting .branch) (hhosts : row.place ≠ .setting .managedHostnames)
    (hroutes : row.place ≠ .setting .routes)
    (hnew : (view into suffix).tag row.lineage = none → row.place.carried = false) (uuid : String) :
    ∃ env', putSealed uuid env row ((view into suffix).restoring row) = .ok env' := by
  obtain ⟨lineage, place⟩ := row
  cases hn : nodeAt into lineage with
  | none =>
    have hcarried := hnew (view_tag_eq_none.mpr hn)
    have hcell : (view into suffix).restoring ⟨lineage, place⟩ = .cell .absent := by
      cases place <;> simp_all [View.restoring, View.sealed, view]
    rw [hcell]
    refine putSealed_absent hdata (fun h => ?_) (fun h => ?_) hhosts hroutes uuid
    · rcases h with h | h <;> simp only at h <;> subst h <;> cases hcarried
    · simp only at h
      subst h
      cases hcarried
  | some node =>
    have hkind := htag lineage node.tag (by rw [view_tag, hn]; rfl)
    cases node with
    | volume v =>
      obtain ⟨v', hv'⟩ := volume_of_tag hkind
      have hservice := (hsingle lineage).resolve_left (by simp [hv'])
      cases place with
      | node => exact absurd rfl hnode
      | data => exact absurd rfl hdata
      | name | storage =>
        simp only [View.restoring, View.sealed, view, hn, placeSealed, placeCell]
        simp only [putSealed, putInto, putName, putStorage, SealedCell.toRedacted, hv']
        exact ⟨_, rfl⟩
      | setting setting =>
        have hcell : (view into suffix).restoring ⟨lineage, .setting setting⟩ = .cell .absent := by
          simp [View.restoring, View.sealed, view, hn, placeSealed, placeCell]
        rw [hcell]
        exact putSealed_absent hdata (by simp) (fun _ => hservice) hhosts hroutes uuid
      | mount l | var key =>
        simp only [View.restoring, View.sealed, view, hn, placeSealed, placeCell]
        exact putSealed_absent hdata (by simp) (by simp) hhosts hroutes uuid
    | service s =>
      obtain ⟨s', hs'⟩ := service_of_tag hkind
      have hvolume := (hsingle lineage).resolve_right (by simp [hs'])
      cases place with
      | node => exact absurd rfl hnode
      | data => exact absurd rfl hdata
      | name | storage =>
        simp only [View.restoring, View.sealed, view, hn, placeSealed, placeCell]
        exact putSealed_absent hdata (fun _ => hvolume) (by simp) hhosts hroutes uuid
      | mount l =>
        simp only [View.restoring, View.sealed, view, hn, placeSealed, placeCell]
        cases hl : volume into l with
        | none =>
          rw [mountCell_of_none hl]
          exact putSealed_absent hdata (by simp) (by simp) hhosts hroutes uuid
        | some mounted =>
          obtain ⟨_, hl'⟩ := volume_of_tag
            (htag l .volume (by rw [view_tag, nodeAt_of_volume hl]; rfl))
          rw [mountCell_of_some hl]
          cases s.volumeAttachments.find? (·.volumeResourceId == mounted.resourceId) with
          | none => exact putSealed_absent hdata (by simp) (by simp) hhosts hroutes uuid
          | some a =>
            simp only [putSealed_cell, putInto, putMount, hs', hl', attachmentCell]
            exact ⟨_, rfl⟩
      | var key =>
        rw [View.restoring_of_ne _ (by simp)]
        simp only [View.sealed, view, hn, placeSealed, varSealed]
        cases s.vars.find? (·.key == key) with
        | none => exact putSealed_absent hdata (by simp) (by simp) hhosts hroutes uuid
        | some v => exact putSealed_variable hs' uuid v
      | setting setting =>
        have hplain := @putSealed_setting env lineage setting s' hs' s.config suffix
          (by simpa using hbranch) (by simpa using hhosts) (by simpa using hroutes) uuid
        unfold View.restoring
        split
        · next hplace =>
          cases hplace
          split <;> exact putSealed_source hs' _ uuid
        · simpa only [View.sealed, view, hn, placeSealed, placeCell] using hplain

/-! ## The run of an undo -/

variable {sides : Sides} {policy : Policy} {draws : Draws} {picks : Std.TreeSet RowId}
  {values : Std.TreeMap RowId SealedSecret} {applied : Applied}

theorem was_eq (hd : sides.Distinct) (id : RowId) :
    (plan sides policy).was id = sides.intoView.restoring id := by
  have hsealed : sealedCell (plan sides policy).into (plan sides policy).intoCells id =
      sides.intoView.sealed id := sealedCell_view hd.into _ id
  have hat : ∀ row, (plan sides policy).intoCells.at_ row = sides.intoView.at_ row :=
    Cells.at_view hd.into _
  simp only [Plan.was, hsealed, hat]
  rfl

/-- The rows of landed records that are written back, and the nodes that leave. -/
def backs (landed : List Landed) : List (RowId × SealedCell) :=
  landed.map fun one => (one.row, one.was)

/-- Writing back goes through row by row. -/
theorem foldlM_backs {into : SavedEnvironmentIntent} (draws : RowId → Uuid)
    {rows : List Landed} (hsane : Sane env)
    (htag : ∀ l tag, (view into suffix).tag l = some tag → (view env suffix).tag l = some tag)
    (hrows : ∀ one ∈ rows, one.was = (view into suffix).restoring one.row ∧
      one.row.place ≠ .node ∧ one.row.place ≠ .data ∧ one.row.place ≠ .setting .branch ∧
      one.row.place ≠ .setting .managedHostnames ∧ one.row.place ≠ .setting .routes ∧
      ((view into suffix).tag one.row.lineage = none → one.row.place.carried = false)) :
    ∃ final, rows.foldlM (fun env one =>
      (putSealed (draws one.row).text env one.row one.was).mapError
        Unapplied.invalid) env = .ok final ∧ Sane final ∧
      view final suffix = (view env suffix).writeAll (backs rows) := by
  have hrun := foldlM_exists (b := env)
    (f := fun env one => (putSealed (draws one.row).text env one.row one.was).mapError
      Unapplied.invalid)
    (P := fun rest current => Sane current ∧ (∀ one ∈ rest, one ∈ rows) ∧
      (view current suffix).tag = (view env suffix).tag ∧
      (view current suffix).writeAll (backs rest) = (view env suffix).writeAll (backs rows))
    ?_ ⟨hsane, fun _ h => h, rfl, rfl⟩
  · obtain ⟨final, hfinal, hs, -, -, hview⟩ := hrun
    exact ⟨final, hfinal, hs, hview⟩
  · rintro one rest current ⟨hs, hmem, htags, hview⟩
    obtain ⟨hwas, hnode, hdata, hbranch, hhosts, hroutes, hnew⟩ := hrows one (hmem one (by simp))
    obtain ⟨next, hput⟩ := putSealed_restoring hs.single (fun l tag h => htags ▸ htag l tag h) hnode
      hdata hbranch hhosts hroutes hnew (draws one.row).text
    rw [← hwas] at hput
    have hchange := putSealed_cases hput
    have hnext := view_change hchange hs.sound hnode hbranch
      (hwas ▸ fits_restoring into suffix one.row)
      (hs.single one.row.lineage) suffix
    refine ⟨next, by rw [hput]; rfl, hs.change hchange hnode, fun x hx => hmem x (by simp [hx]), ?_,
      ?_⟩
    · rw [hnext, ← htags]
      rfl
    · rw [hnext, ← hview]
      rfl

/-- New nodes leave one by one. -/
theorem foldlM_leaves (suffix : String) (draws : RowId → Uuid) (nodes : List Landed)
    (hsound : Sound env) (hnodes : ∀ one ∈ nodes, one.row.place = .node ∧ one.was = .cell .absent) :
    ∃ final, nodes.foldlM
      (fun env one => (putSealed (draws one.row).text env one.row one.was).mapError
        Unapplied.invalid) env = .ok final ∧ Sound final ∧
      view final suffix = (view env suffix).leaveAll (nodes.map (·.row.lineage)) := by
  have hrun := foldlM_exists (b := env)
    (f := fun env one => (putSealed (draws one.row).text env one.row one.was).mapError
      Unapplied.invalid)
    (P := fun rest current => Sound current ∧ (∀ one ∈ rest, one ∈ nodes) ∧
      (view current suffix).leaveAll (rest.map (·.row.lineage)) =
        (view env suffix).leaveAll (nodes.map (·.row.lineage)))
    ?_ ⟨hsound, fun _ h => h, rfl⟩
  · obtain ⟨final, hfinal, hs, -, hview⟩ := hrun
    exact ⟨final, hfinal, hs, hview⟩
  · rintro one rest current ⟨hs, hmem, hview⟩
    obtain ⟨hplace, hwas⟩ := hnodes one (hmem one (by simp))
    have hput : putSealed (draws one.row).text current one.row one.was =
        .ok (current.without one.row.lineage) := by
      rw [hwas, putSealed_cell, putInto, hplace]
      rfl
    refine ⟨_, by rw [hput]; rfl, (putSealed_cases hput).sound hs, fun x hx =>
      hmem x (by simp [hx]), ?_⟩
    rw [view_without, ← hview]
    rfl

namespace Landing

variable {one : Landed}

theorem mem_landed (run : Landing sides policy draws picks values applied) :
    one ∈ applied.landed ↔
      ∃ p ∈ run.nodes ++ run.rows, (plan sides policy).record values p = one := by
  rw [run.recorded.1, List.mem_map]

theorem mem_landed_rows (run : Landing sides policy draws picks values applied) {id : RowId} :
    id ∈ picks ↔ ∃ one ∈ applied.landed, one.row = id := by
  rw [run.mem_picks]
  constructor
  · rintro ⟨p, hp, rfl⟩
    exact ⟨_, run.mem_landed.mpr ⟨p, hp, rfl⟩, rfl⟩
  · rintro ⟨one, hone, rfl⟩
    obtain ⟨p, hp, rfl⟩ := run.mem_landed.mp hone
    exact ⟨p, hp, rfl⟩

/-- A landed row still reads as it landed, and its new node holds nothing else. -/
theorem checkLanded_ok (run : Landing sides policy draws picks values applied)
    (hd : sides.Distinct) (hsound : Sound applied.next)
    (hview : view applied.next sides.hostnames.into = run.landedView) {landed : List Landed}
    (hperm : landed.Perm applied.landed) (hone : one ∈ landed) :
    checkLanded (.of applied.next sides.hostnames.into) landed one = .ok () := by
  obtain ⟨p, hp, rfl⟩ := run.mem_landed.mp (hperm.mem_iff.mp hone)
  have hvalue : (Cells.of applied.next sides.hostnames.into).at_ p.1.id =
      ((plan sides policy).arriving values p.1.id p.2).toRedacted := by
    rw [Cells.at_view hsound, hview, run.landedView_picked hp, arriving_eq hd]
  rw [checkLanded, if_neg (by simpa [Plan.record] using hvalue)]
  split
  · rfl
  · next hplace =>
    have hplace : p.1.id.place = .node := by simpa [Plan.record] using hplace
    have hnode : RowId.node p.1.id.lineage ∈ picks := by
      rw [RowId.node, ← hplace]
      exact (run.lands p hp).picked
    have hnone : ((Cells.of applied.next sides.hostnames.into).places p.1.id.lineage).find?
        (fun place => !place.1.place.needed && !landed.any (·.row == place.1)) = none := by
      rw [List.find?_eq_none]
      rintro ⟨child, cell⟩ hchild hstray
      obtain ⟨hlineage, rfl, hne⟩ := (Cells.mem_places_view hsound).mp hchild
      simp only [Bool.and_eq_true, Bool.not_eq_true', List.any_eq_false, beq_iff_eq] at hstray
      obtain ⟨hneeded, hlanded⟩ := hstray
      have hunpicked : child ∉ picks := fun hpick => by
        obtain ⟨one, hone, hrow⟩ := run.mem_landed_rows.mp hpick
        exact hlanded one (hperm.mem_iff.mpr hone) hrow
      have hcell := run.landedView_unpicked hunpicked fun hb => by
        rw [hb] at hneeded
        cases hneeded
      rw [hlineage, if_pos hnode, View.carried, hneeded, ← hview] at hcell
      exact hne (by rw [hcell]; rfl)
    split
    · next hfound => exact absurd (hfound.symm.trans hnone) (by simp)
    · rfl

/-- The records of rows that are no nodes' are what an undo writes back. -/
theorem writes_back (run : Landing sides policy draws picks values applied) (hd : sides.Distinct)
    (hone : one ∈ applied.landed) (hplace : one.row.place ≠ .node) :
    one.was = sides.intoView.restoring one.row ∧
      one.row.place ≠ .node ∧ one.row.place ≠ .data ∧ one.row.place ≠ .setting .branch ∧
      one.row.place ≠ .setting .managedHostnames ∧ one.row.place ≠ .setting .routes ∧
      (sides.intoView.tag one.row.lineage = none → one.row.place.carried = false) := by
  obtain ⟨⟨row, arrives⟩, hp, rfl⟩ := run.mem_landed.mp hone
  obtain ⟨hdata, hbranch, hhosts, hroutes⟩ := run.place_of_picked (run.lands _ hp).picked
  refine ⟨was_eq hd _, hplace, hdata, hbranch, hhosts, hroutes, fun hnone => ?_⟩
  obtain ⟨conflict, ticked, hmoving⟩ := (run.lands _ hp).moving
  change Moving sides policy row conflict ticked arrives at hmoving
  simp only [Plan.record] at hplace hnone ⊢
  cases hmoving with
  | shared _ hinto => exact absurd hnone (Option.isSome_iff_ne_none.mp hinto)
  | node => exact absurd rfl hplace
  | child _ _ hcarried => exact hcarried

theorem leaves_back (run : Landing sides policy draws picks values applied) (hd : sides.Distinct)
    (hone : one ∈ applied.landed) (hplace : one.row.place = .node) :
    one.was = .cell .absent := by
  obtain ⟨p, hp, rfl⟩ := run.mem_landed.mp hone
  have hnode : RowId.node p.1.id.lineage ∈ picks := by
    rw [RowId.node, ← hplace]
    exact (run.lands p hp).picked
  simp only [Plan.record] at hplace
  simp only [Plan.record]
  rw [was_eq hd, View.restoring_of_ne _ (by simp [hplace]), View.sealed, hplace]
  simp [View.nodeCell, (run.new_of_picked hnode).into]

theorem landed_rows (run : Landing sides policy draws picks values applied) :
    applied.landed.filter (fun one => decide (one.row.place ≠ .node)) =
      run.rows.map ((plan sides policy).record values) := by
  rw [run.recorded.1, List.map_append, List.filter_append, List.filter_eq_nil_iff.mpr,
    List.filter_eq_self.mpr, List.nil_append]
  · intro one hone
    obtain ⟨p, hp, rfl⟩ := List.mem_map.mp hone
    exact decide_eq_true (run.place_rows p hp)
  · intro one hone
    obtain ⟨p, hp, rfl⟩ := List.mem_map.mp hone
    exact fun h => of_decide_eq_true h (run.place_nodes p hp)

/-- Writing back the rows of a landing, then taking its nodes away, gives the receiver. -/
theorem undone_view (run : Landing sides policy draws picks values applied) (hd : sides.Distinct)
    {rows nodes : List Landed}
    (hrows : rows.Perm (applied.landed.filter fun one => decide (one.row.place ≠ .node)))
    (hnodes : nodes.Perm (applied.landed.filter fun one => !decide (one.row.place ≠ .node))) :
    (run.landedView.writeAll (backs rows)).leaveAll (nodes.map (·.row.lineage)) =
      sides.intoView := by
  have hkeys : ((backs rows).map (·.1)).Perm (run.writes.map (·.1)) := by
    have hperm := hrows.map (·.row)
    rw [run.landed_rows] at hperm
    simpa only [backs, writes, List.map_map, Function.comp_def, Plan.record] using hperm
  have hmem : ∀ l, l ∈ nodes.map (·.row.lineage) ↔ RowId.node l ∈ picks := fun l => by
    rw [run.mem_landed_rows, List.mem_map]
    constructor
    · rintro ⟨one, hone, rfl⟩
      obtain ⟨hone, hplace⟩ := List.mem_filter.mp (hnodes.mem_iff.mp hone)
      have hplace : one.row.place = .node := by simpa using hplace
      exact ⟨one, hone, by rw [RowId.node, ← hplace]⟩
    · rintro ⟨one, hone, hrow⟩
      refine ⟨one, hnodes.mem_iff.mpr (List.mem_filter.mpr ⟨hone, by simp [hrow, RowId.node]⟩), ?_⟩
      rw [hrow]
      rfl
  ext1
  · funext l
    simp only [View.leaveAll_tag, hmem, View.writeAll_tag, run.landedView_tag]
    split
    · next hn => exact (run.new_of_picked hn).into.symm
    · rfl
  · funext row
    rw [View.leaveAll_cell]
    split
    · next hgone =>
      rcases hgone with hn | ⟨l, hn, hplace⟩
      · exact (view_cell_of_tag (run.new_of_picked ((hmem _).mp hn)).into).symm
      · exact (view_mount_of_tag (run.new_of_picked ((hmem _).mp hn)).into hplace).symm
    · next hstays =>
      rw [not_or, hmem] at hstays
      refine View.writeAll_restoring (view_coherent _ _) run.nodup_writes
        (hkeys.nodup_iff.mpr run.nodup_writes) (fun id => hkeys.mem_iff) (fun b hb => ?_)
        (fun id hid => ?_) ?_
      · obtain ⟨one, hone, rfl⟩ := List.mem_map.mp hb
        obtain ⟨hone, hplace⟩ := List.mem_filter.mp (hrows.mem_iff.mp hone)
        exact (run.writes_back hd hone (by simpa using hplace)).1
      · obtain ⟨hpick, hnode⟩ := run.mem_writes_ids.mp hid
        obtain ⟨hdata, hbranch, -⟩ := run.place_of_picked hpick
        exact ⟨hnode, hdata, hbranch⟩
      · simp only [View.arriveAll, run.mem_lineages, if_neg hstays.1]
        rfl

end Landing

/-- An undo inverts its landing, whatever order the landed rows come in. -/
theorem unapply_restores (hvalid : sides.Valid) (hsingle : Single sides.into)
    (h : (plan sides policy).apply draws picks values = .ok applied) {landed : List Landed}
    (hperm : landed.Perm applied.landed) (fresh : RowId → Uuid) :
    ∃ restored, unapply fresh applied.next sides.hostnames.into landed = .ok restored ∧
      (∀ row, (Cells.of restored sides.hostnames.into).at_ row = sides.intoCells.at_ row) ∧
      (∀ row, sealedCell restored (.of restored sides.hostnames.into) row =
        sealedCell sides.into sides.intoCells row) ∧
      ∀ lineage, (nodes restored).contains lineage = (nodes sides.into).contains lineage := by
  have hd := hvalid.distinct
  obtain ⟨run⟩ := apply_run hd h
  obtain ⟨hsane, hview⟩ := run.next_view hd hvalid.wellFormed_from hvalid.wellFormed_into hsingle
    hvalid.suffix
  obtain ⟨rows, nodes, hrows, hnodes, hsort⟩ := insertionSort_split
    (fun one : Landed => OrderDual.toDual (landingOrder applied.next one.row))
    (fun one => decide (one.row.place ≠ .node)) (fun a b ha hb => by
      rw [OrderDual.toDual_lt_toDual, landingOrder_of_ne (of_decide_eq_true ha)]
      exact landingOrder_node (by simpa using hb)) landed
  replace hrows := hrows.trans (hperm.filter _)
  replace hnodes := hnodes.trans (hperm.filter _)
  have htag : ∀ l tag, sides.intoView.tag l = some tag →
      (view applied.next sides.hostnames.into).tag l = some tag := fun l tag hl => by
    rw [hview, run.landedView_tag, if_neg, hl]
    intro hn
    simp [(run.new_of_picked hn).into] at hl
  obtain ⟨mid, hmid, hsane', hmidView⟩ := foldlM_backs fresh hsane htag fun one hone => by
    obtain ⟨hone, hplace⟩ := List.mem_filter.mp (hrows.mem_iff.mp hone)
    exact run.writes_back hd hone (of_decide_eq_true hplace)
  obtain ⟨restored, hrestored, hsound, hrestoredView⟩ := foldlM_leaves sides.hostnames.into fresh
    nodes hsane'.sound fun one hone => by
      obtain ⟨hone, hplace⟩ := List.mem_filter.mp (hnodes.mem_iff.mp hone)
      have hplace : one.row.place = .node := by simpa using hplace
      exact ⟨hplace, run.leaves_back hd hone hplace⟩
  have hinto : view restored sides.hostnames.into = sides.intoView := by
    rw [hrestoredView, hmidView, hview]
    exact run.undone_view hd hrows hnodes
  refine ⟨restored, ?_, fun row => ?_, fun row => ?_, fun lineage => ?_⟩
  · rw [unapply, bind_eq_ok]
    refine ⟨⟨⟩, forM_eq_ok.mpr fun one hone =>
      run.checkLanded_ok hd hsane.sound hview hperm hone, ?_⟩
    have hsort' : landed.insertionSort (fun a b =>
        landingOrder applied.next b.row ≤ landingOrder applied.next a.row) = rows ++ nodes := hsort
    simp only [hsort', List.foldlM_append, bind_eq_ok]
    exact ⟨mid, hmid, hrestored⟩
  · rw [Cells.at_view hsound, hinto, hd.intoCells_at]
  · rw [sealedCell_view hsound, hinto]
    exact (sealedCell_view hd.into _ row).symm
  · rw [nodes_contains_view hsound sides.hostnames.into, hinto,
      nodes_contains_view hd.into sides.hostnames.into]
    rfl

theorem unapply_restores_command : ∃ applied restored,
    (plan (commandSides "run" []) (.new .sync)).apply ⟨fun _ => freshId, fun _ => freshId⟩
      (.ofList [commandRow]) ∅ = .ok applied ∧
    unapply (fun _ => freshId) applied.next "" applied.landed = .ok restored ∧
    ∀ row, (Cells.of restored "").at_ row = (commandSides "run" []).intoCells.at_ row := by
  obtain ⟨applied, happly⟩ := command_applies
  obtain ⟨restored, hrestored, hcells, -⟩ :=
    unapply_restores command_valid (fun _ => .inl rfl) happly
    (List.Perm.refl _) fun _ => freshId
  exact ⟨applied, restored, happly, hrestored, hcells⟩

/-- Two landings an undo refuses: of a Service that a Volume of its lineage hides, and of a
value the receiver's check tidied up. -/
theorem landed_rows_changed :
    ((commandSides "run" [.docker volumeId serviceId "data"]).Valid ∧ ∃ applied,
      (plan (commandSides "run" [.docker volumeId serviceId "data"]) (.new .sync)).apply
        ⟨fun _ => freshId, fun _ => freshId⟩ (.ofList [commandRow]) ∅ = .ok applied ∧
      ∀ restored, unapply (fun _ => freshId) applied.next "" applied.landed ≠ .ok restored) ∧
    parseEnvironmentIntent (commandSides " run" []).into = .ok (commandSides " run" []).into ∧
      ∃ applied, (plan (commandSides " run" []) (.new .sync)).apply
        ⟨fun _ => freshId, fun _ => freshId⟩ (.ofList [commandRow]) ∅ = .ok applied ∧
      ∀ restored, unapply (fun _ => freshId) applied.next "" applied.landed ≠ .ok restored := by
  refine ⟨⟨shadowed_valid, ?_⟩, parsed_of_check (by decide +kernel), ?_⟩
  · obtain ⟨applied, happly, hrefused⟩ := exists_ok
      (x := (plan (commandSides "run" [.docker volumeId serviceId "data"]) (.new .sync)).apply
        ⟨fun _ => freshId, fun _ => freshId⟩ (.ofList [commandRow]) ∅)
      (fun applied => (unapply (fun _ => freshId) applied.next "" applied.landed).isOk = false)
      (by decide +kernel)
    exact ⟨applied, happly, ne_ok_of_isOk hrefused⟩
  · obtain ⟨applied, happly, hrefused⟩ := exists_ok
      (x := (plan (commandSides " run" []) (.new .sync)).apply
        ⟨fun _ => freshId, fun _ => freshId⟩ (.ofList [commandRow]) ∅)
      (fun applied => (unapply (fun _ => freshId) applied.next "" applied.landed).isOk = false)
      (by decide +kernel)
    exact ⟨applied, happly, ne_ok_of_isOk hrefused⟩

end Ployz
