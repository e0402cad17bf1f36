import Ployz.Config.Sync.Undo

/-!
# A put inverts the projection

What `put` writes at a row is what the projection then reads there, and it touches no other row but
the node's own summary and, for a source, the git branch. In views a put is `View.write`
(`view_change`), so what is left is what a written view reads.

Main theorem: `put_reads_back`. A row of a lineage that is both a Service's and a Volume's is the
exception: the Volume shows, and what the Service was given is not read.
-/

namespace Ployz

open Run

/-! ## Reading a written view -/

/-- Rows of one kind: the same setting, any mount, any variable. -/
def At.kind : At → At
  | .mount _ => .mount ""
  | .var _ => .var ""
  | place => place

/-- A row that `put` takes a cell for: a node comes and goes whole, data stays, and custom domains,
generated addresses and git branches are each Environment's own. -/
def At.puts (place : At) : Bool :=
  match place with
  | .node | .data | .setting .routes | .setting .managedHostnames | .setting .branch => false
  | _ => true

variable {row : RowId}

theorem View.at_of_puts (v : View) (h : row.place.puts = true) :
    v.at_ row = (v.cell row).toRedacted := by
  unfold View.at_
  split
  · next hplace => simp [hplace, At.puts] at h
  · next hplace => simp [hplace, At.puts] at h
  · rfl

/-- Views of the same nodes that hold the same, but for ciphertexts, read the same. -/
theorem View.at_congr {v w : View} (htag : w.tag row.lineage = v.tag row.lineage)
    (hcell : ∀ place, row.place = .node ∨ row.place = .data ∨ row.place = place →
      (w.cell ⟨row.lineage, place⟩).toRedacted = (v.cell ⟨row.lineage, place⟩).toRedacted) :
    w.at_ row = v.at_ row := by
  have hnode (h : row.place = .node ∨ row.place = .data) :
      w.nodeCell row.lineage = v.nodeCell row.lineage := by
    have hneeded : w.neededValue row.lineage = v.neededValue row.lineage := by
      funext place
      unfold View.neededValue
      rw [hcell place (h.imp_right .inl)]
    unfold View.nodeCell
    rw [htag, hneeded]
  unfold View.at_
  split
  · next hplace => exact hnode (.inl hplace)
  · next hplace => exact hnode (.inr hplace)
  · exact hcell row.place (.inr (.inr rfl))

/-- A write is seen at its row, at the node's summary, and from a source at the git branch. -/
theorem View.at_write_of_ne {v : View} {row r : RowId} (cell : SealedCell) (hne : r ≠ row)
    (hnode : r.lineage = row.lineage → r.place ≠ .node ∧ r.place ≠ .data)
    (hbranch : ¬(row.place = .setting .source ∧ r = ⟨row.lineage, .setting .branch⟩)) :
    (v.write row cell).at_ r = v.at_ r := by
  refine View.at_congr rfl fun place hplace => ?_
  have hother : (⟨r.lineage, place⟩ : RowId) ≠ row ∧
      ¬(row.place = .setting .source ∧
        (⟨r.lineage, place⟩ : RowId) = ⟨row.lineage, .setting .branch⟩) := by
    by_cases hl : r.lineage = row.lineage
    · have hp : r.place = place := by
        rcases hplace with hp | hp | hp
        · exact absurd hp (hnode hl).1
        · exact absurd hp (hnode hl).2
        · exact hp
      subst hp
      exact ⟨hne, hbranch⟩
    · exact ⟨fun h => hl (h ▸ rfl), fun h => hl (RowId.mk.inj h.2).1⟩
  show (if _ then _ else if _ then _ else _ : SealedCell).toRedacted = _
  rw [if_neg hother.1, if_neg hother.2]

theorem settled_toRedacted {cell : SealedCell} (h : View.settled cell = cell) :
    View.settled (.cell cell.toRedacted) = .cell cell.toRedacted := by
  cases cell with
  | cell cell => exact h
  | secret secret => rfl

/-- A document's git branch is the one its source keeps. -/
theorem branchAfter_view (env : SavedEnvironmentIntent) (suffix lineage : String) :
    View.branchAfter ((view env suffix).cell ⟨lineage, .setting .branch⟩)
        (.cell ((view env suffix).cell ⟨lineage, .setting .source⟩).toRedacted) =
      (view env suffix).cell ⟨lineage, .setting .branch⟩ := by
  cases hn : nodeAt env lineage with
  | none =>
    rw [view_cell_of_none suffix hn, view_cell_of_none suffix hn]
    rfl
  | some node =>
    rw [view_cell suffix hn, view_cell suffix hn]
    cases node with
    | volume v => rfl
    | service s =>
      simp only [placeSealed, placeCell, settingCell_branch, SealedCell.toRedacted]
      unfold settingCell settingValue
      cases s.config.source with
      | empty version rootDir =>
        cases h : isUnset .source (.source (.empty version rootDir)) <;>
          simp [ServiceSource.branch?, sourceCell, h, View.branchAfter]
      | image version image credentials =>
        simp [ServiceSource.branch?, sourceCell, isUnset, defaultValue, View.branchAfter]
      | git version repository repositoryId access rootDir branch =>
        simp [ServiceSource.branch?, sourceCell, isUnset, defaultValue, View.branchAfter]

/-- Writing what a row reads changes nothing that is read. -/
theorem view_write_own (env : SavedEnvironmentIntent) (suffix : String)
    (hputs : row.place.puts = true) (r : RowId) :
    ((view env suffix).write row (.cell ((view env suffix).at_ row))).at_ r =
      (view env suffix).at_ r := by
  rw [View.at_of_puts _ hputs]
  refine View.at_congr rfl fun place _ => ?_
  generalize (⟨r.lineage, place⟩ : RowId) = cell
  show (if _ then _ else if _ then _ else _ : SealedCell).toRedacted = _
  split
  · next hcell =>
    rw [settled_toRedacted (settled_view env suffix row), hcell]
    rfl
  · split
    · next hsource =>
      obtain ⟨lineage, _⟩ := row
      obtain ⟨rfl, rfl⟩ := hsource
      rw [branchAfter_view]
    · rfl

/-! ## Putting -/

/-- A cell that a document projects fits the rows of its kind. -/
theorem fits_of_kind (env : SavedEnvironmentIntent) (suffix : String) {place : At}
    (hputs : row.place.puts = true) (hkind : row.place.kind = place.kind) :
    Fits place (.cell ((view env suffix).at_ row)) := by
  have hfits := fits_sealed env suffix row
  rw [View.at_of_puts _ hputs]
  have hsealed : (view env suffix).sealed row = (view env suffix).cell row := by
    unfold View.sealed
    split
    · next hplace => simp [hplace, At.puts] at hputs
    · next hplace => simp [hplace, At.puts] at hputs
    · rfl
  rw [hsealed] at hfits
  cases place with
  | setting setting =>
    have hplace : row.place = .setting setting := by
      cases hp : row.place <;> rw [hp] at hkind <;> cases hkind
      rfl
    rw [hplace] at hfits
    cases hcell : (view env suffix).cell row with
    | cell cell =>
      rw [hcell] at hfits
      exact hfits
    | secret secret => trivial
  | _ => trivial

/-- A document takes back what it reads at a row that shows. -/
theorem put_own {env : SavedEnvironmentIntent} (hsound : Sound env) (suffix : String)
    (hputs : row.place.puts = true)
    (hshow : volume env row.lineage = none ∨ service env row.lineage = none) (uuid : String) :
    ∃ env', put uuid env row ((Cells.of env suffix).at_ row) = .ok env' := by
  rw [Cells.at_of hsound]
  unfold put
  obtain ⟨lineage, place⟩ := row
  cases hv : volume env lineage with
  | some v =>
    have hs : service env lineage = none := by simpa [hv] using hshow
    have hn := nodeAt_of_volume hv
    cases place with
    | node => cases hputs
    | data => cases hputs
    | name =>
      simp only [cellAt, hn, putInto, putName, hv, placeCell]
      exact ⟨_, rfl⟩
    | storage =>
      simp only [cellAt, hn, putInto, putStorage, hv, placeCell]
      exact ⟨_, rfl⟩
    | setting setting =>
      simp only [cellAt, hn, putInto, putSettingRow, hs, placeCell]
      exact ⟨_, rfl⟩
    | mount l =>
      simp only [cellAt, hn, putInto, putMount, hs, placeCell]
      exact ⟨_, rfl⟩
    | var key =>
      simp only [cellAt, hn, putInto, putVariable, hs, placeCell]
      exact ⟨_, rfl⟩
  | none => cases hs : service env lineage with
    | none =>
      have hn : nodeAt env lineage = none := nodeAt_eq_none.mpr ⟨hv, hs⟩
      cases place with
      | node => cases hputs
      | data => cases hputs
      | _ =>
        simp only [cellAt, hn, putInto, putName, putStorage, putMount, putVariable, putSettingRow,
          hv, hs]
        exact ⟨_, rfl⟩
    | some s =>
      have hn := nodeAt_of_service hv hs
      cases place with
      | node => cases hputs
      | data => cases hputs
      | name =>
        simp only [cellAt, hn, putInto, putName, hv, placeCell]
        exact ⟨_, rfl⟩
      | storage =>
        simp only [cellAt, hn, putInto, putStorage, hv, placeCell]
        exact ⟨_, rfl⟩
      | setting setting =>
        have hput := @putSealed_setting env lineage setting s hs s.config suffix
          (by rintro rfl; cases hputs) (by rintro rfl; cases hputs) (by rintro rfl; cases hputs)
            uuid
        rw [putSealed_cell] at hput
        simpa only [cellAt, hn, placeCell] using hput
      | mount l =>
        simp only [cellAt, hn, putInto, putMount, hs, placeCell]
        cases hl : volume env l with
        | none =>
          rw [mountCell_of_none hl]
          exact ⟨_, rfl⟩
        | some v =>
          rw [mountCell_of_some hl]
          cases s.volumeAttachments.find? (·.volumeResourceId == v.resourceId) <;> exact ⟨_, rfl⟩
      | var key =>
        simp only [cellAt, hn, putInto, putVariable, hs, placeCell, varCell]
        cases s.vars.find? (·.key == key) with
        | none => exact ⟨_, rfl⟩
        | some v =>
          simp only [variableCell]
          cases v.value <;> exact ⟨_, rfl⟩

/-- A put is read back exactly, and only there: for every document, every row of a lineage that is
one node's, and every cell that some document projects at a row of that kind. Putting back what a
document reads is taken, and changes no cell. -/
theorem put_reads_back {env : SavedEnvironmentIntent}
    (hvalid : parseEnvironmentIntent env = .ok env) (suffix : String) {row : RowId}
    (hputs : row.place.puts = true)
    (hshow : volume env row.lineage = none ∨ service env row.lineage = none) (uuid : String) :
    (∀ other suffix' row', parseEnvironmentIntent other = .ok other →
      row'.place.kind = row.place.kind →
        ∀ env', put uuid env row ((Cells.of other suffix').at_ row') = .ok env' →
        (Cells.of env' suffix).at_ row = (Cells.of other suffix').at_ row' ∧
        ∀ r, r ≠ row → (r.lineage = row.lineage → r.place ≠ .node ∧ r.place ≠ .data) →
          ¬(row.place = .setting .source ∧ r = ⟨row.lineage, .setting .branch⟩) →
          (Cells.of env' suffix).at_ r = (Cells.of env suffix).at_ r) ∧
    ∃ env', put uuid env row ((Cells.of env suffix).at_ row) = .ok env' ∧
      ∀ r, (Cells.of env' suffix).at_ r = (Cells.of env suffix).at_ r := by
  have hsound := (parseEnvironmentIntent_eq_self_iff.mp hvalid).sound
  have hnode : row.place ≠ .node := by
    intro h
    rw [h] at hputs
    cases hputs
  have hbranch : row.place ≠ .setting .branch := by
    intro h
    rw [h] at hputs
    cases hputs
  -- a put of a cell that fits is a write to the view
  have hwrite {cell : Cell} {env' : SavedEnvironmentIntent} (hfit : Fits row.place (.cell cell))
      (h : put uuid env row cell = .ok env') (r : RowId) :
      (Cells.of env' suffix).at_ r = ((view env suffix).write row (.cell cell)).at_ r := by
    have hchange := putInto_cases h
    rw [Cells.at_view (hchange.sound hsound),
      view_change hchange hsound hnode hbranch hfit hshow suffix]
  constructor
  · intro other suffix' row' hother hkind env' h
    have hputs' : row'.place.puts = true := by
      cases hp : row.place <;> cases hp' : row'.place <;> simp_all [At.kind, At.puts]
    have hat := Cells.at_view (parseEnvironmentIntent_eq_self_iff.mp hother).sound suffix' row'
    rw [hat] at h ⊢
    have hfit := fits_of_kind other suffix' hputs' hkind
    refine ⟨?_, fun r hne hsummary hsource => ?_⟩
    · rw [hwrite hfit h, View.at_of_puts _ hputs, View.at_of_puts _ hputs']
      show (if _ then _ else _ : SealedCell).toRedacted = _
      rw [if_pos rfl, settled_toRedacted (settled_view other suffix' row')]
      rfl
    · rw [hwrite hfit h, View.at_write_of_ne _ hne hsummary hsource, Cells.at_view hsound]
  · obtain ⟨env', h⟩ := put_own hsound suffix hputs hshow uuid
    refine ⟨env', h, fun r => ?_⟩
    rw [Cells.at_view hsound] at h ⊢
    rw [hwrite (fits_of_kind env suffix hputs rfl) h, view_write_own env suffix hputs]

theorem put_reads_back_command : ∃ env', put freshId.text (.holding [webService none] []) commandRow
      ((Cells.of (.holding [webService (some "run")] []) "").at_ commandRow) = .ok env' ∧
    (Cells.of env' "").at_ commandRow = .value (.string "run") := by
  obtain ⟨env', hput, -⟩ :=
    exists_ok (x := put freshId.text (.holding [webService none] []) commandRow
    ((Cells.of (.holding [webService (some "run")] []) "").at_ commandRow)) (fun _ => True)
    (by decide +kernel)
  have hread := (put_reads_back (parsed_of_check (by decide +kernel)) "" rfl (.inl rfl)
    freshId.text).1 (.holding [webService (some "run")] []) "" commandRow
    (parsed_of_check (by decide +kernel)) rfl env' hput
  exact ⟨env', hput, hread.1.trans (by decide +kernel)⟩

/-- Under a Volume of its lineage, a Service takes a start command that is not read. -/
theorem shadowed_put_not_read :
    ∃ env, parseEnvironmentIntent env = .ok env ∧
      ∃ env', put freshId.text env commandRow
        ((Cells.of (.holding [webService (some "run")] []) "").at_ commandRow) = .ok env' ∧
      (Cells.of env' "").at_ commandRow = .absent := by
  refine ⟨.holding [webService none] [.docker volumeId serviceId "data"],
    parsed_of_check (by decide +kernel), ?_⟩
  exact exists_ok _ (by decide +kernel)

end Ployz
