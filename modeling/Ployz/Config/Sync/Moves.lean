import Ployz.Config.Sync.View

/-!
# Whole moves of views

A move in views: nodes arrive with what they carry, then rows are written one by one.
What a view reads after all of it depends on the rows written and not on their order:
each holds what was written, the git branch follows its source, everything else is as it
was.
-/

namespace Ployz.View

/-! ## Nodes that arrive together -/

/-- The nodes of `lineages` arrive from `from_`. -/
def arriveAll (v from_ : View) (lineages : List String) : View where
  tag := fun l => if l ∈ lineages then from_.tag l else v.tag l
  cell := fun r => if r.lineage ∈ lineages then from_.carried r.lineage r.place else v.cell r

theorem arriveAll_nil (v from_ : View) : v.arriveAll from_ [] = v := by
  ext1 <;> simp [arriveAll]

theorem arriveAll_cons (v : View) {from_ : View} {lineage : String} {tag : Tag}
    (htag : from_.tag lineage = some tag) (lineages : List String) :
    (v.arrive lineage tag (from_.carried lineage)).arriveAll from_ lineages =
      v.arriveAll from_ (lineage :: lineages) := by
  ext1
  · funext l
    by_cases hl : l = lineage
    · simp [arriveAll, arrive, hl, htag]
    · simp [arriveAll, arrive, hl]
  · funext r
    by_cases hr : r.lineage = lineage
    · simp [arriveAll, arrive, hr]
    · simp [arriveAll, arrive, hr]

/-! ## Rows written one by one -/

def writeAll (v : View) (lands : List (RowId × SealedCell)) : View :=
  lands.foldl (fun v p => v.write p.1 p.2) v

theorem writeAll_cons (v : View) (p : RowId × SealedCell) (lands : List (RowId × SealedCell)) :
    v.writeAll (p :: lands) = (v.write p.1 p.2).writeAll lands := rfl

theorem writeAll_tag (v : View) (lands : List (RowId × SealedCell)) :
    (v.writeAll lands).tag = v.tag := by
  induction lands generalizing v with
  | nil => rfl
  | cons p lands ih => rw [writeAll_cons, ih]; rfl

theorem write_cell_of_ne (v : View) {row r : RowId} (cell : SealedCell) (hr : r ≠ row)
    (hb : r.place = .setting .branch → row ≠ ⟨r.lineage, .setting .source⟩) :
    (v.write row cell).cell r = v.cell r := by
  have hsource : ¬(row.place = .setting .source ∧ r = ⟨row.lineage, .setting .branch⟩) := by
    rintro ⟨hplace, rfl⟩
    exact hb rfl (by rw [← hplace])
  simp only [write, hr, hsource, if_false]

variable {lands : List (RowId × SealedCell)}

theorem writeAll_cell_of_not_mem (v : View) {row : RowId} (hrow : row ∉ lands.map (·.1))
    (hb : row.place = .setting .branch → ⟨row.lineage, .setting .source⟩ ∉ lands.map (·.1)) :
    (v.writeAll lands).cell row = v.cell row := by
  induction lands generalizing v with
  | nil => rfl
  | cons p lands ih =>
    simp only [List.map_cons, List.mem_cons, not_or] at hrow hb
    rw [writeAll_cons, ih _ hrow.2 fun hp => (hb hp).2]
    exact v.write_cell_of_ne p.2 hrow.1 fun hp => Ne.symm (hb hp).1

theorem writeAll_cell_of_mem (v : View) (hnodup : (lands.map (·.1)).Nodup) {row : RowId}
    {cell : SealedCell} (hmem : (row, cell) ∈ lands) (hb : row.place ≠ .setting .branch) :
    (v.writeAll lands).cell row = settled cell := by
  induction lands generalizing v with
  | nil => simp at hmem
  | cons p lands ih =>
    obtain ⟨hp, hnodup⟩ := List.nodup_cons.mp hnodup
    rcases List.mem_cons.mp hmem with rfl | hmem
    · rw [writeAll_cons, writeAll_cell_of_not_mem _ hp fun h => absurd h hb]
      simp [write]
    · exact ih _ hnodup hmem

/-- The git branch follows a source written once. -/
theorem writeAll_branch (v : View) (hnodup : (lands.map (·.1)).Nodup) {lineage : String}
    {cell : SealedCell} (hmem : (⟨lineage, .setting .source⟩, cell) ∈ lands)
    (hb : ⟨lineage, .setting .branch⟩ ∉ lands.map (·.1)) :
    (v.writeAll lands).cell ⟨lineage, .setting .branch⟩ =
      branchAfter (v.cell ⟨lineage, .setting .branch⟩) cell := by
  induction lands generalizing v with
  | nil => simp at hmem
  | cons p lands ih =>
    obtain ⟨hp, hnodup⟩ := List.nodup_cons.mp hnodup
    simp only [List.map_cons, List.mem_cons, not_or] at hb
    rcases List.mem_cons.mp hmem with rfl | hmem
    · rw [writeAll_cons, writeAll_cell_of_not_mem _ hb.2 fun _ => hp]
      simp [write]
    · rw [writeAll_cons, ih _ hnodup hmem hb.2]
      congr 1
      refine v.write_cell_of_ne p.2 hb.1 fun _ heq => hp ?_
      exact List.mem_map.mpr ⟨_, hmem, heq.symm⟩

/-! ## Putting rows back -/

/-- What an undo puts back at a row: what it holds, a git source with its branch. -/
def restoring (v : View) (id : RowId) : SealedCell :=
  match v.sealed id, id.place with
  | .cell (.value (.source (.git version repository repositoryId access rootDir branch))),
      .setting .source =>
    match v.at_ ⟨id.lineage, .setting .branch⟩ with
    | .value (.branch own) =>
      .cell (.value (.source (.git version repository repositoryId access rootDir (some own))))
    | _ => .cell (.value (.source (.git version repository repositoryId access rootDir branch)))
  | was, _ => was

theorem restoring_of_ne (v : View) {id : RowId} (h : id.place ≠ .setting .source) :
    v.restoring id = v.sealed id := by
  unfold restoring
  split
  · contradiction
  · rfl

theorem settled_restoring (v : View) (id : RowId) :
    settled (v.restoring id) = settled (v.sealed id) := by
  unfold restoring
  split
  · next h _ =>
    rw [h]
    split <;> rfl
  · rfl

/-- A view whose rows read without a git branch of their own, and whose git branches are
there beside git sources only: an undo finds them again. -/
structure Coherent (v : View) : Prop where
  settled : ∀ row, settled (v.cell row) = v.cell row
  branch : ∀ lineage cell,
    branchAfter (branchAfter (v.cell ⟨lineage, .setting .branch⟩) cell)
      (v.restoring ⟨lineage, .setting .source⟩) = v.cell ⟨lineage, .setting .branch⟩

/-- Writing rows and putting them back leaves a row as it was. -/
theorem writeAll_restoring {v : View} (hv : v.Coherent) {w : View}
    {lands backs : List (RowId × SealedCell)} (hlands : (lands.map (·.1)).Nodup)
    (hbacks : (backs.map (·.1)).Nodup) (hsame : ∀ id, id ∈ backs.map (·.1) ↔ id ∈ lands.map (·.1))
    (hcells : ∀ p ∈ backs, p.2 = v.restoring p.1)
    (hplaces : ∀ id ∈ lands.map (·.1), id.place ≠ .node ∧ id.place ≠ .data ∧
      id.place ≠ .setting .branch)
    {row : RowId} (hrow : w.cell row = v.cell row) :
    ((w.writeAll lands).writeAll backs).cell row = v.cell row := by
  have hback : ∀ id, id ∈ lands.map (·.1) → (id, v.restoring id) ∈ backs := fun id hid => by
    obtain ⟨p, hp, rfl⟩ := List.mem_map.mp ((hsame id).mpr hid)
    rw [← hcells p hp]
    exact hp
  by_cases hmem : row ∈ lands.map (·.1)
  · obtain ⟨hnode, hdata, hbranch⟩ := hplaces row hmem
    have hsealed : v.sealed row = v.cell row := by
      unfold sealed
      split
      · contradiction
      · contradiction
      · rfl
    rw [writeAll_cell_of_mem _ hbacks (hback row hmem) hbranch, settled_restoring, hsealed,
      hv.settled]
  · by_cases hsource : row.place = .setting .branch ∧
        ⟨row.lineage, .setting .source⟩ ∈ lands.map (·.1)
    · obtain ⟨lineage, place⟩ := row
      obtain ⟨hplace, hsource⟩ := hsource
      simp only at hplace hsource
      subst hplace
      obtain ⟨⟨_, cell⟩, hp, rfl⟩ := List.mem_map.mp hsource
      rw [writeAll_branch _ hbacks (hback _ hsource) (fun h => hmem ((hsame _).mp h)),
        writeAll_branch _ hlands hp hmem, hrow, hv.branch]
    · rw [writeAll_cell_of_not_mem _ (fun h => hmem ((hsame _).mp h))
          fun hp h => hsource ⟨hp, (hsame _).mp h⟩,
        writeAll_cell_of_not_mem _ hmem fun hp h => hsource ⟨hp, h⟩, hrow]

/-! ## Nodes that leave together -/

def leaveAll (v : View) (lineages : List String) : View :=
  lineages.foldl leave v

theorem leaveAll_tag (v : View) (lineages : List String) (l : String) :
    (v.leaveAll lineages).tag l = if l ∈ lineages then none else v.tag l := by
  induction lineages generalizing v with
  | nil => simp [leaveAll]
  | cons lineage rest ih =>
    rw [show v.leaveAll (lineage :: rest) = (v.leave lineage).leaveAll rest from rfl, ih]
    by_cases hl : l = lineage <;> simp [leave, hl]

theorem leaveAll_cell (v : View) (lineages : List String) (row : RowId) :
    (v.leaveAll lineages).cell row =
      if row.lineage ∈ lineages ∨ ∃ l ∈ lineages, row.place = .mount l then .cell .absent
      else v.cell row := by
  induction lineages generalizing v with
  | nil => simp [leaveAll]
  | cons lineage rest ih =>
    rw [show v.leaveAll (lineage :: rest) = (v.leave lineage).leaveAll rest from rfl, ih]
    by_cases hl : row.lineage = lineage
    · simp [leave, hl]
    · by_cases hm : row.place = .mount lineage <;> simp [leave, hl, hm]

end Ployz.View
