import Ployz.Config.Sync.Reading

/-!
# Documents as views

What a move is about, apart from how documents store it: which nodes there are, and what
each row holds, a secret with its value. A `View` is that, as two functions. Landing a
row, a node arriving and a node leaving are three operations on views, and `View.at_`
reads a view as a plan reads a document.

Main results:

* `Cells.at_view`: the code's projection of a document reads as the document's view;
* `sealedCell_view`: so does what lands, with its secrets.
-/

namespace Ployz

/-- What a node is, besides its rows. -/
inductive Tag
  | service (slug : String)
  | volume
deriving DecidableEq, Repr

def Tag.slug : Tag → Option String
  | .service slug => some slug
  | .volume => none

/-- The nodes of a configuration and what each place in them holds. -/
@[ext] structure View where
  tag : String → Option Tag
  cell : RowId → SealedCell

variable {row : RowId} {lineage suffix : String} {env : SavedEnvironmentIntent}

namespace View

/-- The plain value at a place a new node needs. -/
def neededValue (v : View) (lineage : String) (place : At) : Option Value :=
  match place.needed, (v.cell ⟨lineage, place⟩).toRedacted with
  | true, .value value => some value
  | _, _ => none

def nodeCell (v : View) (lineage : String) : Cell :=
  match v.tag lineage with
  | none => .absent
  | some tag => nodeCellOf tag.slug (v.neededValue lineage)

def at_ (v : View) (row : RowId) : Cell :=
  match row.place with
  | .node | .data => v.nodeCell row.lineage
  | _ => (v.cell row).toRedacted

/-- What a row holds, a secret with its value. -/
def sealed (v : View) (row : RowId) : SealedCell :=
  match row.place with
  | .node | .data => .cell (v.nodeCell row.lineage)
  | _ => v.cell row

theorem toRedacted_sealed (v : View) (row : RowId) : (v.sealed row).toRedacted = v.at_ row := by
  unfold sealed at_
  split <;> rfl

/-! ## What a move does -/

/-- A git source as its own row holds it: without the branch an undo carries. -/
def settled : SealedCell → SealedCell
  | .cell (.value (.source (.git version repository repositoryId access rootDir _))) =>
    .cell (.value (.source (.git version repository repositoryId access rootDir none)))
  | cell => cell

/-- The git branch once `source` lands beside `own`: a git source keeps the one it finds,
else takes the one it carries. -/
def branchAfter (own source : SealedCell) : SealedCell :=
  match source, own with
  | .cell (.value (.source (.git _ _ _ _ _ carried))), own => match own with
    | .cell (.value (.branch branch)) => .cell (.value (.branch branch))
    | _ => .cell (.value (.branch (carried.getD (.disconnected none))))
  | _, _ => .cell .absent

def write (v : View) (row : RowId) (cell : SealedCell) : View :=
  { v with cell := fun r =>
      if r = row then settled cell
      else if row.place = .setting .source ∧ r = ⟨row.lineage, .setting .branch⟩ then
        branchAfter (v.cell r) cell
      else v.cell r }

/-- What a new node carries from `v`: the settings it can't arrive without. -/
def carried (v : View) (lineage : String) (place : At) : SealedCell :=
  if place.needed then v.cell ⟨lineage, place⟩ else .cell .absent

def arrive (v : View) (lineage : String) (tag : Tag) (holds : At → SealedCell) : View where
  tag := fun l => if l = lineage then some tag else v.tag l
  cell := fun r => if r.lineage = lineage then holds r.place else v.cell r

/-- A node leaves, and with it what mounts it. -/
def leave (v : View) (lineage : String) : View where
  tag := fun l => if l = lineage then none else v.tag l
  cell := fun r => if r.lineage = lineage ∨
    r.place = .mount lineage then .cell .absent else v.cell r

/-! ## One view over another -/

/-- `top`, and what `bottom` has at other lineages. -/
def overlay (top bottom : View) : View where
  tag := fun l => (top.tag l).or (bottom.tag l)
  cell := fun r => if (top.tag r.lineage).isSome then top.cell r else bottom.cell r

variable {top : View}

theorem over_write_bottom (bottom : View) (cell : SealedCell) (h : top.tag row.lineage = none) :
    top.overlay (bottom.write row cell) = (top.overlay bottom).write row cell := by
  ext1
  · rfl
  · funext r
    simp only [overlay, write]
    by_cases hr : r = row
    · simp [hr, h]
    · by_cases hb : r = ⟨row.lineage, .setting .branch⟩
      · simp [hb, h]
      · simp [hr, hb]

theorem over_write_top (bottom : View) (cell : SealedCell) (h : (top.tag row.lineage).isSome) :
    (top.write row cell).overlay bottom = (top.overlay bottom).write row cell := by
  ext1
  · rfl
  · funext r
    simp only [overlay, write]
    by_cases hr : r = row
    · simp [hr, h]
    · by_cases hb : r = ⟨row.lineage, .setting .branch⟩
      · simp [hb, h]
      · simp [hr, hb]

theorem over_arrive_bottom (bottom : View) (tag : Tag) (holds : At → SealedCell)
    (h : top.tag lineage = none) :
    top.overlay (bottom.arrive lineage tag holds) =
      (top.overlay bottom).arrive lineage tag holds := by
  ext1
  · funext l
    by_cases hl : l = lineage
    · simp [overlay, arrive, hl, h]
    · simp [overlay, arrive, hl]
  · funext r
    by_cases hr : r.lineage = lineage
    · simp [overlay, arrive, hr, h]
    · simp [overlay, arrive, hr]

theorem over_arrive_top (top bottom : View) (lineage : String) (tag : Tag)
    (holds : At → SealedCell) :
    (top.arrive lineage tag holds).overlay bottom =
    (top.overlay bottom).arrive lineage tag holds := by
  ext1
  · funext l
    by_cases hl : l = lineage
    · simp [overlay, arrive, hl]
    · simp [overlay, arrive, hl]
  · funext r
    by_cases hr : r.lineage = lineage
    · simp [overlay, arrive, hr]
    · simp [overlay, arrive, hr]

theorem over_leave (top bottom : View) (lineage : String) :
    (top.leave lineage).overlay (bottom.leave lineage) = (top.overlay bottom).leave lineage := by
  ext1
  · funext l
    by_cases hl : l = lineage
    · simp [overlay, leave, hl]
    · simp [overlay, leave, hl]
  · funext r
    by_cases hr : r.lineage = lineage
    · simp [overlay, leave, hr]
    · by_cases hm : r.place = .mount lineage
      · simp [overlay, leave, hr, hm]
      · simp [overlay, leave, hr, hm]

end View

/-! ## The view of a document -/

def NodeRef.tag : NodeRef → Tag
  | .service s => .service s.slug
  | .volume _ => .volume

/-- A variable with its ciphertext where there is one. -/
def variableSealed (v : SavedVariableIntent) : SealedCell :=
  match v.value with
  | .secret (some value) => .secret ⟨v.valueFingerprint, value⟩
  | _ => .cell (variableCell v)

def varSealed (s : SavedServiceIntent) (key : String) : SealedCell :=
  match s.vars.find? (·.key == key) with
  | some v => variableSealed v
  | none => .cell .absent

/-- What a node holds at a place in it, a secret with its value. -/
def placeSealed (env : SavedEnvironmentIntent) (suffix : String) : NodeRef → At → SealedCell
  | .service s, .var key => varSealed s key
  | node, place => .cell (placeCell env suffix node place)

/-- What `env`, whose generated addresses end in `suffix`, holds. -/
def view (env : SavedEnvironmentIntent) (suffix : String) : View where
  tag lineage := (nodeAt env lineage).map (·.tag)
  cell row := match nodeAt env row.lineage with
    | none => .cell .absent
    | some node => placeSealed env suffix node row.place

def serviceView (env : SavedEnvironmentIntent) (suffix : String) : View where
  tag lineage := (service env lineage).map fun s => .service s.slug
  cell row := match service env row.lineage with
    | none => .cell .absent
    | some s => placeSealed env suffix (.service s) row.place

def volumeView (env : SavedEnvironmentIntent) (suffix : String) : View where
  tag lineage := (volume env lineage).map fun _ => .volume
  cell row := match volume env row.lineage with
    | none => .cell .absent
    | some v => placeSealed env suffix (.volume v) row.place

/-- A document shows its Volumes, and its Services where no Volume has their lineage. -/
theorem view_eq_over (env : SavedEnvironmentIntent) (suffix : String) :
    view env suffix = (volumeView env suffix).overlay (serviceView env suffix) := by
  ext1
  · funext l
    simp only [view, View.overlay, volumeView, serviceView, nodeAt]
    cases volume env l with
    | some v => rfl
    | none => cases service env l <;> rfl
  · funext r
    cases hv : volume env r.lineage with
    | some v => simp [view, View.overlay, volumeView, nodeAt, hv]
    | none =>
      cases hs : service env r.lineage with
      | some s => simp [view, View.overlay, volumeView, serviceView, nodeAt, hv, hs]
      | none => simp [view, View.overlay, volumeView, serviceView, nodeAt, hv, hs]

theorem volumeView_tag_eq_none :
    (volumeView env suffix).tag lineage = none ↔ volume env lineage = none := by
  simp [volumeView]

theorem toRedacted_variableSealed (v : SavedVariableIntent) :
    (variableSealed v).toRedacted = variableCell v := by
  unfold variableSealed variableCell
  split <;> simp_all [SealedCell.toRedacted]

theorem toRedacted_placeSealed (env : SavedEnvironmentIntent) (suffix : String) (node : NodeRef)
    (place : At) :
    (placeSealed env suffix node place).toRedacted = placeCell env suffix node place := by
  unfold placeSealed
  split
  · next s key =>
    simp only [varSealed, placeCell, varCell]
    cases s.vars.find? (·.key == key) with
    | none => rfl
    | some v => exact toRedacted_variableSealed v
  · rfl

theorem view_tag (env : SavedEnvironmentIntent) (suffix lineage : String) :
    (view env suffix).tag lineage = (nodeAt env lineage).map (·.tag) := rfl

theorem view_tag_eq_none :
    (view env suffix).tag lineage = none ↔ nodeAt env lineage = none := by
  rw [view_tag, Option.map_eq_none_iff]

variable {node : NodeRef}

theorem view_cell (suffix : String) (hn : nodeAt env row.lineage = some node) :
    (view env suffix).cell row = placeSealed env suffix node row.place := by
  simp [view, hn]

theorem view_cell_of_none (suffix : String) (hn : nodeAt env row.lineage = none) :
    (view env suffix).cell row = .cell .absent := by
  simp [view, hn]

theorem view_cell_of_tag (h : (view env suffix).tag row.lineage = none) :
    (view env suffix).cell row = .cell .absent :=
  view_cell_of_none suffix (view_tag_eq_none.mp h)

theorem view_neededValue (h : Sound env) (suffix : String) (hn : nodeAt env lineage = some node)
    (place : At) :
    (view env suffix).neededValue lineage place = neededValue (cells env node suffix) place := by
  have hcell : (view env suffix).cell ⟨lineage, place⟩ = _ := view_cell suffix hn
  simp only [View.neededValue, hcell, toRedacted_placeSealed, neededValue,
    cells_getElem? h (nodeAt_in hn)]
  cases place.needed with
  | false => rfl
  | true => cases placeCell env suffix node place <;> simp [Cell.present]

theorem view_nodeCell (h : Sound env) (suffix : String) (hn : nodeAt env lineage = some node) :
    (view env suffix).nodeCell lineage = nodeCellAt env suffix node := by
  rw [View.nodeCell, view_tag, hn, Option.map_some, funext (view_neededValue h suffix hn)]
  cases node <;> rfl

theorem view_at (h : Sound env) (suffix : String) (row : RowId) :
    (view env suffix).at_ row = cellAt env suffix row := by
  obtain ⟨lineage, place⟩ := row
  unfold View.at_ cellAt
  cases hn : nodeAt env lineage with
  | none => cases place <;> simp [view, hn, View.nodeCell, SealedCell.toRedacted]
  | some node =>
    have hcell := view_nodeCell h suffix hn
    cases place with
    | node | data => simpa using hcell
    | _ => simp [view, hn, toRedacted_placeSealed]

/-- The projection of a document reads as its view. -/
theorem Cells.at_view (h : Sound env) (suffix : String) (row : RowId) :
    (Cells.of env suffix).at_ row = (view env suffix).at_ row := by
  rw [Cells.at_of h, view_at h]

theorem service_of_nodeAt {s : SavedServiceIntent} (h : nodeAt env lineage = some (.service s)) :
    service env lineage = some s := by
  unfold nodeAt at h
  split at h
  · simp at h
  · simpa using h

theorem volume_of_nodeAt {v : SavedVolumeIntent} (h : nodeAt env lineage = some (.volume v)) :
    volume env lineage = some v := by
  unfold nodeAt at h
  split at h
  · simp_all
  · simp at h

/-- What a document holds at a row with its secrets is its view's. -/
theorem sealedCell_view (h : Sound env) (suffix : String) (row : RowId) :
    sealedCell env (Cells.of env suffix) row = (view env suffix).sealed row := by
  obtain ⟨lineage, place⟩ := row
  unfold sealedCell View.sealed
  rw [Cells.at_view h]
  cases hn : nodeAt env lineage with
  | none => cases place <;> simp [View.at_, View.nodeCell, view, hn, SealedCell.toRedacted]
  | some node =>
    cases place with
    | node | data => simp [View.at_]
    | var key =>
      cases node with
      | volume v => simp [View.at_, view, hn, placeSealed, placeCell, SealedCell.toRedacted]
      | service s =>
        simp only [View.at_, view, hn, placeSealed, varSealed, encryptedValue,
          service_of_nodeAt hn, Option.bind_some]
        cases hv : s.vars.find? (·.key == key) with
        | none => simp [SealedCell.toRedacted]
        | some v =>
          simp only [variableSealed, variableCell]
          cases hval : v.value with
          | secret e => cases e <;> simp [SealedCell.toRedacted, hv, hval]
          | _ => simp [SealedCell.toRedacted]
    | _ => cases node <;> simp [View.at_, view, hn, placeSealed, SealedCell.toRedacted]

theorem view_cell_of_node (suffix : String) (h : row.place = .node ∨ row.place = .data) :
    (view env suffix).cell row = .cell .absent := by
  cases hn : nodeAt env row.lineage with
  | none => exact view_cell_of_none suffix hn
  | some node =>
    rw [view_cell suffix hn]
    rcases h with h | h <;> rw [h] <;> cases node <;> rfl

theorem Cells.mem_places_view (h : Sound env) {cell : Cell} :
    (row, cell) ∈ (Cells.of env suffix).places lineage ↔ row.lineage = lineage ∧
      cell = ((view env suffix).cell row).toRedacted ∧ cell ≠ .absent := by
  rw [Cells.mem_places h, ← view_at h]
  constructor
  · rintro ⟨rfl, hnode, hdata, rfl, hne⟩
    refine ⟨rfl, ?_, hne⟩
    unfold View.at_
    split <;> first | contradiction | rfl
  · rintro ⟨rfl, rfl, hne⟩
    have hnode : ¬(row.place = .node ∨ row.place = .data) := fun hp =>
      hne (by rw [view_cell_of_node suffix hp]; rfl)
    rw [not_or] at hnode
    refine ⟨rfl, hnode.1, hnode.2, ?_, hne⟩
    unfold View.at_
    split
    · next hp => exact absurd hp hnode.1
    · next hp => exact absurd hp hnode.2
    · rfl

end Ployz
