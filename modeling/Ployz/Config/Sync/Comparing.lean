import Ployz.Config.Sync.Plan
import Ployz.Config.Sync.View

/-!
# What a plan compares

`plan` walks the nodes of two documents and judges each row. Its rows depend only on what
the documents show: `Sides.plannedAt` is what a plan has at a row, and `mem_plan_rows` says
so of the code's loops. A row that moves is of a node both sides have, is a new node, or is
a row of a new node (`Moving`, `moving_iff`).
-/

namespace Ployz

namespace Sides

def fromView (sides : Sides) : View := view sides.from_ sides.hostnames.from_

def intoView (sides : Sides) : View := view sides.into sides.hostnames.into

def rowAt (sides : Sides) (id : RowId) (verdict : Verdict) : PlannedRow :=
  ⟨id, sides.baseCell id, sides.fromView.at_ id, sides.intoView.at_ id, none, verdict⟩

/-- Both sides have distinct identities. -/
structure Distinct (sides : Sides) : Prop where
  from_ : Sound sides.from_
  into : Sound sides.into

variable {sides : Sides}

theorem Distinct.fromCells_at (h : sides.Distinct) (row : RowId) :
    sides.fromCells.at_ row = sides.fromView.at_ row :=
  Cells.at_view h.from_ _ row

theorem Distinct.intoCells_at (h : sides.Distinct) (row : RowId) :
    sides.intoCells.at_ row = sides.intoView.at_ row :=
  Cells.at_view h.into _ row

theorem Distinct.row_eq (h : sides.Distinct) (id : RowId) (verdict : Verdict) :
    sides.row id verdict = sides.rowAt id verdict := by
  rw [Sides.row, h.fromCells_at, h.intoCells_at, rowAt]

end Sides

/-- How a new node's own rows are judged: a copy starts with the settings each
Environment owns as they are. -/
def Policy.judge (policy : Policy) : RowId → Cell → Cell → Cell → Option Verdict :=
  match policy.way with
  | .copy => policy.moved
  | _ => policy.verdict

/-- Whether a mark keeps a new node from arriving: one on what it can't arrive without. -/
def Policy.bars (policy : Policy) (v : View) (lineage : String) : Prop :=
  ∃ place : At, place.needed = true ∧ (v.cell ⟨lineage, place⟩).toRedacted ≠ .absent ∧
    policy.marked ⟨lineage, place⟩ = true

noncomputable def Sides.nodeVerdict (sides : Sides) (policy : Policy) (lineage : String) :
    Verdict :=
  open Classical in
  if policy.marked (RowId.node lineage) ∨ policy.bars sides.fromView lineage then
    .differs .neverSynced
  else .moves false (policy.own.all (·.contains (RowId.node lineage))) .asIs

namespace Sides

/-- The row a plan has at `id` of a node both sides have. -/
def sharedAt (sides : Sides) (policy : Policy) (id : RowId) (from_ into : Tag) :
    Option PlannedRow :=
  match id.place with
  | .node => none
  | .data => if from_ = .volume ∧
      into = .volume then some (sides.rowAt id (.differs .data)) else none
  | _ => (policy.verdict id (sides.baseCell id) (sides.fromView.at_ id) (sides.intoView.at_ id)).map
      (sides.rowAt id)

/-- The row a plan has at `id` of a new node. -/
noncomputable def newAt (sides : Sides) (policy : Policy) (id : RowId) : Option PlannedRow :=
  match id.place with
  | .node => some (sides.rowAt id (sides.nodeVerdict policy id.lineage))
  | place => if place.carried then none
    else (policy.judge id .absent (sides.fromView.cell id).toRedacted .absent).map fun verdict =>
      ⟨id, .absent, (sides.fromView.cell id).toRedacted, .absent, some (RowId.node id.lineage),
        verdict⟩

/-- The row a plan has at `id` of a node that stays on its side. -/
def asideAt (sides : Sides) (id : RowId) (why : Why) : Option PlannedRow :=
  match id.place with
  | .node => some (sides.rowAt id (.differs why))
  | _ => none

noncomputable def plannedAt (sides : Sides) (policy : Policy) (id : RowId) : Option PlannedRow :=
  match sides.fromView.tag id.lineage, sides.intoView.tag id.lineage with
  | some from_, some into => sides.sharedAt policy id from_ into
  | some _, none =>
    if policy.live.contains id.lineage then sides.asideAt id .live
    else if sides.baseHas id.lineage then sides.asideAt id .leftOut
    else sides.newAt policy id
  | none, some _ =>
    if uses sides.from_ id.lineage then sides.asideAt id .live
    else if sides.baseHas id.lineage then sides.asideAt id .leftOut
    else none
  | none, none => none

end Sides

variable {sides : Sides} {policy : Policy}

/-! ## A plan is its rows -/

theorem nodes_contains_view {env : SavedEnvironmentIntent} (h : Sound env)
    (suffix lineage : String) :
    (nodes env).contains lineage = ((view env suffix).tag lineage).isSome := by
  rw [nodes_contains h, view_tag, Option.isSome_map]

variable {lineage : String} {id : RowId} {row : PlannedRow} {conflict ticked : Bool}
  {arrives : Arrives}

theorem mem_lineages (h : sides.Distinct) :
    lineage ∈ (Std.TreeSet.ofList ((nodes sides.from_).keys ++ (nodes sides.into).keys)
      compare).toList ↔
      (sides.fromView.tag lineage).isSome ∨ (sides.intoView.tag lineage).isSome := by
  rw [Std.TreeSet.mem_toList, Std.TreeSet.mem_ofList, List.contains_iff_mem, List.mem_append,
    Std.TreeMap.mem_keys, Std.TreeMap.mem_keys, Std.TreeMap.mem_iff_contains,
    Std.TreeMap.mem_iff_contains, nodes_contains_view h.from_ sides.hostnames.from_,
    nodes_contains_view h.into sides.hostnames.into]
  rfl

theorem Policy.moved_same (policy : Policy) (id : RowId) (base cell : Cell) :
    policy.moved id base cell cell = none := by
  simp [Policy.moved]

theorem Policy.verdict_same (policy : Policy) (id : RowId) (base cell : Cell) :
    policy.verdict id base cell cell = none := by
  unfold Policy.verdict
  split
  · simp
  · exact policy.moved_same id base cell

theorem Policy.judge_same (policy : Policy) (id : RowId) (base cell : Cell) :
    policy.judge id base cell cell = none := by
  cases hw : policy.way <;>
    simp [Policy.judge, hw, policy.moved_same id base cell, policy.verdict_same id base cell]

theorem View.at_eq_cell (v : View) {row : RowId} (hnode : row.place ≠ .node)
    (hdata : row.place ≠ .data) : v.at_ row = (v.cell row).toRedacted := by
  unfold View.at_
  split
  · contradiction
  · contradiction
  · rfl

/-- The rows of a node both sides have: those either side holds something at. -/
theorem mem_sharedIds (h : sides.Distinct) :
    id ∈ (Std.TreeSet.ofList ((sides.fromCells.places lineage ++
      sides.intoCells.places lineage).map (·.1)) compare).toList ↔
      id.lineage = lineage ∧ ((sides.fromView.cell id).toRedacted ≠ .absent ∨
        (sides.intoView.cell id).toRedacted ≠ .absent) := by
  have hfrom : ∀ cell, (id, cell) ∈ sides.fromCells.places lineage ↔ _ := fun _ =>
    Cells.mem_places_view h.from_
  have hinto : ∀ cell, (id, cell) ∈ sides.intoCells.places lineage ↔ _ := fun _ =>
    Cells.mem_places_view h.into
  simp only [Std.TreeSet.mem_toList, Std.TreeSet.mem_ofList, List.contains_iff_mem, List.mem_map,
    List.mem_append, Prod.exists, exists_and_right, exists_eq_right]
  constructor
  · rintro ⟨cell, hc | hc⟩
    · obtain ⟨hl, rfl, hne⟩ := (hfrom cell).mp hc
      exact ⟨hl, .inl hne⟩
    · obtain ⟨hl, rfl, hne⟩ := (hinto cell).mp hc
      exact ⟨hl, .inr hne⟩
  · rintro ⟨hl, hne | hne⟩
    · exact ⟨_, .inl ((hfrom _).mpr ⟨hl, rfl, hne⟩)⟩
    · exact ⟨_, .inr ((hinto _).mpr ⟨hl, rfl, hne⟩)⟩

theorem sharedAt_eq (sides : Sides) (policy : Policy) (from_ into : Tag)
    (hnode : id.place ≠ .node) (hdata : id.place ≠ .data) :
    sides.sharedAt policy id from_ into = (policy.verdict id (sides.baseCell id)
      (sides.fromView.at_ id) (sides.intoView.at_ id)).map (sides.rowAt id) := by
  unfold Sides.sharedAt
  split
  · contradiction
  · contradiction
  · rfl

theorem place_of_cell_ne {env : SavedEnvironmentIntent} {suffix : String} {row : RowId}
    (h : ((view env suffix).cell row).toRedacted ≠ .absent) :
    row.place ≠ .node ∧ row.place ≠ .data := by
  rw [← not_or]
  intro hp
  exact h (by rw [view_cell_of_node suffix hp]; rfl)

/-- What the loop over a shared node's places finds. -/
theorem mem_sharedRows (h : sides.Distinct) {lineage : String} (from_ into : Tag)
    {row : PlannedRow} :
    (∃ id ∈ (Std.TreeSet.ofList ((sides.fromCells.places lineage ++
      sides.intoCells.places lineage).map (·.1)) compare).toList,
      (policy.verdict id (sides.baseCell id) (sides.fromCells.at_ id) (sides.intoCells.at_ id)).map
        (sides.row id) = some row) ↔ row.id.lineage = lineage ∧ row.id.place ≠ .data ∧
      sides.sharedAt policy row.id from_ into = some row := by
  have hrow : ∀ id, sides.row id = sides.rowAt id := fun id => funext (h.row_eq id)
  simp only [mem_sharedIds h, h.fromCells_at, h.intoCells_at, hrow]
  constructor
  · rintro ⟨id, ⟨hl, hne⟩, hv⟩
    have hplace : id.place ≠ .node ∧ id.place ≠ .data :=
      hne.elim place_of_cell_ne place_of_cell_ne
    obtain ⟨verdict, -, rfl⟩ := Option.map_eq_some_iff.mp hv
    exact ⟨hl, hplace.2, (sharedAt_eq sides policy from_ into hplace.1 hplace.2).trans hv⟩
  · rintro ⟨hl, hdata, hv⟩
    have hnode : row.id.place ≠ .node := fun hn => by simp [Sides.sharedAt, hn] at hv
    rw [sharedAt_eq sides policy from_ into hnode hdata] at hv
    refine ⟨row.id, ⟨hl, ?_⟩, hv⟩
    by_contra hne
    rw [not_or, not_not, not_not, ← View.at_eq_cell _ hnode hdata,
      ← View.at_eq_cell _ hnode hdata] at hne
    rw [hne.1, hne.2, Policy.verdict_same] at hv
    cases hv

theorem Sides.baseCell_data (sides : Sides) (lineage : String) :
    sides.baseCell ⟨lineage, .data⟩ = sides.baseCell (RowId.node lineage) := by
  unfold Sides.baseCell
  split <;> rfl

theorem mem_planShared (h : sides.Distinct) {from_ into : NodeRef} :
    row ∈ planShared sides policy lineage from_ into ↔
      row.id.lineage = lineage ∧ sides.sharedAt policy row.id from_.tag into.tag = some row := by
  have hrows := @mem_sharedRows sides policy h lineage from_.tag into.tag row
  have hdata : row.id.place = .data → sides.sharedAt policy row.id from_.tag into.tag =
      if from_.tag = .volume ∧ into.tag = .volume then some (sides.rowAt row.id (.differs .data))
      else none := fun hp => by simp [Sides.sharedAt, hp]
  -- Without the data row, a plan's rows are those the loop finds.
  have hplain : ¬(from_.tag = .volume ∧ into.tag = .volume) →
      ((row.id.lineage = lineage ∧ row.id.place ≠ .data ∧
        sides.sharedAt policy row.id from_.tag into.tag = some row) ↔
      row.id.lineage = lineage ∧ sides.sharedAt policy row.id from_.tag into.tag = some row) := by
    intro hv
    rw [if_neg hv] at hdata
    refine and_congr_right fun _ => ⟨And.right, fun hs => ⟨fun hp => ?_, hs⟩⟩
    rw [hdata hp] at hs
    cases hs
  cases from_ with
  | service s =>
    rw [← hplain (by simp [NodeRef.tag]), ← hrows]
    exact List.mem_filterMap
  | volume v =>
    cases into with
    | service s =>
      rw [← hplain (by simp [NodeRef.tag]), ← hrows]
      exact List.mem_filterMap
    | volume w =>
      have hnode : ({ sides.row (RowId.node lineage) (.differs .data) with id :=
        ⟨lineage, .data⟩ } :
          PlannedRow) = sides.rowAt ⟨lineage, .data⟩ (.differs .data) := by
        simp only [h.row_eq, Sides.rowAt, sides.baseCell_data]
        rfl
      rw [planShared, List.mem_append, List.mem_filterMap, hrows, List.mem_singleton, hnode]
      simp only [NodeRef.tag, and_self, if_true] at hdata ⊢
      constructor
      · rintro (⟨hl, -, hs⟩ | rfl)
        · exact ⟨hl, hs⟩
        · exact ⟨rfl, hdata rfl⟩
      · rintro ⟨hl, hs⟩
        by_cases hp : row.id.place = .data
        · rw [hdata hp, Option.some.injEq] at hs
          have hid : row.id = ⟨lineage, .data⟩ := by rw [← hl, ← hp]
          exact .inr (by rw [← hs, hid])
        · exact .inl ⟨hl, hp, hs⟩

theorem Policy.verdict_node (policy : Policy) (lineage : String) (value : Value) :
    policy.verdict (RowId.node lineage) .absent (.value value) .absent = some
      (if policy.marked (RowId.node lineage) then .differs .neverSynced
        else .moves false (policy.own.all (·.contains (RowId.node lineage))) .asIs) := by
  cases hw : policy.way <;>
    simp [Policy.verdict, owned, RowId.node, Policy.moved, Cell.isSecret, hw]

theorem View.nodeCell_of_some {v : View} {tag : Tag} (h : v.tag lineage = some tag) :
    ∃ value, v.nodeCell lineage = .value value := by
  simp [View.nodeCell, h, nodeCellOf]

theorem bars_iff (h : sides.Distinct) :
    ((sides.fromCells.places lineage).any fun (child, _) =>
      child.place.needed && policy.marked child) = true ↔ policy.bars sides.fromView lineage := by
  have hfrom : ∀ id cell, (id, cell) ∈ sides.fromCells.places lineage ↔ _ := fun _ _ =>
    Cells.mem_places_view h.from_
  simp only [List.any_eq_true, Prod.exists, hfrom, Bool.and_eq_true, Policy.bars]
  constructor
  · rintro ⟨⟨_, place⟩, _, ⟨rfl, rfl, hne⟩, hneeded, hmarked⟩
    exact ⟨place, hneeded, hne, hmarked⟩
  · rintro ⟨place, hneeded, hne, hmarked⟩
    exact ⟨⟨lineage, place⟩, _, ⟨rfl, rfl, hne⟩, hneeded, hmarked⟩

theorem newAt_eq (sides : Sides) (policy : Policy) (hnode : id.place ≠ .node) :
    sides.newAt policy id = if id.place.carried then none
      else (policy.judge id .absent (sides.fromView.cell id).toRedacted .absent).map fun verdict =>
        ⟨id, .absent, (sides.fromView.cell id).toRedacted, .absent, some (RowId.node id.lineage),
          verdict⟩ := by
  unfold Sides.newAt
  split
  · contradiction
  · rfl

theorem mem_planNew (h : sides.Distinct) {tag : Tag}
    (htag : sides.fromView.tag lineage = some tag) :
    row ∈ planNew sides policy lineage ↔
      row.id.lineage = lineage ∧ sides.newAt policy row.id = some row := by
  have hfrom : ∀ id cell, (id, cell) ∈ sides.fromCells.places lineage ↔ _ := fun _ _ =>
    Cells.mem_places_view h.from_
  obtain ⟨value, hvalue⟩ := View.nodeCell_of_some htag
  have hverdict := policy.verdict_node lineage value
  have hat : sides.fromCells.at_ (RowId.node lineage) = .value value :=
    (h.fromCells_at _).trans hvalue
  have hnode : (if ((sides.fromCells.places lineage).any fun (child, _) =>
      child.place.needed && policy.marked child) = true then .differs .neverSynced
      else if policy.marked (RowId.node lineage) then .differs .neverSynced
        else .moves false (policy.own.all (·.contains (RowId.node lineage))) .asIs) =
      sides.nodeVerdict policy lineage := by
    rw [Sides.nodeVerdict]
    by_cases hb : policy.bars sides.fromView lineage
    · rw [if_pos ((bars_iff h).mpr hb), if_pos (.inr hb)]
    · rw [if_neg (mt (bars_iff h).mp hb)]
      simp [hb]
  have hself : sides.rowAt (RowId.node lineage) (sides.nodeVerdict policy lineage) = row ↔
      row.id = RowId.node lineage ∧ sides.newAt policy row.id = some row := by
    constructor
    · rintro rfl
      exact ⟨rfl, rfl⟩
    · rintro ⟨hid, hnew⟩
      rw [hid] at hnew
      exact Option.some.inj hnew
  simp only [planNew, hat, hverdict, hnode, List.mem_cons, List.mem_filterMap, List.mem_filter,
    h.row_eq]
  constructor
  · rintro (hrow | ⟨⟨id, cell⟩, ⟨hmem, hcarried⟩, hjudge⟩)
    · obtain ⟨hid, hnew⟩ := hself.mp hrow.symm
      exact ⟨by rw [hid]; rfl, hnew⟩
    · obtain ⟨rfl, rfl, hne⟩ := (hfrom id cell).mp hmem
      obtain ⟨verdict, hverdict, rfl⟩ := Option.map_eq_some_iff.mp hjudge
      refine ⟨rfl, ?_⟩
      rw [newAt_eq sides policy (place_of_cell_ne hne).1, if_neg (by simpa using hcarried)]
      exact hjudge
  · rintro ⟨rfl, hnew⟩
    by_cases hplace : row.id.place = .node
    · exact .inl (hself.mpr ⟨by rw [RowId.node, ← hplace], hnew⟩).symm
    · rw [newAt_eq sides policy hplace, Option.ite_none_left_eq_some] at hnew
      obtain ⟨hcarried, hjudge⟩ := hnew
      refine .inr ⟨(row.id, _), ⟨(hfrom row.id _).mpr ⟨rfl, rfl, fun hne => ?_⟩, ?_⟩, hjudge⟩
      · simp only [Sides.fromView, hne, Policy.judge_same, Option.map_none, reduceCtorEq] at hjudge
      · simpa using hcarried

theorem mem_asideAt {why : Why} :
    row ∈ [sides.rowAt (RowId.node lineage) (.differs why)] ↔
      row.id.lineage = lineage ∧ sides.asideAt row.id why = some row := by
  rw [List.mem_singleton]
  constructor
  · rintro rfl
    exact ⟨rfl, rfl⟩
  · rintro ⟨rfl, h⟩
    unfold Sides.asideAt at h
    split at h
    · next hplace =>
      have hid : row.id = RowId.node row.id.lineage := by rw [RowId.node, ← hplace]
      rw [← hid]
      exact (Option.some.inj h).symm
    · cases h

theorem mem_planNode (h : sides.Distinct) :
    row ∈ planNode sides policy lineage ↔
      row.id.lineage = lineage ∧ sides.plannedAt policy row.id = some row := by
  have hplanned : row.id.lineage = lineage → sides.plannedAt policy row.id =
    match sides.fromView.tag lineage, sides.intoView.tag lineage with
    | some from_, some into => sides.sharedAt policy row.id from_ into
    | some _, none =>
      if policy.live.contains lineage then sides.asideAt row.id .live
      else if sides.baseHas lineage then sides.asideAt row.id .leftOut
      else sides.newAt policy row.id
    | none, some _ =>
      if uses sides.from_ lineage then sides.asideAt row.id .live
      else if sides.baseHas lineage then sides.asideAt row.id .leftOut
      else none
    | none, none => none := by
    rintro rfl
    rfl
  rw [and_congr_right fun hl => by rw [hplanned hl]]
  have hfrom : sides.fromView.tag lineage = ((nodes sides.from_)[lineage]?).map (·.tag) := by
    rw [nodes_getElem? h.from_]; rfl
  have hinto : sides.intoView.tag lineage = ((nodes sides.into)[lineage]?).map (·.tag) := by
    rw [nodes_getElem? h.into]; rfl
  unfold planNode
  rw [hfrom, hinto]
  cases hf : (nodes sides.from_)[lineage]? with
  | some from_ =>
    cases hi : (nodes sides.into)[lineage]? with
    | some into => exact mem_planShared h
    | none =>
      simp only [Option.map_some, Option.map_none, h.row_eq]
      by_cases hlive : policy.live.contains lineage = true
      · simpa [hlive] using mem_asideAt
      · by_cases hbase : sides.baseHas lineage = true
        · simpa [hlive, hbase] using mem_asideAt
        · simpa [hlive, hbase] using mem_planNew h (hfrom.trans (by rw [hf]; rfl))
  | none =>
    cases hi : (nodes sides.into)[lineage]? with
    | some into =>
      simp only [Option.map_some, Option.map_none, h.row_eq]
      by_cases huses : uses sides.from_ lineage = true
      · simpa [huses] using mem_asideAt
      · by_cases hbase : sides.baseHas lineage = true
        · simpa [huses, hbase] using mem_asideAt
        · simp [huses, hbase]
    | none => simp

/-- A plan has one row at most at each id, the one views say. -/
theorem mem_plan_rows (h : sides.Distinct) :
    row ∈ (plan sides policy).rows ↔ sides.plannedAt policy row.id = some row := by
  simp only [plan, List.mem_insertionSort, List.mem_flatMap, mem_lineages h, mem_planNode h]
  constructor
  · rintro ⟨_, -, -, hrow⟩
    exact hrow
  · intro hrow
    refine ⟨row.id.lineage, ?_, rfl, hrow⟩
    unfold Sides.plannedAt at hrow
    split at hrow <;> simp_all

/-! ## Rows that move -/

/-- A node only the sender has, that neither was shared nor is in use live. -/
structure Sides.New (sides : Sides) (policy : Policy) (lineage : String) : Prop where
  from_ : (sides.fromView.tag lineage).isSome
  into : sides.intoView.tag lineage = none
  live : policy.live.contains lineage = false
  base : sides.baseHas lineage = false

/-- Whether the sender counts the row as its own change. -/
def Policy.ticks (policy : Policy) (id : RowId) : Bool := policy.own.all (·.contains id)

/-- A row that moves, with how: a row of a node both sides have, a new node, or a row of
a new node. -/
inductive Moving (sides : Sides) (policy : Policy) : PlannedRow → Bool → Bool → Arrives → Prop
  | shared {id : RowId} {conflict ticked : Bool} {arrives : Arrives}
      (hfrom : (sides.fromView.tag id.lineage).isSome)
      (hinto : (sides.intoView.tag id.lineage).isSome)
      (hnode : id.place ≠ .node) (hdata : id.place ≠ .data)
      (hverdict : policy.verdict id (sides.baseCell id) (sides.fromView.at_ id)
        (sides.intoView.at_ id) = some (.moves conflict ticked arrives)) :
      Moving sides policy (sides.rowAt id (.moves conflict ticked arrives)) conflict ticked arrives
  | node {lineage : String} (hnew : sides.New policy lineage)
      (hmark : policy.marked (RowId.node lineage) = false)
      (hbars : ¬policy.bars sides.fromView lineage) :
      Moving sides policy (sides.rowAt (RowId.node lineage)
        (.moves false (policy.ticks (RowId.node lineage)) .asIs)) false
        (policy.ticks (RowId.node lineage)) .asIs
  | child {id : RowId} {conflict ticked : Bool} {arrives : Arrives}
      (hnew : sides.New policy id.lineage) (hnode : id.place ≠ .node)
      (hcarried : id.place.carried = false)
      (hverdict : policy.judge id .absent (sides.fromView.cell id).toRedacted .absent =
        some (.moves conflict ticked arrives)) :
      Moving sides policy ⟨id, .absent, (sides.fromView.cell id).toRedacted, .absent,
        some (RowId.node id.lineage), .moves conflict ticked arrives⟩ conflict ticked arrives

theorem moving_of_planned (h : sides.plannedAt policy row.id = some row)
    (hv : row.verdict = .moves conflict ticked arrives) :
    Moving sides policy row conflict ticked arrives := by
  have haside : ∀ why, sides.asideAt row.id why ≠ some row := fun why ha => by
    unfold Sides.asideAt at ha
    split at ha
    · rw [← Option.some.inj ha] at hv
      cases hv
    · cases ha
  obtain ⟨id, base, from_, into, requires, verdict⟩ := row
  simp only at hv h haside
  subst hv
  unfold Sides.plannedAt at h
  split at h
  · next hf hi =>
    unfold Sides.sharedAt at h
    split at h
    · cases h
    · simp [Sides.rowAt] at h
    · next hnode hdata =>
      obtain ⟨verdict, hverdict, hrow⟩ := Option.map_eq_some_iff.mp h
      rw [← hrow]
      simp only [Sides.rowAt, PlannedRow.mk.injEq] at hrow
      obtain ⟨-, -, -, -, -, rfl⟩ := hrow
      exact .shared (by simp [hf]) (by simp [hi]) hnode hdata hverdict
  · next hf hi =>
    split at h
    · exact absurd h (haside _)
    · next hlive =>
      split at h
      · exact absurd h (haside _)
      · next hbase =>
        have hnew : sides.New policy id.lineage :=
          ⟨by simp [hf], hi, Bool.eq_false_iff.mpr hlive, Bool.eq_false_iff.mpr hbase⟩
        by_cases hplace : id.place = .node
        · obtain ⟨lineage, place⟩ := id
          simp only at hplace
          subst hplace
          have hrow := Option.some.inj h
          rw [← hrow]
          simp only [Sides.rowAt, PlannedRow.mk.injEq, Sides.nodeVerdict] at hrow
          obtain ⟨-, -, -, -, -, hverdict⟩ := hrow
          split at hverdict
          · cases hverdict
          · next hfree =>
            rw [not_or, Bool.not_eq_true] at hfree
            cases hverdict
            rw [Sides.nodeVerdict, if_neg (by simpa using hfree)]
            exact .node hnew hfree.1 hfree.2
        · rw [newAt_eq sides policy hplace, Option.ite_none_left_eq_some] at h
          obtain ⟨hcarried, hjudge⟩ := h
          obtain ⟨verdict, hverdict, hrow⟩ := Option.map_eq_some_iff.mp hjudge
          rw [← hrow]
          simp only [PlannedRow.mk.injEq] at hrow
          obtain ⟨-, -, -, -, -, rfl⟩ := hrow
          exact .child hnew hplace (by simpa using hcarried) hverdict
  · split at h
    · exact absurd h (haside _)
    · split at h
      · exact absurd h (haside _)
      · cases h
  · cases h

theorem planned_of_moving (h : Moving sides policy row conflict ticked arrives) :
    sides.plannedAt policy row.id = some row ∧ row.verdict = .moves conflict ticked arrives := by
  have hnew : ∀ id : RowId, sides.New policy id.lineage →
      sides.plannedAt policy id = sides.newAt policy id := fun id hnew => by
    obtain ⟨tag, htag⟩ := Option.isSome_iff_exists.mp hnew.from_
    simp only [Sides.plannedAt, htag, hnew.into, hnew.live, hnew.base, Bool.false_eq_true, if_false]
  cases h with
  | @shared id _ _ _ hfrom hinto hnode hdata hverdict =>
    refine ⟨?_, rfl⟩
    obtain ⟨from_, hfrom⟩ := Option.isSome_iff_exists.mp hfrom
    obtain ⟨into, hinto⟩ := Option.isSome_iff_exists.mp hinto
    simp only [Sides.rowAt, Sides.plannedAt, hfrom, hinto]
    rw [sharedAt_eq sides policy from_ into hnode hdata, hverdict]
    rfl
  | @node lineage h hmark hbars =>
    refine ⟨(hnew (RowId.node lineage) h).trans ?_, rfl⟩
    have hverdict : sides.nodeVerdict policy lineage =
        .moves false (policy.ticks (RowId.node lineage)) .asIs := if_neg (by simp [hmark, hbars])
    rw [← hverdict]
    rfl
  | @child id _ _ _ h hnode hcarried hverdict =>
    refine ⟨(hnew id h).trans ?_, rfl⟩
    rw [newAt_eq sides policy hnode, hcarried, hverdict]
    rfl

theorem moving_iff (h : sides.Distinct) :
    row ∈ (plan sides policy).rows ∧ row.verdict = .moves conflict ticked arrives ↔
      Moving sides policy row conflict ticked arrives := by
  rw [mem_plan_rows h]
  exact ⟨fun ⟨hrow, hv⟩ => moving_of_planned hrow hv, planned_of_moving⟩

theorem owned_of_verdict {base from_ into : Cell}
    (h : policy.verdict id base from_ into = some (.moves conflict ticked arrives)) :
    owned id.place = none := by
  unfold Policy.verdict at h
  split at h
  · split at h <;> cases h
  · next hown => exact hown

/-- A row that moves holds a setting no Environment owns, or a sizing a copy starts with. -/
theorem Moving.place (h : Moving sides policy row conflict ticked arrives) :
    row.id.place ≠ .data ∧ row.id.place ≠ .setting .branch ∧
      row.id.place ≠ .setting .managedHostnames ∧ row.id.place ≠ .setting .routes := by
  cases h with
  | shared _ _ _ hdata hverdict =>
    have hown := owned_of_verdict hverdict
    refine ⟨hdata, ?_, ?_, ?_⟩ <;> intro hp <;> simp only [Sides.rowAt] at hp <;>
      simp [hp, owned] at hown
  | node => simp [Sides.rowAt, RowId.node]
  | @child id _ _ _ _ _ hcarried hverdict =>
    refine ⟨fun hp => ?_, ?_, ?_, ?_⟩
    · have hcell : sides.fromView.cell id = .cell .absent := view_cell_of_node _ (.inr hp)
      simp [hcell, SealedCell.toRedacted, Policy.judge_same] at hverdict
    all_goals intro hp; simp only at hp; simp [hp, At.carried, Setting.carried] at hcarried

end Ployz
