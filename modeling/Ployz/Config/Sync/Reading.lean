import Ployz.Config.Sync.Row
import Ployz.Lib.Keyed
import Ployz.Lib.Table

/-!
# Reading a document by row

`Cells.of` builds a table of every row a document holds. In a document whose identities
are distinct, reading that table at a row is a lookup of the row's node and then of its
place there, `Cells.at_of`; everything proved about rows rests on that lookup, `cellAt`,
and not on the table.
-/

namespace Ployz

open Keyed Table

/-- A document whose identities are distinct where rows are looked up. -/
structure Sound (env : SavedEnvironmentIntent) : Prop where
  services : (env.services.map (·.lineageId)).Nodup
  volumes : (env.volumes.map (·.resourceLineageId)).Nodup
  volumeIds : (env.volumes.map (·.resourceId)).Nodup
  keys : ∀ s ∈ env.services, (s.vars.map (·.key)).Nodup
  attachments : ∀ s ∈ env.services, (s.volumeAttachments.map (·.volumeResourceId)).Nodup

variable {env : SavedEnvironmentIntent} {lineage suffix : String} {row : RowId}

theorem Admits.sound (h : Admits env) : Sound env :=
  ⟨h.serviceLineages.nodup, h.volumeLineages.nodup, h.volumeIds.nodup,
    fun s hs => (h.services s hs).keys.nodup, fun s hs => (h.services s hs).attachments.nodup⟩

/-! ## Nodes -/

/-- The node of `lineage`: its Volume, else its Service. -/
def nodeAt (env : SavedEnvironmentIntent) (lineage : String) : Option NodeRef :=
  match volume env lineage with
  | some v => some (.volume v)
  | none => (service env lineage).map .service

theorem nodes_getElem? (h : Sound env) (lineage : String) :
    (nodes env)[lineage]? = nodeAt env lineage := by
  rw [nodes, getElem?_ofList, List.reverse_append, List.find?_append, ← List.map_reverse,
    ← List.map_reverse, List.find?_map, List.find?_map]
  simp only [Function.comp_def, find_reverse h.volumes, find_reverse h.services]
  rw [nodeAt, volume, service]
  cases env.volumes.find? (·.resourceLineageId == lineage) with
  | some v => rfl
  | none => simp [Option.map_map, Function.comp_def]

theorem nodes_contains (h : Sound env) (lineage : String) :
    (nodes env).contains lineage = (nodeAt env lineage).isSome := by
  rw [Std.TreeMap.contains_eq_isSome_getElem?, nodes_getElem? h]

/-! ## Places -/

def Cell.present (cell : Cell) : Option Cell := if cell = .absent then none else some cell

variable {cell : Cell}

@[simp] theorem Cell.present_eq_some {c : Cell} :
    cell.present = some c ↔ c = cell ∧ cell ≠ .absent := by
  by_cases h : cell = .absent <;> simp [Cell.present, h, eq_comm]

@[simp] theorem Cell.present_getD (cell : Cell) : cell.present.getD .absent = cell := by
  by_cases h : cell = .absent <;> simp [Cell.present, h]

def settingCell (config : AuthoredServiceConfig) (suffix : String) (setting : Setting) : Cell :=
  if isUnset setting (settingValue config suffix setting) then .absent
  else .value (settingValue config suffix setting)

def attachmentCell : Option VolumeAttachment → Cell
  | some attachment => .value (.string attachment.mountPath)
  | none => .absent

/-- Where `s` mounts the Volume of `lineage`. -/
def mountCell (env : SavedEnvironmentIntent) (s : SavedServiceIntent) (lineage : String) : Cell :=
  match volume env lineage with
  | none => .absent
  | some v => attachmentCell (s.volumeAttachments.find? (·.volumeResourceId == v.resourceId))

theorem mountCell_of_none (hv : volume env lineage = none) (s : SavedServiceIntent) :
    mountCell env s lineage = .absent := by
  simp [mountCell, hv]

theorem mountCell_of_some {v : SavedVolumeIntent} (hv : volume env lineage = some v)
    (s : SavedServiceIntent) : mountCell env s lineage =
      attachmentCell (s.volumeAttachments.find? (·.volumeResourceId == v.resourceId)) := by
  simp [mountCell, hv]

def varCell (s : SavedServiceIntent) (key : String) : Cell :=
  match s.vars.find? (·.key == key) with
  | some v => variableCell v
  | none => .absent

def placeCell (env : SavedEnvironmentIntent) (suffix : String) : NodeRef → At → Cell
  | .volume v, .name => .value (.string v.name)
  | .volume v, .storage => .value (.storage v.storage)
  | .service s, .setting setting => settingCell s.config suffix setting
  | .service s, .mount lineage => mountCell env s lineage
  | .service s, .var key => varCell s key
  | _, _ => .absent

theorem variableCell_ne_absent (v : SavedVariableIntent) : variableCell v ≠ .absent := by
  unfold variableCell
  split <;> simp

theorem mem_serviceEntries (h : Sound env) {s : SavedServiceIntent} (hs : s ∈ env.services)
    {place : At} :
    (place, cell) ∈ serviceEntries env s suffix ↔
      cell = placeCell env suffix (.service s) place ∧ cell ≠ .absent := by
  simp only [serviceEntries, List.mem_append, List.mem_filterMap, List.mem_map,
    Option.map_eq_some_iff, Prod.mk.injEq]
  cases place with
  | node | data | name | storage => simp [placeCell]
  | setting setting =>
    simp only [reduceCtorEq, false_and, and_false, exists_false, or_false,
      Option.ite_none_left_eq_some, Option.some.injEq, Prod.mk.injEq, At.setting.injEq, placeCell,
        settingCell]
    constructor
    · rintro ⟨_, -, hset, rfl, rfl⟩
      simp [hset]
    · rintro ⟨rfl, hne⟩
      refine ⟨setting, Setting.mem_all setting, ?_⟩
      split at hne
      · exact absurd rfl hne
      · next hset => simp [hset]
  | mount lineage =>
    simp only [reduceCtorEq, false_and, and_false, exists_false, or_false, false_or,
      Option.ite_none_left_eq_some, Option.some.injEq, Prod.mk.injEq, At.mount.injEq, placeCell,
      find_eq_some_iff h.volumeIds]
    constructor
    · rintro ⟨attachment, ha, v, ⟨hv, hid⟩, rfl, rfl⟩
      have hvol : volume env v.resourceLineageId = some v :=
        (find_eq_some_iff h.volumes).mpr ⟨hv, rfl⟩
      have hfind := (find_eq_some_iff (h.attachments s hs)).mpr ⟨ha, hid.symm⟩
      simp [mountCell_of_some hvol, hfind, attachmentCell]
    · rintro ⟨rfl, hne⟩
      cases hvol : volume env lineage with
      | none => exact absurd (mountCell_of_none hvol s) hne
      | some v =>
        rw [mountCell_of_some hvol] at hne ⊢
        cases hfind : s.volumeAttachments.find? (·.volumeResourceId == v.resourceId) with
        | none => simp [hfind, attachmentCell] at hne
        | some attachment =>
          obtain ⟨hv, hl⟩ := (find_eq_some_iff h.volumes).mp hvol
          obtain ⟨ha, hid⟩ := (find_eq_some_iff (h.attachments s hs)).mp hfind
          exact ⟨attachment, ha, v, ⟨hv, hid.symm⟩, hl, rfl⟩
  | var key =>
    simp only [reduceCtorEq, false_and, and_false, exists_false, or_false, false_or,
      Option.ite_none_left_eq_some, Option.some.injEq, Prod.mk.injEq, At.var.injEq, placeCell]
    constructor
    · rintro ⟨v, hv, rfl, rfl⟩
      have hfind := (find_eq_some_iff (h.keys s hs)).mpr ⟨hv, rfl⟩
      simp [varCell, hfind, variableCell_ne_absent]
    · rintro ⟨rfl, hne⟩
      unfold varCell at hne ⊢
      split at hne <;> try contradiction
      next v hfind =>
      obtain ⟨hv, hk⟩ := (find_eq_some_iff (h.keys s hs)).mp hfind
      exact ⟨v, hv, hk, rfl⟩

theorem nodup_serviceEntries (h : Sound env) {s : SavedServiceIntent} (hs : s ∈ env.services)
    (suffix : String) : ((serviceEntries env s suffix).map (·.1)).Nodup := by
  simp only [serviceEntries, List.map_append, List.map_filterMap, List.map_map]
  refine List.nodup_append.mpr ⟨List.nodup_append.mpr ⟨?_, ?_, ?_⟩, ?_, ?_⟩
  · refine Setting.nodup_all.filterMap fun a b place ha hb => ?_
    simp only [Option.mem_def, Option.map_eq_some_iff, Option.ite_none_left_eq_some,
      Option.some.injEq] at ha hb
    obtain ⟨_, ⟨-, rfl⟩, rfl⟩ := ha
    obtain ⟨_, ⟨-, rfl⟩, hb⟩ := hb
    exact (At.setting.inj hb).symm
  · -- Two attachments at one place mount one Volume, by one id.
    rw [List.Nodup, List.pairwise_filterMap]
    have hids := h.attachments s hs
    rw [List.Nodup, List.pairwise_map] at hids
    refine hids.imp fun {a b} hne place ha place' hb heq => hne ?_
    simp only [Option.map_eq_some_iff, find_eq_some_iff h.volumeIds] at ha hb
    obtain ⟨_, ⟨v, ⟨hv, hva⟩, rfl⟩, rfl⟩ := ha
    obtain ⟨_, ⟨w, ⟨hw, hwb⟩, rfl⟩, rfl⟩ := hb
    have hvw : v = w := List.inj_on_of_nodup_map h.volumes hv hw (At.mount.inj heq)
    rw [← hva, ← hwb, hvw]
  · simp only [List.mem_filterMap, Option.map_eq_some_iff]
    rintro a ⟨st, -, x, hx, rfl⟩ b ⟨att, -, y, ⟨v, -, rfl⟩, rfl⟩
    split at hx <;> grind
  · rw [List.Nodup, List.pairwise_map]
    have hkeys := h.keys s hs
    rw [List.Nodup, List.pairwise_map] at hkeys
    exact hkeys.imp fun hne heq => hne (At.var.inj heq)
  · simp only [List.mem_append, List.mem_filterMap, Option.map_eq_some_iff, List.mem_map,
      Function.comp_apply]
    rintro a (⟨st, -, x, hx, rfl⟩ | ⟨att, -, y, ⟨v, -, rfl⟩, rfl⟩) b ⟨w, -, rfl⟩
    · split at hx <;> grind
    · simp

def NodeRef.In (env : SavedEnvironmentIntent) : NodeRef → Prop
  | .service s => s ∈ env.services
  | .volume v => v ∈ env.volumes

variable {node : NodeRef}

theorem nodeAt_in (h : nodeAt env lineage = some node) : node.In env := by
  unfold nodeAt at h
  split at h
  · next v hv =>
    cases h
    exact List.mem_of_find?_eq_some hv
  · obtain ⟨s, hs, rfl⟩ := Option.map_eq_some_iff.mp h
    exact List.mem_of_find?_eq_some hs

theorem cells_getElem? (h : Sound env) (hn : node.In env) (suffix : String) (place : At) :
    (cells env node suffix)[place]? = (placeCell env suffix node place).present := by
  ext cell
  rw [Cell.present_eq_some]
  cases node with
  | service s =>
    rw [cells, getElem?_ofList_eq_some (nodup_serviceEntries h hn suffix), mem_serviceEntries h hn]
    grind
  | volume v =>
    rw [cells, getElem?_ofList_eq_some (by simp)]
    cases place <;> simp [placeCell, eq_comm]

/-- What a node holds as a new node: its name and what it needs. -/
def nodeCellAt (env : SavedEnvironmentIntent) (suffix : String) (node : NodeRef) : Cell :=
  nodeCell node (cells env node suffix)

/-- What `env`, whose generated addresses end in `suffix`, holds at a row. -/
def cellAt (env : SavedEnvironmentIntent) (suffix : String) (row : RowId) : Cell :=
  match nodeAt env row.lineage with
  | none => .absent
  | some node => match row.place with
    | .node | .data => nodeCellAt env suffix node
    | place => placeCell env suffix node place

theorem placeCell_node (env : SavedEnvironmentIntent) (suffix : String) (node : NodeRef) :
    placeCell env suffix node .node = .absent ∧ placeCell env suffix node .data = .absent := by
  cases node <;> simp [placeCell]

theorem nodeCellAt_ne_absent (env : SavedEnvironmentIntent) (suffix : String) (node : NodeRef) :
    nodeCellAt env suffix node ≠ .absent := by
  simp [nodeCellAt, nodeCell, nodeCellOf]

/-- The rows of one node, as `Cells.of` inserts them. -/
def nodeEntries (env : SavedEnvironmentIntent) (suffix lineage : String) (node : NodeRef) :
    List (RowId × Cell) :=
  (RowId.node lineage, nodeCell node (cells env node suffix)) ::
    (cells env node suffix).toList.map fun (place, cell) => (⟨lineage, place⟩, cell)

theorem mem_nodeEntries (h : Sound env) (hn : node.In env) :
    (row, cell) ∈ nodeEntries env suffix lineage node ↔ row.lineage = lineage ∧
      ((row.place = .node ∧ cell = nodeCellAt env suffix node) ∨
        (cell = placeCell env suffix node row.place ∧ cell ≠ .absent)) := by
  obtain ⟨l, place⟩ := row
  simp only [nodeEntries, RowId.node, List.mem_cons, Prod.mk.injEq, RowId.mk.injEq, List.mem_map,
    Prod.exists, Std.TreeMap.mem_toList_iff_getElem?_eq_some, cells_getElem? h hn,
    Cell.present_eq_some, nodeCellAt]
  grind

theorem lineage_of_mem_nodeEntries (h : row ∈ (nodeEntries env suffix lineage node).map (·.1)) :
    row.lineage = lineage := by
  simp only [nodeEntries, List.map_cons, List.map_map, List.mem_cons, List.mem_map] at h
  rcases h with rfl | ⟨_, _, rfl⟩ <;> rfl

theorem nodup_nodeEntries (h : Sound env) (hn : node.In env) (suffix lineage : String) :
    ((nodeEntries env suffix lineage node).map (·.1)).Nodup := by
  have hkeys := Std.TreeMap.distinct_keys_toList (t := cells env node suffix)
  simp only [nodeEntries, List.map_cons, List.map_map, List.nodup_cons, List.mem_map,
    Function.comp_apply, Prod.exists, Std.TreeMap.mem_toList_iff_getElem?_eq_some,
    cells_getElem? h hn, Cell.present_eq_some, RowId.node, RowId.mk.injEq, true_and]
  constructor
  · rintro ⟨_, cell, ⟨rfl, hne⟩, rfl⟩
    exact hne (placeCell_node env suffix node).1
  · rw [List.Nodup, List.pairwise_map]
    exact hkeys.imp fun hne heq => hne (Std.LawfulEqCmp.compare_eq_iff_eq.mpr (RowId.mk.inj heq).2)

/-- Every row a document holds, as `Cells.of` lists them. -/
theorem rows_getElem? (h : Sound env) :
    (Cells.of env suffix).rows[row]? = some cell ↔ row.place ≠ .data ∧
      cell = cellAt env suffix row ∧ cell ≠ .absent := by
  have hin : ∀ p ∈ (nodes env).toList, nodeAt env p.1 = some p.2 := fun p hp => by
    rw [← nodes_getElem? h, ← Std.TreeMap.mem_toList_iff_getElem?_eq_some]
    exact hp
  have hnodup : (((nodes env).toList.flatMap fun p => nodeEntries env suffix p.1 p.2).map
      (·.1)).Nodup := by
    rw [List.map_flatMap, List.nodup_flatMap]
    refine ⟨fun p hp => nodup_nodeEntries h (nodeAt_in (hin p hp)) suffix p.1, ?_⟩
    have hkeys := Std.TreeMap.distinct_keys_toList (t := nodes env)
    refine hkeys.imp fun {p q} hne row hp hq => hne ?_
    rw [Std.LawfulEqCmp.compare_eq_iff_eq, ← lineage_of_mem_nodeEntries hp,
      lineage_of_mem_nodeEntries hq]
  have hrows : (Cells.of env suffix).rows =
      .ofList ((nodes env).toList.flatMap fun p => nodeEntries env suffix p.1 p.2) := rfl
  rw [hrows, getElem?_ofList_eq_some hnodup, List.mem_flatMap]
  obtain ⟨l, place⟩ := row
  constructor
  · rintro ⟨⟨lineage, node⟩, hmem, hrow⟩
    have hnode := hin _ hmem
    obtain ⟨rfl, hcell⟩ := (mem_nodeEntries h (nodeAt_in hnode)).mp hrow
    have hplace := placeCell_node env suffix node
    have hne := nodeCellAt_ne_absent env suffix node
    rcases hcell with ⟨rfl, rfl⟩ | ⟨rfl, hcell⟩
    · simp [cellAt, hnode, hne]
    · cases place <;> simp_all [cellAt]
  · rintro ⟨hdata, rfl, hne⟩
    cases hnode : nodeAt env l with
    | none => simp [cellAt, hnode] at hne
    | some node =>
      refine ⟨(l, node), ?_, (mem_nodeEntries h (nodeAt_in hnode)).mpr ⟨rfl, ?_⟩⟩
      · rw [Std.TreeMap.mem_toList_iff_getElem?_eq_some, nodes_getElem? h, hnode]
      · cases place <;> simp_all [cellAt]

theorem Cells.at_of (h : Sound env) (suffix : String) (row : RowId) :
    (Cells.of env suffix).at_ row = cellAt env suffix row := by
  have hget : ∀ r : RowId, r.place ≠ .data →
      (Cells.of env suffix).rows[r]? = (cellAt env suffix r).present := fun r hr => by
    ext cell
    rw [rows_getElem? h, Cell.present_eq_some]
    grind
  by_cases hdata : row.place = .data
  · have hnode : cellAt env suffix row = cellAt env suffix (RowId.node row.lineage) := by
      simp [cellAt, RowId.node, hdata]
    simp only [Cells.at_, hdata, hget (RowId.node row.lineage) (by simp [RowId.node]), hnode,
      Cell.present_getD]
  · have hat : (Cells.of env suffix).at_ row = (Cells.of env suffix).rows[row]?.getD .absent := by
      unfold Cells.at_
      split
      · contradiction
      · rfl
    rw [hat, hget row hdata, Cell.present_getD]

theorem RowId.lineage_le {a b : RowId} (h : a ≤ b) : a.lineage ≤ b.lineage := by
  have h' : a.key ≤ b.key := h
  rcases Prod.Lex.le_iff.mp h' with hlt | ⟨heq, -⟩
  · exact hlt.le
  · exact heq.le

theorem At.node_le (place : At) : At.node ≤ place := by
  change At.node.key ≤ place.key
  cases place <;> simp [At.key, Prod.Lex.le_iff]

theorem RowId.node_le (row : RowId) : RowId.node row.lineage ≤ row := by
  change (RowId.node row.lineage).key ≤ row.key
  exact Prod.Lex.le_iff.mpr (.inr ⟨rfl, At.node_le row.place⟩)

theorem Cells.mem_places (h : Sound env) :
    (row, cell) ∈ (Cells.of env suffix).places lineage ↔ row.lineage = lineage ∧
      row.place ≠ .node ∧ row.place ≠ .data ∧ cell = cellAt env suffix row ∧ cell ≠ .absent := by
  have hord : ((Cells.of env suffix).rows.toList).Pairwise fun a b => a.1 < b.1 :=
    Std.TreeMap.ordered_keys_toList.imp fun h => compare_lt_iff_lt.mp h
  rw [Cells.places, dropWhile_lt_eq_filter Prod.fst hord,
    takeWhile_eq_filter Prod.fst (hord.filter _), List.filter_filter, List.filter_filter]
  · simp only [List.mem_filter, Std.TreeMap.mem_toList_iff_getElem?_eq_some, rows_getElem? h,
      Bool.and_eq_true, bne_iff_ne, beq_iff_eq, decide_eq_true_eq]
    constructor
    · rintro ⟨⟨hdata, rfl, hne⟩, ⟨hnode, rfl⟩, -⟩
      exact ⟨rfl, hnode, hdata, rfl, hne⟩
    · rintro ⟨rfl, hnode, hdata, rfl, hne⟩
      exact ⟨⟨hdata, rfl, hne⟩, ⟨hnode, rfl⟩, RowId.node_le row⟩
  · -- From the node's row on, a row before one of the lineage is of the lineage.
    rintro ⟨x, _⟩ hx ⟨y, _⟩ - hxy hy
    simp only [List.mem_filter, decide_eq_true_eq, beq_iff_eq] at hx hy ⊢
    exact le_antisymm (hy ▸ RowId.lineage_le hxy.le) (RowId.lineage_le hx.2)

end Ployz
