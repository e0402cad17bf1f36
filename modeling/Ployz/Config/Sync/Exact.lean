import Ployz.Config.Sync.Normal

/-!
# A landing changes exactly what was picked

What the receiver's view reads after a landing, row by row: a picked row reads what
landed, a new node what it carries and its picked rows, and every other row what it read
before, but for a node's own summary and the git branch of a Service whose source landed.
`apply_lands_exactly` says the same of the documents.

Planning again offers no landed row (`landed_rows_settle`), and a Sync carries no secret over
(`sync_moves_no_secret`).
-/

namespace Ployz

open Run

/-! ## What a landing's view reads -/

/-- A row reads without a git branch of its own. -/
theorem settled_view (env : SavedEnvironmentIntent) (suffix : String) (row : RowId) :
    View.settled ((view env suffix).cell row) = (view env suffix).cell row := by
  obtain ⟨lineage, place⟩ := row
  cases hn : nodeAt env lineage with
  | none => rw [view_cell_of_none suffix hn]; rfl
  | some node =>
    rw [view_cell suffix hn]
    cases node with
    | volume v => cases place <;> rfl
    | service s =>
      cases place with
      | var key =>
        simp only [placeSealed, varSealed]
        split
        · exact settled_variableSealed _
        · rfl
      | mount l =>
        simp only [placeSealed, placeCell, mountCell]
        split
        · rfl
        · next v _ =>
          cases s.volumeAttachments.find? (·.volumeResourceId == v.resourceId) <;> rfl
      | setting setting =>
        simp only [placeSealed, placeCell, settingCell]
        split
        · rfl
        · by_cases hs : setting = .source
          · subst hs
            simp only [settingValue]
            cases s.config.source <;> rfl
          · exact settled_value fun c => settingValue_ne_source s.config suffix hs c
      | _ => rfl

variable {sides : Sides} {policy : Policy} {draws : Draws} {picks : Std.TreeSet RowId}
  {values : Std.TreeMap RowId SealedSecret} {applied : Applied}

theorem settled_landing (sides : Sides) (values : Std.TreeMap RowId SealedSecret) (id : RowId)
    (arrives : Arrives) :
    View.settled (sides.landing values id arrives) = sides.landing values id arrives := by
  cases arrives with
  | asIs =>
    simp only [Sides.landing, View.sealed]
    split
    · simp only [View.nodeCell]
      split <;> rfl
    · simp only [View.nodeCell]
      split <;> rfl
    · exact settled_view ..
  | needsValue =>
    simp only [Sides.landing]
    split <;> rfl

variable {id : RowId}

namespace Landing

variable {lineage : String}

/-- A new node needs none of its picked rows. -/
theorem not_picked_of_needed (run : Landing sides policy draws picks values applied)
    (hnode : RowId.node lineage ∈ picks) (place : At) (hneeded : place.needed = true) :
    ⟨lineage, place⟩ ∉ picks := by
  intro hpick
  have hplace : place ≠ .node := by
    rintro rfl
    cases hneeded
  obtain ⟨p, hp, hid⟩ := List.mem_map.mp (run.mem_writes_ids.mpr ⟨hpick, hplace⟩)
  obtain ⟨q, hq, rfl⟩ := List.mem_map.mp hp
  obtain ⟨n, hn, hlineage⟩ := List.mem_map.mp (run.mem_lineages.mpr hnode)
  have hinto := (run.new_of_node hn).into
  obtain ⟨row, arrives⟩ := q
  obtain ⟨conflict, ticked, hmoving⟩ := (run.lands _ (List.mem_append_right _ hq)).moving
  simp only at hid hmoving
  rw [hlineage] at hinto
  cases hmoving with
  | shared _ hshared =>
    simp only [Sides.rowAt] at hid
    simp [hid, hinto] at hshared
  | node =>
    simp only [Sides.rowAt] at hid
    cases hid
    exact hplace rfl
  | child _ _ hcarried =>
    simp only at hid
    subst hid
    simp [At.needed, hcarried] at hneeded

theorem landedView_tag (run : Landing sides policy draws picks values applied) (l : String) :
    run.landedView.tag l =
      if RowId.node l ∈ picks then sides.fromView.tag l else sides.intoView.tag l := by
  rw [landedView, View.writeAll_tag, View.arriveAll]
  simp only [run.mem_lineages]

theorem landedView_written (run : Landing sides policy draws picks values applied)
    {p : PlannedRow × Arrives} (hp : p ∈ run.rows) :
    run.landedView.cell p.1.id = sides.landing values p.1.id p.2 := by
  have hpick : p.1.id ∈ picks := (run.lands p (List.mem_append_right _ hp)).picked
  rw [landedView, View.writeAll_cell_of_mem _ run.nodup_writes (run.mem_writes hp)
    (run.place_of_picked hpick).2.1, settled_landing]

/-- A row that isn't picked is as it was, or as its new node carries it. -/
theorem landedView_unpicked (run : Landing sides policy draws picks values applied)
    (hid : id ∉ picks) (hb : id.place = .setting .branch → ⟨id.lineage, .setting .source⟩ ∉ picks) :
    run.landedView.cell id = if RowId.node id.lineage ∈ picks then
      sides.fromView.carried id.lineage id.place else sides.intoView.cell id := by
  rw [landedView, View.writeAll_cell_of_not_mem, View.arriveAll]
  · simp only [run.mem_lineages]
  · exact fun h => hid (run.mem_writes_ids.mp h).1
  · exact fun hp h => hb hp (run.mem_writes_ids.mp h).1

/-- A new node reads as the sender's. -/
theorem landedView_node (run : Landing sides policy draws picks values applied)
    (hnode : RowId.node lineage ∈ picks) :
    run.landedView.nodeCell lineage = sides.fromView.nodeCell lineage := by
  have hneeded : run.landedView.neededValue lineage = sides.fromView.neededValue lineage := by
    funext place
    cases hp : place.needed with
    | false => simp [View.neededValue, hp]
    | true =>
      have hcell := run.landedView_unpicked (run.not_picked_of_needed hnode place hp) fun _ =>
        run.not_picked_of_needed hnode (.setting .source) rfl
      simp only [hnode, if_true, View.carried, hp] at hcell
      simp only [View.neededValue, hp, hcell]
  rw [View.nodeCell, View.nodeCell, run.landedView_tag, if_pos hnode, hneeded]

theorem new_of_picked (run : Landing sides policy draws picks values applied)
    (hnode : RowId.node lineage ∈ picks) : sides.New policy lineage := by
  obtain ⟨p, hp, rfl⟩ := List.mem_map.mp (run.mem_lineages.mpr hnode)
  exact run.new_of_node hp

/-- Each picked row reads what landed. -/
theorem landedView_picked (run : Landing sides policy draws picks values applied)
    {p : PlannedRow × Arrives} (hp : p ∈ run.nodes ++ run.rows) :
    run.landedView.at_ p.1.id = (sides.landing values p.1.id p.2).toRedacted := by
  rcases List.mem_append.mp hp with hnode | hrow
  · obtain ⟨row, arrives⟩ := p
    obtain ⟨conflict, ticked, hmoving⟩ := (run.lands _ hp).moving
    have hplace : row.id.place = .node := run.place_nodes _ hnode
    have hpick : row.id ∈ picks := (run.lands _ hp).picked
    change Moving sides policy row conflict ticked arrives at hmoving
    cases hmoving with
    | shared _ _ hne | child _ hne => exact absurd hplace hne
    | node => exact run.landedView_node hpick
  · have hpick : p.1.id ∈ picks := (run.lands p hp).picked
    rw [View.at_eq_cell _ (run.place_rows p hrow) (run.place_of_picked hpick).1,
      run.landedView_written hrow]

end Landing

/-! ## What a landing's documents read -/

/-- The sides of a move as callers make them: parsed documents, and a suffix for the
receiver's generated addresses, nothing or `-NAME`, of hostname characters. -/
structure Sides.Valid (sides : Sides) : Prop where
  from_ : parseEnvironmentIntent sides.from_ = .ok sides.from_
  into : parseEnvironmentIntent sides.into = .ok sides.into
  suffix : ∀ c ∈ sides.hostnames.into.toList, isHostChar c = true

namespace Sides.Valid

theorem wellFormed_from (h : sides.Valid) : WellFormed sides.from_ :=
  parseEnvironmentIntent_eq_self_iff.mp h.from_

theorem wellFormed_into (h : sides.Valid) : WellFormed sides.into :=
  parseEnvironmentIntent_eq_self_iff.mp h.into

theorem distinct (h : sides.Valid) : sides.Distinct :=
  ⟨h.wellFormed_from.sound, h.wellFormed_into.sound⟩

end Sides.Valid

/-- A landing changes exactly what was picked. -/
theorem apply_lands_exactly (hvalid : sides.Valid) (hsingle : Single sides.into)
    (h : (plan sides policy).apply draws picks values = .ok applied) :
    (∀ id ∈ picks, ∃ row ∈ (plan sides policy).rows, row.id = id ∧ ∃ conflict ticked arrives,
      row.verdict = .moves conflict ticked arrives ∧ match arrives, values[id]? with
      | .asIs, _ => (Cells.of applied.next sides.hostnames.into).at_ id = sides.fromCells.at_ id
      | .needsValue, some secret =>
        (Cells.of applied.next sides.hostnames.into).at_ id = .secret secret.fingerprint
      | .needsValue, none =>
        (Cells.of applied.next sides.hostnames.into).at_ id = .secretWithoutValue ∧
          id ∈ applied.waiting) ∧
    (∀ id, id ∉ picks → (nodes sides.into).contains id.lineage = true → id.place ≠ .node →
      id.place ≠ .data →
      ¬(id.place = .setting .branch ∧ ⟨id.lineage, .setting .source⟩ ∈ picks) →
      (Cells.of applied.next sides.hostnames.into).at_ id = sides.intoCells.at_ id) ∧
    (∀ lineage, (nodes applied.next).contains lineage = true ↔
      (nodes sides.into).contains lineage = true ∨ RowId.node lineage ∈ picks) ∧
    ∀ id, id ∉ picks → RowId.node id.lineage ∈ picks → id.place ≠ .data →
      (Cells.of applied.next sides.hostnames.into).at_ id =
        if id.place.needed then sides.fromCells.at_ id else .absent := by
  have hd := hvalid.distinct
  obtain ⟨run⟩ := apply_run hd h
  obtain ⟨hsane, hview⟩ := run.next_view hd hvalid.wellFormed_from hvalid.wellFormed_into hsingle
    hvalid.suffix
  have hread : ∀ id, (Cells.of applied.next sides.hostnames.into).at_ id = run.landedView.at_ id :=
    fun id => by rw [Cells.at_view hsane.sound, hview]
  simp only [hread, hd.fromCells_at, hd.intoCells_at,
    nodes_contains_view hsane.sound sides.hostnames.into, hview,
    nodes_contains_view hd.into sides.hostnames.into]
  refine ⟨fun id hid => ?_, fun id hid hinto hnode hdata hb => ?_, fun lineage => ?_,
    fun id hid hnode hdata => ?_⟩
  · obtain ⟨⟨row, arrives⟩, hp, rfl⟩ := (run.mem_picks id).mp hid
    obtain ⟨conflict, ticked, hmoving⟩ := (run.lands _ hp).moving
    obtain ⟨hrow, hverdict⟩ := (moving_iff hd).mpr hmoving
    refine ⟨row, hrow, rfl, conflict, ticked, arrives, hverdict, ?_⟩
    have hcell := run.landedView_picked hp
    cases arrives with
    | asIs => exact hcell.trans (View.toRedacted_sealed ..)
    | needsValue =>
      simp only [Sides.landing] at hcell
      cases hvalue : values[row.id]? with
      | some secret => simpa [hvalue, SealedCell.toRedacted] using hcell
      | none =>
        have hwaits : waits values (row, Arrives.needsValue) = true := decide_eq_true ⟨rfl, hvalue⟩
        refine ⟨by simpa [hvalue, SealedCell.toRedacted] using hcell, ?_⟩
        rw [run.recorded.2]
        exact List.mem_map.mpr ⟨_, List.mem_filter.mpr ⟨hp, hwaits⟩, rfl⟩
  · have hold : RowId.node id.lineage ∉ picks := fun hn => by
      have hnone := (run.new_of_picked hn).into
      rw [Sides.intoView] at hnone
      simp [hnone] at hinto
    rw [View.at_eq_cell _ hnode hdata, View.at_eq_cell _ hnode hdata,
      run.landedView_unpicked hid fun hp hs => hb ⟨hp, hs⟩, if_neg hold]
  · rw [run.landedView_tag]
    split
    · next hn => simp [hn, (run.new_of_picked hn).from_]
    · next hn => simp [hn, Sides.intoView]
  · have hplace : id.place ≠ .node := fun hp => hid (by rwa [RowId.node, ← hp] at hnode)
    rw [View.at_eq_cell _ hplace hdata, View.at_eq_cell _ hplace hdata,
      run.landedView_unpicked hid fun _ => run.not_picked_of_needed hnode (.setting .source) rfl,
      if_pos hnode, View.carried]
    split <;> rfl

/-! ## Planning again, and secrets -/

theorem Policy.moved_of_secret {base from_ into : Cell} (hway : policy.way = .sync)
    (hinto : into.isSecret = true) : policy.moved id base from_ into = none := by
  have hne : into ≠ .absent := by
    rintro rfl
    cases hinto
  simp [Policy.moved, hway, hinto, hne]

/-- Only a Sync lands a row without its value, and what it lands as is is no secret. -/
theorem Policy.arrives_of_moved {base from_ into : Cell} {conflict ticked : Bool}
    {arrives : Arrives}
    (h : policy.moved id base from_ into = some (.moves conflict ticked arrives)) :
    (arrives = .needsValue → policy.way = .sync) ∧
      (policy.way = .sync → arrives = .asIs → from_.isSecret = false) := by
  unfold Policy.moved at h
  split at h
  · cases h
  · obtain ⟨⟨c, a⟩, harrives, h⟩ := Option.map_eq_some_iff.mp h
    simp only at h
    split at h
    · cases h
    · cases h
      cases hway : policy.way <;> grind

/-- How a row that moves is judged. -/
theorem Moving.moved {row : PlannedRow} {conflict ticked : Bool} {arrives : Arrives}
    (h : Moving sides policy row conflict ticked arrives) (hnode : row.id.place ≠ .node) :
    (policy.way = .sync → owned row.id.place = none) ∧
    ∃ base into, policy.moved row.id base (sides.fromView.at_ row.id) into =
        some (.moves conflict ticked arrives) ∧
      ((sides.intoView.tag row.id.lineage).isSome → into = sides.intoView.at_ row.id) := by
  have hplace := h.place
  cases h with
  | @shared id _ _ _ _ _ _ _ hverdict =>
    have hown := owned_of_verdict hverdict
    refine ⟨fun _ => hown, sides.baseCell id, sides.intoView.at_ id, ?_, fun _ => rfl⟩
    rwa [Policy.verdict, hown] at hverdict
  | node => exact absurd rfl hnode
  | @child id _ _ _ hnew _ _ hverdict =>
    rw [View.at_eq_cell _ hnode hplace.1]
    have hinto : (sides.intoView.tag id.lineage).isSome → .absent = sides.intoView.at_ id := by
      simp [hnew.into]
    cases hway : policy.way <;> simp only [Policy.judge, hway] at hverdict
    case copy => exact ⟨by simp, _, _, hverdict, hinto⟩
    all_goals
      have hown := owned_of_verdict hverdict
      rw [Policy.verdict, hown] at hverdict
      exact ⟨fun _ => hown, _, _, hverdict, hinto⟩

namespace Landing

theorem tag_of_picked (run : Landing sides policy draws picks values applied) (hid : id ∈ picks) :
    (sides.fromView.tag id.lineage).isSome ∧ (run.landedView.tag id.lineage).isSome := by
  obtain ⟨p, hp, rfl⟩ := (run.mem_picks id).mp hid
  have hnew : sides.New policy p.1.id.lineage → RowId.node p.1.id.lineage ∈ picks →
      (sides.fromView.tag p.1.id.lineage).isSome ∧
        (run.landedView.tag p.1.id.lineage).isSome := fun hnew hnode => by
    rw [run.landedView_tag, if_pos hnode]
    exact ⟨hnew.from_, hnew.from_⟩
  obtain ⟨row, arrives⟩ := p
  have hlands := run.lands _ hp
  obtain ⟨conflict, ticked, hmoving⟩ := hlands.moving
  change Moving sides policy row conflict ticked arrives at hmoving
  cases hmoving with
  | shared hfrom hinto =>
    rw [run.landedView_tag]
    exact ⟨hfrom, by split <;> assumption⟩
  | node new => exact hnew new hid
  | child new => exact hnew new (hlands.requires _ rfl)

end Landing

/-- What landed is not offered again: whatever the base is afterwards, a plan of the same sender and
policy has no row of a pick. -/
theorem landed_rows_settle (hvalid : sides.Valid) (hsingle : Single sides.into)
    (h : (plan sides policy).apply draws picks values = .ok applied)
    (base : Option SavedEnvironmentIntent) :
    ∀ row ∈ (plan { sides with base, into := applied.next } policy).rows, row.id ∉ picks := by
  have hd := hvalid.distinct
  obtain ⟨run⟩ := apply_run hd h
  obtain ⟨hsane, hview⟩ := run.next_view hd hvalid.wellFormed_from hvalid.wellFormed_into hsingle
    hvalid.suffix
  intro row hrow hid
  let again : Sides := { sides with base, into := applied.next }
  have hagain : again.Distinct := ⟨hd.from_, hsane.sound⟩
  have hplanned := (mem_plan_rows hagain).mp hrow
  have hinto : again.intoView = run.landedView := hview
  have hfrom : again.fromView = sides.fromView := rfl
  obtain ⟨hfromTag, hintoTag⟩ := run.tag_of_picked hid
  obtain ⟨from_, hfromTag⟩ := Option.isSome_iff_exists.mp hfromTag
  obtain ⟨into, hintoTag⟩ := Option.isSome_iff_exists.mp hintoTag
  have hshared : again.sharedAt policy row.id from_ into = some row := by
    simpa only [Sides.plannedAt, hinto, hintoTag, hfrom, hfromTag] using hplanned
  by_cases hnode : row.id.place = .node
  · simp [Sides.sharedAt, hnode] at hshared
  · obtain ⟨p, hp, hpid⟩ := (run.mem_picks row.id).mp hid
    rw [sharedAt_eq again policy from_ into hnode (run.place_of_picked hid).1, hinto, hfrom, ← hpid,
      run.landedView_picked hp] at hshared
    obtain ⟨conflict, ticked, hmoving⟩ := (run.lands p hp).moving
    obtain ⟨hown, _, _, hmoved, -⟩ := hmoving.moved (hpid ▸ hnode)
    -- It reads the sender's cell, or a secret, which a Sync does not touch again.
    cases harrives : p.2 with
    | asIs =>
      rw [harrives, Sides.landing, View.toRedacted_sealed, policy.verdict_same] at hshared
      cases hshared
    | needsValue =>
      have hway := (Policy.arrives_of_moved hmoved).1 harrives
      have hsecret : (sides.landing values p.1.id .needsValue).toRedacted.isSecret = true := by
        simp only [Sides.landing]
        split <;> rfl
      rw [harrives, Policy.verdict, hown hway, Policy.moved_of_secret hway hsecret] at hshared
      cases hshared

theorem var_of_secret {env : SavedEnvironmentIntent} {suffix : String} {secret : SealedSecret}
    (h : (view env suffix).sealed id = .secret secret) : ∃ key, id.place = .var key := by
  obtain ⟨lineage, place⟩ := id
  cases place with
  | var key => exact ⟨key, rfl⟩
  | _ => cases hn : nodeAt env lineage with
    | none => simp [View.sealed, view, hn] at h
    | some node => cases node <;> simp [View.sealed, view, hn, placeSealed] at h

/-- A picked row of a Sync takes no secret of the receiver's, and lands none of the sender's. -/
theorem Landing.secret_of_picked (run : Landing sides policy draws picks values applied)
    (hway : policy.way = .sync) (hid : id ∈ picks) {key : String} (hkey : id.place = .var key)
    (secret : SealedSecret) :
    sides.intoView.cell id ≠ .secret secret ∧
      (run.landedView.cell id = .secret secret → values[id]? = some secret) := by
  obtain ⟨p, hp, rfl⟩ := (run.mem_picks id).mp hid
  have hnode : p.1.id.place ≠ .node := by simp [hkey]
  obtain ⟨conflict, ticked, hmoving⟩ := (run.lands p hp).moving
  obtain ⟨-, base, into, hmoved, hinto⟩ := hmoving.moved hnode
  constructor
  · intro hsecret
    have htag : (sides.intoView.tag p.1.id.lineage).isSome := by
      rw [Option.isSome_iff_ne_none]
      intro hnone
      rw [Sides.intoView, view_cell_of_tag hnone] at hsecret
      cases hsecret
    have hread : sides.intoView.at_ p.1.id = .secret secret.fingerprint := by
      simp [View.at_, hkey, hsecret, SealedCell.toRedacted]
    rw [hinto htag, hread, Policy.moved_of_secret hway rfl] at hmoved
    cases hmoved
  · have hrow : p ∈ run.rows := (List.mem_append.mp hp).resolve_left fun hp =>
      hnode (run.place_nodes p hp)
    rw [run.landedView_written hrow]
    cases harrives : p.2 with
    | asIs =>
      intro hsecret
      change sides.fromView.sealed p.1.id = _ at hsecret
      have hplain := (Policy.arrives_of_moved hmoved).2 hway harrives
      rw [← View.toRedacted_sealed, hsecret] at hplain
      cases hplain
    | needsValue =>
      simp only [Sides.landing]
      split
      · rintro ⟨⟩
        assumption
      · rintro ⟨⟩

/-- A Sync moves no secret: one the receiver holds stays as it is, with its ciphertext, and one that
it holds afterwards it held before at the same row or was given there. -/
theorem sync_moves_no_secret (hvalid : sides.Valid) (hsingle : Single sides.into)
    (hway : policy.way = .sync)
    (h : (plan sides policy).apply draws picks values = .ok applied) (id : RowId)
    (secret : SealedSecret) :
    (sealedCell sides.into sides.intoCells id = .secret secret →
      sealedCell applied.next (.of applied.next sides.hostnames.into) id = .secret secret) ∧
    (sealedCell applied.next (.of applied.next sides.hostnames.into) id = .secret secret →
      sealedCell sides.into sides.intoCells id = .secret secret ∨
        id ∈ picks ∧ values[id]? = some secret) := by
  have hd := hvalid.distinct
  obtain ⟨run⟩ := apply_run hd h
  obtain ⟨hsane, hview⟩ := run.next_view hd hvalid.wellFormed_from hvalid.wellFormed_into hsingle
    hvalid.suffix
  rw [Sides.intoCells, sealedCell_view hd.into, sealedCell_view hsane.sound]
  by_cases hvar : ∃ key, id.place = .var key
  · obtain ⟨key, hkey⟩ := hvar
    have hsealed : ∀ v : View, v.sealed id = v.cell id := fun v => by simp [View.sealed, hkey]
    rw [hsealed, hsealed, hview]
    change (sides.intoView.cell id = _ → _) ∧ (_ → sides.intoView.cell id = _ ∨ _)
    by_cases hid : id ∈ picks
    · obtain ⟨hinto, hlanded⟩ := run.secret_of_picked hway hid hkey secret
      exact ⟨fun hsecret => absurd hsecret hinto, fun hsecret => .inr ⟨hid, hlanded hsecret⟩⟩
    · rw [run.landedView_unpicked hid (by simp [hkey])]
      split
      · next hnode =>
        have hnone : sides.intoView.cell id = .cell .absent :=
          view_cell_of_tag (run.new_of_picked hnode).into
        simp [hnone, View.carried, hkey, At.needed, At.carried]
      · exact ⟨fun hsecret => hsecret, .inl⟩
  · exact ⟨fun hsecret => absurd (var_of_secret hsecret) hvar,
      fun hsecret => absurd (var_of_secret hsecret) hvar⟩

/-! ## Two landings -/

def serviceId : String := "a0000000000000000000000000000000"

def volumeId : String := "b0000000000000000000000000000000"

def freshId : Uuid := ⟨"c0000000000000000000000000000000", by decide +kernel⟩

def web : ServiceName := ⟨"web", Eq.refl true⟩

def webService (command : Option String) : SavedServiceIntent :=
  let service := SavedServiceIntent.unset serviceId serviceId web
  { service with config := { service.config with startCommand := command } }

/-- A start command on its way to the same Service beside `volumes`. -/
def commandSides (command : String) (volumes : List SavedVolumeIntent) : Sides where
  base := none
  from_ := .holding [webService (some command)] []
  into := .holding [webService none] volumes
  hostnames := ⟨"", ""⟩

def commandRow : RowId := ⟨serviceId, .setting .startCommand⟩

theorem command_valid : (commandSides "run" []).Valid :=
  ⟨parsed_of_check (by decide +kernel), parsed_of_check (by decide +kernel), by simp [commandSides]⟩

theorem command_applies : ∃ applied,
    (plan (commandSides "run" []) (.new .sync)).apply ⟨fun _ => freshId, fun _ => freshId⟩
      (.ofList [commandRow]) ∅ = .ok applied := by
  obtain ⟨applied, happly, -⟩ := exists_ok (x := (plan (commandSides "run" []) (.new .sync)).apply
    ⟨fun _ => freshId, fun _ => freshId⟩ (.ofList [commandRow]) ∅) (fun _ => True)
    (by decide +kernel)
  exact ⟨applied, happly⟩

theorem landed_command_settles : ∃ applied,
    (plan (commandSides "run" []) (.new .sync)).apply ⟨fun _ => freshId, fun _ => freshId⟩
      (.ofList [commandRow]) ∅ = .ok applied ∧
    ∀ row ∈ (plan { commandSides "run" [] with into := applied.next } (.new .sync)).rows,
      row.id ∉ Std.TreeSet.ofList [commandRow] compare := by
  obtain ⟨applied, happly⟩ := command_applies
  exact ⟨applied, happly, landed_rows_settle command_valid (fun _ => .inl rfl) happly none⟩

theorem landed_command_moves_no_secret : ∃ applied,
    (plan (commandSides "run" []) (.new .sync)).apply ⟨fun _ => freshId, fun _ => freshId⟩
      (.ofList [commandRow]) ∅ = .ok applied ∧
    ∀ id secret, sealedCell applied.next (.of applied.next "") id = .secret secret →
      sealedCell (commandSides "run" []).into (commandSides "run" []).intoCells id =
        .secret secret := by
  obtain ⟨applied, happly⟩ := command_applies
  refine ⟨applied, happly, fun id secret hsecret => ?_⟩
  exact ((sync_moves_no_secret command_valid (fun _ => .inl rfl) rfl happly id secret).2
    hsecret).resolve_right (by simp)

theorem shadowed_valid : (commandSides "run" [.docker volumeId serviceId "data"]).Valid :=
  ⟨parsed_of_check (by decide +kernel), parsed_of_check (by decide +kernel), by simp [commandSides]⟩

theorem apply_lands_exactly_command : ∃ applied,
    (plan (commandSides "run" []) (.new .sync)).apply ⟨fun _ => freshId, fun _ => freshId⟩
      (.ofList [commandRow]) ∅ = .ok applied ∧
    ∀ lineage, (nodes applied.next).contains lineage = true ↔
      (nodes (commandSides "run" []).into).contains lineage = true ∨
        RowId.node lineage ∈ Std.TreeSet.ofList [commandRow] compare := by
  obtain ⟨applied, happly⟩ := command_applies
  exact ⟨applied, happly, (apply_lands_exactly command_valid (fun _ => .inl rfl) happly).2.2.1⟩

/-- Where the receiver has a Volume under a Service's lineage, the Volume's rows show and
what lands in the Service doesn't. -/
theorem shadowed_command_not_read :
    (commandSides "run" [.docker volumeId serviceId "data"]).Valid ∧ ∃ applied,
      (plan (commandSides "run" [.docker volumeId serviceId "data"]) (.new .sync)).apply
        ⟨fun _ => freshId, fun _ => freshId⟩ (.ofList [commandRow]) ∅ = .ok applied ∧
      (∃ row ∈ (plan (commandSides "run" [.docker volumeId serviceId "data"]) (.new .sync)).rows,
        row.id = commandRow ∧ row.verdict = .moves false true .asIs) ∧
      (Cells.of applied.next "").at_ commandRow ≠
        (commandSides "run" [.docker volumeId serviceId "data"]).fromCells.at_ commandRow := by
  refine ⟨shadowed_valid, ?_⟩
  obtain ⟨applied, happly, hread⟩ := exists_ok
    (x := (plan (commandSides "run" [.docker volumeId serviceId "data"]) (.new .sync)).apply
      ⟨fun _ => freshId, fun _ => freshId⟩ (.ofList [commandRow]) ∅)
    (fun applied => (Cells.of applied.next "").at_ commandRow ≠
      (commandSides "run" [.docker volumeId serviceId "data"]).fromCells.at_ commandRow)
    (by decide +kernel)
  exact ⟨applied, happly, by decide +kernel, hread⟩

end Ployz
